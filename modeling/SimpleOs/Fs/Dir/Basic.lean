import SimpleOs.Base.Loop
import SimpleOs.Fs.File.Basic

/-!
# Directories on disk

`fs/dir.c`: the lookup, the insertion and the deletion of a directory entry. A `struct dir_entry`
is 24 bytes, a name of 16 bytes, the inode number and the type, and a sector holds 21 of them. The
three functions each build the list `all_blocks` of the directory's blocks; the insertion is the
one that leaves the indirect table out.
-/

namespace SimpleOs

open Base

/-- `enum file_types`. -/
inductive FileType where
  | unknown
  | regular
  | directory
deriving DecidableEq, Repr

/-- The value of an enumerator as it stands in a directory entry. -/
def FileType.code : FileType → UInt32
  | .unknown => 0
  | .regular => 1
  | .directory => 2

/-- `!strcmp(filename, name)` for the string at address `a`. -/
def sameName (s : Bytes) (a : Nat) : List UInt8 → Bool
  | [] => s a = 0
  | c :: cs => s a = c && sameName s (a + 1) cs

variable (buf : Bytes)

/-- The field `i_no` of entry `idx` of a sector. -/
def entryINo (idx : Nat) : UInt32 := buf.u32 (24 * idx + 16)

/-- The field `f_type` of entry `idx` of a sector. -/
def entryFType (idx : Nat) : UInt32 := buf.u32 (24 * idx + 20)

/-- `create_dir_entry`. -/
def createDirEntry (filename : List UInt8) (inodeNo : UInt32) (fileType : FileType) (pDe : Bytes) :
    Bytes :=
  ((pDe.copy 0 (Bytes.ofList filename) 0 filename.length).setU32 16 inodeNo).setU32 20 fileType.code

/-- `all_blocks` with the indirect table read in when there is one. -/
def loadBlocks (disk : Bytes) (ino : Inode) (k : Nat) : UInt32 :=
  if k < 12 then ino.iSectors k
  else if ino.iSectors 12 ≠ 0 ∧ k < 140 then
    disk.u32 (512 * (ino.iSectors 12).toNat + 4 * (k - 12))
  else 0

/-- `all_blocks` of an insertion: the direct blocks only. -/
def directBlocks (ino : Inode) (k : Nat) : UInt32 := if k < 12 then ino.iSectors k else 0

variable {p : Partition}

/-! ### `search_dir_entry` -/

/-- The first of `n` entries of a sector, from `idx` on, with the given name. -/
def searchSlots (name : List UInt8) (n idx : Nat) : Option Nat :=
  firstFrom (fun i => sameName buf (24 * i) name) n idx

/-- The loop over `n` blocks from `k` on: the first entry with the given name. -/
def searchBlocks (disk : Bytes) (allBlocks : Nat → UInt32) (name : List UInt8) :
    (n k : Nat) → Option Bytes
  | 0, _ => none
  | n + 1, k =>
    if allBlocks k = 0 then searchBlocks disk allBlocks name n (k + 1)
    else
      let buf := ideRead disk (allBlocks k).toNat Bytes.zero 0 1
      match searchSlots buf name 21 0 with
      | some idx => some (Bytes.zero.copy 0 buf (24 * idx) 24)
      | none => searchBlocks disk allBlocks name n (k + 1)

/-- `search_dir_entry`: the entry it copies out, `none` standing for `false`. The flag says whether
its checked `sys_malloc` call succeeds. -/
def searchDirEntry (okAllBlocks : Bool) (v : Vol p) (ino : Inode) (name : List UInt8) :
    Option Bytes :=
  if okAllBlocks then searchBlocks v.disk (loadBlocks v.disk ino) name 140 0 else none

/-! ### `sync_dir_entry` -/

/-- The outcome of an operation on a directory. -/
structure DirResult (p : Partition) where
  ok : Bool
  vol : Vol p
  inode : Inode

/-- The first of `n` entries of a sector, from `idx` on, that is not in use. -/
def freeSlot (n idx : Nat) : Option Nat :=
  firstFrom (fun i => entryFType buf i = 0) n idx

/-- Put an entry into slot `idx` of sector `lba`, whose content is in `ioBuf`. -/
def putEntry (pDe ioBuf : Bytes) (lba idx : Nat) (v : Vol p) (ino : Inode) : DirResult p :=
  { ok := true
    vol := v.setDisk (ideWrite v.disk lba (ioBuf.copy (24 * idx) pDe 0 24) 0 1)
    inode := { ino with iSize := ino.iSize + 24 } }

variable (allBlocks : Nat → UInt32)

/-- Write `all_blocks` from entry 12 on to the indirect table. -/
def writeTable (table : UInt32) (v : Vol p) : Vol p :=
  v.setDisk (ideWrite v.disk table.toNat
    (Bytes.zero.setWords 0 (fun j => allBlocks (12 + j)) 128) 0 1)

/-- Allocate block `k` of a directory, and the indirect table before it when `k` is 12. The result
is the block; an error is the state in which the insertion gives up. -/
def newBlock (k : Nat) (v : Vol p) (ino : Inode) :
    Except (Vol p × Inode) (UInt32 × Vol p × Inode) :=
  match v.blockBitmapAlloc with
  | none => .error (v, ino)
  | some (lba, v) =>
    let v := v.bitmapSync (lba - p.sb.dataStartLba) .blockBitmap
    let blockLba := UInt32.ofNat lba
    if k < 12 then
      .ok (blockLba, v, { ino with iSectors := setEntry ino.iSectors k blockLba })
    else if k = 12 then
      let ino := { ino with iSectors := setEntry ino.iSectors 12 blockLba }
      match v.blockBitmapAlloc with
      | none =>
        .error (v.setBlockBit (lba - p.sb.dataStartLba) false,
          { ino with iSectors := setEntry ino.iSectors 12 0 })
      | some (lba', v) =>
        let v := v.bitmapSync (lba' - p.sb.dataStartLba) .blockBitmap
        let blockLba' := UInt32.ofNat lba'
        .ok (blockLba', writeTable (setEntry allBlocks 12 blockLba') blockLba v, ino)
    else
      .ok (blockLba, writeTable (setEntry allBlocks k blockLba) (ino.iSectors 12) v, ino)

/-- The insertion into a block that has to be allocated first. -/
def syncNew (pDe : Bytes) (allBlocks : Nat → UInt32) (k : Nat) (v : Vol p) (ino : Inode)
    (ioBuf : Bytes) : DirResult p :=
  match newBlock allBlocks k v ino with
  | .error (v, ino) => ⟨false, v, ino⟩
  | .ok (blockLba, v, ino) => putEntry pDe (ioBuf.fill 0 0 512) blockLba.toNat 0 v ino

/-- The loop of `sync_dir_entry` over `n` blocks from `k` on. -/
def syncBlocks (pDe : Bytes) (allBlocks : Nat → UInt32) (v : Vol p) (ino : Inode) :
    (n k : Nat) → (ioBuf : Bytes) → DirResult p
  | 0, _, _ => ⟨false, v, ino⟩
  | n + 1, k, ioBuf =>
    if allBlocks k = 0 then syncNew pDe allBlocks k v ino ioBuf
    else
      let ioBuf := ideRead v.disk (allBlocks k).toNat ioBuf 0 1
      match freeSlot ioBuf 21 0 with
      | some idx => putEntry pDe ioBuf (allBlocks k).toNat idx v ino
      | none => syncBlocks pDe allBlocks v ino n (k + 1) ioBuf

/-- `sync_dir_entry`: insert entry `pDe` into a directory. -/
def syncDirEntry (v : Vol p) (ino : Inode) (pDe ioBuf : Bytes) : DirResult p :=
  syncBlocks pDe (directBlocks ino) v ino 140 0 ioBuf

/-! ### `delete_dir_entry` -/

/-- The name of the directory itself. -/
def dotName : List UInt8 := [46]

/-- The name of the parent directory. -/
def dotDotName : List UInt8 := [46, 46]

/-- What the inner loop of `delete_dir_entry` finds out about a block. -/
structure BlockScan where
  dirEntryFound : Option Nat
  dirEntryCnt : Nat
  isDirFirstBlock : Bool

/-- One round of the inner loop, at entry `idx`. -/
def BlockScan.step (inodeNo : UInt32) (idx : Nat) (s : BlockScan) : BlockScan :=
  if entryFType buf idx = 0 then s
  else if sameName buf (24 * idx) dotName then { s with isDirFirstBlock := true }
  else if sameName buf (24 * idx) dotDotName then s
  else
    { s with
      dirEntryCnt := s.dirEntryCnt + 1
      dirEntryFound := if entryINo buf idx = inodeNo then some idx else s.dirEntryFound }

/-- The inner loop over `n` entries from `idx` on. -/
def scanBlock (buf : Bytes) (inodeNo : UInt32) : (n idx : Nat) → BlockScan → BlockScan
  | 0, _, s => s
  | n + 1, idx, s => scanBlock buf inodeNo n (idx + 1) (s.step buf inodeNo idx)

/-- The inner loop on a block that was just read. -/
def scanSector (disk : Bytes) (b inodeNo : UInt32) : BlockScan :=
  scanBlock (ideRead disk b.toNat Bytes.zero 0 1) inodeNo 21 0 ⟨none, 0, false⟩

/-- The loop that counts the indirect blocks, over `n` entries from `k` on. It never adds to
`indirect_blocks`, and it only moves on at an entry in use: at an empty one it runs forever, which
is `none` here. -/
def countIndirect (allBlocks : Nat → UInt32) : (n k : Nat) → Option Nat
  | 0, _ => some 0
  | n + 1, k => if allBlocks k ≠ 0 then countIndirect allBlocks n (k + 1) else none

/-- Give block `k` back, and the indirect table when it is taken for the last of its blocks. -/
def releaseBlock (k : Nat) (v : Vol p) (ino : Inode) :
    Option (Vol p × Inode) :=
  let v := v.freeBlock (allBlocks k)
  if k < 12 then some (v, { ino with iSectors := setEntry ino.iSectors k 0 })
  else
    match countIndirect allBlocks 128 12 with
    | none => none
    | some indirectBlocks =>
      if indirectBlocks > 1 then
        some (writeTable (setEntry allBlocks k 0) (ino.iSectors 12) v, ino)
      else
        let v := v.freeBlock (ino.iSectors 12)
        some (v, { ino with iSectors := setEntry ino.iSectors 12 0 })

/-- The end of a deletion: the size goes down and the inode is written back. -/
def finishDelete (v : Vol p) (ino : Inode) : DirResult p :=
  let ino := { ino with iSize := ino.iSize - 24 }
  { ok := true, vol := v.inodeSync ino Bytes.zero, inode := ino }

/-- The loop of `delete_dir_entry` over `n` blocks from `k` on. -/
def deleteBlocks (inodeNo : UInt32) (allBlocks : Nat → UInt32) (v : Vol p) (ino : Inode) :
    (n k : Nat) → Option (DirResult p)
  | 0, _ => some ⟨false, v, ino⟩
  | n + 1, k =>
    if allBlocks k = 0 then deleteBlocks inodeNo allBlocks v ino n (k + 1)
    else
      let s := scanSector v.disk (allBlocks k) inodeNo
      match s.dirEntryFound with
      | none => deleteBlocks inodeNo allBlocks v ino n (k + 1)
      | some idx =>
        if s.dirEntryCnt = 1 ∧ s.isDirFirstBlock = false then
          (releaseBlock allBlocks k v ino).map fun r => finishDelete r.1 r.2
        else
          let ioBuf := (ideRead v.disk (allBlocks k).toNat Bytes.zero 0 1).fill (24 * idx) 0 24
          some (finishDelete (v.setDisk (ideWrite v.disk (allBlocks k).toNat ioBuf 0 1)) ino)

/-- `delete_dir_entry`: delete the entry of inode `inodeNo`; `none` stands for a call that never
returns. -/
def deleteDirEntry (v : Vol p) (ino : Inode) (inodeNo : UInt32) : Option (DirResult p) :=
  deleteBlocks inodeNo (loadBlocks v.disk ino) v ino 140 0

end SimpleOs
