import SimpleOs.Fs.Dir.Basic

/-!
# Creating and deleting files and directories

The calls that allocate and release inodes and blocks, as far as they change the partition:
`file_create` and `file_write` of `fs/file.c`, `inode_release` of `fs/inode.c`, `dir_remove` of
`fs/dir.c`, and `sys_mkdir`, `sys_rmdir` and `sys_unlink` of `fs/fs.c`. What `search_file` finds and
what `inode_open` gives are arguments.
-/

namespace SimpleOs

open Base

variable {p : Partition}

namespace Vol

/-! ### Creation -/

/-- `file_create` in the directory with inode `parent`. The flags say whether there is memory for the
buffer, memory for the inode and a free slot in `file_table`. -/
def fileCreate (okIoBuf okInode okSlot : Bool) (v : Vol p) (parent : Inode) (filename : List UInt8) :
    DirResult p :=
  if !okIoBuf then ⟨false, v, parent⟩
  else
    match v.inodeBitmapAlloc with
    | none => ⟨false, v, parent⟩
    | some (inodeNo, v) =>
      if !okInode || !okSlot then ⟨false, v.setInodeBit inodeNo false, parent⟩
      else
        let pDe := createDirEntry filename (UInt32.ofNat inodeNo) .regular Bytes.zero
        let r := syncDirEntry v parent pDe Bytes.zero
        if r.ok then
          let v := r.vol.inodeSync r.inode Bytes.zero
          let v := v.inodeSync (Inode.inodeInit (UInt32.ofNat inodeNo)) Bytes.zero
          ⟨true, v.bitmapSync inodeNo .inodeBitmap, r.inode⟩
        else ⟨false, r.vol.setInodeBit inodeNo false, r.inode⟩

/-- The first sector of a new directory. -/
def dotEntries (inodeNo parentNo : UInt32) : Bytes :=
  (Bytes.zero.copy 0 (createDirEntry dotName inodeNo .directory Bytes.zero) 0 24).copy 24
    (createDirEntry dotDotName parentNo .directory Bytes.zero) 0 24

/-- `sys_mkdir`. `parent` is the directory in which to make the new one, if `search_file` finds it and
nothing of that name in it. A block that was taken for the new directory is not given back. -/
def sysMkdir (okIoBuf : Bool) (v : Vol p) (parent : Option Inode) (dirname : List UInt8) : Vol p :=
  if !okIoBuf then v
  else
    match parent with
    | none => v
    | some parent =>
      match v.inodeBitmapAlloc with
      | none => v
      | some (inodeNo, v) =>
        match v.blockBitmapAlloc with
        | none => v.setInodeBit inodeNo false
        | some (lba, v) =>
          let v := v.bitmapSync (lba - p.sb.dataStartLba) .blockBitmap
          let v := v.setDisk (ideWrite v.disk lba (dotEntries (UInt32.ofNat inodeNo) parent.iNo) 0 1)
          let newDirInode : Inode :=
            { Inode.inodeInit (UInt32.ofNat inodeNo) with
              iSize := 48
              iSectors := setEntry (fun _ => 0) 0 (UInt32.ofNat lba) }
          let pDe := createDirEntry dirname (UInt32.ofNat inodeNo) .directory Bytes.zero
          let r := syncDirEntry v parent pDe Bytes.zero
          if r.ok then
            let v := r.vol.inodeSync r.inode Bytes.zero
            let v := v.inodeSync newDirInode Bytes.zero
            v.bitmapSync inodeNo .inodeBitmap
          else r.vol.setInodeBit inodeNo false

variable (v : Vol p)

/-- What `sys_mkdir` does once `search_file` has found the directory with inode `parent`, with that inode
as it leaves it. -/
def makeDir (parent : Inode) (dirname : List UInt8) : DirResult p :=
  match v.inodeBitmapAlloc with
  | none => ⟨false, v, parent⟩
  | some (inodeNo, v) =>
    match v.blockBitmapAlloc with
    | none => ⟨false, v.setInodeBit inodeNo false, parent⟩
    | some (lba, v) =>
      let v := v.bitmapSync (lba - p.sb.dataStartLba) .blockBitmap
      let v := v.setDisk (ideWrite v.disk lba (dotEntries (UInt32.ofNat inodeNo) parent.iNo) 0 1)
      let newDirInode : Inode :=
        { Inode.inodeInit (UInt32.ofNat inodeNo) with
          iSize := 48
          iSectors := setEntry (fun _ => 0) 0 (UInt32.ofNat lba) }
      let pDe := createDirEntry dirname (UInt32.ofNat inodeNo) .directory Bytes.zero
      let r := syncDirEntry v parent pDe Bytes.zero
      if r.ok then
        let v := r.vol.inodeSync r.inode Bytes.zero
        let v := v.inodeSync newDirInode Bytes.zero
        ⟨true, v.bitmapSync inodeNo .inodeBitmap, r.inode⟩
      else ⟨false, r.vol.setInodeBit inodeNo false, r.inode⟩

/-- On the partition alone that is `sys_mkdir`. -/
lemma sysMkdir_eq_makeDir (parent : Inode) (dirname : List UInt8) :
    v.sysMkdir true (some parent) dirname = (v.makeDir parent dirname).vol := by
  rw [sysMkdir, makeDir]
  cases v.inodeBitmapAlloc with
  | none => rfl
  | some r =>
    obtain ⟨inodeNo, v⟩ := r
    simp only [Bool.not_true, Bool.false_eq_true, if_false]
    cases v.blockBitmapAlloc with
    | none => rfl
    | some r =>
      simp only
      split_ifs <;> rfl

/-! ### Deletion -/

/-- The loop of `inode_release` over `n` blocks from `k` on. -/
def releaseBlocks (allBlocks : Nat → UInt32) : (n k : Nat) → Vol p → Vol p
  | 0, _, v => v
  | n + 1, k, v =>
    releaseBlocks allBlocks n (k + 1) (if allBlocks k ≠ 0 then v.freeBlock (allBlocks k) else v)

/-- `inode_release`, with the inode that `inode_open` gives. -/
def inodeRelease (inodeNo : Nat) (ino : Inode) : Vol p :=
  let allBlocks := loadBlocks v.disk ino
  let v :=
    if ino.iSectors 12 ≠ 0 then releaseBlocks allBlocks 140 0 (v.freeBlock (ino.iSectors 12))
    else releaseBlocks allBlocks 12 0 v
  let v := (v.setInodeBit inodeNo false).bitmapSync inodeNo .inodeBitmap
  v.inodeDelete inodeNo Bytes.zero

/-- Delete an entry of a directory and what it stands for. -/
def deleteAndRelease (parent : Inode) (inodeNo : UInt32) (ino : Inode) : Option (Vol p) :=
  (deleteDirEntry v parent inodeNo).map fun r => r.vol.inodeRelease inodeNo.toNat ino

/-- `sys_rmdir`, with the parent directory and the directory if `search_file` finds them. -/
def sysRmdir (okIoBuf : Bool) (v : Vol p) (searched : Option (Inode × Inode)) : Option (Vol p) :=
  match searched with
  | none => some v
  | some (parent, dir) =>
    -- `dir_is_empty`, then `dir_remove`
    if dir.iSize ≠ 48 then some v
    else if !okIoBuf then some v
    else v.deleteAndRelease parent dir.iNo dir

/-- `sys_unlink`, with the parent directory, the number of the file and its inode if `search_file`
finds a regular file that is not open. -/
def sysUnlink (okIoBuf : Bool) (v : Vol p) (searched : Option (Inode × UInt32 × Inode)) :
    Option (Vol p) :=
  match searched with
  | none => some v
  | some (parent, inodeNo, ino) =>
    if !okIoBuf then some v else v.deleteAndRelease parent inodeNo ino

end Vol

/-- The calls that change the bitmaps of a partition. -/
inductive FsCall where
  | fileCreate (okIoBuf okInode okSlot : Bool) (parent : Inode) (filename : List UInt8)
  | fileWrite (okIoBuf okAllBlocks : Bool) (file : OpenFile) (buf : Bytes) (count : UInt32)
  | sysMkdir (okIoBuf : Bool) (parent : Option Inode) (dirname : List UInt8)
  | sysRmdir (okIoBuf : Bool) (searched : Option (Inode × Inode))
  | sysUnlink (okIoBuf : Bool) (searched : Option (Inode × UInt32 × Inode))

/-- The partition after a call; `none` stands for a call that never returns. -/
def FsCall.exec (v : Vol p) : FsCall → Option (Vol p)
  | fileCreate okIoBuf okInode okSlot parent filename =>
    some (v.fileCreate okIoBuf okInode okSlot parent filename).vol
  | fileWrite okIoBuf okAllBlocks file buf count =>
    some (SimpleOs.fileWrite okIoBuf okAllBlocks v file buf count).vol
  | sysMkdir okIoBuf parent dirname => some (v.sysMkdir okIoBuf parent dirname)
  | sysRmdir okIoBuf searched => v.sysRmdir okIoBuf searched
  | sysUnlink okIoBuf searched => v.sysUnlink okIoBuf searched

end SimpleOs
