import SimpleOs.Fs.Inode

/-!
# Reading and writing regular files

`file_write` and `file_read` of `fs/file.c`, and `sys_lseek` of `fs/fs.c`, on one open file.
`file_write` works on buffers of its own. `file_read` saves and restores the whole page its sector
buffer is in around every disk read, so its work blocks and the destination are addresses of one
memory.
-/

namespace SimpleOs

open Base

/-- `struct file` of a regular file, together with the inode it points to. -/
structure OpenFile where
  fdPos : UInt32
  fdInode : Inode

variable (t : Nat → UInt32)

/-- Change one entry of a block table. -/
def setEntry (k : Nat) (x : UInt32) : Nat → UInt32 :=
  fun j => if j = k then x else t j

@[simp] lemma setEntry_self (k : Nat) (x : UInt32) : setEntry t k x k = x := by
  simp [setEntry]

lemma setEntry_of_ne (x : UInt32) (h : j ≠ k) : setEntry t k x j = t j := by
  simp [setEntry, h]

variable {p : Partition}

/-! ### `file_write` -/

/-- What the allocation part of `file_write` works on: the volume, the inode and `all_blocks`. -/
structure WriteState (p : Partition) where
  vol : Vol p
  inode : Inode
  allBlocks : Nat → UInt32

namespace WriteState

variable (st : WriteState p)

/-- Record block `lba` as block `k` of the file, in the inode too when `direct`. -/
def record (direct : Bool) (k : Nat) (lba : UInt32) : WriteState p :=
  { st with
    inode := if direct then { st.inode with iSectors := setEntry st.inode.iSectors k lba }
      else st.inode
    allBlocks := setEntry st.allBlocks k lba }

/-- Read the indirect table into `all_blocks`, from entry 12 on. -/
def readTable : WriteState p :=
  { st with allBlocks := fun k =>
      if 12 ≤ k ∧ k < 140 then
        st.vol.disk.u32 (512 * (st.inode.iSectors 12).toNat + 4 * (k - 12))
      else st.allBlocks k }

/-- Write the indirect table, `all_blocks` from entry 12 on, to its block. -/
def writeTable : WriteState p :=
  { st with vol := st.vol.setDisk (ideWrite st.vol.disk (st.inode.iSectors 12).toNat
      (Bytes.zero.setWords 0 (fun j => st.allBlocks (12 + j)) 128) 0 1) }

/-- The first write to a file allocates its first block. An error is the state in which the
function gives up and returns `-1`. -/
def firstBlock : Except (WriteState p) (WriteState p) :=
  if st.inode.iSectors 0 = 0 then
    match st.vol.blockBitmapAlloc with
    | none => .error st
    | some (lba, v) =>
      .ok { st with
        vol := v.bitmapSync (lba - p.sb.dataStartLba) .blockBitmap
        inode := { st.inode with iSectors := setEntry st.inode.iSectors 0 (UInt32.ofNat lba) } }
  else .ok st

/-- The three allocation loops: allocate `n` blocks for the entries from `k` on, and write the
bitmap back after each. They differ in which blocks are `direct`, that is also recorded in the
inode. -/
def allocBlocks (direct : Nat → Bool) :
    (n k : Nat) → WriteState p → Except (WriteState p) (WriteState p)
  | 0, _, st => .ok st
  | n + 1, k, st =>
    match st.vol.blockBitmapAlloc with
    | none => .error st
    | some (lba, v) =>
      let st' := { st with vol := v.bitmapSync (lba - p.sb.dataStartLba) .blockBitmap }
      allocBlocks direct n (k + 1) (st'.record (direct k) k (UInt32.ofNat lba))

/-- Case 2 of the allocation takes the block of the indirect table first. The bitmap is not
written back for it. -/
def allocTable : Except (WriteState p) (WriteState p) :=
  match st.vol.blockBitmapAlloc with
  | none => .error st
  | some (lba, v) =>
    .ok { st with
      vol := v
      inode := { st.inode with iSectors := setEntry st.inode.iSectors 12 (UInt32.ofNat lba) } }

/-- Look up the block the file ends in. -/
def lastBlock (hasUsed : Nat) : WriteState p :=
  { st with allBlocks := setEntry st.allBlocks (hasUsed - 1) (st.inode.iSectors (hasUsed - 1)) }

/-- The block map part of `file_write`: find or allocate the blocks for bytes
`[i_size, i_size + count)`. -/
def mapBlocks (hasUsed willUse : Nat) :
    Except (WriteState p) (WriteState p) :=
  if willUse = hasUsed then
    if willUse ≤ 12 then .ok (st.lastBlock hasUsed) else .ok st.readTable
  else if willUse ≤ 12 then
    allocBlocks (fun _ => true) (willUse - hasUsed) hasUsed (st.lastBlock hasUsed)
  else if hasUsed ≤ 12 then do
    let st ← (st.lastBlock hasUsed).allocTable
    let st ← allocBlocks (fun k => k < 12) (willUse - hasUsed) hasUsed st
    .ok st.writeTable
  else do
    let st ← allocBlocks (fun _ => false) (willUse - hasUsed) hasUsed st.readTable
    .ok st.writeTable

end WriteState

/-- What the data loop of `file_write` works on. -/
structure CopyState (p : Partition) where
  vol : Vol p
  file : OpenFile
  ioBuf : Bytes

/-- One round of the data loop: fill the rest of the current sector from `buf`, `written` bytes of
`count` being done. Only the first round reads the sector before it writes it. -/
def CopyState.writeChunk (allBlocks : Nat → UInt32) (buf : Bytes) (first : Bool)
    (written chunk : Nat) (c : CopyState p) : CopyState p :=
  let iSize := c.file.fdInode.iSize.toNat
  let secLba := (allBlocks (iSize / 512)).toNat
  let ioBuf := c.ioBuf.fill 0 0 512
  let ioBuf := if first then ideRead c.vol.disk secLba ioBuf 0 1 else ioBuf
  let ioBuf := ioBuf.copy (iSize % 512) buf written chunk
  { vol := c.vol.setDisk (ideWrite c.vol.disk secLba ioBuf 0 1)
    file :=
      { fdPos := c.file.fdPos + UInt32.ofNat chunk
        fdInode := { c.file.fdInode with iSize := c.file.fdInode.iSize + UInt32.ofNat chunk } }
    ioBuf := ioBuf }

/-- `chunk_size` of the data loops: what is left to do, or to the end of the sector. -/
def chunkSize (sizeLeft pos : Nat) : Nat :=
  let secLeftBytes := 512 - pos % 512
  if sizeLeft < secLeftBytes then sizeLeft else secLeftBytes

/-- The data loop of `file_write`. -/
def CopyState.writeLoop (allBlocks : Nat → UInt32) (buf : Bytes) (count : Nat) :
    (fuel : Nat) → (first : Bool) → (written : Nat) → CopyState p → CopyState p
  | 0, _, _, c => c
  | fuel + 1, first, written, c =>
    if written < count then
      let chunk := chunkSize (count - written) c.file.fdInode.iSize.toNat
      writeLoop allBlocks buf count fuel false (written + chunk)
        (c.writeChunk allBlocks buf first written chunk)
    else c

/-- The outcome of `file_write`: `none` stands for `-1`. -/
structure WriteResult (p : Partition) where
  ret : Option Nat
  vol : Vol p
  file : OpenFile

/-- `file_write`. The two flags say whether its two `sys_malloc` calls succeed; the blocks they
return are zeroed. -/
def fileWrite (okIoBuf okAllBlocks : Bool) (vol : Vol p) (file : OpenFile) (buf : Bytes)
    (count : UInt32) : WriteResult p :=
  if (file.fdInode.iSize + count).toNat > 512 * 140 then ⟨none, vol, file⟩
  else if !okIoBuf then ⟨none, vol, file⟩
  else if !okAllBlocks then ⟨none, vol, file⟩
  else
    let mapped := do
      let st ← WriteState.firstBlock { vol, inode := file.fdInode, allBlocks := fun _ => 0 }
      let hasUsed := st.inode.iSize.toNat / 512 + 1
      let willUse := (st.inode.iSize + count).toNat / 512 + 1
      st.mapBlocks hasUsed willUse
    match mapped with
    | .error st => ⟨none, st.vol, { file with fdInode := st.inode }⟩
    | .ok st =>
      let c := CopyState.writeLoop st.allBlocks buf count.toNat count.toNat true 0
        { vol := st.vol
          file := { fdPos := st.inode.iSize - 1, fdInode := st.inode }
          ioBuf := Bytes.zero }
      ⟨some count.toNat, c.vol.inodeSync c.file.fdInode c.ioBuf, c.file⟩

/-! ### `sys_lseek` -/

/-- `enum whence`. -/
inductive Whence where
  | seekSet
  | seekCur
  | seekEnd
deriving DecidableEq, Repr

/-- A 32-bit word as a signed integer. -/
def int32 (x : Int) : Int := x.bmod (2 ^ 32)

/-- `sys_lseek` on the file a descriptor stands for: `none` stands for `-1`. -/
def sysLseek (file : OpenFile) (offset : Int) (whence : Whence) : Option UInt32 × OpenFile :=
  let fileSize := int32 file.fdInode.iSize.toNat
  let newPos := match whence with
    | .seekSet => offset
    | .seekCur => int32 (int32 file.fdPos.toNat + offset)
    | .seekEnd => int32 (fileSize + offset)
  if newPos < 0 ∨ newPos > fileSize - 1 then (none, file)
  else (some (UInt32.ofNat newPos.toNat), { file with fdPos := UInt32.ofNat newPos.toNat })

/-! ### `file_read` -/

/-- The three work blocks of `file_read`, at the places `sys_malloc` puts blocks of 512, 560 and
4084 bytes: the first two inside a page of their size class, the last in an arena of its own. -/
structure WorkBlocks where
  ioBuf : Nat
  allBlocks : Nat
  temp : Nat
  ioBuf_fits : ioBuf % 4096 + 512 ≤ 4096
  allBlocks_fits : allBlocks % 4096 + 560 ≤ 4096
  temp_start : temp % 4096 = 12
  ioBuf_ne_allBlocks : ioBuf / 4096 ≠ allBlocks / 4096
  ioBuf_ne_temp : ioBuf / 4096 ≠ temp / 4096
  allBlocks_ne_temp : allBlocks / 4096 ≠ temp / 4096

namespace WorkBlocks

variable (w : WorkBlocks)

/-- `a`, the arena of the sector buffer: `block2arena(io_buf)`. -/
def arena : Nat := w.ioBuf / 4096 * 4096

/-- `temp1`, the arena of `temp`. -/
def temp1 : Nat := w.temp - 12

/-- Read a sector into `buf` with the page of the sector buffer saved in `temp1` before. -/
def savedRead (disk : Bytes) (mem : Bytes) (lba buf : Nat) : Bytes :=
  let mem := mem.copy w.temp1 mem w.arena 4096
  ideRead disk lba mem buf 1

/-- Restore the page of the sector buffer. -/
def restore (mem : Bytes) : Bytes := mem.copy w.arena mem w.temp1 4096

/-- `all_blocks[k] = i_sectors[k]` for `n` entries from `k` on. -/
def lookDirect (w : WorkBlocks) (ino : Inode) : (n k : Nat) → Bytes → Bytes
  | 0, _, mem => mem
  | n + 1, k, mem => lookDirect w ino n (k + 1) (mem.setU32 (w.allBlocks + 4 * k) (ino.iSectors k))

/-- Read the indirect table into `all_blocks` from entry 12 on. -/
def lookTable (disk : Bytes) (ino : Inode) (mem : Bytes) : Bytes :=
  w.restore (w.savedRead disk mem (ino.iSectors 12).toNat (w.allBlocks + 4 * 12))

/-- The block map part of `file_read`: look up the blocks `[startIdx, endIdx]`. -/
def lookBlocks (disk : Bytes) (ino : Inode) (startIdx endIdx : Nat)
    (mem : Bytes) : Bytes :=
  if startIdx = endIdx then
    if endIdx < 12 then w.lookDirect ino 1 endIdx mem else w.lookTable disk ino mem
  else if endIdx < 12 then w.lookDirect ino (endIdx + 1 - startIdx) startIdx mem
  else if startIdx < 12 then
    w.lookTable disk ino (w.lookDirect ino (12 - startIdx) startIdx mem)
  else w.lookTable disk ino mem

/-- One round of the data loop of `file_read`: copy `chunk` bytes at `pos` to `dst`. -/
def readChunk (disk : Bytes) (pos dst chunk : Nat) (mem : Bytes) : Bytes :=
  let secLba := (mem.u32 (w.allBlocks + 4 * (pos / 512))).toNat
  let mem := mem.fill w.ioBuf 0 512
  let mem := w.savedRead disk mem secLba w.ioBuf
  let mem := mem.copy dst mem (w.ioBuf + pos % 512) chunk
  w.restore mem

/-- The data loop of `file_read`. -/
def readLoop (w : WorkBlocks) (disk : Bytes) (dst size : Nat) :
    (fuel : Nat) → (pos done : Nat) → Bytes → Bytes
  | 0, _, _, mem => mem
  | fuel + 1, pos, done, mem =>
    if done < size then
      let chunk := chunkSize (size - done) pos
      readLoop w disk dst size fuel (pos + chunk) (done + chunk)
        (w.readChunk disk pos (dst + done) chunk mem)
    else mem

/-- The arena header of `temp`, rebuilt before it is freed. -/
def resetTemp (mem : Bytes) : Bytes :=
  ((mem.setU32 w.temp1 0).setU32 (w.temp1 + 4) 1).setU32 (w.temp1 + 8) 1

end WorkBlocks

/-- The outcome of `file_read`: `none` stands for `-1`. -/
structure ReadResult where
  ret : Option Nat
  file : OpenFile
  mem : Bytes

/-- `file_read`, its three `sys_malloc` calls having returned `w`, or `none` when one of the two
that are checked failed. -/
def fileRead (work : Option WorkBlocks) (vol : Vol p) (file : OpenFile) (mem : Bytes) (dst : Nat)
    (count : UInt32) : ReadResult :=
  let iSize := file.fdInode.iSize
  let size := if file.fdPos + count > iSize then iSize - file.fdPos else count
  if file.fdPos + count > iSize ∧ size = 0 then ⟨none, file, mem⟩
  else match work with
    | none => ⟨none, file, mem⟩
    | some w =>
      let startIdx := file.fdPos.toNat / 512
      let endIdx := (file.fdPos + size).toNat / 512
      let mem := w.lookBlocks vol.disk file.fdInode startIdx endIdx mem
      let mem := w.readLoop vol.disk dst size.toNat size.toNat file.fdPos.toNat 0 mem
      ⟨some size.toNat, { file with fdPos := file.fdPos + size }, w.resetTemp mem⟩

end SimpleOs
