import SimpleOs.Lib.Bitmap
import SimpleOs.Device.Ide

/-!
# A mounted partition

The layout `partition_format` computes (`fs/fs.c`), the partition with its two bitmaps in memory
as `mount_partition` leaves it, and the allocators of `fs/file.c` that work on them.
-/

namespace SimpleOs

open Base

/-- `struct super_block`, less its padding. -/
structure SuperBlock where
  magic : Nat
  secCnt : Nat
  inodeCnt : Nat
  partLbaBase : Nat
  blockBitmapLba : Nat
  blockBitmapSects : Nat
  inodeBitmapLba : Nat
  inodeBitmapSects : Nat
  inodeTableLba : Nat
  inodeTableSects : Nat
  dataStartLba : Nat
  rootInodeNo : Nat
  dirEntrySize : Nat
deriving DecidableEq, Repr

/-- A partition large enough to hold a data block, inside the 28-bit LBA range. -/
structure Partition where
  startLba : Nat
  secCnt : Nat
  secCnt_ge : 613 ≤ secCnt
  lba_le : startLba + secCnt ≤ 2 ^ 28

namespace Partition

/-- `free_sects` of `partition_format`: `sizeof(struct inode)` is 76. -/
def freeSects (p : Partition) : Nat :=
  p.secCnt - (1 + 1 + divRoundUp 4096 4096 + divRoundUp (76 * 4096) 512)

/-- `block_bitmap_bit_len` of `partition_format`. -/
def blockBitmapBitLen (p : Partition) : Nat := p.freeSects - divRoundUp p.freeSects 4096

/-- The super block `partition_format` writes. -/
def sb (p : Partition) : SuperBlock where
  magic := 0x19590318
  secCnt := p.secCnt
  inodeCnt := 4096
  partLbaBase := p.startLba
  blockBitmapLba := p.startLba + 2
  blockBitmapSects := divRoundUp p.blockBitmapBitLen 4096
  inodeBitmapLba := p.startLba + 2 + divRoundUp p.blockBitmapBitLen 4096
  inodeBitmapSects := divRoundUp 4096 4096
  inodeTableLba := p.startLba + 2 + divRoundUp p.blockBitmapBitLen 4096 + divRoundUp 4096 4096
  inodeTableSects := divRoundUp (76 * 4096) 512
  dataStartLba := p.startLba + 2 + divRoundUp p.blockBitmapBitLen 4096 + divRoundUp 4096 4096 +
    divRoundUp (76 * 4096) 512
  rootInodeNo := 0
  dirEntrySize := 24

variable (p : Partition)

@[simp] lemma sb_inodeBitmapSects : p.sb.inodeBitmapSects = 1 := rfl

lemma inodeBitmapLba_eq : p.sb.inodeBitmapLba = p.sb.blockBitmapLba + p.sb.blockBitmapSects := rfl

lemma inodeTableLba_eq : p.sb.inodeTableLba = p.sb.inodeBitmapLba + 1 := rfl

lemma dataStartLba_eq : p.sb.dataStartLba = p.sb.inodeTableLba + 608 := rfl

lemma blockBitmapSects_le : p.sb.blockBitmapSects ≤ 2 ^ 16 := by
  have h := p.lba_le
  simp only [sb, blockBitmapBitLen, freeSects, divRoundUp]
  omega

lemma blockBitmapSects_pos : 0 < p.sb.blockBitmapSects := by
  have h := p.secCnt_ge
  simp only [sb, blockBitmapBitLen, freeSects, divRoundUp]
  omega

lemma dataStartLba_add_lt (hi : i < 8 * (p.sb.blockBitmapSects * 512)) :
    p.sb.dataStartLba + i < 2 ^ 30 := by
  have hs := p.blockBitmapSects_le
  have h := p.lba_le
  have hd : p.sb.dataStartLba = p.startLba + p.sb.blockBitmapSects + 611 := by
    simp only [sb, divRoundUp]
    omega
  omega

lemma dataStartLba_pos : 0 < p.sb.dataStartLba := by
  simp only [dataStartLba_eq]
  omega

end Partition

/-- A mounted partition: its disk and the two bitmaps `mount_partition` keeps in memory. -/
structure Vol (p : Partition) where
  disk : Bytes
  blockBitmap : Bitmap
  inodeBitmap : Bitmap
  blockBitmap_len : blockBitmap.btmpBytesLen = p.sb.blockBitmapSects * 512
  inodeBitmap_len : inodeBitmap.btmpBytesLen = p.sb.inodeBitmapSects * 512

/-- `enum bitmap_type`. -/
inductive BitmapType where
  | inodeBitmap
  | blockBitmap
deriving DecidableEq, Repr

namespace Vol

variable {p : Partition}

/-- Set or clear a bit of the block bitmap in memory. -/
def setBlockBit (v : Vol p) (i : Nat) (b : Bool) : Vol p :=
  { v with blockBitmap := v.blockBitmap.bitmapSet i b, blockBitmap_len := v.blockBitmap_len }

/-- Set or clear a bit of the inode bitmap in memory. -/
def setInodeBit (v : Vol p) (i : Nat) (b : Bool) : Vol p :=
  { v with inodeBitmap := v.inodeBitmap.bitmapSet i b, inodeBitmap_len := v.inodeBitmap_len }

/-- The volume with another disk content. -/
def setDisk (v : Vol p) (d : Bytes) : Vol p := { v with disk := d }

/-- `inode_bitmap_alloc`: the lowest free inode number. -/
def inodeBitmapAlloc (v : Vol p) : Option (Nat × Vol p) :=
  match v.inodeBitmap.bitmapScan 1 with
  | none => none
  | some i => some (i, v.setInodeBit i true)

/-- `block_bitmap_alloc`: the address of the first free data block. -/
def blockBitmapAlloc (v : Vol p) : Option (Nat × Vol p) :=
  match v.blockBitmap.bitmapScan 1 with
  | none => none
  | some i => some (p.sb.dataStartLba + i, v.setBlockBit i true)

/-- `bitmap_sync`: write the sector of a bitmap that holds bit `bitIdx` to the disk. -/
def bitmapSync (v : Vol p) (bitIdx : Nat) (t : BitmapType) : Vol p :=
  let offSec := bitIdx / 4096
  match t with
  | .inodeBitmap =>
    v.setDisk (ideWrite v.disk (p.sb.inodeBitmapLba + offSec) v.inodeBitmap.bits (offSec * 512) 1)
  | .blockBitmap =>
    v.setDisk (ideWrite v.disk (p.sb.blockBitmapLba + offSec) v.blockBitmap.bits (offSec * 512) 1)

/-- Block bit `i` is set. -/
def blockUsed (v : Vol p) (i : Nat) : Bool := v.blockBitmap.bitmapScanTest i

/-- Inode bit `i` is set. -/
def inodeUsed (v : Vol p) (i : Nat) : Bool := v.inodeBitmap.bitmapScanTest i

section
variable (v : Vol p) (i j : Nat) (b : Bool) (d : Bytes) (t : BitmapType)

@[simp] lemma disk_setBlockBit : (v.setBlockBit i b).disk = v.disk := rfl
@[simp] lemma disk_setInodeBit : (v.setInodeBit i b).disk = v.disk := rfl
@[simp] lemma disk_setDisk : (v.setDisk d).disk = d := rfl
@[simp] lemma blockUsed_setDisk : (v.setDisk d).blockUsed i = v.blockUsed i := rfl
@[simp] lemma inodeUsed_setDisk : (v.setDisk d).inodeUsed i = v.inodeUsed i := rfl
@[simp] lemma inodeUsed_setBlockBit : (v.setBlockBit j b).inodeUsed i = v.inodeUsed i := rfl
@[simp] lemma blockUsed_setInodeBit : (v.setInodeBit j b).blockUsed i = v.blockUsed i := rfl

@[simp] lemma blockUsed_setBlockBit :
    (v.setBlockBit j b).blockUsed i = if i = j then b else v.blockUsed i := by
  simp [blockUsed, setBlockBit]

@[simp] lemma inodeUsed_setInodeBit :
    (v.setInodeBit j b).inodeUsed i = if i = j then b else v.inodeUsed i := by
  simp [inodeUsed, setInodeBit]

@[simp] lemma blockUsed_bitmapSync : (v.bitmapSync j t).blockUsed i = v.blockUsed i := by
  cases t <;> rfl

@[simp] lemma inodeUsed_bitmapSync : (v.bitmapSync j t).inodeUsed i = v.inodeUsed i := by
  cases t <;> rfl

end

/-- The number of data blocks the block bitmap has bits for. -/
def nBlocks (p : Partition) : Nat := 8 * (p.sb.blockBitmapSects * 512)

lemma blockBitmapAlloc_eq_some {v v' : Vol p} (h : v.blockBitmapAlloc = some (lba, v')) :
    ∃ i, i < nBlocks p ∧ v.blockUsed i = false ∧ lba = p.sb.dataStartLba + i ∧
      v' = v.setBlockBit i true := by
  simp only [blockBitmapAlloc] at h
  split at h
  · cases h
  · rename_i i hi
    obtain ⟨hlt, hfree, -⟩ := Bitmap.bitmapScan_one_eq_some hi
    obtain ⟨rfl, rfl⟩ := h
    exact ⟨i, by rw [nBlocks, ← v.blockBitmap_len]; exact hlt, hfree, rfl, rfl⟩

lemma inodeBitmapAlloc_eq_some {v v' : Vol p} (h : v.inodeBitmapAlloc = some (n, v')) :
    n < 4096 ∧ v.inodeUsed n = false ∧ (∀ m < n, v.inodeUsed m = true) ∧
      v' = v.setInodeBit n true := by
  simp only [inodeBitmapAlloc] at h
  split at h
  · cases h
  · rename_i i hi
    obtain ⟨hlt, hfree, hmin⟩ := Bitmap.bitmapScan_one_eq_some hi
    obtain ⟨rfl, rfl⟩ := h
    rw [v.inodeBitmap_len, Partition.sb_inodeBitmapSects] at hlt
    exact ⟨by omega, hfree, hmin, rfl⟩

lemma disk_bitmapSync_of_ge (v : Vol p) (hi : i < nBlocks p)
    (hk : 512 * p.sb.inodeTableLba ≤ k) : (v.bitmapSync i .blockBitmap).disk k = v.disk k := by
  simp only [bitmapSync, disk_setDisk, ideWrite_eq]
  apply Bytes.copy_outside
  have h1 := p.inodeBitmapLba_eq
  have h2 := p.inodeTableLba_eq
  rw [nBlocks] at hi
  omega

lemma disk_bitmapSync_inode_of_ge (v : Vol p) (hi : i < 4096)
    (hk : 512 * p.sb.inodeTableLba ≤ k) : (v.bitmapSync i .inodeBitmap).disk k = v.disk k := by
  simp only [bitmapSync, disk_setDisk, ideWrite_eq]
  apply Bytes.copy_outside
  have h2 := p.inodeTableLba_eq
  omega

/-- A volume with a zeroed disk and empty bitmaps. -/
def blank (p : Partition) : Vol p where
  disk := Bytes.zero
  blockBitmap := ⟨p.sb.blockBitmapSects * 512, Bytes.zero⟩
  inodeBitmap := ⟨p.sb.inodeBitmapSects * 512, Bytes.zero⟩
  blockBitmap_len := rfl
  inodeBitmap_len := rfl

end Vol

/-- The smallest partition, at the usual first sector. -/
def Partition.smallest : Partition where
  startLba := 2048
  secCnt := 613
  secCnt_ge := by decide
  lba_le := by decide

end SimpleOs
