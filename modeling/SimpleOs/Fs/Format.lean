import Mathlib
import SimpleOs.Fs.Volume

/-!
# Formatting a partition

`partition_format` of `fs/fs.c` with its 32-bit arithmetic: the layout it computes, the block
bitmap it builds and the sectors it writes.
-/

namespace SimpleOs

open Base Bytes Bitmap

namespace Format

/-- `DIV_ROUND_UP` on `uint32_t`. -/
def divRoundUp32 (x step : UInt32) : UInt32 := (x + step - 1) / step

/-- `used_sects`: boot sector, super block, inode bitmap and inode table. -/
def usedSects : UInt32 := 1 + 1 + divRoundUp32 4096 4096 + divRoundUp32 (76 * 4096) 512

/-- `free_sects`. -/
def freeSects (secCnt : UInt32) : UInt32 := secCnt - usedSects

/-- `block_bitmap_bit_len`, computed from the first value of `block_bitmap_sects`. -/
def blockBitmapBitLen (secCnt : UInt32) : UInt32 :=
  freeSects secCnt - divRoundUp32 (freeSects secCnt) 4096

/-- The second value of `block_bitmap_sects`. -/
def blockBitmapSects (secCnt : UInt32) : UInt32 := divRoundUp32 (blockBitmapBitLen secCnt) 4096

/-- The super block of the partition. -/
def superBlock (startLba secCnt : UInt32) : SuperBlock :=
  let blockBitmapLba := startLba + 2
  let inodeBitmapLba := blockBitmapLba + blockBitmapSects secCnt
  let inodeBitmapSects := divRoundUp32 4096 4096
  let inodeTableLba := inodeBitmapLba + inodeBitmapSects
  let inodeTableSects := divRoundUp32 (76 * 4096) 512
  { magic := 0x19590318
    secCnt := secCnt.toNat
    inodeCnt := 4096
    partLbaBase := startLba.toNat
    blockBitmapLba := blockBitmapLba.toNat
    blockBitmapSects := (blockBitmapSects secCnt).toNat
    inodeBitmapLba := inodeBitmapLba.toNat
    inodeBitmapSects := inodeBitmapSects.toNat
    inodeTableLba := inodeTableLba.toNat
    inodeTableSects := inodeTableSects.toNat
    dataStartLba := (inodeTableLba + inodeTableSects).toNat
    rootInodeNo := 0
    dirEntrySize := 24 }

/-! ### The layout -/

/-- Sectors in a row. -/
structure Region where
  lba : Nat
  sects : Nat

/-- The sectors of a region. -/
def Region.sectors (r : Region) : Set Nat := Set.Ico r.lba (r.lba + r.sects)

/-- Boot sector, super block, block bitmap, inode bitmap, inode table and data area. -/
def regions (startLba secCnt : UInt32) : List Region :=
  let sb := superBlock startLba secCnt
  [⟨startLba.toNat, 1⟩, ⟨(startLba + 1).toNat, 1⟩, ⟨sb.blockBitmapLba, sb.blockBitmapSects⟩,
    ⟨sb.inodeBitmapLba, sb.inodeBitmapSects⟩, ⟨sb.inodeTableLba, sb.inodeTableSects⟩,
    ⟨sb.dataStartLba, (blockBitmapBitLen secCnt).toNat⟩]

/-- What the layout has to satisfy. -/
structure LayoutFits (startLba secCnt : UInt32) : Prop where
  consecutive : (regions startLba secCnt).IsChain fun r r' => r.lba + r.sects = r'.lba
  disjoint : (regions startLba secCnt).Pairwise fun r r' => Disjoint r.sectors r'.sectors
  bitmap : (blockBitmapBitLen secCnt).toNat ≤ 4096 * (superBlock startLba secCnt).blockBitmapSects
  table : 4096 * 76 ≤ 512 * (superBlock startLba secCnt).inodeTableSects
  used_le : usedSects ≤ secCnt
  bitmap_le : divRoundUp32 (freeSects secCnt) 4096 ≤ freeSects secCnt
  block : 0 < (blockBitmapBitLen secCnt).toNat
  data_le : (superBlock startLba secCnt).dataStartLba + (blockBitmapBitLen secCnt).toNat ≤
    startLba.toNat + secCnt.toNat

lemma pairwise_disjoint_of_isChain {l : List Region}
    (h : l.IsChain fun r r' => r.lba + r.sects = r'.lba) :
    l.Pairwise fun r r' => Disjoint r.sectors r'.sectors := by
  have htrans : IsTrans Region fun r r' => r.lba + r.sects ≤ r'.lba :=
    ⟨fun r r' r'' h h' => by omega⟩
  have hle : l.IsChain fun r r' => r.lba + r.sects ≤ r'.lba := h.imp fun _ _ => Nat.le_of_eq
  refine hle.pairwise.imp fun {r r'} hr => ?_
  exact Set.disjoint_left.mpr fun k hk hk' => by
    have := hk.2
    have := hk'.1
    omega

@[simp] lemma toNat_usedSects : usedSects.toNat = 611 := by decide

lemma toNat_freeSects (h : 613 ≤ secCnt.toNat) :
    (freeSects secCnt).toNat = secCnt.toNat - 611 := by
  rw [freeSects, UInt32.toNat_sub_of_le, toNat_usedSects]
  rw [UInt32.le_iff_toNat_le, toNat_usedSects]
  omega

/-- Rounding up to whole sectors of bits, the sum taken modulo `2 ^ 32`. -/
lemma toNat_divRoundUp32 (x : UInt32) :
    (divRoundUp32 x 4096).toNat = (x.toNat + 4095) % 2 ^ 32 / 4096 := by
  simp only [divRoundUp32, UInt32.toNat_div, UInt32.toNat_sub, UInt32.toNat_add, UInt32.reduceToNat]
  omega

/-- Up to a size near `2 ^ 32` nothing wraps. -/
lemma toNat_blockBitmapBitLen (h : 613 ≤ secCnt.toNat) (hmax : secCnt.toNat ≤ 2 ^ 32 - 3485) :
    (blockBitmapBitLen secCnt).toNat =
      (secCnt.toNat - 611) - (secCnt.toNat - 611 + 4095) / 4096 := by
  have hfree := toNat_freeSects h
  have hdiv := toNat_divRoundUp32 (freeSects secCnt)
  rw [Nat.mod_eq_of_lt (by omega)] at hdiv
  rw [blockBitmapBitLen, UInt32.toNat_sub_of_le, hdiv, hfree]
  rw [UInt32.le_iff_toNat_le]
  omega

lemma toNat_blockBitmapSects (h : 613 ≤ secCnt.toNat) (hmax : secCnt.toNat ≤ 2 ^ 32 - 3485) :
    (blockBitmapSects secCnt).toNat = ((blockBitmapBitLen secCnt).toNat + 4095) / 4096 := by
  have hlen := toNat_blockBitmapBitLen h hmax
  rw [blockBitmapSects, toNat_divRoundUp32, Nat.mod_eq_of_lt (by omega)]

/-- Near `2 ^ 32` the block bitmap gets no sector at all. -/
lemma blockBitmapSects_of_wrap (h : 2 ^ 32 - 3485 < secCnt.toNat) :
    (blockBitmapBitLen secCnt).toNat = secCnt.toNat - 611 ∧ (blockBitmapSects secCnt).toNat = 0 := by
  have hfree := toNat_freeSects (show 613 ≤ secCnt.toNat by omega)
  have hlt := secCnt.toNat_lt
  have hdiv := toNat_divRoundUp32 (freeSects secCnt)
  have hzero : divRoundUp32 (freeSects secCnt) 4096 = 0 := by
    rw [← UInt32.toNat_inj]
    simp only [UInt32.toNat_zero]
    omega
  have hlen : blockBitmapBitLen secCnt = freeSects secCnt := by
    rw [blockBitmapBitLen, hzero, UInt32.sub_zero]
  refine ⟨by rw [hlen, hfree], ?_⟩
  rw [blockBitmapSects, hlen, hzero]
  rfl

section Lba28

variable {startLba secCnt : UInt32} (h : 613 ≤ secCnt.toNat)
  (hlba : startLba.toNat + secCnt.toNat ≤ 2 ^ 28)
include h hlba

/-- In the 28-bit LBA range the addresses are the sums over natural numbers. -/
lemma superBlock_lbas :
    (superBlock startLba secCnt).blockBitmapLba = startLba.toNat + 2 ∧
      (superBlock startLba secCnt).inodeBitmapLba =
        startLba.toNat + 2 + (blockBitmapSects secCnt).toNat ∧
      (superBlock startLba secCnt).inodeTableLba =
        startLba.toNat + 2 + (blockBitmapSects secCnt).toNat + 1 ∧
      (superBlock startLba secCnt).dataStartLba =
        startLba.toNat + 2 + (blockBitmapSects secCnt).toNat + 1 + 608 := by
  have hlen := toNat_blockBitmapBitLen h (by omega)
  have hsects := toNat_blockBitmapSects h (by omega)
  have hone : divRoundUp32 4096 4096 = 1 := by decide
  have htable : divRoundUp32 (76 * 4096) 512 = 608 := by decide
  simp only [superBlock, hone, htable, UInt32.toNat_add, UInt32.reduceToNat]
  omega

/-- The layout fits every partition of the 28-bit LBA range with room for a data block. -/
theorem layoutFits : LayoutFits startLba secCnt := by
  have hlen := toNat_blockBitmapBitLen h (by omega)
  have hsects := toNat_blockBitmapSects h (by omega)
  obtain ⟨hblock, hinode, htable, hdata⟩ := superBlock_lbas h hlba
  have hfree := toNat_freeSects h
  have hchain : (regions startLba secCnt).IsChain fun r r' => r.lba + r.sects = r'.lba := by
    simp only [regions, List.isChain_cons_cons, List.isChain_singleton, and_true]
    rw [hblock, hinode, htable, hdata, UInt32.toNat_add]
    refine ⟨?_, ?_, rfl, rfl, rfl⟩
    · simp only [UInt32.toNat_one]
      omega
    · simp only [UInt32.toNat_one]
      omega
  refine ⟨hchain, pairwise_disjoint_of_isChain hchain, ?_, ?_, ?_, ?_, by omega, ?_⟩
  · simp only [superBlock]
    omega
  · change 4096 * 76 ≤ 512 * (divRoundUp32 (76 * 4096) 512).toNat
    decide
  · rw [UInt32.le_iff_toNat_le, toNat_usedSects]
    omega
  · rw [UInt32.le_iff_toNat_le, toNat_divRoundUp32, hfree]
    omega
  · omega

end Lba28

/-- The least partition with a data block, from the first sector behind a boot track. -/
theorem layoutFits_least :
    613 ≤ (613 : UInt32).toNat ∧ (63 : UInt32).toNat + (613 : UInt32).toNat ≤ 2 ^ 28 ∧
      LayoutFits 63 613 :=
  ⟨by decide, by decide, layoutFits (by decide) (by decide)⟩

/-- The super block over natural numbers is the one the 32-bit arithmetic computes. -/
lemma superBlock_eq (p : Partition) :
    superBlock (UInt32.ofNat p.startLba) (UInt32.ofNat p.secCnt) = p.sb := by
  have hcnt := p.secCnt_ge
  have hle := p.lba_le
  have hs : (UInt32.ofNat p.startLba).toNat = p.startLba := by
    rw [UInt32.toNat_ofNat', Nat.mod_eq_of_lt (by omega)]
  have hc : (UInt32.ofNat p.secCnt).toNat = p.secCnt := by
    rw [UInt32.toNat_ofNat', Nat.mod_eq_of_lt (by omega)]
  obtain ⟨hblock, hinode, htable, hdata⟩ :=
    @superBlock_lbas (UInt32.ofNat p.startLba) (UInt32.ofNat p.secCnt) (by omega) (by omega)
  have hlen := @toNat_blockBitmapBitLen (UInt32.ofNat p.secCnt) (by omega) (by omega)
  have hsects : (blockBitmapSects (UInt32.ofNat p.secCnt)).toNat = p.sb.blockBitmapSects := by
    rw [toNat_blockBitmapSects (by omega) (by omega)]
    have hone : divRoundUp 4096 4096 = 1 := by decide
    have hsix : divRoundUp (76 * 4096) 512 = 608 := by decide
    simp only [Partition.sb, Partition.blockBitmapBitLen, Partition.freeSects, hone, hsix]
    simp only [divRoundUp]
    omega
  have hone : (divRoundUp32 4096 4096).toNat = divRoundUp 4096 4096 := by decide
  have hsix : (divRoundUp32 (76 * 4096) 512).toNat = divRoundUp (76 * 4096) 512 := by decide
  simp only [superBlock] at hblock hinode htable hdata
  simp only [superBlock, hs, hc, hsects, hblock, hinode, htable, hdata, hone, hsix]
  rfl

/-! ### The block bitmap -/

/-- `buf[i] &= ~(1 << bit_idx)`. -/
def clearBit (buf : Bytes) (i bitIdx : Nat) : Bytes :=
  fun k => if k = i then buf k &&& ~~~UInt8.ofNat (1 <<< bitIdx) else buf k

/-- The loop that clears the bits of byte `i` from `bitIdx` on. -/
def clearBits (buf : Bytes) (i : Nat) : (left bitIdx : Nat) → Bytes
  | 0, _ => buf
  | left + 1, bitIdx => clearBits (clearBit buf i bitIdx) i left (bitIdx + 1)

/-- The buffer that is written as block bitmap, `sys_malloc` having returned zeroed memory. -/
def blockBitmapBuf (secCnt : UInt32) : Bytes :=
  let bitLen := blockBitmapBitLen secCnt
  let buf : Bytes := fun k => if k = 0 then Bytes.zero 0 ||| 0x01 else Bytes.zero k
  let lastByte := bitLen / 8
  let lastBit := bitLen % 8
  let lastSize := 512 - lastByte % 512
  let buf := buf.fill lastByte.toNat 0xff lastSize.toNat
  -- the loop condition is `bit_idx <= block_bitmap_last_bit`
  clearBits buf lastByte.toNat (lastBit.toNat + 1) 0

/-- The block bitmap that `partition_format` writes. -/
def blockBitmap (secCnt : UInt32) : Bitmap :=
  ⟨(blockBitmapSects secCnt).toNat * 512, blockBitmapBuf secCnt⟩

/-- The block bitmap of a fresh partition: the root directory's block is in use, the other blocks of
the partition are free, and what is no block of the partition is in use. -/
structure BitmapExact (secCnt : UInt32) : Prop where
  covers : (blockBitmapBitLen secCnt).toNat ≤ 4096 * (blockBitmapSects secCnt).toNat
  root : (blockBitmap secCnt).bitmapScanTest 0 = true
  free : ∀ i, 1 ≤ i → i < (blockBitmapBitLen secCnt).toNat →
    (blockBitmap secCnt).bitmapScanTest i = false
  tail : ∀ i, (blockBitmapBitLen secCnt).toNat ≤ i → i < 4096 * (blockBitmapSects secCnt).toNat →
    (blockBitmap secCnt).bitmapScanTest i = true
  inside : ∀ i < 4096 * (blockBitmapSects secCnt).toNat,
    (blockBitmap secCnt).bitmapScanTest i = false →
      usedSects.toNat + (blockBitmapSects secCnt).toNat + i < secCnt.toNat

lemma clearBit_eq (len : Nat) (buf : Bytes) (i : Nat) (h : bitIdx < 8) :
    (⟨len, clearBit buf i bitIdx⟩ : Bitmap) =
      (⟨len, buf⟩ : Bitmap).bitmapSet (8 * i + bitIdx) false := by
  simp only [bitmapSet, show (8 * i + bitIdx) / 8 = i by omega,
    show (8 * i + bitIdx) % 8 = bitIdx by omega, Bool.false_eq_true, if_false]
  rfl

lemma test_clearBits (len : Nat) (buf : Bytes) (i left : Nat) (h : bitIdx + left ≤ 8) :
    (⟨len, clearBits buf i left bitIdx⟩ : Bitmap).bitmapScanTest j =
      if 8 * i + bitIdx ≤ j ∧ j < 8 * i + bitIdx + left then false
      else (⟨len, buf⟩ : Bitmap).bitmapScanTest j := by
  induction left generalizing buf bitIdx with
  | zero => rw [if_neg (by omega)]; rfl
  | succ left ih =>
    rw [clearBits, ih _ (by omega), clearBit_eq len buf i (by omega),
      bitmapScanTest_bitmapSet]
    split_ifs <;> first | rfl | omega

lemma test_fill (len : Nat) (buf : Bytes) (i n j : Nat) :
    (⟨len, buf.fill i 0xff n⟩ : Bitmap).bitmapScanTest j =
      if i ≤ j / 8 ∧ j / 8 < i + n then true else (⟨len, buf⟩ : Bitmap).bitmapScanTest j := by
  have hff : (0xff : UInt8).toNat.testBit (j % 8) = true := by
    rw [show (0xff : UInt8).toNat = 2 ^ 8 - 1 from rfl, Nat.testBit_two_pow_sub_one]
    exact decide_eq_true (Nat.mod_lt _ (by decide))
  simp only [bitmapScanTest, Bytes.fill]
  split_ifs
  · exact hff
  · rfl

lemma test_first (len j : Nat) :
    (⟨len, fun k => if k = 0 then Bytes.zero 0 ||| 0x01 else Bytes.zero k⟩ : Bitmap).bitmapScanTest j
      = decide (j = 0) := by
  have hset : (⟨len, fun k => if k = 0 then Bytes.zero 0 ||| 0x01 else Bytes.zero k⟩ : Bitmap) =
      (⟨len, Bytes.zero⟩ : Bitmap).bitmapSet 0 true := by
    congr 1
  have hzero : (⟨len, Bytes.zero⟩ : Bitmap).bitmapScanTest j = false := by
    simp [bitmapScanTest, Bytes.zero]
  rw [hset, bitmapScanTest_bitmapSet, hzero]
  split_ifs with hj <;> simp [hj]

/-- The bits that `partition_format` writes, up to the end of the sector with bit number `bit_len`. -/
lemma test_blockBitmap (secCnt : UInt32)
    (hi : i < 4096 * ((blockBitmapBitLen secCnt).toNat / 4096 + 1)) :
    (blockBitmap secCnt).bitmapScanTest i = true ↔
      (blockBitmapBitLen secCnt).toNat < i ∨ i = 0 ∧ 8 ≤ (blockBitmapBitLen secCnt).toNat := by
  have hsize : (512 - blockBitmapBitLen secCnt / 8 % 512).toNat =
      512 - (blockBitmapBitLen secCnt).toNat / 8 % 512 := by
    rw [UInt32.toNat_sub_of_le]
    · rfl
    · exact (Nat.mod_lt _ (by decide)).le
  have hbyte : (blockBitmapBitLen secCnt / 8).toNat = (blockBitmapBitLen secCnt).toNat / 8 := rfl
  have hbit : (blockBitmapBitLen secCnt % 8).toNat = (blockBitmapBitLen secCnt).toNat % 8 := rfl
  simp only [blockBitmap, blockBitmapBuf, hsize, hbyte, hbit]
  rw [test_clearBits _ _ _ _ (by omega), test_fill, test_first]
  split_ifs with h1 h2
  · simp only [false_iff]
    omega
  · simp only [true_iff]
    omega
  · rw [decide_eq_true_iff]
    omega

variable (sb : SuperBlock)

/-- The words of a super block, in the order of its fields. -/
def sbWords : List Nat :=
  [sb.magic, sb.secCnt, sb.inodeCnt, sb.partLbaBase, sb.blockBitmapLba, sb.blockBitmapSects,
    sb.inodeBitmapLba, sb.inodeBitmapSects, sb.inodeTableLba, sb.inodeTableSects, sb.dataStartLba,
    sb.rootInodeNo, sb.dirEntrySize]

/-- The super block in memory; the padding is what the stack held. -/
def sbSector (stack : Bytes) : Bytes :=
  stack.setWords 0 (fun j => UInt32.ofNat ((sbWords sb).getD j 0)) 13

/-- The super block that `mount_partition` reads. -/
def readSb (disk : Bytes) (lba : Nat) : SuperBlock :=
  let word := fun j => ((ideRead disk lba Bytes.zero 0 1).u32 (4 * j)).toNat
  ⟨word 0, word 1, word 2, word 3, word 4, word 5, word 6, word 7, word 8, word 9, word 10, word 11,
    word 12⟩

/-- The inode bitmap buffer: inode 0 is that of the root directory. -/
def inodeBitmapBuf : Bytes := fun k => if k = 0 then Bytes.zero 0 ||| 0x1 else Bytes.zero k

/-- The inode table buffer: the root directory holds two entries in the first data block. -/
def inodeTableBuf : Bytes :=
  ((Bytes.zero.setU32 4 (UInt32.ofNat (sb.dirEntrySize * 2))).setU32 0 0).setU32 16
    (UInt32.ofNat sb.dataStartLba)

/-- The first block of the root directory, with its entries `.` and `..`. -/
def rootBuf : Bytes :=
  let dot : UInt8 := 46
  let buf := ((Bytes.zero.fill 0 dot 1).setU32 16 0).setU32 20 2
  ((buf.fill 24 dot 2).setU32 40 0).setU32 44 2

/-- `partition_format`. -/
def partitionFormat (startLba secCnt : UInt32) (stack disk : Bytes) : Bytes :=
  let sb := superBlock startLba secCnt
  let disk := ideWrite disk (startLba + 1).toNat (sbSector sb stack) 0 1
  let disk := ideWrite disk sb.blockBitmapLba (blockBitmapBuf secCnt) 0 sb.blockBitmapSects
  let disk := ideWrite disk sb.inodeBitmapLba inodeBitmapBuf 0 sb.inodeBitmapSects
  let disk := ideWrite disk sb.inodeTableLba (inodeTableBuf sb) 0 sb.inodeTableSects
  ideWrite disk sb.dataStartLba rootBuf 0 1

section Disk

variable (p : Partition) (stack disk : Bytes)

/-- The disk after `partition_format`. -/
def formatted : Bytes :=
  partitionFormat (UInt32.ofNat p.startLba) (UInt32.ofNat p.secCnt) stack disk

/-- The regions are written one behind the other, so each write stays on the disk. -/
lemma formatted_eq :
    formatted p stack disk =
      ((((disk.copy (512 * (p.startLba + 1)) (sbSector p.sb stack) 0 (512 * 1)).copy
        (512 * p.sb.blockBitmapLba) (blockBitmapBuf (UInt32.ofNat p.secCnt)) 0
          (512 * p.sb.blockBitmapSects)).copy
        (512 * p.sb.inodeBitmapLba) inodeBitmapBuf 0 (512 * 1)).copy
        (512 * p.sb.inodeTableLba) (inodeTableBuf p.sb) 0 (512 * 608)).copy
        (512 * p.sb.dataStartLba) rootBuf 0 (512 * 1) := by
  have hle := p.lba_le
  have hone : (UInt32.ofNat p.startLba + 1).toNat = p.startLba + 1 := by
    simp only [UInt32.toNat_add, UInt32.toNat_ofNat', UInt32.toNat_one]
    omega
  simp only [formatted, partitionFormat, superBlock_eq, hone, ideWrite_eq]
  rfl

lemma formatted_front (hk : k < 512 * p.sb.inodeBitmapLba) :
    formatted p stack disk k =
      (disk.copy (512 * (p.startLba + 1)) (sbSector p.sb stack) 0 (512 * 1)).copy
        (512 * p.sb.blockBitmapLba) (blockBitmapBuf (UInt32.ofNat p.secCnt)) 0
          (512 * p.sb.blockBitmapSects) k := by
  have htable := p.inodeTableLba_eq
  have hdata := p.dataStartLba_eq
  rw [formatted_eq, copy_outside _ _ (by omega), copy_outside _ _ (by omega),
    copy_outside _ _ (by omega)]

lemma blockBitmap_formatted (hk : k < 512 * p.sb.blockBitmapSects) :
    formatted p stack disk (512 * p.sb.blockBitmapLba + k) =
      blockBitmapBuf (UInt32.ofNat p.secCnt) k := by
  have hinode := p.inodeBitmapLba_eq
  rw [formatted_front _ _ _ (by omega), copy_inside _ _ (by omega), Nat.zero_add,
    Nat.add_sub_cancel_left]

lemma sbWords_lt : ∀ n ∈ sbWords p.sb, n < 2 ^ 32 := by
  have hle := p.lba_le
  have hsects := p.blockBitmapSects_le
  have hlba : p.sb.blockBitmapLba = p.startLba + 2 := rfl
  have hinode := p.inodeBitmapLba_eq
  have htable := p.inodeTableLba_eq
  have hdata := p.dataStartLba_eq
  obtain ⟨h0, h1, h2, h3, h7, h9, h11, h12⟩ : p.sb.magic = 0x19590318 ∧ p.sb.secCnt = p.secCnt ∧
      p.sb.inodeCnt = 4096 ∧ p.sb.partLbaBase = p.startLba ∧ p.sb.inodeBitmapSects = 1 ∧
      p.sb.inodeTableSects = 608 ∧ p.sb.rootInodeNo = 0 ∧ p.sb.dirEntrySize = 24 :=
    ⟨rfl, rfl, rfl, rfl, rfl, rfl, rfl, rfl⟩
  simp only [sbWords, List.mem_cons, List.not_mem_nil, or_false]
  all_goals omega

/-- `mount_partition` reads the super block back. -/
theorem readSb_formatted : readSb (formatted p stack disk) (p.startLba + 1) = p.sb := by
  have hlba : p.sb.blockBitmapLba = p.startLba + 2 := rfl
  have hinode := p.inodeBitmapLba_eq
  have hword : ∀ j < 13, ((ideRead (formatted p stack disk) (p.startLba + 1) Bytes.zero 0 1).u32
      (4 * j)).toNat = (sbWords p.sb).getD j 0 := by
    intro j hj
    have hsame : (ideRead (formatted p stack disk) (p.startLba + 1) Bytes.zero 0 1).u32 (4 * j) =
        (sbSector p.sb stack).u32 (0 + 4 * j) := by
      apply u32_congr
      intro k hk
      rw [ideRead_sector _ _ _ (by omega), formatted_front _ _ _ (by omega),
        copy_outside _ _ (by omega), copy_inside _ _ (by omega),
        Nat.add_sub_cancel_left, Nat.zero_add, Nat.zero_add]
    rw [hsame, sbSector, u32_setWords stack 0 _ hj, UInt32.toNat_ofNat', Nat.mod_eq_of_lt]
    rw [List.getD_eq_getElem _ _ (by exact hj)]
    exact sbWords_lt p _ (List.getElem_mem _)
  simp only [readSb]
  rw [hword 0 (by decide), hword 1 (by decide), hword 2 (by decide), hword 3 (by decide),
    hword 4 (by decide), hword 5 (by decide), hword 6 (by decide), hword 7 (by decide),
    hword 8 (by decide), hword 9 (by decide), hword 10 (by decide), hword 11 (by decide),
    hword 12 (by decide)]
  rfl

end Disk

end Format

end SimpleOs
