import Mathlib
import SimpleOs.Fs.Calls

/-!
# Bitmaps in memory and on disk

Which sectors of the two bitmaps are the same on disk as in memory, and what the steps of the
allocators change of it. `bitmap_sync` writes back the one sector that holds a bit.
-/

namespace SimpleOs

open Base Bytes Bitmap

variable {p : Partition}

namespace Vol

/-- Sector `i` of the block bitmap is the same on disk as in memory. -/
def BlockSynced (v : Vol p) (i : Nat) : Prop :=
  ∀ r < 512, v.disk (512 * (p.sb.blockBitmapLba + i) + r) = v.blockBitmap.bits (512 * i + r)

/-- Sector `i` of the inode bitmap is the same on disk as in memory. -/
def InodeSynced (v : Vol p) (i : Nat) : Prop :=
  ∀ r < 512, v.disk (512 * (p.sb.inodeBitmapLba + i) + r) = v.inodeBitmap.bits (512 * i + r)

/-- Every sector of the block bitmap is the same on disk as in memory. -/
def BlocksAgree (v : Vol p) : Prop := ∀ i < p.sb.blockBitmapSects, v.BlockSynced i

/-- Every sector of both bitmaps is the same on disk as in memory. -/
structure BitmapsAgree (v : Vol p) : Prop where
  block : v.BlocksAgree
  inode : ∀ i < p.sb.inodeBitmapSects, v.InodeSynced i

variable {v v' v'' : Vol p} {i j : Nat}

/-! ### Steps -/

/-- The inode bitmap is the same, in memory and on disk. -/
structure SameInodeBitmap (v v' : Vol p) : Prop where
  bits : v'.inodeBitmap.bits = v.inodeBitmap.bits
  disk : ∀ r < 512, v'.disk (512 * p.sb.inodeBitmapLba + r) = v.disk (512 * p.sb.inodeBitmapLba + r)

/-- A step keeps the block bitmap the same on disk as in memory, and leaves the inode bitmap alone. -/
structure SyncStep (v v' : Vol p) : Prop where
  blocks : v.BlocksAgree → v'.BlocksAgree
  inodes : v.SameInodeBitmap v'

lemma SameInodeBitmap.trans (h : v.SameInodeBitmap v') (h' : v'.SameInodeBitmap v'') :
    v.SameInodeBitmap v'' :=
  ⟨h'.bits.trans h.bits, fun r hr => (h'.disk r hr).trans (h.disk r hr)⟩

lemma SyncStep.refl (v : Vol p) : v.SyncStep v := ⟨id, rfl, fun _ _ => rfl⟩

lemma SyncStep.trans (h : v.SyncStep v') (h' : v'.SyncStep v'') : v.SyncStep v'' :=
  ⟨fun hv => h'.blocks (h.blocks hv), h.inodes.trans h'.inodes⟩

lemma SameInodeBitmap.inodeSynced (h : v.SameInodeBitmap v') (hi : i < p.sb.inodeBitmapSects)
    (hs : v.InodeSynced i) : v'.InodeSynced i := by
  rw [Partition.sb_inodeBitmapSects, Nat.lt_one_iff] at hi
  subst hi
  intro r hr
  rw [h.bits, ← hs r hr]
  exact h.disk r hr

lemma SyncStep.agree (h : v.SyncStep v') (hv : v.BitmapsAgree) : v'.BitmapsAgree :=
  ⟨h.blocks hv.block, fun i hi => h.inodes.inodeSynced hi (hv.inode i hi)⟩

/-- Only bytes outside of the bitmaps change. -/
structure SameBitmaps (v v' : Vol p) : Prop where
  block : v'.blockBitmap.bits = v.blockBitmap.bits
  inode : v'.inodeBitmap.bits = v.inodeBitmap.bits
  disk : ∀ a, 512 * p.sb.blockBitmapLba ≤ a → a < 512 * p.sb.inodeTableLba → v'.disk a = v.disk a

lemma SameBitmaps.refl (v : Vol p) : v.SameBitmaps v := ⟨rfl, rfl, fun _ _ _ => rfl⟩

section

variable (h : v.SameBitmaps v')
include h

lemma SameBitmaps.trans (h' : v'.SameBitmaps v'') : v.SameBitmaps v'' :=
  ⟨h'.block.trans h.block, h'.inode.trans h.inode,
    fun a hlow hhigh => (h'.disk a hlow hhigh).trans (h.disk a hlow hhigh)⟩

lemma SameBitmaps.blockSynced_iff (hi : i < p.sb.blockBitmapSects) :
    v'.BlockSynced i ↔ v.BlockSynced i := by
  have hinode := p.inodeBitmapLba_eq
  have htable := p.inodeTableLba_eq
  refine forall₂_congr fun r hr => ?_
  rw [h.block, h.disk _ (by omega) (by omega)]

lemma SameBitmaps.blocksAgree_iff : v'.BlocksAgree ↔ v.BlocksAgree :=
  forall₂_congr fun _ hi => h.blockSynced_iff hi

lemma SameBitmaps.syncStep : v.SyncStep v' := by
  have hinode := p.inodeBitmapLba_eq
  have htable := p.inodeTableLba_eq
  exact ⟨h.blocksAgree_iff.mpr, h.inode, fun r hr => h.disk _ (by omega) (by omega)⟩

end

/-- A sector that is not one of the bitmaps': one behind them, or the very first of the disk. -/
def OffBitmaps (p : Partition) (lba : Nat) : Prop := lba = 0 ∨ p.sb.inodeTableLba ≤ lba

lemma sameBitmaps_ideWrite (v : Vol p) (h : OffBitmaps p lba) (buf : Bytes) :
    v.SameBitmaps (v.setDisk (ideWrite v.disk lba buf 0 1)) := by
  refine ⟨rfl, rfl, fun a hlow hhigh => ?_⟩
  have hblock : p.sb.blockBitmapLba = p.startLba + 2 := rfl
  rw [ideWrite_eq]
  apply copy_outside
  rcases h with rfl | hge <;> omega

lemma sameBitmaps_inodeSync (v : Vol p) (ino : Inode) (buf : Bytes) :
    v.SameBitmaps (v.inodeSync ino buf) := by
  refine ⟨rfl, rfl, fun a _ hhigh => ?_⟩
  rw [disk_inodeSync]
  apply copy_outside
  simp only [slotAddr]
  omega

lemma sameBitmaps_inodeDelete (v : Vol p) (n : Nat) (buf : Bytes) :
    v.SameBitmaps (v.inodeDelete n buf) := by
  refine ⟨rfl, rfl, fun a _ hhigh => ?_⟩
  have hlba : p.sb.inodeTableLba ≤ (inodeLocate p n).secLba := Nat.le_add_right _ _
  rw [inodeDelete, ideWrite_eq]
  apply copy_outside
  omega

/-! ### `bitmap_set` and `bitmap_sync` -/

lemma bits_bitmapSet_of_ne (b : Bitmap) (x : Bool) (h : k ≠ i / 8) :
    (b.bitmapSet i x).bits k = b.bits k := by
  simp [bitmapSet, h]

lemma blockSynced_setBlockBit (h : j ≠ i / 4096) (x : Bool) :
    (v.setBlockBit i x).BlockSynced j ↔ v.BlockSynced j := by
  refine forall₂_congr fun r hr => ?_
  rw [setBlockBit, bits_bitmapSet_of_ne]
  omega

lemma not_blockSynced_setBlockBit (h : v.BlockSynced (i / 4096)) (hx : v.blockUsed i ≠ x) :
    ¬(v.setBlockBit i x).BlockSynced (i / 4096) := by
  intro hs
  have hidx : 512 * (i / 4096) + i / 8 % 512 = i / 8 := by omega
  have hbefore := h (i / 8 % 512) (Nat.mod_lt _ (by omega))
  have hafter := hs (i / 8 % 512) (Nat.mod_lt _ (by omega))
  rw [disk_setBlockBit, hbefore, hidx] at hafter
  have hbit : (v.setBlockBit i x).blockUsed i = v.blockUsed i := by
    simp only [blockUsed, bitmapScanTest, hafter]
  rw [blockUsed_setBlockBit, if_pos rfl] at hbit
  exact hx hbit.symm

lemma blockSynced_bitmapSync_self (v : Vol p) (i : Nat) :
    (v.bitmapSync i .blockBitmap).BlockSynced (i / 4096) := by
  intro r hr
  simp only [bitmapSync, disk_setDisk, ideWrite_eq]
  rw [copy_inside _ _ (by omega)]
  congr 1
  omega

lemma blockSynced_bitmapSync_of_ne (h : j ≠ i / 4096) :
    (v.bitmapSync i .blockBitmap).BlockSynced j ↔ v.BlockSynced j := by
  refine forall₂_congr fun r hr => ?_
  simp only [bitmapSync, disk_setDisk, ideWrite_eq]
  rw [copy_outside _ _ (by omega)]
  rfl

lemma inodeSynced_bitmapSync_self (v : Vol p) (i : Nat) :
    (v.bitmapSync i .inodeBitmap).InodeSynced (i / 4096) := by
  intro r hr
  simp only [bitmapSync, disk_setDisk, ideWrite_eq]
  rw [copy_inside _ _ (by omega)]
  show v.inodeBitmap.bits _ = v.inodeBitmap.bits _
  congr 1
  omega

lemma blockSynced_bitmapSync_inode (hj : j < p.sb.blockBitmapSects) :
    (v.bitmapSync i .inodeBitmap).BlockSynced j ↔ v.BlockSynced j := by
  refine forall₂_congr fun r hr => ?_
  have hinode := p.inodeBitmapLba_eq
  simp only [bitmapSync, disk_setDisk, ideWrite_eq]
  rw [copy_outside _ _ (by omega)]
  rfl

/-! ### Bits that are written back -/

lemma syncStep_setBlockBit (v : Vol p) (hi : i < nBlocks p) (x : Bool) :
    v.SyncStep ((v.setBlockBit i x).bitmapSync i .blockBitmap) := by
  refine ⟨fun h j hj => ?_, rfl, fun r hr => ?_⟩
  · by_cases hji : j = i / 4096
    · subst hji
      exact blockSynced_bitmapSync_self _ i
    · rw [blockSynced_bitmapSync_of_ne hji, blockSynced_setBlockBit hji]
      exact h j hj
  · have hinode := p.inodeBitmapLba_eq
    rw [nBlocks] at hi
    simp only [bitmapSync, disk_setDisk, ideWrite_eq]
    exact copy_outside _ _ (by omega)

lemma agree_bitmapSync_inode (h : v.BlocksAgree) (hi : i < 4096) :
    (v.bitmapSync i .inodeBitmap).BitmapsAgree := by
  refine ⟨fun j hj => ?_, fun j hj => ?_⟩
  · rw [blockSynced_bitmapSync_inode hj]
    exact h j hj
  · rw [Partition.sb_inodeBitmapSects] at hj
    obtain rfl : j = i / 4096 := by omega
    exact inodeSynced_bitmapSync_self _ i

variable {lba : Nat}

/-- `block_bitmap_alloc` followed by `bitmap_sync`. -/
lemma syncStep_alloc (halloc : v.blockBitmapAlloc = some (lba, v')) :
    v.SyncStep (v'.bitmapSync (lba - p.sb.dataStartLba) .blockBitmap) := by
  obtain ⟨b, hb, -, rfl, rfl⟩ := blockBitmapAlloc_eq_some halloc
  rw [Nat.add_sub_cancel_left]
  exact syncStep_setBlockBit v hb true

lemma IsBlock.offBitmaps {lba : UInt32} (h : IsBlock p lba) : OffBitmaps p lba.toNat := by
  obtain ⟨b, -, hlba⟩ := h
  have := p.dataStartLba_eq
  exact .inr (by omega)

lemma syncStep_freeBlock (v : Vol p) {lba : UInt32} (hlba : IsBlock p lba) :
    v.SyncStep (v.freeBlock lba) := by
  obtain ⟨b, hb, hlba⟩ := hlba
  rw [Vol.freeBlock, hlba, Nat.add_sub_cancel_left]
  exact syncStep_setBlockBit v hb false

lemma isBlock_alloc (halloc : v.blockBitmapAlloc = some (lba, v')) : IsBlock p (UInt32.ofNat lba) :=
  (allocated_of_alloc halloc).1.holds.isBlock

/-- The number that `inode_bitmap_alloc` took is given back, and the inode bitmap is as it was. -/
lemma sameInodeBitmap_giveBack (halloc : v.inodeBitmapAlloc = some (n, v1))
    (h : v1.SameInodeBitmap v') : v.SameInodeBitmap (v'.setInodeBit n false) := by
  obtain ⟨-, hfree, -, rfl⟩ := inodeBitmapAlloc_eq_some halloc
  refine ⟨?_, h.disk⟩
  have hbits := congrArg bits (bitmapSet_true_false hfree)
  rw [← hbits]
  simp only [setInodeBit, bitmapSet] at h ⊢
  simp only [h.bits]

/-! ### Free blocks -/

lemma blockBitmapAlloc_first (h : v.blockBitmapAlloc = some (lba, v')) :
    ∃ b, v.blockBitmap.bitmapScan 1 = some b ∧ b < nBlocks p ∧ v.blockUsed b = false ∧
      (∀ c < b, v.blockUsed c = true) ∧ lba = p.sb.dataStartLba + b ∧ v' = v.setBlockBit b true := by
  rw [blockBitmapAlloc] at h
  split at h
  · cases h
  · rename_i b hscan
    obtain ⟨hlt, hfree, hfirst⟩ := bitmapScan_one_eq_some hscan
    cases h
    rw [v.blockBitmap_len] at hlt
    exact ⟨b, hscan, hlt, hfree, hfirst, rfl, rfl⟩

/-- The blocks that are free. -/
def freeBlocks (v : Vol p) : Finset Nat := (Finset.range (nBlocks p)).filter fun b => v.blockUsed b = false

lemma blockBitmapAlloc_eq_none_iff : v.blockBitmapAlloc = none ↔ v.freeBlocks.card = 0 := by
  rw [Finset.card_eq_zero, freeBlocks, Finset.filter_eq_empty_iff]
  constructor
  · intro hnone b hb hfree
    rw [Finset.mem_range, nBlocks, ← v.blockBitmap_len] at hb
    obtain ⟨j, hj⟩ := exists_bitmapScan_one hb hfree
    simp [blockBitmapAlloc, hj] at hnone
  · intro hall
    by_contra hsome
    obtain ⟨⟨lba, v'⟩, hsome⟩ := Option.ne_none_iff_exists'.mp hsome
    obtain ⟨b, hb, hfree, -⟩ := blockBitmapAlloc_eq_some hsome
    exact hall (Finset.mem_range.mpr hb) hfree

lemma freeBlocks_setBlockBit (hi : i < nBlocks p) (hfree : v.blockUsed i = false) :
    (v.setBlockBit i true).freeBlocks.card + 1 = v.freeBlocks.card := by
  have hmem : i ∈ v.freeBlocks := Finset.mem_filter.mpr ⟨Finset.mem_range.mpr hi, hfree⟩
  have herase : (v.setBlockBit i true).freeBlocks = v.freeBlocks.erase i := by
    ext b
    simp only [freeBlocks, Finset.mem_filter, Finset.mem_erase, blockUsed_setBlockBit]
    by_cases hb : b = i
    · simp [hb]
    · simp [hb]
  rw [herase, Finset.card_erase_add_one hmem]

lemma card_freeBlocks_alloc (halloc : v.blockBitmapAlloc = some (lba, v')) :
    v'.freeBlocks.card + 1 = v.freeBlocks.card := by
  obtain ⟨b, hb, hfree, -, rfl⟩ := blockBitmapAlloc_eq_some halloc
  exact freeBlocks_setBlockBit hb hfree

lemma card_freeBlocks_bitmapSync (v : Vol p) (i : Nat) (t : BitmapType) :
    (v.bitmapSync i t).freeBlocks.card = v.freeBlocks.card := by
  simp only [freeBlocks, blockUsed_bitmapSync]

lemma card_freeBlocks_setDisk (v : Vol p) (d : Bytes) :
    (v.setDisk d).freeBlocks.card = v.freeBlocks.card := rfl

end Vol

end SimpleOs
