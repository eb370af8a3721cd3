import SimpleOs.Fs.Volume

/-!
# Data blocks

Which addresses are those of allocated data blocks, which sectors two disks share, and what the
allocation of a block changes.
-/

namespace SimpleOs

open Base

variable {p : Partition}

/-- `lba` is the address of an allocated data block. -/
def Vol.Holds (v : Vol p) (lba : UInt32) : Prop :=
  ∃ b < Vol.nBlocks p, v.blockUsed b = true ∧ lba.toNat = p.sb.dataStartLba + b

/-- The address of a data block. -/
def Vol.IsBlock (p : Partition) (lba : UInt32) : Prop :=
  ∃ b < Vol.nBlocks p, lba.toNat = p.sb.dataStartLba + b

/-- The bytes of sector `lba` are the same on both disks. -/
def SameSector (d d' : Bytes) (lba : Nat) : Prop := ∀ r < 512, d' (512 * lba + r) = d (512 * lba + r)

/-- The data blocks are the same on both volumes. -/
def Vol.SameData (v v' : Vol p) : Prop :=
  ∀ a, 512 * p.sb.dataStartLba ≤ a → v'.disk a = v.disk a

/-! ### Sectors -/

lemma SameSector.u32 {d d' : Bytes} {lba j : Nat} (h : SameSector d d' lba) (hj : j < 128) :
    d'.u32 (512 * lba + 4 * j) = d.u32 (512 * lba + 4 * j) := by
  apply Bytes.u32_congr
  intro r hr
  rw [Nat.add_assoc]
  exact h (4 * j + r) (by omega)

lemma SameSector.trans {d d' d'' : Bytes} {lba : Nat} (h : SameSector d d' lba)
    (h' : SameSector d' d'' lba) : SameSector d d'' lba :=
  fun r hr => (h' r hr).trans (h r hr)

lemma sameSector_ideWrite (d buf : Bytes) (h : lba ≠ lba') :
    SameSector d (ideWrite d lba' buf 0 1) lba := by
  intro r hr
  rw [ideWrite_eq]
  apply Bytes.copy_outside
  rcases Nat.lt_or_gt_of_ne h with h | h <;> omega

lemma Vol.SameData.trans {v v' v'' : Vol p} (h : v.SameData v') (h' : v'.SameData v'') :
    v.SameData v'' :=
  fun a ha => (h' a ha).trans (h a ha)

variable {v v' : Vol p}

lemma Vol.SameData.sameSector (h : v.SameData v')
    (hlba : p.sb.dataStartLba ≤ lba) : SameSector v.disk v'.disk lba :=
  fun r _ => h _ (by omega)

lemma Vol.Holds.ge (h : v.Holds lba) : p.sb.dataStartLba ≤ lba.toNat := by
  obtain ⟨b, -, -, h⟩ := h
  omega

lemma Vol.Holds.isBlock (h : v.Holds lba) : Vol.IsBlock p lba := by
  obtain ⟨b, hb, -, hlba⟩ := h
  exact ⟨b, hb, hlba⟩

lemma Vol.Holds.ne_zero (h : v.Holds lba) : lba ≠ 0 := by
  rintro rfl
  have h1 := h.ge
  have h2 := p.dataStartLba_pos
  simp only [UInt32.toNat_zero] at h1
  omega

lemma Vol.Holds.mono (h : v.Holds lba)
    (hmono : ∀ b, v.blockUsed b = true → v'.blockUsed b = true) : v'.Holds lba := by
  obtain ⟨b, hb, hu, h⟩ := h
  exact ⟨b, hb, hmono b hu, h⟩

/-! ### Allocation -/

/-- What `block_bitmap_alloc` followed by `bitmap_sync` does: it takes a free block and leaves the
data blocks as they were. -/
structure Vol.Allocated (v v' : Vol p) (lba : UInt32) : Prop where
  holds : v'.Holds lba
  fresh : ∀ x, v.Holds x → x ≠ lba
  mono : ∀ b, v.blockUsed b = true → v'.blockUsed b = true
  sameDisk : ∀ a, 512 * p.sb.inodeTableLba ≤ a → v'.disk a = v.disk a
  inodeUsed : ∀ i, v'.inodeUsed i = v.inodeUsed i

lemma Vol.Allocated.sameData (h : v.Allocated v' lba) : v.SameData v' := by
  intro a ha
  have := p.dataStartLba_eq
  exact h.sameDisk a (by omega)

private lemma toNat_ofNat_lba (hb : b < Vol.nBlocks p) :
    (UInt32.ofNat (p.sb.dataStartLba + b)).toNat = p.sb.dataStartLba + b := by
  have := p.dataStartLba_add_lt (i := b) hb
  simp only [UInt32.toNat_ofNat']
  omega

/-- A block that was just taken, with or without the bitmap written back. -/
lemma Vol.allocated_of_alloc (h : v.blockBitmapAlloc = some (lba, v')) :
    v.Allocated v' (UInt32.ofNat lba) ∧
      v.Allocated (v'.bitmapSync (lba - p.sb.dataStartLba) .blockBitmap) (UInt32.ofNat lba) := by
  obtain ⟨b, hb, hfree, rfl, rfl⟩ := Vol.blockBitmapAlloc_eq_some h
  have hlba := toNat_ofNat_lba hb
  have hfresh : ∀ x : UInt32, v.Holds x → x ≠ UInt32.ofNat (p.sb.dataStartLba + b) := by
    rintro x ⟨c, -, hu, hx⟩ rfl
    obtain rfl : b = c := by omega
    simp [hfree] at hu
  have hmono : ∀ c, v.blockUsed c = true → (v.setBlockBit b true).blockUsed c = true := by
    intro c hc
    simp [hc]
  refine ⟨⟨⟨b, hb, by simp, hlba⟩, hfresh, hmono, fun a _ => rfl, fun _ => rfl⟩,
    ⟨⟨b, hb, by simp, hlba⟩, hfresh, fun c hc => by simp [hc], ?_, fun i => by simp⟩⟩
  intro a ha
  rw [Nat.add_sub_cancel_left, Vol.disk_bitmapSync_of_ge _ hb ha, Vol.disk_setBlockBit]

/-- Nothing but the bitmap regions of the disk changes. -/
structure Vol.SameBlocks (v v' : Vol p) : Prop where
  blockUsed : ∀ b, v'.blockUsed b = v.blockUsed b
  sameDisk : ∀ a, 512 * p.sb.inodeTableLba ≤ a → v'.disk a = v.disk a
  inodeUsed : ∀ i, v'.inodeUsed i = v.inodeUsed i

lemma Vol.SameBlocks.refl (v : Vol p) : v.SameBlocks v :=
  ⟨fun _ => rfl, fun _ _ => rfl, fun _ => rfl⟩

lemma Vol.SameBlocks.holds_iff (h : v.SameBlocks v') (x : UInt32) : v'.Holds x ↔ v.Holds x := by
  simp only [Vol.Holds, h.blockUsed]

lemma Vol.SameBlocks.sameSector (h : v.SameBlocks v')
    (hx : v.Holds x) : SameSector v.disk v'.disk x.toNat := by
  intro r hr
  have h1 := hx.ge
  have h2 := p.dataStartLba_eq
  exact h.sameDisk _ (by omega)

lemma Vol.sameBlocks_of_alloc (h : v.blockBitmapAlloc = some (lba, v')) :
    v.SameBlocks ((v'.bitmapSync (lba - p.sb.dataStartLba) .blockBitmap).setBlockBit
      (lba - p.sb.dataStartLba) false) := by
  obtain ⟨b, hb, hfree, rfl, rfl⟩ := Vol.blockBitmapAlloc_eq_some h
  rw [Nat.add_sub_cancel_left]
  refine ⟨?_, ?_, fun i => by simp⟩
  · intro c
    by_cases hc : c = b
    · simp [hc, hfree]
    · simp [hc]
  · intro a ha
    rw [Vol.disk_setBlockBit, Vol.disk_bitmapSync_of_ge _ hb ha, Vol.disk_setBlockBit]

/-! ### Release -/

/-- Clear the bit of a block and write the bitmap back. -/
def Vol.freeBlock (v : Vol p) (lba : UInt32) : Vol p :=
  (v.setBlockBit (lba.toNat - p.sb.dataStartLba) false).bitmapSync
    (lba.toNat - p.sb.dataStartLba) .blockBitmap

/-- What giving a block back does. -/
structure Vol.Freed (v v' : Vol p) (lba : UInt32) : Prop where
  holds_iff : ∀ x, v'.Holds x ↔ v.Holds x ∧ x ≠ lba
  sameDisk : ∀ a, 512 * p.sb.inodeTableLba ≤ a → v'.disk a = v.disk a
  inodeUsed : ∀ i, v'.inodeUsed i = v.inodeUsed i

lemma Vol.freed_freeBlock (v : Vol p) (h : Vol.IsBlock p lba) : v.Freed (v.freeBlock lba) lba := by
  obtain ⟨b, hb, hlba⟩ := h
  have hidx : lba.toNat - p.sb.dataStartLba = b := by omega
  refine ⟨?_, ?_, fun i => by simp [Vol.freeBlock]⟩
  · intro x
    simp only [Vol.Holds, Vol.freeBlock, hidx, Vol.blockUsed_bitmapSync, Vol.blockUsed_setBlockBit]
    constructor
    · rintro ⟨c, hc, hu, hx⟩
      split_ifs at hu with hcb
      refine ⟨⟨c, hc, hu, hx⟩, ?_⟩
      rintro rfl
      omega
    · rintro ⟨⟨c, hc, hu, hx⟩, hne⟩
      refine ⟨c, hc, ?_, hx⟩
      rw [if_neg, hu]
      rintro rfl
      exact hne (UInt32.toNat_inj.mp (by omega))
  · intro a ha
    rw [Vol.freeBlock, hidx, Vol.disk_bitmapSync_of_ge _ hb ha, Vol.disk_setBlockBit]

lemma Vol.Freed.sameSector (h : v.Freed v' lba) (hx : v.Holds x) :
    SameSector v.disk v'.disk x.toNat := by
  intro r hr
  have h1 := hx.ge
  have h2 := p.dataStartLba_eq
  exact h.sameDisk _ (by omega)

end SimpleOs
