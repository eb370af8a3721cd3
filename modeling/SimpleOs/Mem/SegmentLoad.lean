import SimpleOs.Mem.PageWalk

/-!
# The pages of a segment

The allocation loop of `segment_load` in `userprog/exec.c`. It goes through the pages that the bytes
of the segment are in, once each, and takes a frame for those that are not present.
-/

namespace SimpleOs

open Function List

/-- The number of the page an address is in. -/
def pageOf (vaddr : BitVec 32) : Nat := vaddr.toNat / 4096

/-- The pages with a present directory entry and a present table entry, and the frames left in the
user pool. -/
structure PresentPages where
  present : Nat → Bool
  frames : Nat

/-- `get_a_page(PF_USER, vaddr)`, as far as the present bits go. -/
def PresentPages.getAPage (s : PresentPages) (vaddr : BitVec 32) : Option PresentPages :=
  if s.frames = 0 then none else some ⟨update s.present (pageOf vaddr) true, s.frames - 1⟩

/-- `occupy_pages`. -/
def occupyPages (filesz vaddr : BitVec 32) : BitVec 32 :=
  let sizeInFirstPage := 4096#32 - (vaddr &&& 0x00000fff#32)
  if sizeInFirstPage < filesz then
    let leftSize := filesz - sizeInFirstPage
    (leftSize + 4096#32 - 1#32) / 4096#32 + 1#32
  else 1#32

/-- The values of `vaddr_page` in the rounds of the loop. -/
def vaddrPages : (rounds : Nat) → (vaddrPage : BitVec 32) → List (BitVec 32)
  | 0, _ => []
  | rounds + 1, vaddrPage => vaddrPage :: vaddrPages rounds (vaddrPage + 4096#32)

/-- The loop. -/
def allocLoop : (rounds : Nat) → (vaddrPage : BitVec 32) → PresentPages → Option PresentPages
  | 0, _, s => some s
  | rounds + 1, vaddrPage, s =>
    (if s.present (pageOf vaddrPage) then some s else s.getAPage vaddrPage).bind
      (allocLoop rounds (vaddrPage + 4096#32))

/-- The pages that `segment_load` visits when no allocation fails. -/
def segmentPages (filesz vaddr : BitVec 32) : List (BitVec 32) :=
  vaddrPages (occupyPages filesz vaddr).toNat (vaddr &&& 0xfffff000#32)

/-- `segment_load` up to its `sys_lseek`. -/
def segmentLoad (filesz vaddr : BitVec 32) (s : PresentPages) : Option PresentPages :=
  allocLoop (occupyPages filesz vaddr).toNat (vaddr &&& 0xfffff000#32) s

/-! ### The rounds -/

variable {filesz vaddr : BitVec 32} {s s' : PresentPages}

lemma vaddrPages_eq (n a : Nat) :
    vaddrPages n (.ofNat 32 (4096 * a)) = (range' a n).map fun q => .ofNat 32 (4096 * q) := by
  induction n generalizing a with
  | zero => rfl
  | succ n ih =>
    have hnext : BitVec.ofNat 32 (4096 * a) + 4096#32 = .ofNat 32 (4096 * (a + 1)) :=
      (BitVec.ofNat_add ..).symm
    rw [vaddrPages, hnext, ih, range'_succ, map_cons]

/-- When the loop comes to its end, its pages are present and it took a frame for each of those
that had not been. -/
lemma allocLoop_eq_some (h : allocLoop n v s = some s')
    (hnodup : ((vaddrPages n v).map pageOf).Nodup) :
    (∀ q, s'.present q = true ↔ s.present q = true ∨ q ∈ (vaddrPages n v).map pageOf) ∧
      s'.frames + ((vaddrPages n v).filter fun p => !s.present (pageOf p)).length = s.frames := by
  induction n generalizing v s with
  | zero =>
    cases h
    simp [vaddrPages]
  | succ n ih =>
    obtain ⟨t, hround, hrest⟩ := Option.bind_eq_some_iff.1 h
    rw [vaddrPages, map_cons, nodup_cons] at hnodup
    obtain ⟨hpresent, hframes⟩ := ih hrest hnodup.2
    simp only [vaddrPages, map_cons, mem_cons, filter_cons]
    split_ifs at hround with hv
    · cases hround
      refine ⟨fun q => ?_, by simpa [hv] using hframes⟩
      rw [hpresent, or_left_comm, iff_or_self]
      rintro rfl
      exact .inl hv
    · rw [PresentPages.getAPage] at hround
      split_ifs at hround with hfree
      cases hround
      have hsame : (vaddrPages n (v + 4096#32)).filter
          (fun p => !update s.present (pageOf v) true (pageOf p)) =
          (vaddrPages n (v + 4096#32)).filter fun p => !s.present (pageOf p) := by
        -- no later round comes back to this page
        refine filter_congr fun p hp => ?_
        have hne : pageOf p ≠ pageOf v := fun heq => hnodup.1 (heq ▸ mem_map_of_mem hp)
        rw [update_of_ne hne]
      simp only [hsame] at hframes
      simp only [update_apply] at hpresent
      refine ⟨fun q => ?_, by simp [hv]; omega⟩
      rw [hpresent]
      split_ifs with hq <;> simp [hq]

/-! ### Their number -/

lemma toNat_and_fffff000 (v : BitVec 32) :
    (v &&& 0xfffff000#32).toNat = 4096 * (v.toNat / 4096) := by
  have hshift : v &&& 0xfffff000#32 = v >>> 12 <<< 12 := by
    ext i hi
    interval_cases i <;> simp
  rw [hshift, BitVec.toNat_shiftLeft, BitVec.toNat_ushiftRight, Nat.shiftLeft_eq,
    Nat.shiftRight_eq_div_pow]
  omega

section

variable (hsize : 1 ≤ filesz.toNat) (hend : vaddr.toNat + filesz.toNat ≤ 0xc0000000)
include hsize hend

lemma toNat_occupyPages :
    (occupyPages filesz vaddr).toNat =
      (vaddr.toNat + filesz.toNat - 1) / 4096 - vaddr.toNat / 4096 + 1 := by
  have hfirst : (4096#32 - (vaddr &&& 0x00000fff#32)).toNat = 4096 - vaddr.toNat % 4096 := by
    rw [BitVec.toNat_sub, toNat_and_fff, BitVec.toNat_ofNat]
    omega
  simp only [occupyPages, BitVec.lt_def, hfirst]
  split_ifs with hmore
  · simp only [BitVec.toNat_add, BitVec.toNat_sub, BitVec.toNat_udiv, hfirst, BitVec.toNat_ofNat,
      Nat.reducePow, Nat.reduceMod]
    omega
  · rw [BitVec.toNat_ofNat]
    omega

/-- The pages are those from the first byte's to the last byte's. -/
lemma segmentPages_eq :
    segmentPages filesz vaddr =
      (range' (vaddr.toNat / 4096)
        ((vaddr.toNat + filesz.toNat - 1) / 4096 - vaddr.toNat / 4096 + 1)).map
        fun q => .ofNat 32 (4096 * q) := by
  have hfirst : vaddr &&& 0xfffff000#32 = .ofNat 32 (4096 * (vaddr.toNat / 4096)) := by
    rw [← toNat_and_fffff000, BitVec.ofNat_toNat, BitVec.setWidth_eq]
  rw [segmentPages, toNat_occupyPages hsize hend, hfirst, vaddrPages_eq]

lemma mem_segmentPages (p : BitVec 32) :
    p ∈ segmentPages filesz vaddr ↔ 4096 ∣ p.toNat ∧
      ∃ a, vaddr.toNat ≤ a ∧ a < vaddr.toNat + filesz.toNat ∧ p.toNat ≤ a ∧ a < p.toNat + 4096 := by
  rw [segmentPages_eq hsize hend, mem_map]
  constructor
  · rintro ⟨q, hq, rfl⟩
    rw [mem_range'_1] at hq
    rw [BitVec.toNat_ofNat, Nat.mod_eq_of_lt (by omega)]
    exact ⟨⟨q, rfl⟩, max vaddr.toNat (4096 * q), by omega⟩
  · rintro ⟨⟨q, hq⟩, a, ha⟩
    refine ⟨q, mem_range'_1.2 (by omega), ?_⟩
    rw [← hq, BitVec.ofNat_toNat, BitVec.setWidth_eq]

lemma map_pageOf_segmentPages :
    (segmentPages filesz vaddr).map pageOf = range' (vaddr.toNat / 4096)
      ((vaddr.toNat + filesz.toNat - 1) / 4096 - vaddr.toNat / 4096 + 1) := by
  rw [segmentPages_eq hsize hend, map_map]
  refine (map_congr_left fun q hq => ?_).trans (map_id _)
  rw [mem_range'_1] at hq
  rw [comp_apply, pageOf, BitVec.toNat_ofNat, Nat.mod_eq_of_lt (by omega)]
  exact Nat.mul_div_cancel_left q (by decide)

end

end SimpleOs
