import SimpleOs.Base.Loop
import SimpleOs.Lib.Bitmap

/-!
# First fit

`bitmap_scan` with the types of the source: the indices are 32-bit and the result is an `int`.
The loop that looks for a run tests one bit more than the bitmap has.
-/

namespace SimpleOs

open Base

namespace Bitmap

/-- The last loop of `bitmap_scan` on 32-bit indices. -/
def scanRunInt (b : Bitmap) (cnt : UInt32) : (bitLeft : Nat) → (nextBit count : UInt32) → Int32
  | 0, _, _ => -1
  | left + 1, nextBit, count =>
    let count' := if b.bitmapScanTest nextBit.toNat then 0 else count + 1
    if count' = cnt then (nextBit - cnt + 1).toInt32 else scanRunInt b cnt left (nextBit + 1) count'

variable (b : Bitmap)

/-- `bitmap_scan` as the source computes it. -/
def bitmapScanInt (cnt : UInt32) : Int32 :=
  let idxByte := skipFull b.bits b.btmpBytesLen 0
  if idxByte = b.btmpBytesLen then -1
  else
    let idxBit := skipSet (b.bits idxByte) 8 0
    let bitIdxStart : UInt32 := UInt32.ofNat idxByte * 8 + UInt32.ofNat idxBit
    if cnt = 1 then bitIdxStart.toInt32
    else
      let bitLeft : UInt32 := UInt32.ofNat b.btmpBytesLen * 8 - bitIdxStart
      scanRunInt b cnt bitLeft.toNat (bitIdxStart + 1) 1

/-- The starts of the runs of `cnt` clear bits inside the bitmap. -/
def freeRuns (cnt : Nat) : Set Nat :=
  clearRuns b.bitmapScanTest cnt (8 * b.btmpBytesLen)

/-- The `int` that stands for the start of the lowest run of `A`, or for there being none. -/
structure FirstFit (A : Set Nat) (r : Int32) : Prop where
  nonneg : 0 ≤ r.toInt ↔ A.Nonempty
  least : 0 ≤ r.toInt → IsLeast A r.toInt.toNat
  none : A = ∅ → r = -1

/-- What the last loop sees when the first clear bit is `s`: the bit `k` behind it, the index
taken modulo `2 ^ 32`. The first clear bit itself is counted without a test. -/
def seen (s k : Nat) : Bool := k ≠ 0 && b.bitmapScanTest ((s + k) % 2 ^ 32)

/-- The runs the last loop finds, as distances from the first clear bit `s`. -/
def seenRuns (cnt s : Nat) : Set Nat :=
  clearRuns (b.seen s) cnt ((8 * b.btmpBytesLen - s) % 2 ^ 32 + 1)

/-- `s` is the lowest clear bit. -/
def FirstClear (s : Nat) : Prop :=
  s < 8 * b.btmpBytesLen ∧ b.bitmapScanTest s = false ∧ ∀ j < s, b.bitmapScanTest j = true

/-- When the scan is first fit. -/
structure ScanExact (b : Bitmap) (cnt : Nat) : Prop where
  /-- The index of the lowest run is not too large for an `int`. -/
  index : ∀ i, IsLeast (b.freeRuns cnt) i → i < 2 ^ 31
  /-- When no run is inside the bitmap, none ends with the first bit behind it. -/
  behind : 8 * b.btmpBytesLen < 2 ^ 32 → 2 ≤ cnt → b.freeRuns cnt = ∅ →
    clearRuns b.bitmapScanTest cnt (8 * b.btmpBytesLen + 1) = ∅
  /-- In a bitmap whose bits have no 32-bit index each, the wrapped indices lead to the same run. -/
  wrapped : 2 ^ 32 ≤ 8 * b.btmpBytesLen → 2 ≤ cnt → ∀ s, b.FirstClear s →
    (b.seenRuns cnt s = ∅ → b.freeRuns cnt = ∅) ∧
      ∀ k, IsLeast (b.seenRuns cnt s) k →
        (∀ i, IsLeast (b.freeRuns cnt) i → (s + k) % 2 ^ 32 = i) ∧
          (b.freeRuns cnt = ∅ → (s + k) % 2 ^ 32 = 2 ^ 32 - 1)

/-! ### Indices as `int`s -/

lemma toInt_index (n : Nat) :
    (UInt32.ofNat n).toInt32.toInt =
      if n % 2 ^ 32 < 2 ^ 31 then ((n % 2 ^ 32 : Nat) : Int) else ((n % 2 ^ 32 : Nat) : Int) - 2 ^ 32 := by
  have h : (UInt32.ofNat n).toInt32.toInt = (n : Int).bmod (2 ^ 32) := by simp
  have hmod : (n : Int) % (2 ^ 32 : Nat) = ((n % 2 ^ 32 : Nat) : Int) := by push_cast; rfl
  rw [h, Int.bmod_def]
  split_ifs <;> omega

lemma index_eq_neg_one_iff (n : Nat) : (UInt32.ofNat n).toInt32 = -1 ↔ n % 2 ^ 32 = 2 ^ 32 - 1 := by
  rw [← Int32.toInt_inj, toInt_index, show (-1 : Int32).toInt = -1 by decide]
  have hlt : n % 2 ^ 32 < 2 ^ 32 := Nat.mod_lt _ (by decide)
  generalize n % 2 ^ 32 = m at hlt ⊢
  rcases Nat.lt_or_ge m (2 ^ 31) with h | h
  · omega
  · omega

lemma firstFit_neg_one {A : Set Nat} : FirstFit A (-1) ↔ A = ∅ := by
  have hneg : ¬ 0 ≤ (-1 : Int32).toInt := by decide
  refine ⟨fun h => ?_, fun h => ⟨?_, fun h0 => (hneg h0).elim, fun _ => rfl⟩⟩
  · rw [← Set.not_nonempty_iff_eq_empty]
    exact fun hA => hneg (h.nonneg.mpr hA)
  · simp [h]

/-- An index is right when it is that of the lowest run, and small enough. -/
lemma firstFit_index {A : Set Nat} (n : Nat) :
    FirstFit A (UInt32.ofNat n).toInt32 ↔
      (∀ i, IsLeast A i → i < 2 ^ 31 ∧ n % 2 ^ 32 = i) ∧ (A = ∅ → n % 2 ^ 32 = 2 ^ 32 - 1) := by
  have hint := toInt_index n
  refine ⟨fun h => ⟨fun i hi => ?_, fun hA => (index_eq_neg_one_iff n).mp (h.none hA)⟩, ?_⟩
  · have h0 := h.nonneg.mpr ⟨i, hi.1⟩
    have heq := (h.least h0).unique hi
    split_ifs at hint with hlt <;> omega
  · rintro ⟨hleast, hnone⟩
    rcases A.eq_empty_or_nonempty with rfl | hA
    · rw [(index_eq_neg_one_iff n).mpr (hnone rfl)]
      exact firstFit_neg_one.mpr rfl
    · obtain ⟨i, hi⟩ : ∃ i, IsLeast A i := by
        classical
        exact ⟨Nat.find hA, Nat.find_spec hA, fun j hj => Nat.find_min' hA hj⟩
      obtain ⟨hlt, hn⟩ := hleast i hi
      rw [if_pos (by omega), hn] at hint
      refine ⟨⟨fun _ => hA, fun _ => by omega⟩, fun _ => ?_, fun h => by simp [h] at hA⟩
      rwa [hint, Int.toNat_natCast]

/-! ### What the scan finds -/

lemma firstClear_start {b : Bitmap} (h : skipFull b.bits b.btmpBytesLen 0 ≠ b.btmpBytesLen) :
    b.FirstClear (skipFull b.bits b.btmpBytesLen 0 * 8 +
      skipSet (b.bits (skipFull b.bits b.btmpBytesLen 0)) 8 0) := by
  apply bitmapScan_one_eq_some
  simp only [bitmapScan, if_neg h, if_true]

/-- The last loop on 32-bit indices is the search for a run among the bits it sees. -/
lemma scanRunInt_eq {cnt : UInt32} {s left k count : Nat} (hk : 0 < k)
    (hcount : count < cnt.toNat) (hle : count ≤ k) :
    b.scanRunInt cnt left (UInt32.ofNat (s + k)) (UInt32.ofNat count) =
      match findRun (b.seen s) cnt.toNat left k count with
      | none => -1
      | some i => (UInt32.ofNat (s + i)).toInt32 := by
  induction left generalizing k count with
  | zero => rfl
  | succ left ih =>
    have hlt := cnt.toNat_lt
    have hseen : b.seen s k = b.bitmapScanTest (UInt32.ofNat (s + k)).toNat := by
      simp only [seen, UInt32.toNat_ofNat']
      rw [decide_eq_true (by omega : k ≠ 0), Bool.true_and]
    have hnext : UInt32.ofNat (s + k) + 1 = UInt32.ofNat (s + (k + 1)) := by
      rw [← UInt32.toNat_inj]
      simp [Nat.add_assoc]
    simp only [scanRunInt, findRun, hseen, hnext]
    by_cases ht : b.bitmapScanTest (UInt32.ofNat (s + k)).toNat = true
    · have hne : (0 : UInt32) ≠ cnt := by
        rintro rfl
        simp at hcount
      rw [if_pos ht, if_pos ht, if_neg hne, if_neg (by omega : (0 : Nat) ≠ cnt.toNat)]
      have hzero := @ih (k + 1) 0 (by omega) (by omega) (by omega)
      exact hzero
    · have hsucc : UInt32.ofNat count + 1 = UInt32.ofNat (count + 1) := by
        simp
      have hcnt : UInt32.ofNat (count + 1) = cnt ↔ count + 1 = cnt.toNat := by
        rw [← UInt32.toNat_inj, UInt32.toNat_ofNat', Nat.mod_eq_of_lt (by omega)]
      rw [if_neg ht, if_neg ht, hsucc]
      by_cases hfound : count + 1 = cnt.toNat
      · rw [if_pos (hcnt.mpr hfound), if_pos hfound]
        congr 1
        rw [← UInt32.toNat_inj]
        simp only [UInt32.toNat_add, UInt32.toNat_sub, UInt32.toNat_ofNat', UInt32.reduceToNat]
        omega
      · rw [if_neg (mt hcnt.mp hfound), if_neg hfound]
        exact ih (by omega) (by omega) (by omega)

/-- What `bitmap_scan` returns. -/
lemma bitmapScanInt_cases {cnt : UInt32} (hcnt : 0 < cnt.toNat) :
    ((∀ i < 8 * b.btmpBytesLen, b.bitmapScanTest i = true) ∧ b.bitmapScanInt cnt = -1) ∨
      ∃ s, b.FirstClear s ∧
        (cnt.toNat = 1 ∧ b.bitmapScanInt cnt = (UInt32.ofNat s).toInt32 ∨
          2 ≤ cnt.toNat ∧
            ((∃ k, IsLeast (b.seenRuns cnt.toNat s) k ∧
                b.bitmapScanInt cnt = (UInt32.ofNat (s + k)).toInt32) ∨
              b.seenRuns cnt.toNat s = ∅ ∧ b.bitmapScanInt cnt = -1)) := by
  by_cases hfull : skipFull b.bits b.btmpBytesLen 0 = b.btmpBytesLen
  · refine .inl ⟨bitmapScan_one_eq_none ?_, ?_⟩
    · simp only [bitmapScan, if_pos hfull]
    · simp only [bitmapScanInt, if_pos hfull]
  · refine .inr ⟨_, firstClear_start hfull, ?_⟩
    have hfirst := firstClear_start hfull
    simp only [bitmapScanInt, if_neg hfull]
    set s := skipFull b.bits b.btmpBytesLen 0 * 8 +
      skipSet (b.bits (skipFull b.bits b.btmpBytesLen 0)) 8 0 with hs
    have hstart : UInt32.ofNat (skipFull b.bits b.btmpBytesLen 0) * 8 +
        UInt32.ofNat (skipSet (b.bits (skipFull b.bits b.btmpBytesLen 0)) 8 0) =
          UInt32.ofNat s := by
      rw [hs]
      simp
    rw [hstart]
    by_cases hone : cnt = 1
    · exact .inl ⟨by simp [hone], by rw [if_pos hone]⟩
    · have htwo : 2 ≤ cnt.toNat := by
        have : cnt.toNat ≠ 1 := fun h => hone (UInt32.toNat_inj.mp h)
        omega
      have hleft : (UInt32.ofNat b.btmpBytesLen * 8 - UInt32.ofNat s).toNat =
          (8 * b.btmpBytesLen - s) % 2 ^ 32 := by
        have := hfirst.1
        simp only [UInt32.toNat_sub, UInt32.toNat_mul, UInt32.toNat_ofNat', UInt32.reduceToNat]
        omega
      have hsucc : UInt32.ofNat s + 1 = UInt32.ofNat (s + 1) := by
        simp
      refine .inr ⟨htwo, ?_⟩
      rw [if_neg hone, hleft, hsucc]
      generalize hl : (8 * b.btmpBytesLen - s) % 2 ^ 32 = left
      have hrun := @scanRunInt_eq b cnt s left 1 1 (by omega) (by omega) (by omega)
      have hspec := @findRun_spec (b.seen s) cnt.toNat left 1 1 (by omega) (by omega)
        (fun j _ hj => by simp [seen, show j = 0 by omega]) (fun i hi => by omega)
      rw [Nat.add_comm 1, ← hl] at hspec
      rw [show UInt32.ofNat 1 = 1 from rfl] at hrun
      rw [hrun, ← hl]
      rcases hspec with ⟨k, hk, hleast⟩ | ⟨hk, hempty⟩
      · exact .inl ⟨k, hleast, by rw [hk]⟩
      · exact .inr ⟨hempty, by rw [hk]⟩

/-! ### First fit -/

lemma FirstClear.le_of_mem {b : Bitmap} {s cnt i stop : Nat} (h : b.FirstClear s) (hcnt : 0 < cnt)
    (hi : i ∈ clearRuns b.bitmapScanTest cnt stop) : s ≤ i := by
  by_contra hlt
  have hset := h.2.2 i (by omega)
  rw [hi.1 i (Nat.le_refl _) (by omega)] at hset
  cases hset

lemma FirstClear.isLeast {b : Bitmap} {s : Nat} (h : b.FirstClear s) :
    IsLeast (b.freeRuns 1) s := by
  refine ⟨⟨fun j hj hlt => ?_, h.1⟩, fun i hi => h.le_of_mem Nat.one_pos hi⟩
  rw [show j = s by omega]
  exact h.2.1

lemma freeRuns_of_full {b : Bitmap} {cnt : Nat} (hcnt : 0 < cnt)
    (h : ∀ i < 8 * b.btmpBytesLen, b.bitmapScanTest i = true) : b.freeRuns cnt = ∅ := by
  refine Set.eq_empty_of_forall_notMem fun i hi => ?_
  have hset := h i (by have := hi.2; omega)
  rw [hi.1 i (Nat.le_refl _) (by omega)] at hset
  cases hset

/-- In a bitmap whose bits all have a 32-bit index, the loop sees the bits behind the first clear
bit as they are, with the one behind the bitmap. -/
lemma FirstClear.mem_seenRuns {b : Bitmap} {s cnt k : Nat} (h : b.FirstClear s)
    (hlen : 8 * b.btmpBytesLen < 2 ^ 32) :
    k ∈ b.seenRuns cnt s ↔ s + k ∈ clearRuns b.bitmapScanTest cnt (8 * b.btmpBytesLen + 1) := by
  have hs := h.1
  have hseen : ∀ j, s + j ≤ 8 * b.btmpBytesLen → b.seen s j = b.bitmapScanTest (s + j) := by
    intro j hj
    by_cases hj0 : j = 0
    · simp [seen, hj0, h.2.1]
    · rw [seen, decide_eq_true hj0, Bool.true_and, Nat.mod_eq_of_lt (by omega)]
  constructor
  · rintro ⟨hrun, hstop⟩
    refine ⟨fun j hj hlt => ?_, by omega⟩
    rw [show j = s + (j - s) by omega, ← hseen _ (by omega)]
    exact hrun _ (by omega) (by omega)
  · rintro ⟨hrun, hstop⟩
    refine ⟨fun j hj hlt => ?_, by omega⟩
    rw [hseen _ (by omega)]
    exact hrun _ (by omega) (by omega)

lemma isLeast_of_nonempty {b : Bitmap} {cnt i j : Nat} (hi : IsLeast (b.freeRuns cnt) i)
    (hj : IsLeast (clearRuns b.bitmapScanTest cnt (8 * b.btmpBytesLen + 1)) j) : j = i := by
  have hji : j ≤ i := hj.2 ⟨hi.1.1, Nat.le_succ_of_le hi.1.2⟩
  have hend : i + cnt ≤ 8 * b.btmpBytesLen := hi.1.2
  exact Nat.le_antisymm hji (hi.2 ⟨hj.1.1, by omega⟩)

lemma isLeast_seenRuns {b : Bitmap} {s cnt k : Nat} (h : b.FirstClear s) (hcnt : 0 < cnt)
    (hlen : 8 * b.btmpBytesLen < 2 ^ 32) (hk : IsLeast (b.seenRuns cnt s) k) :
    IsLeast (clearRuns b.bitmapScanTest cnt (8 * b.btmpBytesLen + 1)) (s + k) := by
  refine ⟨(h.mem_seenRuns hlen).mp hk.1, fun i hi => ?_⟩
  have hle := h.le_of_mem hcnt hi
  have hmem : i - s ∈ b.seenRuns cnt s := by
    rw [h.mem_seenRuns hlen, Nat.add_sub_cancel' hle]
    exact hi
  have := hk.2 hmem
  omega

lemma seenRuns_eq_empty {b : Bitmap} {s cnt : Nat} (h : b.FirstClear s) (hcnt : 0 < cnt)
    (hlen : 8 * b.btmpBytesLen < 2 ^ 32) (hnone : b.seenRuns cnt s = ∅) :
    clearRuns b.bitmapScanTest cnt (8 * b.btmpBytesLen + 1) = ∅ := by
  refine Set.eq_empty_of_forall_notMem fun i hi => ?_
  have hmem : i - s ∈ b.seenRuns cnt s := by
    rw [h.mem_seenRuns hlen, Nat.add_sub_cancel' (h.le_of_mem hcnt hi)]
    exact hi
  simp [hnone] at hmem

lemma freeRuns_subset (cnt : Nat) :
    b.freeRuns cnt ⊆ clearRuns b.bitmapScanTest cnt (8 * b.btmpBytesLen + 1) :=
  fun _ hi => ⟨hi.1, Nat.le_succ_of_le hi.2⟩

/-- The scan of a bitmap whose bits all have a 32-bit index, for two bits or more. -/
lemma firstFit_iff_of_short {b : Bitmap} {s : Nat} {cnt : Nat} {r : Int32} (h : b.FirstClear s)
    (hcnt : 2 ≤ cnt) (hlen : 8 * b.btmpBytesLen < 2 ^ 32)
    (hr : (∃ k, IsLeast (b.seenRuns cnt s) k ∧ r = (UInt32.ofNat (s + k)).toInt32) ∨
      b.seenRuns cnt s = ∅ ∧ r = -1) :
    FirstFit (b.freeRuns cnt) r ↔
      (∀ i, IsLeast (b.freeRuns cnt) i → i < 2 ^ 31) ∧
        (b.freeRuns cnt = ∅ →
          clearRuns b.bitmapScanTest cnt (8 * b.btmpBytesLen + 1) = ∅) := by
  rcases hr with ⟨k, hk, rfl⟩ | ⟨hnone, rfl⟩
  · have hleast := isLeast_seenRuns h (by omega) hlen hk
    have hend : s + k + cnt ≤ 8 * b.btmpBytesLen + 1 := hleast.1.2
    rw [firstFit_index, Nat.mod_eq_of_lt (by omega)]
    constructor
    · rintro ⟨hfit, hnone⟩
      refine ⟨fun i hi => (hfit i hi).1, fun hA => ?_⟩
      have := hnone hA
      omega
    · rintro ⟨hindex, hbehind⟩
      refine ⟨fun i hi => ⟨hindex i hi, isLeast_of_nonempty hi hleast⟩, fun hA => ?_⟩
      exact absurd hleast.1 (by simp [hbehind hA])
  · have hempty := seenRuns_eq_empty h (by omega) hlen hnone
    have hfree : b.freeRuns cnt = ∅ := Set.subset_eq_empty (freeRuns_subset b cnt) hempty
    rw [firstFit_neg_one]
    refine ⟨fun _ => ⟨fun i hi => ?_, fun _ => hempty⟩, fun _ => hfree⟩
    exact absurd hi.1 (by simp [hfree])

/-- The scan of a longer bitmap. -/
lemma firstFit_iff_of_long {A S : Set Nat} {s : Nat} {r : Int32}
    (hr : (∃ k, IsLeast S k ∧ r = (UInt32.ofNat (s + k)).toInt32) ∨ S = ∅ ∧ r = -1) :
    FirstFit A r ↔
      (∀ i, IsLeast A i → i < 2 ^ 31) ∧ (S = ∅ → A = ∅) ∧
        ∀ k, IsLeast S k → (∀ i, IsLeast A i → (s + k) % 2 ^ 32 = i) ∧
          (A = ∅ → (s + k) % 2 ^ 32 = 2 ^ 32 - 1) := by
  rcases hr with ⟨k, hk, rfl⟩ | ⟨rfl, rfl⟩
  · have hS : S ≠ ∅ := by
      rintro rfl
      exact hk.1
    rw [firstFit_index]
    constructor
    · rintro ⟨hfit, hnone⟩
      refine ⟨fun i hi => (hfit i hi).1, fun h => (hS h).elim, fun k' hk' => ?_⟩
      rw [hk'.unique hk]
      exact ⟨fun i hi => (hfit i hi).2, hnone⟩
    · rintro ⟨hindex, -, hfit⟩
      exact ⟨fun i hi => ⟨hindex i hi, (hfit k hk).1 i hi⟩, (hfit k hk).2⟩
  · rw [firstFit_neg_one]
    refine ⟨?_, fun h => h.2.1 rfl⟩
    rintro rfl
    exact ⟨fun i hi => hi.1.elim, fun _ => rfl, fun k hk => hk.1.elim⟩

/-- `bitmap_scan` is first fit exactly when the index fits an `int` and, with no run inside the
bitmap, no run ends with the first bit behind it. -/
theorem firstFit_bitmapScanInt_iff (b : Bitmap) (cnt : UInt32) (hcnt : 0 < cnt.toNat) :
    FirstFit (b.freeRuns cnt.toNat) (b.bitmapScanInt cnt) ↔ b.ScanExact cnt.toNat := by
  rcases b.bitmapScanInt_cases hcnt with ⟨hfull, hr⟩ | ⟨s, hs, ⟨hone, hr⟩ | ⟨htwo, hr⟩⟩
  · have hempty := freeRuns_of_full hcnt hfull
    rw [hr, firstFit_neg_one]
    refine iff_of_true hempty ⟨fun i hi => absurd hi.1 (by simp [hempty]), fun _ htwo _ => ?_, ?_⟩
    · refine Set.eq_empty_of_forall_notMem fun i hi => ?_
      have hset := hfull i (by have := hi.2; omega)
      rw [hi.1 i (Nat.le_refl _) (by omega)] at hset
      cases hset
    · rintro - - s ⟨hs, hclear, -⟩
      rw [hfull s hs] at hclear
      cases hclear
  · rw [hone, hr, firstFit_index]
    have hleast := hs.isLeast
    constructor
    · rintro ⟨hfit, -⟩
      exact ⟨fun i hi => (hfit i hi).1, fun _ h => by omega, fun _ h => by omega⟩
    · intro h
      have hlt := h.index s hleast
      refine ⟨fun i hi => ?_, fun hA => absurd hleast.1 (by simp [hA])⟩
      rw [hi.unique hleast]
      exact ⟨hlt, Nat.mod_eq_of_lt (by omega)⟩
  · by_cases hlen : 8 * b.btmpBytesLen < 2 ^ 32
    · rw [firstFit_iff_of_short hs htwo hlen hr]
      refine ⟨fun h => ⟨h.1, fun _ _ => h.2, fun h' => by omega⟩, fun h => ?_⟩
      exact ⟨h.index, h.behind hlen htwo⟩
    · rw [firstFit_iff_of_long hr]
      constructor
      · rintro ⟨hindex, hwrapped⟩
        refine ⟨hindex, fun h => (hlen h).elim, fun _ _ s' hs' => ?_⟩
        have hss : s' = s := by
          by_contra hne
          rcases Nat.lt_or_gt_of_ne hne with hlt | hlt
          · have := hs.2.2 s' hlt
            simp [hs'.2.1] at this
          · have := hs'.2.2 s hlt
            simp [hs.2.1] at this
        exact hss ▸ hwrapped
      · intro h
        exact ⟨h.index, h.wrapped (by omega) htwo s hs⟩

/-- One byte with its last bit clear, in memory that is zero behind it. -/
def lastBitClear : Bitmap := ⟨1, fun k => if k = 0 then 0x7f else 0⟩

theorem firstFit_lastBitClear :
    0 < (1 : UInt32).toNat ∧ FirstFit (lastBitClear.freeRuns 1) (lastBitClear.bitmapScanInt 1) := by
  refine ⟨by decide, (firstFit_bitmapScanInt_iff lastBitClear 1 (by decide)).mpr ⟨?_, ?_, ?_⟩⟩
  · intro i hi
    have hend : i + 1 ≤ 8 := hi.1.2
    omega
  · exact fun _ h => absurd h (by decide)
  · exact fun h => absurd h (by decide)

/-- Two clear bits are found in a bitmap that has one. -/
theorem not_forall_firstFit :
    ¬ ∀ (b : Bitmap) (cnt : UInt32), 0 < cnt.toNat →
      FirstFit (b.freeRuns cnt.toNat) (b.bitmapScanInt cnt) := by
  intro h
  have hscan : lastBitClear.bitmapScanInt 2 = 7 := by decide +kernel
  have hfit := h lastBitClear 2 (by decide)
  rw [hscan] at hfit
  obtain ⟨i, hrun, hend⟩ := hfit.nonneg.mp (by decide)
  have hset : ∀ j < 7, lastBitClear.bitmapScanTest j = true := by decide
  have hlt : i + 2 ≤ 8 := hend
  have hclear := hrun i (Nat.le_refl _) (Nat.lt_add_of_pos_right (by decide))
  rw [hset i (by omega)] at hclear
  cases hclear

end Bitmap

end SimpleOs
