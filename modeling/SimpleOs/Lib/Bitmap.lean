import SimpleOs.Base.Bytes

/-!
# Bitmaps

`lib/kernel/bitmap.c`. The bits live in a byte store, so the bytes that follow the bitmap in
memory are there too: the multi-bit scan reads one bit past the end.
-/

namespace SimpleOs

open Base

/-- `struct bitmap`: the length in bytes and the memory the bits are in. -/
structure Bitmap where
  btmpBytesLen : Nat
  bits : Bytes

namespace Bitmap

variable (b : Bitmap)

/-- Bit `i` of the bitmap, `bitmap_scan_test` of the source. -/
def bitmapScanTest (i : Nat) : Bool := (b.bits (i / 8)).toNat.testBit (i % 8)

/-- `bitmap_init`. -/
def bitmapInit : Bitmap := { b with bits := b.bits.fill 0 0 b.btmpBytesLen }

/-- `bitmap_set`: set or clear one bit. -/
def bitmapSet (i : Nat) (v : Bool) : Bitmap :=
  let mask : UInt8 := UInt8.ofNat (1 <<< (i % 8))
  { b with bits := fun k =>
      if k = i / 8 then (if v then b.bits k ||| mask else b.bits k &&& ~~~mask) else b.bits k }

/-- The first loop of `bitmap_scan`: skip the bytes that are `0xff`, at most `left` of them. -/
def skipFull (bits : Bytes) : Nat → Nat → Nat
  | 0, idx => idx
  | left + 1, idx => if bits idx = 0xff then skipFull bits left (idx + 1) else idx

/-- The second loop of `bitmap_scan`: skip the set bits of a byte. -/
def skipSet (byte : UInt8) : Nat → Nat → Nat
  | 0, k => k
  | left + 1, k => if byte.toNat.testBit k then skipSet byte left (k + 1) else k

/-- The last loop of `bitmap_scan`: look for `cnt` clear bits in a row, `count` being the length
of the run that ends before `next`. -/
def scanRun (b : Bitmap) (cnt : Nat) : (bitLeft next count : Nat) → Option Nat
  | 0, _, _ => none
  | left + 1, next, count =>
    let count' := if b.bitmapScanTest next then 0 else count + 1
    if count' = cnt then some (next + 1 - cnt) else scanRun b cnt left (next + 1) count'

/-- `bitmap_scan`: the start of a run of `cnt` clear bits, `none` standing for `-1`. -/
def bitmapScan (cnt : Nat) : Option Nat :=
  let idxByte := skipFull b.bits b.btmpBytesLen 0
  if idxByte = b.btmpBytesLen then none
  else
    let start := idxByte * 8 + skipSet (b.bits idxByte) 8 0
    if cnt = 1 then some start
    else scanRun b cnt (b.btmpBytesLen * 8 - start) (start + 1) 1

/-! ### One bit -/

@[simp] lemma btmpBytesLen_bitmapSet (i : Nat) (v : Bool) :
    (b.bitmapSet i v).btmpBytesLen = b.btmpBytesLen := rfl

private lemma testBit_mask (k : Nat) (hr : r < 8) :
    (1 <<< r % 2 ^ 8).testBit k = decide (k = r) := by
  have hlt : 1 <<< r < 2 ^ 8 := by
    rw [Nat.one_shiftLeft]
    exact Nat.pow_lt_pow_right (by omega) hr
  rw [Nat.mod_eq_of_lt hlt, Nat.one_shiftLeft, Nat.testBit_two_pow]
  simp [eq_comm]

private lemma testBit_set_byte (x : UInt8) (hr : r < 8) (hk : k < 8) (v : Bool) :
    (if v then x ||| UInt8.ofNat (1 <<< r) else x &&& ~~~UInt8.ofNat (1 <<< r)).toNat.testBit k
      = if k = r then v else x.toNat.testBit k := by
  have hm := testBit_mask k hr
  cases v
  · simp only [Bool.false_eq_true, if_false, UInt8.toNat_and, Nat.testBit_and]
    have hnot : (~~~UInt8.ofNat (1 <<< r)).toNat.testBit k = !decide (k = r) := by
      rw [UInt8.toNat_not, UInt8.toNat_ofNat', ← hm]
      have hle : 1 <<< r % 2 ^ 8 < 2 ^ 8 := Nat.mod_lt _ (by decide)
      rw [show UInt8.size - 1 - 1 <<< r % 2 ^ 8 = 2 ^ 8 - (1 <<< r % 2 ^ 8 + 1) from by
        simp only [UInt8.size]; omega]
      rw [Nat.testBit_two_pow_sub_succ hle]
      simp [hk]
    rw [hnot]
    split_ifs with h <;> simp [h]
  · simp only [if_true, UInt8.toNat_or, Nat.testBit_or, UInt8.toNat_ofNat', hm]
    split_ifs with h <;> simp [h]

@[simp] lemma bitmapScanTest_bitmapSet (i j : Nat) (v : Bool) :
    (b.bitmapSet i v).bitmapScanTest j = if j = i then v else b.bitmapScanTest j := by
  simp only [bitmapScanTest, bitmapSet]
  by_cases hb : j / 8 = i / 8
  · rw [if_pos hb, testBit_set_byte _ (Nat.mod_lt _ (by omega)) (Nat.mod_lt _ (by omega))]
    have hji : j % 8 = i % 8 ↔ j = i := by omega
    simp only [hji]
  · have hji : j ≠ i := by rintro rfl; exact hb rfl
    rw [if_neg hb, if_neg hji]

/-- The bits determine the bytes. -/
lemma bits_ext {b b' : Bitmap} (h : ∀ i, b'.bitmapScanTest i = b.bitmapScanTest i) :
    b'.bits = b.bits := by
  funext k
  apply UInt8.toNat_inj.mp
  apply Nat.eq_of_testBit_eq
  intro r
  by_cases hr : r < 8
  · have hbit := h (8 * k + r)
    simp only [bitmapScanTest] at hbit
    rwa [show (8 * k + r) / 8 = k by omega, show (8 * k + r) % 8 = r by omega] at hbit
  · have hbig : ∀ x : UInt8, x.toNat.testBit r = false := fun x =>
      Nat.testBit_lt_two_pow (lt_of_lt_of_le x.toNat_lt (Nat.pow_le_pow_right (by omega) (by omega)))
    rw [hbig, hbig]

lemma bitmapSet_true_false {b : Bitmap} (h : b.bitmapScanTest i = false) :
    (b.bitmapSet i true).bitmapSet i false = b := by
  have hbits : ((b.bitmapSet i true).bitmapSet i false).bits = b.bits := by
    refine bits_ext fun j => ?_
    simp only [bitmapScanTest_bitmapSet]
    split_ifs with hj
    · rw [hj, h]
    · rfl
  exact congrArg _ hbits

/-- `b` has the bits of `b₀` and those in `S`, which are clear in `b₀`. -/
structure Adds (b₀ b : Bitmap) (S : Set Nat) : Prop where
  len : b.btmpBytesLen = b₀.btmpBytesLen
  test : ∀ i, b.bitmapScanTest i = true ↔ b₀.bitmapScanTest i = true ∨ i ∈ S
  clear : ∀ i ∈ S, b₀.bitmapScanTest i = false

lemma adds_empty : Adds b b ∅ := ⟨rfl, by simp, by simp⟩

lemma Adds.eq_of_empty {b₀ b : Bitmap} (h : Adds b₀ b ∅) : b = b₀ := by
  have hbits : b.bits = b₀.bits := bits_ext fun i => by
    rw [Bool.eq_iff_iff, h.test i]
    simp
  exact congrArg₂ Bitmap.mk h.len hbits

lemma Adds.union {b₀ b b' : Bitmap} {S T : Set Nat} (h : Adds b₀ b S)
    (hlen : b'.btmpBytesLen = b.btmpBytesLen) (hclear : ∀ i ∈ T, b.bitmapScanTest i = false)
    (hset : ∀ i, b'.bitmapScanTest i = true ↔ b.bitmapScanTest i = true ∨ i ∈ T) :
    Adds b₀ b' (S ∪ T) where
  len := hlen.trans h.len
  test i := by rw [hset, h.test, or_assoc, Set.mem_union]
  clear := by
    rintro i (hi | hi)
    · exact h.clear i hi
    · have hnot := mt (h.test i).mpr (by simp [hclear i hi])
      exact Bool.eq_false_iff.mpr fun htrue => hnot (.inl htrue)

lemma Adds.diff {b₀ b b' : Bitmap} {S T : Set Nat} (h : Adds b₀ b S)
    (hlen : b'.btmpBytesLen = b.btmpBytesLen) (hsub : T ⊆ S)
    (hset : ∀ i, b'.bitmapScanTest i = true ↔ b.bitmapScanTest i = true ∧ i ∉ T) :
    Adds b₀ b' (S \ T) where
  len := hlen.trans h.len
  test i := by
    rw [hset, h.test, or_and_right]
    refine or_congr_left (and_iff_left_of_imp fun hi hT => ?_)
    rw [h.clear i (hsub hT)] at hi
    cases hi
  clear i hi := h.clear i hi.1

/-! ### The scan for one bit -/

lemma skipFull_spec (bits : Bytes) (left idx : Nat) :
    idx ≤ skipFull bits left idx ∧ skipFull bits left idx ≤ idx + left ∧
      (∀ k, idx ≤ k → k < skipFull bits left idx → bits k = 0xff) ∧
      (skipFull bits left idx < idx + left → bits (skipFull bits left idx) ≠ 0xff) := by
  induction left generalizing idx with
  | zero => simp only [skipFull]; refine ⟨by omega, by omega, ?_, by omega⟩; intro k; omega
  | succ left ih =>
    simp only [skipFull]
    split_ifs with h
    · obtain ⟨h1, h2, h3, h4⟩ := ih (idx + 1)
      refine ⟨by omega, by omega, ?_, fun hlt => h4 (by omega)⟩
      intro k hk hlt
      by_cases hki : k = idx
      · exact hki ▸ h
      · exact h3 k (by omega) hlt
    · exact ⟨by omega, by omega, fun k hk hlt => by omega, fun _ => h⟩

lemma skipSet_spec (byte : UInt8) (left k : Nat) :
    k ≤ skipSet byte left k ∧ skipSet byte left k ≤ k + left ∧
      (∀ i, k ≤ i → i < skipSet byte left k → byte.toNat.testBit i = true) ∧
      (skipSet byte left k < k + left → byte.toNat.testBit (skipSet byte left k) = false) := by
  induction left generalizing k with
  | zero => simp only [skipSet]; refine ⟨by omega, by omega, ?_, by omega⟩; intro i; omega
  | succ left ih =>
    simp only [skipSet]
    split_ifs with h
    · obtain ⟨h1, h2, h3, h4⟩ := ih (k + 1)
      refine ⟨by omega, by omega, ?_, fun hlt => h4 (by omega)⟩
      intro i hi hlt
      by_cases hik : i = k
      · exact hik ▸ h
      · exact h3 i (by omega) hlt
    · exact ⟨by omega, by omega, fun i hi hlt => by omega, fun _ => by simpa using h⟩

private lemma testBit_ff (k : Nat) : (0xff : UInt8).toNat.testBit k = decide (k < 8) :=
  Nat.testBit_two_pow_sub_one 8 k

/-- A byte with eight set bits is `0xff`. -/
private lemma eq_ff_of_testBit {x : UInt8} (h : ∀ k < 8, x.toNat.testBit k = true) : x = 0xff := by
  apply UInt8.toNat_inj.mp
  apply Nat.eq_of_testBit_eq
  intro k
  rw [testBit_ff]
  by_cases hk : k < 8
  · simp [h k hk, hk]
  · have hx : x.toNat < 2 ^ k :=
      lt_of_lt_of_le x.toNat_lt (Nat.pow_le_pow_right (by omega) (by omega))
    simp [Nat.testBit_lt_two_pow hx, hk]

/-- The one-bit scan is first fit: it returns the lowest clear bit, when there is one. -/
lemma bitmapScan_one_eq_some {b : Bitmap} (h : b.bitmapScan 1 = some i) :
    i < 8 * b.btmpBytesLen ∧ b.bitmapScanTest i = false ∧
      ∀ j < i, b.bitmapScanTest j = true := by
  simp only [bitmapScan, if_true] at h
  split_ifs at h with hlen
  obtain ⟨-, h2, h3, h4⟩ := skipFull_spec b.bits b.btmpBytesLen 0
  set q := skipFull b.bits b.btmpBytesLen 0 with hq
  have hne : b.bits q ≠ 0xff := h4 (by omega)
  obtain ⟨-, s2, s3, s4⟩ := skipSet_spec (b.bits q) 8 0
  set r := skipSet (b.bits q) 8 0 with hr
  have hr8 : r < 8 := by
    by_contra hge
    exact hne (eq_ff_of_testBit fun k hk => s3 k (by omega) (by omega))
  obtain rfl : q * 8 + r = i := by simpa using h
  refine ⟨by omega, ?_, ?_⟩
  · simp only [bitmapScanTest]
    rw [show (q * 8 + r) / 8 = q by omega, show (q * 8 + r) % 8 = r by omega]
    exact s4 hr8
  · intro j hj
    simp only [bitmapScanTest]
    by_cases hjq : j / 8 = q
    · rw [hjq]
      exact s3 _ (by omega) (by omega)
    · rw [h3 (j / 8) (by omega) (by omega), testBit_ff, decide_eq_true_eq]
      omega

lemma bitmapScan_one_eq_none {b : Bitmap} (h : b.bitmapScan 1 = none) :
    ∀ i < 8 * b.btmpBytesLen, b.bitmapScanTest i = true := by
  simp only [bitmapScan, if_true] at h
  split_ifs at h with hlen
  intro i hi
  obtain ⟨-, -, h3, -⟩ := skipFull_spec b.bits b.btmpBytesLen 0
  simp only [bitmapScanTest]
  rw [h3 (i / 8) (by omega) (by omega), testBit_ff, decide_eq_true_eq]
  omega

lemma exists_bitmapScan_one {b : Bitmap} (hi : i < 8 * b.btmpBytesLen)
    (h : b.bitmapScanTest i = false) : ∃ j, b.bitmapScan 1 = some j := by
  cases hs : b.bitmapScan 1 with
  | some j => exact ⟨j, rfl⟩
  | none => simp [bitmapScan_one_eq_none hs i hi] at h

/-! ### The scan for a run of bits -/

lemma scanRun_eq_some {b : Bitmap} {left next count : Nat}
    (h : b.scanRun cnt left next count = some r) (hcount : count ≤ next)
    (hrun : ∀ j, next - count ≤ j → j < next → b.bitmapScanTest j = false) :
    r + cnt ≤ next + left ∧ ∀ j, r ≤ j → j < r + cnt → b.bitmapScanTest j = false := by
  induction left generalizing next count with
  | zero => cases h
  | succ left ih =>
    -- the run that ends with `next`
    have hrun' : ∀ j, next + 1 - (if b.bitmapScanTest next then 0 else count + 1) ≤ j →
        j < next + 1 → b.bitmapScanTest j = false := by
      intro j hj hlt
      split_ifs at hj with htest
      · omega
      · by_cases hjn : j = next
        · simpa [hjn] using htest
        · exact hrun j (by omega) (by omega)
    have hcount' : (if b.bitmapScanTest next then 0 else count + 1) ≤ next + 1 := by
      split_ifs <;> omega
    simp only [scanRun] at h
    split_ifs at h hrun' hcount' with h₁ h₂ h₃
    all_goals first
      | (obtain rfl := Option.some.inj h
         refine ⟨by omega, fun j hj hlt => hrun' j (by omega) (by omega)⟩)
      | (obtain ⟨hle, hclear⟩ := ih h hcount' hrun'
         exact ⟨by omega, hclear⟩)

/-- The bits of the run that is found are clear. The last of them can be the first one behind the
bitmap. -/
lemma bitmapScan_eq_some {b : Bitmap} {start : Nat} (h : b.bitmapScan cnt = some start)
    (hcnt : 0 < cnt) :
    start + cnt ≤ 8 * b.btmpBytesLen + 1 ∧
      ∀ j, start ≤ j → j < start + cnt → b.bitmapScanTest j = false := by
  by_cases hone : cnt = 1
  · subst hone
    obtain ⟨hlt, hclear, -⟩ := bitmapScan_one_eq_some h
    refine ⟨by omega, fun j hj hlt' => ?_⟩
    obtain rfl : j = start := by omega
    exact hclear
  · simp only [bitmapScan, if_neg hone] at h
    split_ifs at h with hlen
    -- the run starts with the bit the one-bit scan finds
    have hfirst : b.bitmapScan 1 = some (skipFull b.bits b.btmpBytesLen 0 * 8 +
        skipSet (b.bits (skipFull b.bits b.btmpBytesLen 0)) 8 0) := by
      simp only [bitmapScan, if_neg hlen, if_true]
    obtain ⟨hlt, hclear, -⟩ := bitmapScan_one_eq_some hfirst
    obtain ⟨hle, hall⟩ := scanRun_eq_some h (by omega) fun j hj hlt' => by
      rwa [Nat.le_antisymm (Nat.le_of_lt_succ hlt') hj]
    exact ⟨by omega, hall⟩

end Bitmap

end SimpleOs
