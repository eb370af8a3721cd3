import Mathlib

/-!
# Byte stores

A byte store is a total function from addresses to bytes. Buffers, memories and whole disks are
all byte stores; the operations below are the block copies, fills and little-endian words that C
code performs on them.
-/

namespace SimpleOs.Base

/-- A byte-addressed store: a buffer, a memory or a disk. -/
abbrev Bytes := Nat → UInt8

/-- `DIV_ROUND_UP`: how many pieces of `step` bytes hold `x` bytes. -/
def divRoundUp (x step : Nat) : Nat := (x + step - 1) / step

namespace Bytes

/-- The store of zeros. -/
def zero : Bytes := fun _ => 0

/-- Copy `n` bytes of `src`, from address `j` on, over those of `dst` from address `i` on. -/
def copy (dst : Bytes) (i : Nat) (src : Bytes) (j n : Nat) : Bytes :=
  fun k => if i ≤ k ∧ k < i + n then src (j + (k - i)) else dst k

/-- Set `n` bytes of `dst` to `b`, from address `i` on. -/
def fill (dst : Bytes) (i : Nat) (b : UInt8) (n : Nat) : Bytes :=
  fun k => if i ≤ k ∧ k < i + n then b else dst k

variable (s : Bytes)

/-- The little-endian 32-bit word at address `i`. -/
def u32 (i : Nat) : UInt32 :=
  UInt32.ofNat ((s i).toNat + 256 * (s (i + 1)).toNat + 65536 * (s (i + 2)).toNat
    + 16777216 * (s (i + 3)).toNat)

/-- Byte `r` of a little-endian word. -/
def byteOf (x : UInt32) (r : Nat) : UInt8 := UInt8.ofNat (x.toNat / 256 ^ r)

/-- Store `n` words at address `i`, the `j`-th one being `w j`. -/
def setWords (i : Nat) (w : Nat → UInt32) (n : Nat) : Bytes :=
  fun k => if i ≤ k ∧ k < i + 4 * n then byteOf (w ((k - i) / 4)) ((k - i) % 4) else s k

/-- Store one word at address `i`. -/
def setU32 (i : Nat) (x : UInt32) : Bytes := s.setWords i (fun _ => x) 1

/-- The bytes of `s` from address `i` on, as a list of length `n`. -/
def slice (i n : Nat) : List UInt8 := (List.range n).map fun k => s (i + k)

/-- The store that starts with the bytes of a list. -/
def ofList (l : List UInt8) : Bytes := fun k => l.getD k 0

/-! ### Copies and fills -/

variable (dst src : Bytes)

lemma copy_inside (h : i ≤ k ∧ k < i + n) : dst.copy i src j n k = src (j + (k - i)) := by
  simp [copy, h]

lemma copy_outside (h : k < i ∨ i + n ≤ k) : dst.copy i src j n k = dst k := by
  have : ¬ (i ≤ k ∧ k < i + n) := by omega
  simp [copy, this]

lemma fill_inside (dst : Bytes) (h : i ≤ k ∧ k < i + n) : dst.fill i b n k = b := by
  simp [fill, h]

lemma fill_outside (dst : Bytes) (h : k < i ∨ i + n ≤ k) : dst.fill i b n k = dst k := by
  have : ¬ (i ≤ k ∧ k < i + n) := by omega
  simp [fill, this]

lemma copy_copy_back (d buf src : Bytes) (h : j + m ≤ n) :
    d.copy a ((buf.copy b d a n).copy (b + j) src i m) b n = d.copy (a + j) src i m := by
  funext k
  simp only [copy]
  split_ifs <;> first | rfl | (congr 1; omega)

lemma copy_copy_adjacent (i j m n : Nat) :
    (dst.copy i src j m).copy (i + m) src (j + m) n = dst.copy i src j (m + n) := by
  funext k
  by_cases h1 : i + m ≤ k ∧ k < i + m + n
  · rw [copy_inside _ _ h1, copy_inside _ _ (by omega)]
    congr 1
    omega
  · rw [copy_outside _ _ (by omega)]
    by_cases h2 : i ≤ k ∧ k < i + m
    · rw [copy_inside _ _ h2, copy_inside _ _ (by omega)]
    · rw [copy_outside _ _ (by omega), copy_outside _ _ (by omega)]

@[simp] lemma copy_zero (i j : Nat) : dst.copy i src j 0 = dst := by
  funext k
  exact copy_outside _ _ (by omega)

/-! ### Words -/

lemma byteOf_toNat (x : UInt32) (r : Nat) : (byteOf x r).toNat = x.toNat / 256 ^ r % 256 := by
  simp [byteOf]

lemma u32_congr {s t : Bytes} {i j : Nat} (h : ∀ k < 4, s (i + k) = t (j + k)) :
    s.u32 i = t.u32 j := by
  have h0 := h 0 (by omega)
  have h1 := h 1 (by omega)
  have h2 := h 2 (by omega)
  have h3 := h 3 (by omega)
  simp only [Nat.add_zero] at h0
  simp only [u32, h0, h1, h2, h3]

variable {i n k : Nat}

lemma setWords_inside (h : i ≤ k ∧ k < i + 4 * n) :
    s.setWords i w n k = byteOf (w ((k - i) / 4)) ((k - i) % 4) := by
  simp [setWords, h]

lemma setWords_outside (h : k < i ∨ i + 4 * n ≤ k) : s.setWords i w n k = s k := by
  have : ¬ (i ≤ k ∧ k < i + 4 * n) := by omega
  simp [setWords, this]

lemma u32_of_byteOf {s : Bytes} {i : Nat} (h : ∀ r < 4, s (i + r) = byteOf x r) : s.u32 i = x := by
  have h0 := h 0 (by omega)
  have h1 := h 1 (by omega)
  have h2 := h 2 (by omega)
  have h3 := h 3 (by omega)
  simp only [Nat.add_zero] at h0
  apply UInt32.toNat_inj.mp
  have hx := x.toNat_lt
  simp only [u32, h0, h1, h2, h3, byteOf_toNat, UInt32.toNat_ofNat']
  omega

lemma u32_setWords (i : Nat) (w : Nat → UInt32) (hj : j < n) :
    (s.setWords i w n).u32 (i + 4 * j) = w j := by
  apply u32_of_byteOf
  intro r hr
  rw [setWords_inside _ (by omega)]
  have h1 : (i + 4 * j + r - i) / 4 = j := by omega
  have h2 : (i + 4 * j + r - i) % 4 = r := by omega
  rw [h1, h2]

lemma u32_setWords_outside (w : Nat → UInt32)
    (h : k + 4 ≤ i ∨ i + 4 * n ≤ k) : (s.setWords i w n).u32 k = s.u32 k := by
  apply u32_congr
  intro r hr
  exact setWords_outside _ (by omega)

@[simp] lemma u32_setU32_self (i : Nat) (x : UInt32) : (s.setU32 i x).u32 i = x := by
  have := u32_setWords s i (fun _ => x) (n := 1) (j := 0) (by omega)
  simpa [setU32] using this

lemma u32_setU32_of_ne (x : UInt32) (h : k + 4 ≤ i ∨ i + 4 ≤ k) :
    (s.setU32 i x).u32 k = s.u32 k :=
  u32_setWords_outside s _ (by omega)

lemma setU32_outside {i k : Nat} (h : k < i ∨ i + 4 ≤ k) : s.setU32 i x k = s k :=
  setWords_outside s (by omega)

/-! ### Lists -/

@[simp] lemma length_slice (i n : Nat) : (s.slice i n).length = n := by
  simp [slice]

lemma slice_add (i m n : Nat) : s.slice i (m + n) = s.slice i m ++ s.slice (i + m) n := by
  simp [slice, List.range_add, Nat.add_assoc]

lemma getElem?_slice (h : k < n) : (s.slice i n)[k]? = some (s (i + k)) := by
  simp [slice, h]

lemma slice_eq_iff {l : List UInt8} :
    s.slice i l.length = l ↔ ∀ k < l.length, l[k]? = some (s (i + k)) := by
  refine ⟨fun h k hk => ?_, fun h => List.ext_getElem? fun k => ?_⟩
  · rw [← getElem?_slice s hk, h]
  · by_cases hk : k < l.length
    · rw [getElem?_slice s hk, h k hk]
    · rw [List.getElem?_eq_none (by simpa using hk), List.getElem?_eq_none (by omega)]

lemma getElem?_append_slice (l : List UInt8) (s : Bytes) (hmn : m ≤ n)
    (hk : k < l.length + m) : (l ++ s.slice i n)[k]? = (l ++ s.slice i m)[k]? := by
  simp only [List.getElem?_append]
  split_ifs with hd
  · rfl
  · rw [getElem?_slice _ (by omega), getElem?_slice _ (by omega)]

lemma slice_eq_slice_iff {s t : Bytes} {i j n : Nat} :
    s.slice i n = t.slice j n ↔ ∀ k < n, s (i + k) = t (j + k) := by
  simp only [slice, List.map_inj_left, List.mem_range]

end Bytes

/-! ### Lists cut at a separator -/

open List

variable {α : Type} [DecidableEq α] {sep : α} {l word rest : List α}

/-- The maximal non-empty stretches of a list without `sep`, in order. -/
def pieces (sep : α) (l : List α) : List (List α) := (l.splitOn sep).filter (· ≠ [])

@[simp] lemma pieces_nil : pieces sep [] = [] := by
  simp [pieces]

@[simp] lemma pieces_sep : pieces sep (sep :: l) = pieces sep l := by
  simp [pieces, splitOn, splitOnP_cons_eq_if_modifyHead]

lemma splitOn_append (hword : sep ∉ word) :
    (word ++ rest).splitOn sep = (rest.splitOn sep).modifyHead (word ++ ·) := by
  induction word with
  | nil => cases hrest : rest.splitOn sep <;> simp [hrest]
  | cons c word ih =>
    rw [mem_cons, not_or] at hword
    have hc : (c == sep) = false := beq_eq_false_iff_ne.mpr (Ne.symm hword.1)
    have hrec := ih hword.2
    rw [splitOn] at hrec ⊢
    rw [cons_append, splitOnP_cons_eq_if_modifyHead, hc, hrec]
    cases rest.splitOn sep <;> rfl

lemma pieces_append (hne : word ≠ []) (hword : sep ∉ word)
    (hrest : rest = [] ∨ ∃ cs, rest = sep :: cs) :
    pieces sep (word ++ rest) = word :: pieces sep rest := by
  rw [pieces, splitOn_append hword]
  rcases hrest with rfl | ⟨cs, rfl⟩
  · simp [pieces, hne]
  · simp [pieces, splitOn, splitOnP_cons_eq_if_modifyHead, hne]

end SimpleOs.Base
