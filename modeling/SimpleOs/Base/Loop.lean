import Mathlib

/-!
# Counting loops

The loop that looks at the indices from `k` on and stops at the first one that passes a test, and
the loop that stops at the end of the first run of indices that all fail it.
-/

namespace SimpleOs.Base

/-- The first of the `n` indices from `k` on that passes the test. -/
def firstFrom (test : Nat → Bool) : (n k : Nat) → Option Nat
  | 0, _ => none
  | n + 1, k => if test k then some k else firstFrom test n (k + 1)

variable {test : Nat → Bool} {n k i : Nat}

/-- What the loop stops at is in range, passes the test, and nothing before it does. -/
lemma firstFrom_eq_some (h : firstFrom test n k = some i) :
    k ≤ i ∧ i < k + n ∧ test i = true ∧ ∀ j, k ≤ j → j < i → test j = false := by
  induction n generalizing k with
  | zero => cases h
  | succ n ih =>
    simp only [firstFrom] at h
    split_ifs at h with ht
    · cases h
      exact ⟨Nat.le_refl _, by omega, ht, fun j h1 h2 => by omega⟩
    · obtain ⟨h1, h2, h3, h4⟩ := ih h
      refine ⟨by omega, by omega, h3, ?_⟩
      intro j hj1 hj2
      rcases Nat.eq_or_lt_of_le hj1 with rfl | hlt
      · simpa using ht
      · exact h4 j hlt hj2

lemma firstFrom_eq_none (h : firstFrom test n k = none) :
    ∀ j, k ≤ j → j < k + n → test j = false := by
  induction n generalizing k with
  | zero => intro j h1 h2; omega
  | succ n ih =>
    simp only [firstFrom] at h
    split_ifs at h with ht
    intro j hj1 hj2
    rcases Nat.eq_or_lt_of_le hj1 with rfl | hlt
    · simpa using ht
    · exact ih h j hlt (by omega)

/-! ### Runs -/

/-- The `cnt` indices from `i` on all fail the test. -/
def ClearRun (test : Nat → Bool) (cnt i : Nat) : Prop :=
  ∀ j, i ≤ j → j < i + cnt → test j = false

/-- The starts of the runs of `cnt` failing indices that end before `stop`. -/
def clearRuns (test : Nat → Bool) (cnt stop : Nat) : Set Nat :=
  {i | ClearRun test cnt i ∧ i + cnt ≤ stop}

/-- The first run of `cnt` failing indices among the `left` indices from `next` on, `count` being
the length of the run that ends before `next`. -/
def findRun (test : Nat → Bool) (cnt : Nat) : (left next count : Nat) → Option Nat
  | 0, _, _ => none
  | left + 1, next, count =>
    let count' := if test next then 0 else count + 1
    if count' = cnt then some (next + 1 - cnt) else findRun test cnt left (next + 1) count'

/-- The loop stops at the end of the lowest run, and runs to its end when there is none. -/
lemma findRun_spec {cnt left next count : Nat} (hcnt : count < cnt) (hle : count ≤ next)
    (hrun : ClearRun test count (next - count)) (hlow : ∀ i < next - count, ¬ ClearRun test cnt i) :
    (∃ i, findRun test cnt left next count = some i ∧
        IsLeast (clearRuns test cnt (next + left)) i) ∨
      findRun test cnt left next count = none ∧ clearRuns test cnt (next + left) = ∅ := by
  induction left generalizing next count with
  | zero =>
    refine .inr ⟨rfl, Set.eq_empty_of_forall_notMem ?_⟩
    rintro i ⟨hi, hstop⟩
    exact hlow i (by omega) hi
  | succ left ih =>
    rw [show next + (left + 1) = next + 1 + left by omega]
    simp only [findRun]
    by_cases ht : test next = true
    · -- no run can hold `next`
      rw [if_pos ht, if_neg (by omega)]
      refine ih (by omega) (by omega) (fun j h1 h2 => by omega) fun i hi hclear => ?_
      by_cases hbefore : i < next - count
      · exact hlow i hbefore hclear
      · have := hclear next (by omega) (by omega)
        simp [this] at ht
    · have hrun' : ClearRun test (count + 1) (next - count) := by
        intro j h1 h2
        by_cases hj : j = next
        · simpa [hj] using ht
        · exact hrun j h1 (by omega)
      rw [if_neg ht]
      by_cases hfound : count + 1 = cnt
      · rw [if_pos hfound]
        refine .inl ⟨_, rfl, ⟨?_, by omega⟩, fun i hi => ?_⟩
        · rw [← hfound, show next + 1 - (count + 1) = next - count by omega]
          exact hrun'
        · by_contra hlt
          exact hlow i (by omega) hi.1
      · rw [if_neg hfound]
        refine ih (by omega) (by omega) ?_ ?_
        · rwa [show next + 1 - (count + 1) = next - count by omega]
        · rwa [show next + 1 - (count + 1) = next - count by omega]

end SimpleOs.Base
