import Mathlib

/-!
# Fallible computations

Inversion of a chain of computations that can fail: a chain that succeeds is a success of its
first step, followed by a success of the rest.
-/

namespace SimpleOs.Base

universe u v
variable {ε : Type u} {α β : Type v}

lemma except_bind_eq_ok {x : Except ε α} {f : α → Except ε β} {r : β} :
    (x >>= f) = .ok r ↔ ∃ a, x = .ok a ∧ f a = .ok r := by
  cases x with
  | error e => simp [bind, Except.bind]
  | ok a => simp [bind, Except.bind]

lemma ok_bind (a : α) (f : α → Except ε β) : (Except.ok a >>= f) = f a := rfl

lemma error_bind (e : ε) (f : α → Except ε β) : (Except.error e >>= f) = .error e := rfl

lemma pure_eq_ok (a : α) : (pure a : Except ε α) = .ok a := rfl

lemma exists_of_any {α : Type*} {o : Option α} {test : α → Bool} (h : o.any test = true) :
    ∃ a, o = some a ∧ test a = true := by
  cases o with
  | none => simp at h
  | some a => exact ⟨a, rfl, by simpa using h⟩

end SimpleOs.Base
