import Mathlib

/-!
# Transition systems

A labelled transition system, the states it reaches by steps that meet a condition, and the rule
that proves an invariant of all of them.
-/

namespace SimpleOs.Base

universe u w

/-- Where a system starts and what its steps are. -/
structure System (S : Type u) (L : Type w) where
  init : S → Prop
  step : S → L → S → Prop

namespace System

variable {S : Type u} {L : Type w} {sys : System S L} {ok ok' : S → L → Prop}

variable {s : S} {exec : S → L → Option S} {ls : List L}

/-- The states reached by steps that all meet the condition `ok` on the state before the step. -/
inductive Reachable (sys : System S L) (ok : S → L → Prop) : S → Prop where
  | init {s : S} : sys.init s → Reachable sys ok s
  | step {s s' : S} {l : L} : Reachable sys ok s → ok s l → sys.step s l s' → Reachable sys ok s'

lemma Reachable.invariant (inv : S → Prop) (hinit : ∀ s, sys.init s → inv s)
    (hstep : ∀ s l s', inv s → ok s l → sys.step s l s' → inv s')
    (h : sys.Reachable ok s) : inv s := by
  induction h with
  | init h => exact hinit _ h
  | step _ hok hs ih => exact hstep _ _ _ ih hok hs

/-- The system, started in one state. -/
def startingAt (sys : System S L) (s₀ : S) : System S L := { sys with init := fun s => s = s₀ }

lemma Reachable.mono (hok : ∀ s l, ok s l → ok' s l) (h : sys.Reachable ok s) :
    sys.Reachable ok' s := by
  induction h with
  | init h => exact .init h
  | step _ hl hs ih => exact ih.step (hok _ _ hl) hs

/-- Follow a list of labels with a function that makes the steps, as long as a test holds. -/
def follow (exec : S → L → Option S) (test : S → L → Bool) : S → List L → Option S
  | s, [] => some s
  | s, l :: ls => if test s l then (exec s l).bind fun s' => follow exec test s' ls else none

/-- Following labels from a state that is reached leads to states that are reached. -/
lemma Reachable.follow (hexec : ∀ s l s', exec s l = some s' → sys.step s l s')
    (htest : ∀ s l, test s l = true → ok s l) (h : sys.Reachable ok s)
    (hs' : System.follow exec test s ls = some s') : sys.Reachable ok s' := by
  induction ls generalizing s with
  | nil =>
    cases hs'
    exact h
  | cons l ls ih =>
    simp only [System.follow] at hs'
    split at hs'
    case isTrue hl =>
      obtain ⟨s1, h1, hrest⟩ := Option.bind_eq_some_iff.mp hs'
      exact ih (h.step (htest s l hl) (hexec s l s1 h1)) hrest
    case isFalse => cases hs'

/-- `P` holds at every step of the run from `s` along a list of labels. -/
def Along (exec : S → L → Option S) (P : S → L → Prop) : S → List L → Prop
  | _, [] => True
  | s, l :: ls => P s l ∧ ∀ s', exec s l = some s' → Along exec P s' ls

/-- Where an invariant makes two conditions on a step agree, and is kept by the steps that meet them,
the conditions agree on whole runs. -/
lemma along_iff {P Q : S → L → Prop} (inv : S → Prop)
    (hiff : ∀ s l, inv s → ok s l → (P s l ↔ Q s l))
    (hstep : ∀ s l s', inv s → ok s l → Q s l → exec s l = some s' → inv s')
    (hinv : inv s) (hok : Along exec ok s ls) : Along exec P s ls ↔ Along exec Q s ls := by
  induction ls generalizing s with
  | nil => exact Iff.rfl
  | cons l ls ih =>
    obtain ⟨hl, hrest⟩ := hok
    have hhead := hiff s l hinv hl
    constructor
    · rintro ⟨hp, hps⟩
      refine ⟨hhead.mp hp, fun s' hs' => ?_⟩
      exact (ih (hstep s l s' hinv hl (hhead.mp hp) hs') (hrest s' hs')).mp (hps s' hs')
    · rintro ⟨hq, hqs⟩
      refine ⟨hhead.mpr hq, fun s' hs' => ?_⟩
      exact (ih (hstep s l s' hinv hl hq hs') (hrest s' hs')).mpr (hqs s' hs')

end System

/-- Nothing has two keys, also when one key gets new things that no other key has. -/
lemma unique_of_fresh {R R' : κ → α → Prop} (a : κ) (h : ∀ k l x, R k x → R l x → k = l)
    (hold : ∀ k x, k ≠ a → R' k x → R k x) (hfresh : ∀ k x, R' a x → R k x → k = a) :
    ∀ k l x, R' k x → R' l x → k = l := by
  intro k l x hk hl
  by_cases hka : k = a <;> by_cases hla : l = a
  · rw [hka, hla]
  · rw [hka, hfresh l x (hka ▸ hk) (hold l x hla hl)]
  · rw [hla, hfresh k x (hla ▸ hl) (hold k x hka hk)]
  · exact h k l x (hold k x hka hk) (hold l x hla hl)

end SimpleOs.Base
