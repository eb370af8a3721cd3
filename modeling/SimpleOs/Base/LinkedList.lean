import Mathlib

/-!
# Doubly linked nodes

The nodes of an intrusive list carry their own `prev` and `next` pointers, so one node can be in
one list at a time and nothing but the pointers says in which. `Linked m l` says that the nodes
`l` are linked up in that order. The two writes lists are made of, inserting a node before another
one and unlinking a node, act on it as expected and touch no other node.
-/

namespace SimpleOs.Base

open List

open Option

open Function

universe u

/-- The `prev` and `next` pointers of all nodes, `none` being the null pointer. -/
structure Links (N : Type u) where
  prev : N → Option N
  next : N → Option N

namespace Links

variable {N : Type u}

variable {l l1 l2 : List N}

/-- The pointers of node `x` are the same in both. -/
def SameAt (m m' : Links N) (x : N) : Prop := m'.prev x = m.prev x ∧ m'.next x = m.next x

variable (m : Links N)

/-- Node `y` follows node `x`, by the pointers of both. -/
def Adj (x y : N) : Prop := m.next x = some y ∧ m.prev y = some x

/-- The nodes of `l` are distinct and linked up in that order. -/
def Linked (l : List N) : Prop := l.IsChain m.Adj ∧ l.Nodup

lemma Linked.of_sameAt {m m' : Links N} (h : m.Linked l)
    (hsame : ∀ x ∈ l, SameAt m m' x) : m'.Linked l := by
  refine ⟨h.1.imp_of_mem_imp ?_, h.2⟩
  intro x y hx hy hxy
  exact ⟨(hsame x hx).2.trans hxy.1, (hsame y hy).1.trans hxy.2⟩

lemma Linked.next_eq {m : Links N} {x stop : N} (h : m.Linked (x :: (l ++ [stop]))) :
    m.next x = (l ++ [stop]).head? := by
  cases l <;> exact (isChain_cons_cons.mp h.1).1.1

variable [DecidableEq N]

/-- Write the `prev` pointer of a node. -/
def setPrev (x : N) (p : Option N) : Links N :=
  { m with prev := update m.prev x p }

/-- Write the `next` pointer of a node. -/
def setNext (x : N) (n : Option N) : Links N :=
  { m with next := update m.next x n }

@[simp] lemma prev_setPrev (x y : N) (p : Option N) :
    (m.setPrev x p).prev y = if y = x then p else m.prev y := by
  simp [setPrev, update_apply]

@[simp] lemma next_setPrev (x : N) (p : Option N) : (m.setPrev x p).next = m.next := rfl

@[simp] lemma next_setNext (x y : N) (n : Option N) :
    (m.setNext x n).next y = if y = x then n else m.next y := by
  simp [setNext, update_apply]

@[simp] lemma prev_setNext (x : N) (n : Option N) : (m.setNext x n).prev = m.prev := rfl

/-! ### Inserting a node -/

/-- Link node `x` in before node `b`; the null pointer has no fields to write. -/
def insertBefore (b x : N) : Option (Links N) := do
  let p ← m.prev b
  let m := m.setNext p (some x)
  let m := m.setPrev x (m.prev b)
  let m := m.setNext x (some b)
  return m.setPrev b (some x)

/-- Inserting puts the node between its neighbours and leaves all nodes outside the list alone. -/
lemma Linked.insertBefore {m : Links N} {a b x : N}
    (h : m.Linked (l1 ++ a :: b :: l2)) (hx : x ∉ l1 ++ a :: b :: l2) :
    ∃ m', m.insertBefore b x = some m' ∧ m'.Linked (l1 ++ a :: x :: b :: l2) ∧
      ∀ y, y ∉ l1 ++ a :: x :: b :: l2 → SameAt m m' y := by
  obtain ⟨hchain, hnodup⟩ := h
  obtain ⟨hleft, hab, hright⟩ := isChain_append_cons_cons.mp hchain
  have hxa : x ≠ a := by rintro rfl; simp at hx
  have hxb : x ≠ b := by rintro rfl; simp at hx
  have hba : a ≠ b := by
    rintro rfl
    simp [nodup_append] at hnodup
  have hb : b ∉ l1 ++ [a] := by
    intro hmem
    rcases mem_append.mp hmem with hmem | hmem
    · exact (List.disjoint_of_nodup_append hnodup) hmem (by simp)
    · exact hba (mem_singleton.mp hmem).symm
  have ha : a ∉ b :: l2 := (nodup_cons.mp (nodup_append.mp hnodup).2.1).1
  simp only [Links.insertBefore, hab.2, bind_eq_bind, bind_some]
  refine ⟨_, rfl, ⟨?_, ?_⟩, ?_⟩
  · -- a pair of neighbours other than `a`, `b` keeps its pointers
    have hkeep : ∀ u v, u ≠ a → v ≠ b → u ≠ x → v ≠ x → m.Adj u v →
        ((((m.setNext a (some x)).setPrev x (m.prev b)).setNext x (some b)).setPrev b
          (some x)).Adj u v := by
      intro u v hu hv hux hvx huv
      simpa [Adj, hu, hv, hux, hvx] using huv
    rw [isChain_append_cons_cons, isChain_cons_cons]
    simp only [prev_setNext, hab.2] at hkeep ⊢
    refine ⟨?_, ?_, ?_, ?_⟩
    · refine hleft.imp_of_mem_imp fun u v hu hv huv => hkeep u v ?_ ?_ ?_ ?_ huv
      · rintro rfl
        exact hb (some.inj (huv.1.symm.trans hab.1) ▸ hv)
      · rintro rfl; exact hb hv
      · rintro rfl; exact hx (by simp at hu ⊢; tauto)
      · rintro rfl; exact hx (by simp at hv ⊢; tauto)
    · simp [Adj, hxa.symm, hxb]
    · simp [Adj]
    · refine hright.imp_of_mem_imp fun u v hu hv huv => hkeep u v ?_ ?_ ?_ ?_ huv
      · rintro rfl; exact ha hu
      · rintro rfl
        exact ha (some.inj (huv.2.symm.trans hab.2) ▸ hu)
      · rintro rfl; exact hx (by simp at hu ⊢; tauto)
      · rintro rfl; exact hx (by simp at hv ⊢; tauto)
  · have hperm : (l1 ++ a :: x :: b :: l2).Perm (x :: (l1 ++ a :: b :: l2)) := by
      have hmiddle : (l1 ++ [a] ++ x :: b :: l2).Perm (x :: (l1 ++ [a] ++ b :: l2)) :=
        perm_middle
      simpa using hmiddle
    exact hperm.nodup_iff.mpr (nodup_cons.mpr ⟨hx, hnodup⟩)
  · intro y hy
    simp only [mem_append, mem_cons, not_or] at hy
    obtain ⟨-, hya, hyx, hyb, -⟩ := hy
    simp [SameAt, hya, hyx, hyb]

/-! ### Unlinking a node -/

/-- Unlink node `x`: its neighbours are made neighbours of each other. -/
def remove (x : N) : Option (Links N) := do
  let p ← m.prev x
  let m := m.setNext p (m.next x)
  let n ← m.next x
  return m.setPrev n (m.prev x)

/-- Unlinking takes the node out of its list and leaves all nodes outside the list alone. -/
lemma Linked.remove (h : m.Linked (l1 ++ a :: x :: b :: l2)) :
    ∃ m', m.remove x = some m' ∧ m'.Linked (l1 ++ a :: b :: l2) ∧
      ∀ y, y ∉ l1 ++ a :: b :: l2 → SameAt m m' y := by
  obtain ⟨hchain, hnodup⟩ := h
  obtain ⟨hleft, hax, hright⟩ := isChain_append_cons_cons.mp hchain
  obtain ⟨hxb, hright⟩ := isChain_cons_cons.mp hright
  have hnodup' := nodup_append.mp hnodup
  have htail : (a :: x :: b :: l2).Nodup := hnodup'.2.1
  have hxa : x ≠ a := by rintro rfl; simp at htail
  have hnot : ∀ y ∈ l1, y ≠ a ∧ y ≠ b := fun y hy =>
    ⟨hnodup'.2.2 y hy a (by simp), hnodup'.2.2 y hy b (by simp)⟩
  have hab : a ≠ b := by rintro rfl; simp at htail
  have ha : a ∉ b :: l2 := fun hmem => (nodup_cons.mp htail).1 (mem_cons_of_mem _ hmem)
  simp only [Links.remove, hax.2, bind_eq_bind, bind_some, next_setNext, if_neg hxa,
    hxb.1, prev_setNext]
  refine ⟨_, rfl, ⟨?_, ?_⟩, ?_⟩
  · rw [isChain_append_cons_cons]
    refine ⟨?_, ?_, ?_⟩
    · -- `a` is the last node on this side: were it `u`, then `v` would be `x`
      refine hleft.imp_of_mem_imp fun u v hu hv huv => ?_
      have hxmem : x ∉ l1 ++ [a] := by
        intro hmem
        rcases mem_append.mp hmem with hmem | hmem
        · exact hnodup'.2.2 x hmem x (by simp) rfl
        · exact hxa (mem_singleton.mp hmem)
      have hua : u ≠ a := by
        rintro rfl
        exact hxmem (some.inj (huv.1.symm.trans hax.1) ▸ hv)
      have hvb : v ≠ b := by
        rintro rfl
        rcases mem_append.mp hv with hmem | hmem
        · exact (hnot v hmem).2 rfl
        · exact hab (mem_singleton.mp hmem).symm
      simpa [Adj, hua, hvb] using huv
    · simp [Adj]
    · refine hright.imp_of_mem_imp fun u v hu hv huv => ?_
      have hua : u ≠ a := by rintro rfl; exact ha hu
      have hvb : v ≠ b := by
        rintro rfl
        have hux : u = x := some.inj (huv.2.symm.trans hxb.2)
        exact (nodup_cons.mp (nodup_cons.mp htail).2).1 (hux ▸ hu)
      simpa [Adj, hua, hvb] using huv
  · refine hnodup.sublist ?_
    exact (List.Sublist.refl l1).append (List.Sublist.cons_cons a (List.sublist_cons_self x _))
  · intro y hy
    simp only [mem_append, mem_cons, not_or] at hy
    obtain ⟨-, hya, hyb, -⟩ := hy
    simp [SameAt, hya, hyb]

/-! ### Walking along a list -/

/-- Follow `next` from node `x`, at most `fuel` times, until node `target` or the node `stop` is
reached; `none` if neither is. -/
def walk (m : Links N) (stop target : N) : (fuel : Nat) → N → Option Bool
  | 0, _ => none
  | fuel + 1, x =>
    if x = stop then some false
    else if x = target then some true
    else (m.next x).bind (walk m stop target fuel)

/-- Follow `next` from node `x`, at most `fuel` times, until a node with `p` or the node `stop` is
reached; `none` if neither is. -/
def walkFind (m : Links N) (stop : N) (p : N → Bool) : (fuel : Nat) → N → Option (Option N)
  | 0, _ => none
  | fuel + 1, x =>
    if x = stop then some none
    else if p x then some (some x)
    else (m.next x).bind (walkFind m stop p fuel)

lemma walk_eq (m : Links N) (stop target : N) (fuel : Nat) (x : N) :
    m.walk stop target fuel x = (m.walkFind stop (· = target) fuel x).map isSome := by
  induction fuel generalizing x with
  | zero => rfl
  | succ fuel ih =>
    simp only [walk, walkFind, decide_eq_true_eq]
    split_ifs
    · rfl
    · rfl
    · cases m.next x with
      | none => rfl
      | some y => exact ih y

/-- Walking along linked nodes finds the first of them with `p`. -/
lemma Linked.walkFind {m : Links N} {stop : N} {p : N → Bool} (h : m.Linked (l ++ [stop]))
    (hfuel : l.length < fuel) :
    (l ++ [stop]).head?.bind (m.walkFind stop p fuel) = some (l.find? p) := by
  induction l generalizing fuel with
  | nil =>
    obtain ⟨fuel, rfl⟩ := Nat.exists_eq_add_of_lt hfuel
    simp [Links.walkFind]
  | cons y l ih =>
    obtain ⟨fuel, rfl⟩ := Nat.exists_eq_add_of_lt (Nat.zero_lt_of_lt hfuel)
    obtain ⟨hchain, hnodup⟩ := h
    have hy : y ≠ stop := by
      rintro rfl
      simp at hnodup
    have hrest := ih ⟨hchain.tail, (nodup_cons.mp hnodup).2⟩ (by simpa using hfuel)
    simp only [cons_append, head?_cons, bind_some, Links.walkFind, if_neg hy, find?_cons]
    cases p y with
    | true => rfl
    | false =>
      rw [Linked.next_eq ⟨hchain, hnodup⟩]
      simpa using hrest

end Links

end SimpleOs.Base
