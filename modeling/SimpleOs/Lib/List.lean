import SimpleOs.Base.LinkedList
import SimpleOs.Base.Transition

/-!
# Intrusive lists

`lib/kernel/list.c`. A `struct list` is two sentinel nodes and the nodes linked up between them;
the functions here are the pointer writes of the source. `IsList m a xs` says that the list `a`
holds the nodes `xs`. Each function has one lemma saying what it does to such a list and that the
nodes of other lists keep their pointers.
-/

namespace SimpleOs

open Base List Function

universe u v

/-- `struct list`: the sentinel nodes at both ends. -/
structure ListEnds (N : Type u) where
  head : N
  tail : N

namespace ListEnds

variable {N : Type u}

/-- All nodes of a list that holds `xs`, sentinels included. -/
def nodes (a : ListEnds N) (xs : List N) : List N := a.head :: xs ++ [a.tail]

@[simp] lemma mem_nodes {a : ListEnds N} {xs : List N} {y : N} :
    y ∈ a.nodes xs ↔ y = a.head ∨ y ∈ xs ∨ y = a.tail := by simp [nodes]

/-- The list holds exactly the nodes `xs`, in that order. -/
def IsList (m : Links N) (a : ListEnds N) (xs : List N) : Prop := m.Linked (a.nodes xs)

lemma IsList.nodup {m : Links N} {a : ListEnds N} {xs : List N} (h : a.IsList m xs) : xs.Nodup :=
  (nodup_append.mp (nodup_cons.mp h.2).2).1

lemma IsList.ne_tail {m : Links N} {a : ListEnds N} {xs : List N} (h : a.IsList m xs) {x : N}
    (hx : x ∈ xs) : x ≠ a.tail :=
  (nodup_append.mp (nodup_cons.mp h.2).2).2.2 x hx a.tail (by simp)

lemma IsList.of_sameAt {m m' : Links N} {a : ListEnds N} {xs : List N} (h : a.IsList m xs)
    (hsame : ∀ x ∈ a.nodes xs, m.SameAt m' x) : a.IsList m' xs := Links.Linked.of_sameAt h hsame

private lemma exists_concat (a : ListEnds N) (xs : List N) : ∃ ys z, a.head :: xs = ys ++ [z] := by
  rcases List.eq_nil_or_concat (a.head :: xs) with h | ⟨ys, z, h⟩
  · simp at h
  · exact ⟨ys, z, h.trans List.concat_eq_append⟩

lemma exists_cons (a : ListEnds N) (xs : List N) : ∃ y ys, xs ++ [a.tail] = y :: ys := by
  cases xs with
  | nil => exact ⟨a.tail, [], rfl⟩
  | cons y ys => exact ⟨y, ys ++ [a.tail], rfl⟩

lemma IsList.exists_prev_tail {m : Links N} {a : ListEnds N} {xs : List N} (h : a.IsList m xs) :
    ∃ p ∈ a.head :: xs, m.prev a.tail = some p := by
  obtain ⟨zs, z, hz⟩ := exists_concat a xs
  have hn : a.nodes xs = zs ++ z :: a.tail :: [] := by simp [nodes, hz]
  rw [IsList, hn] at h
  exact ⟨z, by simp [hz], (isChain_append_cons_cons.mp h.1).2.1.2⟩

/-- The two neighbours of a node. -/
lemma IsList.exists_neighbours {m : Links N} {a : ListEnds N} {xs ys : List N} {x : N}
    (h : a.IsList m (xs ++ x :: ys)) :
    ∃ p ∈ a.nodes (xs ++ ys), ∃ n ∈ a.nodes (xs ++ ys), m.prev x = some p ∧ m.next x = some n := by
  obtain ⟨zs, z, hz⟩ := exists_concat a xs
  obtain ⟨w, ws, hw⟩ := exists_cons a ys
  have hn : a.nodes (xs ++ x :: ys) = zs ++ z :: x :: w :: ws := by
    rw [nodes, ← List.cons_append, hz]; simp [hw]
  have hn' : a.nodes (xs ++ ys) = zs ++ z :: w :: ws := by
    rw [nodes, ← List.cons_append, hz]; simp [hw]
  rw [IsList, hn] at h
  obtain ⟨-, hzx, hrest⟩ := isChain_append_cons_cons.mp h.1
  rw [hn']
  exact ⟨z, by simp, w, by simp, hzx.2, (isChain_cons_cons.mp hrest).1.1⟩

lemma IsList.notMem_rest {m : Links N} {a : ListEnds N} {xs ys : List N} {x : N}
    (h : a.IsList m (xs ++ x :: ys)) : x ∉ a.nodes (xs ++ ys) := by
  have hperm : (a.nodes (xs ++ x :: ys)).Perm (x :: a.nodes (xs ++ ys)) := by
    have hmiddle : (a.head :: xs ++ x :: (ys ++ [a.tail])).Perm
        (x :: (a.head :: xs ++ (ys ++ [a.tail]))) := perm_middle
    simpa [nodes] using hmiddle
  exact (nodup_cons.mp (hperm.nodup_iff.mp h.2)).1

lemma IsList.next_head {a : ListEnds N} (h : a.IsList m xs) :
    m.next a.head = (xs ++ [a.tail]).head? :=
  Links.Linked.next_eq h

variable [DecidableEq N]

/-! ### The functions of the source -/

/-- `list_init`. -/
def listInit (a : ListEnds N) (m : Links N) : Links N :=
  (((m.setPrev a.head none).setNext a.head (some a.tail)).setPrev a.tail (some a.head)).setNext
    a.tail none

/-- `list_push`: link a node in at the front. -/
def listPush (a : ListEnds N) (m : Links N) (x : N) : Option (Links N) :=
  (m.next a.head).bind fun first => m.insertBefore first x

/-- `list_append`: link a node in at the end. -/
def listAppend (a : ListEnds N) (m : Links N) (x : N) : Option (Links N) :=
  m.insertBefore a.tail x

/-- `list_pop`: unlink the first node, whatever it is. -/
def listPop (a : ListEnds N) (m : Links N) : Option (N × Links N) :=
  (m.next a.head).bind fun x => (m.remove x).map fun m' => (x, m')

/-- `elem_find`; `fuel` bounds the walk. -/
def elemFind (a : ListEnds N) (m : Links N) (fuel : Nat) (x : N) : Option Bool :=
  (m.next a.head).bind (m.walk a.tail x fuel)

/-- `list_empty`. -/
def listEmpty (a : ListEnds N) (m : Links N) : Bool := m.next a.head = some a.tail

/-- `list_traversal`: the first node that the callback accepts; `fuel` bounds the walk. -/
def listTraversal (a : ListEnds N) (m : Links N) (fuel : Nat) (func : N → Int32 → Bool)
    (arg : Int32) : Option (Option N) :=
  if a.listEmpty m then some none
  else (m.next a.head).bind (m.walkFind a.tail (func · arg) fuel)

/-! ### What they do -/

variable {a : ListEnds N} {m : Links N} {xs ys l₁ l₂ : List N} {b x : N}

/-- `list_insert_before` some node of the list or the sentinel at its end. -/
lemma IsList.insertBefore (h : a.IsList m xs) (hb : xs ++ [a.tail] = l₁ ++ b :: l₂)
    (hys : ys ++ [a.tail] = l₁ ++ x :: b :: l₂) (hx : x ∉ a.nodes xs) :
    ∃ m', m.insertBefore b x = some m' ∧ a.IsList m' ys ∧
      ∀ y, y ∉ a.nodes ys → m.SameAt m' y := by
  obtain ⟨zs, z, hz⟩ := exists_concat a l₁
  have hn : a.nodes xs = zs ++ z :: b :: l₂ := by
    rw [nodes, cons_append, hb, ← cons_append, hz]; simp
  have hn' : a.nodes ys = zs ++ z :: x :: b :: l₂ := by
    rw [nodes, cons_append, hys, ← cons_append, hz]; simp
  rw [IsList, hn] at h
  rw [hn] at hx
  simp only [IsList, hn']
  exact h.insertBefore hx

lemma IsList.listAppend (h : a.IsList m xs) (hx : x ∉ a.nodes xs) :
    ∃ m', a.listAppend m x = some m' ∧ a.IsList m' (xs ++ [x]) ∧
      ∀ y, y ∉ a.nodes (xs ++ [x]) → m.SameAt m' y :=
  h.insertBefore rfl (by simp) hx

lemma IsList.remove (h : a.IsList m (xs ++ x :: ys)) :
    ∃ m', m.remove x = some m' ∧ a.IsList m' (xs ++ ys) ∧
      ∀ y, y ∉ a.nodes (xs ++ ys) → m.SameAt m' y := by
  obtain ⟨zs, z, hz⟩ := exists_concat a xs
  obtain ⟨w, ws, hw⟩ := exists_cons a ys
  have hn : a.nodes (xs ++ x :: ys) = zs ++ z :: x :: w :: ws := by
    rw [nodes, ← List.cons_append, hz]; simp [hw]
  have hn' : a.nodes (xs ++ ys) = zs ++ z :: w :: ws := by
    rw [nodes, ← List.cons_append, hz]; simp [hw]
  rw [IsList, hn] at h
  simp only [IsList, hn']
  exact h.remove

lemma IsList.listPop (h : a.IsList m (x :: xs)) :
    ∃ m', a.listPop m = some (x, m') ∧ a.IsList m' xs ∧
      ∀ y, y ∉ a.nodes xs → m.SameAt m' y := by
  have hfront : a.IsList m ([] ++ x :: xs) := h
  obtain ⟨m', hm', hlist, hsame⟩ := hfront.remove
  exact ⟨m', by simp [ListEnds.listPop, h.next_head, hm'], hlist, hsame⟩

section

variable (h : a.IsList m xs)
include h

lemma IsList.walkFind (hfuel : xs.length < fuel) (p : N → Bool) :
    (m.next a.head).bind (m.walkFind a.tail p fuel) = some (xs.find? p) := by
  have hlinked : m.Linked (xs ++ [a.tail]) := ⟨h.1.tail, (nodup_cons.mp h.2).2⟩
  rw [h.next_head]
  exact hlinked.walkFind hfuel

lemma IsList.elemFind (hfuel : xs.length < fuel) :
    a.elemFind m fuel x = some (decide (x ∈ xs)) := by
  have hwalk : m.walk a.tail x fuel = Option.map Option.isSome ∘ m.walkFind a.tail (· = x) fuel :=
    funext (m.walk_eq a.tail x fuel)
  rw [ListEnds.elemFind, hwalk, ← Option.map_bind, h.walkFind hfuel, Option.map_some,
    Option.some.injEq, Bool.eq_iff_iff]
  simp

lemma IsList.listEmpty : a.listEmpty m = decide (xs = []) := by
  rw [ListEnds.listEmpty, h.next_head]
  cases xs with
  | nil => simp
  | cons y ys => simpa using h.ne_tail (mem_cons_self ..)

lemma IsList.listTraversal (hfuel : xs.length < fuel) (func : N → Int32 → Bool) (arg : Int32) :
    a.listTraversal m fuel func arg = some (xs.find? (func · arg)) := by
  rw [ListEnds.listTraversal, h.listEmpty]
  split_ifs with hxs
  · simp [decide_eq_true_eq.mp hxs]
  · exact h.walkFind hfuel _

end

end ListEnds

/-! ### Many lists -/

/-- The list `ends i` holds the nodes `q i`, and no node is in two lists. -/
structure HoldsAll {N : Type u} {I : Type v} (m : Links N) (ends : I → ListEnds N)
    (q : I → List N) : Prop where
  lists : ∀ i, (ends i).IsList m (q i)
  disjoint : ∀ i j y, y ∈ (ends i).nodes (q i) → y ∈ (ends j).nodes (q j) → i = j

namespace HoldsAll

variable {N : Type u} {I : Type v} [DecidableEq I] {m m' : Links N} {ends : I → ListEnds N}
  {q : I → List N} {i : I} {b x : N} {l l₁ l₂ : List N} (h : HoldsAll m ends q)
include h

/-- A list is changed by writes to its own nodes. -/
lemma setList (hlist : (ends i).IsList m' l) (hsame : ∀ y, y ∉ (ends i).nodes l → m.SameAt m' y)
    (hl : ∀ y ∈ l, ∀ j, y ∈ (ends j).nodes (q j) → j = i) : HoldsAll m' ends (update q i l) := by
  have hown : ∀ y ∈ (ends i).nodes l, ∀ j, y ∈ (ends j).nodes (q j) → j = i := by
    intro y hy j hj
    rcases ListEnds.mem_nodes.mp hy with rfl | hy | rfl
    · exact h.disjoint j i _ hj (by simp)
    · exact hl y hy j hj
    · exact h.disjoint j i _ hj (by simp)
  refine ⟨fun j => ?_, unique_of_fresh i h.disjoint (fun j y hji hj => ?_) fun j y hy => ?_⟩
  · by_cases hji : j = i
    · subst hji
      simpa using hlist
    · rw [update_of_ne hji]
      exact (h.lists j).of_sameAt fun y hy => hsame y fun hmem => hji (hown y hmem j hy)
  · rwa [update_of_ne hji] at hj
  · rw [update_self] at hy
    exact hown y hy j

lemma shrink (hlist : (ends i).IsList m' l)
    (hsame : ∀ y, y ∉ (ends i).nodes l → m.SameAt m' y) (hl : l ⊆ q i) :
    HoldsAll m' ends (update q i l) :=
  h.setList hlist hsame fun y hy j hj => h.disjoint j i y hj (by simp [hl hy])

variable [DecidableEq N]

lemma insertBefore (hx : ∀ j, x ∉ (ends j).nodes (q j))
    (hb : q i ++ [(ends i).tail] = l₁ ++ b :: l₂)
    (hl : l ++ [(ends i).tail] = l₁ ++ x :: b :: l₂) :
    ∃ m', m.insertBefore b x = some m' ∧ HoldsAll m' ends (update q i l) := by
  obtain ⟨m', hm', hlist, hsame⟩ := (h.lists i).insertBefore hb hl (hx i)
  refine ⟨m', hm', h.setList hlist hsame fun y hy j hj => ?_⟩
  -- the nodes of the longer list are the new one and those that were there
  have hmem : y = x ∨ y ∈ q i ++ [(ends i).tail] := by
    have hy' : y ∈ l ++ [(ends i).tail] := mem_append_left _ hy
    rw [hl] at hy'
    rw [hb]
    simp only [mem_append, mem_cons] at hy' ⊢
    tauto
  rcases hmem with rfl | hmem
  · exact absurd hj (hx j)
  · exact h.disjoint j i y hj (mem_cons_of_mem _ hmem)

lemma listAppend (hx : ∀ j, x ∉ (ends j).nodes (q j)) :
    ∃ m', (ends i).listAppend m x = some m' ∧ HoldsAll m' ends (update q i (q i ++ [x])) :=
  h.insertBefore hx rfl (by simp)

lemma listPush (hx : ∀ j, x ∉ (ends j).nodes (q j)) :
    ∃ m', (ends i).listPush m x = some m' ∧ HoldsAll m' ends (update q i (x :: q i)) := by
  obtain ⟨z, zs, hz⟩ := ListEnds.exists_cons (ends i) (q i)
  have hfront : q i ++ [(ends i).tail] = [] ++ z :: zs := hz
  simp only [ListEnds.listPush, (h.lists i).next_head, hz, head?_cons, Option.bind_some]
  exact h.insertBefore hx hfront (by simp [hz])

lemma listPop (hq : q i = x :: l) :
    ∃ m', (ends i).listPop m = some (x, m') ∧ HoldsAll m' ends (update q i l) := by
  have hlist := h.lists i
  rw [hq] at hlist
  obtain ⟨m', hm', hlist, hsame⟩ := hlist.listPop
  exact ⟨m', hm', h.shrink hlist hsame (by simp [hq])⟩

lemma remove (hx : x ∈ q i) :
    ∃ m', m.remove x = some m' ∧ HoldsAll m' ends (update q i ((q i).erase x)) := by
  obtain ⟨l₁, l₂, -, hq, herase⟩ := exists_erase_eq hx
  have hlist := h.lists i
  rw [hq] at hlist
  obtain ⟨m', hm', hlist, hsame⟩ := hlist.remove
  rw [← herase] at hlist hsame
  exact ⟨m', hm', h.shrink hlist hsame (erase_subset ..)⟩

end HoldsAll

/-- In a heap of any number of lists, each function changes the sequence of its own list as it
should, keeps all lists well formed and the other sequences as they are. -/
theorem lists_refine {N : Type u} {I : Type v} [DecidableEq N] [DecidableEq I] {m : Links N}
    {ends : I → ListEnds N} {q : I → List N} (h : HoldsAll m ends q) (i : I) :
    (∀ x, (∀ j, x ∉ (ends j).nodes (q j)) →
      (∃ m', (ends i).listPush m x = some m' ∧ HoldsAll m' ends (update q i (x :: q i))) ∧
      (∃ m', (ends i).listAppend m x = some m' ∧ HoldsAll m' ends (update q i (q i ++ [x]))) ∧
      ∀ b l l₁ l₂, q i ++ [(ends i).tail] = l₁ ++ b :: l₂ →
        l ++ [(ends i).tail] = l₁ ++ x :: b :: l₂ →
        ∃ m', m.insertBefore b x = some m' ∧ HoldsAll m' ends (update q i l)) ∧
    (∀ x ∈ q i, ∃ m', m.remove x = some m' ∧ HoldsAll m' ends (update q i ((q i).erase x))) ∧
    (∀ x l, q i = x :: l →
      ∃ m', (ends i).listPop m = some (x, m') ∧ HoldsAll m' ends (update q i l)) ∧
    (∀ fuel, (q i).length < fuel →
      (∀ x, (ends i).elemFind m fuel x = some (decide (x ∈ q i))) ∧
      ∀ func arg, (ends i).listTraversal m fuel func arg = some ((q i).find? (func · arg))) ∧
    (ends i).listEmpty m = decide (q i = []) := by
  refine ⟨fun x hx => ⟨h.listPush hx, h.listAppend hx, ?_⟩, fun x => h.remove, ?_, ?_, ?_⟩
  · intro b l l₁ l₂ hb hl
    exact h.insertBefore hx hb hl
  · intro x l hq
    exact h.listPop hq
  · intro fuel hfuel
    exact ⟨fun x => (h.lists i).elemFind hfuel, (h.lists i).listTraversal hfuel⟩
  · exact (h.lists i).listEmpty

/-- Two lists without nodes between their sentinels. -/
def emptyLists : Links Nat :=
  ListEnds.listInit ⟨0, 1⟩ (ListEnds.listInit ⟨2, 3⟩ ⟨fun _ => none, fun _ => none⟩)

theorem lists_refine_empty :
    ∃ m', ListEnds.listPush ⟨0, 1⟩ emptyLists 4 = some m' ∧
      HoldsAll m' (fun i : Bool => if i then ⟨0, 1⟩ else ⟨2, 3⟩)
        (update (fun _ => []) true [4]) := by
  have h : HoldsAll emptyLists (fun i : Bool => if i then ⟨0, 1⟩ else ⟨2, 3⟩) fun _ => [] := by
    refine ⟨fun i => ⟨?_, ?_⟩, fun i j y hi hj => ?_⟩
    · cases i <;> simp [ListEnds.nodes, Links.Adj, emptyLists, ListEnds.listInit]
    · cases i <;> decide
    · cases i <;> cases j <;> simp at hi hj ⊢ <;> omega
  exact ((lists_refine h true).1 4 (by decide)).1

end SimpleOs
