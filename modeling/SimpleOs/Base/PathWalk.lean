import Mathlib

/-!
# Walking and normalising paths

A hierarchy of directories is known by its lookups. A path is a list of names, and walking it looks
up one name after the other. Where the names "." and ".." mean the directory itself and its parent,
a path can be normalised without looking at the directories, and means the same.
-/

namespace SimpleOs.Base

open List

open Option

universe u w

/-- Lookups in directories: what a name stands for, and whether it is a directory. -/
structure Hierarchy (D : Type u) (N : Type w) where
  root : D
  dot : N
  dotDot : N
  lookup : D → N → Option (D × Bool)

namespace Hierarchy

variable {D : Type u} {N : Type w} {h : Hierarchy D N}

variable {c d : D} {ms ns st : List N} {n : N} {r : D × Bool}

/-- Look up one name after the other; all but the last have to be directories. -/
def walk (h : Hierarchy D N) : D → List N → Option (D × Bool)
  | d, [] => some (d, true)
  | d, n :: ns =>
    match h.lookup d n with
    | none => none
    | some (c, isDir) => if ns = [] then some (c, isDir) else if isDir then h.walk c ns else none

/-- Walk from directory to directory. -/
def walkDirs (h : Hierarchy D N) : D → List N → Option D
  | d, [] => some d
  | d, n :: ns =>
    match h.lookup d n with
    | some (c, true) => h.walkDirs c ns
    | _ => none

/-- The rule for the names of a directory and its parent. -/
structure Lawful (h : Hierarchy D N) (IsDir : D → Prop) (parent : D → D) : Prop where
  root : IsDir h.root
  parent_root : parent h.root = h.root
  dot : ∀ d, IsDir d → h.lookup d h.dot = some (d, true)
  dotDot : ∀ d, IsDir d → h.lookup d h.dotDot = some (parent d, true)
  dir : ∀ d n c, IsDir d → h.lookup d n = some (c, true) → IsDir c
  parent : ∀ d n c, IsDir d → n ≠ h.dot → n ≠ h.dotDot → h.lookup d n = some (c, true) → parent c = d

/-! ### Walks -/

lemma walkDirs_append :
    h.walkDirs d (ns ++ ms) = (h.walkDirs d ns).bind fun c => h.walkDirs c ms := by
  induction ns generalizing d with
  | nil => rfl
  | cons n ns ih =>
    simp only [List.cons_append, walkDirs]
    split
    · exact ih
    · rfl

lemma walkDirs_concat :
    h.walkDirs d (ns ++ [n]) = some e ↔ ∃ c, h.walkDirs d ns = some c ∧ h.lookup c n = some (e, true) := by
  rw [walkDirs_append, bind_eq_some_iff]
  refine exists_congr fun c => and_congr_right fun _ => ?_
  simp only [walkDirs]
  split
  · next hc => simp [hc]
  · next hc => exact iff_of_false (by simp) fun heq => hc _ heq

/-- A walk goes from directory to directory, and then looks up the last name. -/
lemma walk_concat :
    h.walk d (ns ++ [n]) = some r ↔ ∃ c, h.walkDirs d ns = some c ∧ h.lookup c n = some r := by
  induction ns generalizing d with
  | nil =>
    simp only [List.nil_append, walk, walkDirs, if_true]
    split
    · next hn => simp [hn]
    · next hn => simp [hn]
  | cons m ns ih =>
    simp only [List.cons_append, walk, walkDirs]
    split
    · next hm => simp [hm]
    · next b isDir hm =>
      rw [if_neg (by simp), hm]
      cases isDir with
      | true => exact ih
      | false => simp

/-- After some directories the walk goes on in the last of them. -/
lemma walk_append_cons (hns : h.walkDirs d ns = some c) :
    h.walk d (ns ++ n :: ms) = h.walk c (n :: ms) := by
  induction ns generalizing d with
  | nil =>
    cases hns
    rfl
  | cons m ns ih =>
    simp only [walkDirs] at hns
    split at hns
    · next b hb =>
      rw [List.cons_append, walk, hb]
      simp only [if_true]
      rw [if_neg (by simp), ih hns]
    · cases hns

/-- A walk stops at one name only. -/
lemma walkDirs_stop {r d' : D} {ns' ms' : List N} {n' : N} (heq : ns ++ n :: ms = ns' ++ n' :: ms')
    (hd : h.walkDirs r ns = some d) (hd' : h.walkDirs r ns' = some d')
    (hstop : ∀ c, h.lookup d n ≠ some (c, true)) (hstop' : ∀ c, h.lookup d' n' ≠ some (c, true)) :
    ns = ns' ∧ n = n' ∧ ms = ms' := by
  -- a walk past the name would have found a directory
  have hpast : ∀ {ns as : List N} {n : N} {d e : D}, h.walkDirs r ns = some d →
      h.walkDirs r (ns ++ n :: as) = some e → ∃ c, h.lookup d n = some (c, true) := by
    intro ns as n d e hns hpast
    rw [walkDirs_append, hns, bind_some, walkDirs] at hpast
    split at hpast
    · next c hc => exact ⟨c, hc⟩
    · cases hpast
  rcases append_eq_append_iff.mp heq with ⟨as, rfl, has⟩ | ⟨as, rfl, has⟩
  · cases as with
    | nil =>
      obtain ⟨rfl, rfl⟩ := List.cons.inj has
      exact ⟨(append_nil ns).symm, rfl, rfl⟩
    | cons a as =>
      obtain ⟨rfl, -⟩ := List.cons.inj has
      obtain ⟨c, hc⟩ := hpast hd hd'
      exact absurd hc (hstop c)
  · cases as with
    | nil =>
      obtain ⟨rfl, rfl⟩ := List.cons.inj has
      exact ⟨append_nil ns', rfl, rfl⟩
    | cons a as =>
      obtain ⟨rfl, -⟩ := List.cons.inj has
      obtain ⟨c, hc⟩ := hpast hd' hd
      exact absurd hc (hstop' c)

lemma walk_eq_some_true : h.walk d ns = some (c, true) ↔ h.walkDirs d ns = some c := by
  rcases List.eq_nil_or_concat ns with rfl | ⟨ms, n, rfl⟩
  · simp [walk, walkDirs]
  · rw [List.concat_eq_append, walk_concat, walkDirs_concat]

lemma Lawful.walkDirs {IsDir : D → Prop} {parent : D → D} (hl : h.Lawful IsDir parent)
    (hd : IsDir d) (hns : h.walkDirs d ns = some c) : IsDir c := by
  induction ns generalizing d with
  | nil => rwa [← some.inj hns]
  | cons n ns ih =>
    simp only [Hierarchy.walkDirs] at hns
    split at hns
    · next c' hc => exact ih (hl.dir d n c' hd hc) hns
    · cases hns

/-- A path without the names of a directory and its parent. -/
def Plain (h : Hierarchy D N) (st : List N) : Prop := ∀ n ∈ st, n ≠ h.dot ∧ n ≠ h.dotDot

/-- The parent of a directory that is reached by a normal path is reached by the path without its
last name. Paths of this kind are kept with the last name first. -/
lemma Lawful.walkDirs_tail {IsDir : D → Prop} {parent : D → D} (hl : h.Lawful IsDir parent)
    (hst : h.Plain st) (hd : h.walkDirs h.root st.reverse = some d) :
    h.walkDirs h.root st.tail.reverse = some (parent d) := by
  cases st with
  | nil =>
    cases hd
    exact congrArg some hl.parent_root.symm
  | cons n st =>
    rw [reverse_cons] at hd
    obtain ⟨c, hc, hn⟩ := walkDirs_concat.mp hd
    obtain ⟨hdot, hdotDot⟩ := hst n mem_cons_self
    rw [List.tail_cons, hc, hl.parent c n d (hl.walkDirs hl.root hc) hdot hdotDot hn]

/-! ### Normal paths -/

variable [DecidableEq N]

/-- One more name on a normal path, whose last name comes first. -/
def push (h : Hierarchy D N) (st : List N) (n : N) : List N :=
  if n = h.dotDot then st.tail else if n = h.dot then st else n :: st

/-- The normal form of a path, with its last name first. -/
def normal (h : Hierarchy D N) (ns : List N) : List N := ns.foldl h.push []

lemma Plain.push (hst : h.Plain st) (n : N) : h.Plain (h.push st n) := by
  rw [Hierarchy.push]
  split_ifs with hdd hd
  · exact fun m hm => hst m (mem_of_mem_tail hm)
  · exact hst
  · intro m hm
    rcases mem_cons.mp hm with rfl | hm
    · exact ⟨hd, hdd⟩
    · exact hst m hm

lemma Plain.foldl (hst : h.Plain st) (ns : List N) : h.Plain (ns.foldl h.push st) := by
  induction ns generalizing st with
  | nil => exact hst
  | cons n ns ih => exact ih (hst.push n)

lemma plain_normal (h : Hierarchy D N) (ns : List N) : h.Plain (h.normal ns) :=
  Plain.foldl (by simp [Plain]) ns

lemma reverse_foldl_push_sublist (h : Hierarchy D N) (st ns : List N) :
    (ns.foldl h.push st).reverse.Sublist (st.reverse ++ ns) := by
  induction ns generalizing st with
  | nil => simp
  | cons n ns ih =>
    refine (ih (h.push st n)).trans ?_
    rw [append_cons]
    refine List.Sublist.append_right ?_ ns
    rw [push]
    split_ifs
    · exact (reverse_sublist.mpr (List.tail_sublist st)).trans (List.sublist_append_left ..)
    · exact List.sublist_append_left ..
    · rw [reverse_cons]

lemma reverse_normal_sublist (h : Hierarchy D N) (ns : List N) : (h.normal ns).reverse.Sublist ns :=
  h.reverse_foldl_push_sublist [] ns

lemma Plain.normal_reverse (hst : h.Plain st) : h.normal st.reverse = st := by
  induction st with
  | nil => rfl
  | cons n st ih =>
    obtain ⟨hn, hst⟩ := forall_mem_cons.mp hst
    have hfold : st.reverse.foldl h.push [] = st := ih hst
    rw [normal, reverse_cons, foldl_append, hfold, foldl_cons, foldl_nil, Hierarchy.push,
      if_neg hn.2, if_neg hn.1]

namespace Lawful

variable {IsDir : D → Prop} {parent : D → D}

variable (hl : h.Lawful IsDir parent)
include hl

lemma walkDirs_push (hst : h.Plain st)
    (hd : h.walkDirs h.root st.reverse = some d) (hn : h.lookup d n = some (c, true)) :
    h.walkDirs h.root (h.push st n).reverse = some c := by
  have hdir := hl.walkDirs hl.root hd
  rw [push]
  split_ifs with hdd hdot
  · rw [hdd, hl.dotDot d hdir] at hn
    rw [hl.walkDirs_tail hst hd, (Prod.mk.inj (some.inj hn)).1]
  · rw [hdot, hl.dot d hdir] at hn
    rw [hd, (Prod.mk.inj (some.inj hn)).1]
  · rw [reverse_cons]
    exact walkDirs_concat.mpr ⟨d, hd, hn⟩

lemma walkDirs_foldl (hst : h.Plain st)
    (hd : h.walkDirs h.root st.reverse = some d) (hns : h.walkDirs d ns = some c) :
    h.walkDirs h.root (ns.foldl h.push st).reverse = some c := by
  induction ns generalizing st d with
  | nil =>
    cases hns
    exact hd
  | cons n ns ih =>
    simp only [Hierarchy.walkDirs] at hns
    split at hns
    · next b hb => exact ih (hst.push n) (hl.walkDirs_push hst hd hb) hns
    · cases hns

lemma walkDirs_normal
    (hns : h.walkDirs h.root ns = some c) : h.walkDirs h.root (h.normal ns).reverse = some c :=
  hl.walkDirs_foldl (by simp [Plain]) rfl hns

/-- A path and its normal form lead to the same place. -/
lemma walk_normal
    (hns : h.walk h.root ns = some r) : h.walk h.root (h.normal ns).reverse = some r := by
  obtain ⟨c, isDir⟩ := r
  cases isDir with
  | true => exact walk_eq_some_true.mpr (hl.walkDirs_normal (walk_eq_some_true.mp hns))
  | false =>
    -- only the last name can be no directory, and it is no name of a directory or its parent
    rcases List.eq_nil_or_concat ns with rfl | ⟨ms, n, rfl⟩
    · cases hns
    rw [List.concat_eq_append] at hns ⊢
    obtain ⟨d, hd, hn⟩ := walk_concat.mp hns
    have hdir := hl.walkDirs hl.root hd
    have hdotDot : n ≠ h.dotDot := by
      rintro rfl
      simp [hl.dotDot d hdir] at hn
    have hdot : n ≠ h.dot := by
      rintro rfl
      simp [hl.dot d hdir] at hn
    have hpush : h.normal (ms ++ [n]) = n :: h.normal ms := by
      rw [normal, foldl_append, foldl_cons, foldl_nil, push, if_neg hdotDot, if_neg hdot, normal]
    rw [hpush, reverse_cons]
    exact walk_concat.mpr ⟨d, hl.walkDirs_normal hd, hn⟩

end Lawful

end Hierarchy

end SimpleOs.Base
