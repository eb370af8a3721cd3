import SimpleOs.Mem.Heap

/-!
# Lists in memory

The pointers of a list are words in memory. Where the nodes do not overlap, the writes of `list.c`
are those on abstract links, so what is known of lists on links carries over; all bytes away from
the nodes stay.
-/

namespace SimpleOs

open Base Option Bytes

/-- The pointers that the words of a memory make up. -/
def linksOf (V : Bytes) : Links Nat where
  prev := fun x => some (V.u32 x).toNat
  next := fun x => some (V.u32 (x + 4)).toNat

/-- The `struct list` at an address. -/
def listAt (plist : Nat) : ListEnds Nat := ⟨plist, plist + 8⟩

/-- An address outside all nodes. -/
def Away (l : List Nat) (u : Nat) : Prop := ∀ y ∈ l, u < y ∨ y + 8 ≤ u

namespace Memory

variable {m : Memory} {P : Set Nat} {V V' : Bytes} {L : Links Nat} {l xs ys : List Nat}

/-- Nodes that are usable memory and do not overlap. -/
structure NodesOk (P : Set Nat) (l : List Nat) : Prop where
  usable : ∀ y ∈ l, ∀ i < 8, Usable P (y + i)
  lt : ∀ y ∈ l, y < 2 ^ 32
  apart : ∀ y ∈ l, ∀ z ∈ l, y ≠ z → y + 8 ≤ z ∨ z + 8 ≤ y

/-- The words in memory are the pointers `L`, on the nodes `l`. -/
structure Threads (m : Memory) (P : Set Nat) (V : Bytes) (l : List Nat) (L : Links Nat) : Prop where
  sees : m.Sees P V
  nodes : NodesOk P l
  same : ∀ y ∈ l, L.SameAt (linksOf V) y

lemma toNat_ofNat_of_lt (hw : w < 2 ^ 32) : (UInt32.ofNat w).toNat = w := by
  rw [UInt32.toNat_ofNat', Nat.mod_eq_of_lt hw]

/-- The words of a node, after a word `w` has been written at offset `t` of another one. -/
lemma u32_setU32_node (hnodes : NodesOk P l) (hy : y ∈ l) (hz : z ∈ l)
    (hr : r = 0 ∨ r = 4) (ht : t = 0 ∨ t = 4) (hw : w < 2 ^ 32) :
    ((V.setU32 (z + t) (.ofNat w)).u32 (y + r)).toNat =
      if y = z ∧ r = t then w else (V.u32 (y + r)).toNat := by
  split_ifs with heq
  · rw [heq.1, heq.2, u32_setU32_self, toNat_ofNat_of_lt hw]
  · by_cases hyz : y = z
    · rw [u32_setU32_of_ne _ _ (by omega)]
    · have happart := hnodes.apart y hy z hz hyz
      rw [u32_setU32_of_ne _ _ (by omega)]

namespace Threads

variable (h : Threads m P V l L)
include h

lemma word_prev (hx : x ∈ l) : L.prev x = some (m.word x) := by
  rw [h.sees.word fun i hi => h.nodes.usable x hx i (by omega)]
  exact (h.same x hx).1.symm

lemma word_next (hx : x ∈ l) : L.next x = some (m.word (x + 4)) := by
  rw [h.sees.word fun i hi => by
    have husable := h.nodes.usable x hx (4 + i) (by omega)
    rwa [← Nat.add_assoc] at husable]
  exact (h.same x hx).2.symm

lemma setPrev (hx : x ∈ l) (hw : w ∈ l) :
    Threads (m.setWord x w) P (V.setU32 x (.ofNat w)) l (L.setPrev x (some w)) := by
  refine ⟨h.sees.setWord w fun i hi => h.nodes.usable x hx i (by omega), h.nodes, fun y hy => ?_⟩
  have hprev := u32_setU32_node (V := V) h.nodes hy hx (.inl rfl) (.inl rfl) (h.nodes.lt w hw)
  have hnext := u32_setU32_node (V := V) h.nodes hy hx (.inr rfl) (.inl rfl) (h.nodes.lt w hw)
  simp only [Nat.add_zero, and_true] at hprev
  simp only [Nat.add_zero, OfNat.ofNat_ne_zero, and_false, if_false] at hnext
  refine ⟨?_, ?_⟩
  · rw [Links.prev_setPrev, ← (h.same y hy).1]
    simp only [linksOf, hprev]
    split_ifs <;> rfl
  · rw [Links.next_setPrev, ← (h.same y hy).2]
    simp only [linksOf, hnext]

lemma setNext (hx : x ∈ l) (hw : w ∈ l) :
    Threads (m.setWord (x + 4) w) P (V.setU32 (x + 4) (.ofNat w)) l (L.setNext x (some w)) := by
  have hin : ∀ i < 4, Usable P (x + 4 + i) := fun i hi => by
    have husable := h.nodes.usable x hx (4 + i) (by omega)
    rwa [← Nat.add_assoc] at husable
  refine ⟨h.sees.setWord w hin, h.nodes, fun y hy => ?_⟩
  have hprev := u32_setU32_node (V := V) h.nodes hy hx (.inl rfl) (.inr rfl) (h.nodes.lt w hw)
  have hnext := u32_setU32_node (V := V) h.nodes hy hx (.inr rfl) (.inr rfl) (h.nodes.lt w hw)
  simp only [Nat.add_zero, OfNat.zero_ne_ofNat, and_false, if_false] at hprev
  simp only [and_true] at hnext
  refine ⟨?_, ?_⟩
  · rw [Links.prev_setNext, ← (h.same y hy).1]
    simp only [linksOf, hprev]
  · rw [Links.next_setNext, ← (h.same y hy).2]
    simp only [linksOf, hnext]
    split_ifs <;> rfl

/-- The four writes of `list_insert_before` are those on the links. -/
lemma listInsertBefore (hb : b ∈ l) (hx : x ∈ l) (hp : p ∈ l) (hprev : L.prev b = some p) :
    ∃ V' L', L.insertBefore b x = some L' ∧ Threads (m.listInsertBefore b x) P V' l L' ∧
      ∀ u, Away l u → V' u = V u := by
  have hword : m.word b = p := some.inj ((h.word_prev hb).symm.trans hprev)
  have h1 := h.setNext hp hx
  have hword1 : (m.setWord (p + 4) x).word b = p :=
    some.inj ((h1.word_prev hb).symm.trans hprev)
  have h2 := h1.setPrev hx hp
  have h3 := h2.setNext hx hb
  have h4 := h3.setPrev hb hx
  refine ⟨_, _, ?_, by simpa only [Memory.listInsertBefore, hword, hword1] using h4, ?_⟩
  · simp only [Links.insertBefore, hprev, bind_eq_bind, bind_some, Links.prev_setNext]
    rfl
  · intro u hu
    have hub := hu b hb
    have hux := hu x hx
    have hup := hu p hp
    rw [setU32_outside _ (by omega), setU32_outside _ (by omega),
      setU32_outside _ (by omega), setU32_outside _ (by omega)]

/-- The two writes of `list_remove` are those on the links. -/
lemma listRemove (hx : x ∈ l) (hp : p ∈ l) (hn : n ∈ l)
    (hprev : L.prev x = some p) (hnext : L.next x = some n) (hxp : x ≠ p) :
    ∃ V' L', L.remove x = some L' ∧ Threads (m.listRemove x) P V' l L' ∧
      ∀ u, u < p ∨ p + 8 ≤ u → u < n ∨ n + 8 ≤ u → V' u = V u := by
  have hword : m.word x = p := some.inj ((h.word_prev hx).symm.trans hprev)
  have hword' : m.word (x + 4) = n := some.inj ((h.word_next hx).symm.trans hnext)
  have h1 := h.setNext hp hn
  have hword1 : (m.setWord (p + 4) n).word x = p :=
    some.inj ((h1.word_prev hx).symm.trans hprev)
  have hnext1 : (L.setNext p (some n)).next x = some n := by
    rw [Links.next_setNext, if_neg hxp, hnext]
  have hword1' : (m.setWord (p + 4) n).word (x + 4) = n :=
    some.inj ((h1.word_next hx).symm.trans hnext1)
  have h2 := h1.setPrev hn hp
  refine ⟨_, _, ?_, by simpa only [Memory.listRemove, hword, hword', hword1, hword1'] using h2, ?_⟩
  · simp only [Links.remove, hprev, hnext, bind_eq_bind, bind_some, hnext1, Links.prev_setNext]
    rfl
  · intro u hup hun
    rw [setU32_outside _ (by omega), setU32_outside _ (by omega)]

end Threads

/-! ### What the functions do to a list -/

lemma threads (h : m.Sees P V) (hnodes : NodesOk P l) : Threads m P V l (linksOf V) :=
  ⟨h, hnodes, fun _ _ => ⟨rfl, rfl⟩⟩

lemma isList_of_away (hlist : (listAt plist).IsList (linksOf V) xs)
    (hsame : ∀ y ∈ (listAt plist).nodes xs, ∀ i < 8, V' (y + i) = V (y + i)) :
    (listAt plist).IsList (linksOf V') xs := by
  refine hlist.of_sameAt fun y hy => ⟨?_, ?_⟩
  · simp only [linksOf]
    rw [u32_congr fun k hk => hsame y hy k (by omega)]
  · have hword : V'.u32 (y + 4) = V.u32 (y + 4) := u32_congr fun k hk => by
      have hbyte := hsame y hy (4 + k) (by omega)
      simpa only [Nat.add_assoc] using hbyte
    simp only [linksOf, hword]

lemma Sees.listAppend (h : m.Sees P V) (hlist : (listAt plist).IsList (linksOf V) xs)
    (hx : x ∉ (listAt plist).nodes xs) (hnodes : NodesOk P ((listAt plist).nodes (xs ++ [x]))) :
    ∃ V', (m.listAppend plist x).Sees P V' ∧ (listAt plist).IsList (linksOf V') (xs ++ [x]) ∧
      ∀ u, Away ((listAt plist).nodes (xs ++ [x])) u → V' u = V u := by
  obtain ⟨p, hp, hprev⟩ := hlist.exists_prev_tail
  have hp' : p ∈ (listAt plist).nodes (xs ++ [x]) := by
    simp only [ListEnds.mem_nodes, List.mem_append, List.mem_cons] at hp ⊢
    tauto
  obtain ⟨V', L', hL', hthreads, hframe⟩ := (threads h hnodes).listInsertBefore
    (b := plist + 8) (x := x) (by simp [listAt]) (by simp) hp' hprev
  obtain ⟨L'', hL'', hlist', -⟩ := hlist.listAppend hx
  obtain rfl : L' = L'' := some.inj (hL'.symm.trans hL'')
  exact ⟨V', hthreads.sees, hlist'.of_sameAt hthreads.same, hframe⟩

lemma Sees.listRemove (h : m.Sees P V) (hlist : (listAt plist).IsList (linksOf V) (xs ++ x :: ys))
    (hnodes : NodesOk P ((listAt plist).nodes (xs ++ x :: ys))) :
    ∃ V', (m.listRemove x).Sees P V' ∧ (listAt plist).IsList (linksOf V') (xs ++ ys) ∧
      ∀ u, Away ((listAt plist).nodes (xs ++ ys)) u → V' u = V u := by
  obtain ⟨p, hp, n, hn, hprev, hnext⟩ := hlist.exists_neighbours
  have hsub : (listAt plist).nodes (xs ++ ys) ⊆ (listAt plist).nodes (xs ++ x :: ys) := by
    intro y hy
    simp only [ListEnds.mem_nodes, List.mem_append, List.mem_cons] at hy ⊢
    tauto
  have hxp : x ≠ p := by
    rintro rfl
    exact hlist.notMem_rest hp
  obtain ⟨V', L', hL', hthreads, hframe⟩ := (threads h hnodes).listRemove
    (by simp) (hsub hp) (hsub hn) hprev hnext hxp
  obtain ⟨L'', hL'', hlist', -⟩ := hlist.remove
  obtain rfl : L' = L'' := some.inj (hL'.symm.trans hL'')
  refine ⟨V', hthreads.sees, hlist'.of_sameAt fun y hy => hthreads.same y (hsub hy), fun u hu => ?_⟩
  exact hframe u (hu p hp) (hu n hn)

lemma Sees.listInit (h : m.Sees P V) (husable : ∀ i < 16, Usable P (plist + i))
    (hlt : plist + 8 < 2 ^ 32) :
    ∃ V', (m.listInit plist).Sees P V' ∧ (listAt plist).IsList (linksOf V') [] ∧
      ∀ u, u < plist ∨ plist + 16 ≤ u → V' u = V u := by
  have hin (t : Nat) (ht : t ≤ 12) : ∀ i < 4, Usable P (plist + t + i) := fun i hi => by
    rw [Nat.add_assoc]
    exact husable (t + i) (by omega)
  have h4 := (((h.setWord 0 (hin 0 (by omega))).setWord (plist + 8) (hin 4 (by omega))).setWord
    plist (hin 8 (by omega))).setWord 0 (hin 12 (by omega))
  refine ⟨_, h4, ⟨?_, by simp [ListEnds.nodes, listAt]⟩, fun u hu => ?_⟩
  · simp only [ListEnds.nodes, listAt, List.cons_append, List.nil_append, List.isChain_pair]
    refine ⟨?_, ?_⟩
    · simp only [linksOf]
      rw [u32_setU32_of_ne _ _ (by omega), u32_setU32_of_ne _ _ (by omega),
        u32_setU32_self, toNat_ofNat_of_lt hlt]
    · simp only [linksOf]
      rw [u32_setU32_of_ne _ _ (by omega), u32_setU32_self, toNat_ofNat_of_lt (by omega)]
  · rw [setU32_outside _ (by omega), setU32_outside _ (by omega),
      setU32_outside _ (by omega), setU32_outside _ (by omega)]

lemma Sees.listEmpty (h : m.Sees P V) (hlist : (listAt plist).IsList (linksOf V) xs)
    (hnodes : NodesOk P ((listAt plist).nodes xs)) : m.listEmpty plist = decide (xs = []) := by
  rw [← hlist.listEmpty]
  have hnext := (threads h hnodes).word_next (x := plist) (by simp [listAt])
  simp [Memory.listEmpty, ListEnds.listEmpty, listAt, hnext]

/-! ### Pages

Lists, blocks and headers are bytes of pages the heap has: writing to them takes and gives back no
page. -/

/-- The pages are taken and mapped as before. -/
structure SamePages (m m' : Memory) : Prop where
  vaddr : m'.kernelVaddr = m.kernelVaddr
  pool : m'.kernelPool = m.kernelPool
  user : m'.userPool = m.userPool
  pte : m'.pte = m.pte

lemma SamePages.trans (h : SamePages m1 m2) (h' : SamePages m2 m3) : SamePages m1 m3 :=
  ⟨h'.vaddr.trans h.vaddr, h'.pool.trans h.pool, h'.user.trans h.user, h'.pte.trans h.pte⟩

lemma SamePages.refl (m : Memory) : SamePages m m := ⟨rfl, rfl, rfl, rfl⟩

lemma samePages_setWord (m : Memory) (v w : Nat) : SamePages m (m.setWord v w) :=
  ⟨rfl, rfl, rfl, rfl⟩

lemma samePages_memset (m : Memory) (v : Nat) (value : UInt8) (n : Nat) :
    SamePages m (m.memset v value n) := ⟨rfl, rfl, rfl, rfl⟩

lemma samePages_listAppend (m : Memory) (plist elem : Nat) : SamePages m (m.listAppend plist elem) :=
  ⟨rfl, rfl, rfl, rfl⟩

lemma samePages_listRemove (m : Memory) (pelem : Nat) : SamePages m (m.listRemove pelem) :=
  ⟨rfl, rfl, rfl, rfl⟩

lemma samePages_popBlock (m : Memory) (desc : Nat) : SamePages m (m.popBlock desc).2 :=
  ((samePages_listRemove _ _).trans (samePages_memset _ _ _ _)).trans (samePages_setWord _ _ _)

lemma samePages_appendBlocks (m : Memory) (a n : Nat) : SamePages m (m.appendBlocks a n) := by
  induction n with
  | zero => exact .refl m
  | succ n ih => exact ih.trans (samePages_listAppend _ _ _)

lemma samePages_removeBlocks (m : Memory) (a n : Nat) : SamePages m (m.removeBlocks a n) := by
  induction n with
  | zero => exact .refl m
  | succ n ih => exact ih.trans (samePages_listRemove _ _)

/-- What a call does to the pages `P` of the heap: none changes, or it takes some, or it gives
some back. -/
inductive PageStep (m : Memory) (P : Set Nat) (m' : Memory) (P' : Set Nat) : Prop where
  | keep (hsame : SamePages m m') (hP : P' = P)
  | take {cnt q : Nat} {m₁ m₂ : Memory} (hbefore : SamePages m m₁) (hcnt : 0 < cnt)
      (hmalloc : m₁.mallocPage cnt = (some (q * pgSize), m₂)) (hafter : SamePages m₂ m')
      (hP : P' = P ∪ Set.Ico q (q + cnt))
  | give {cnt q : Nat} {m₁ : Memory} (hbefore : SamePages m m₁) (hq : 0xc0100 ≤ q)
      (hdisj : ∀ p ∈ Set.Ico q (q + cnt), p ∉ P')
      (hafter : SamePages (m₁.mfreePage (q * pgSize) cnt) m') (hP : P = P' ∪ Set.Ico q (q + cnt))

lemma PageStep.samePages {P' : Set Nat} (h : PageStep m1 P m2 P')
    (hbefore : SamePages m m1) (hafter : SamePages m2 m') : PageStep m P m' P' := by
  cases h with
  | keep hsame hP => exact .keep ((hbefore.trans hsame).trans hafter) hP
  | take h1 hcnt hmalloc h2 hP => exact .take (hbefore.trans h1) hcnt hmalloc (h2.trans hafter) hP
  | give h1 hq hdisj h2 hP => exact .give (hbefore.trans h1) hq hdisj (h2.trans hafter) hP

end Memory

end SimpleOs
