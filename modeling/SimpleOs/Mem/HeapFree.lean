import SimpleOs.Mem.HeapMalloc

/-!
# sys_free

A block goes back to the end of its free list; when the last block of an arena has come back, its
blocks are taken out of the list again and the page is given up. A large arena is given up at once.
All other blocks in use keep their contents.
-/

namespace SimpleOs

open Base Memory Function

variable {descs : Nat} {m m' : Memory} {live : Nat → Option Nat} {V V' : Bytes} {sh sh' : Shape}
  {p q c i j k n x y r : Nat} {l rest : List Nat}

/-! ### Giving back a block -/

lemma HeapInv.word_arena (h : HeapInv descs m live V sh) (hp : sh.small p = some i) :
    m.word (p * pgSize) = descAt descs i ∧ m.word (p * pgSize + 4) = sh.freeCount p i := by
  have hpage : p ∈ sh.pages := .inl ⟨i, hp⟩
  have hhead := h.repr.small p i hp
  refine ⟨?_, ?_⟩
  · rw [← hhead.1]
    exact h.sees.word fun r hr => usable_page hpage (by simp only [pgSize]; omega)
  · rw [← hhead.2.1]
    exact h.sees.word (usable_word hpage (by omega))

lemma HeapInv.word_desc (h : HeapInv descs m live V sh) (hd : DescsOk descs) (hi : i < 7) :
    m.word (descAt descs i) = blockSize i ∧ m.word (descAt descs i + 4) = blocksPerArena i := by
  obtain ⟨hsize, hcnt⟩ := h.repr.desc i hi
  refine ⟨?_, ?_⟩
  · rw [← hsize]
    exact h.sees.word fun r hr => usable_desc hd hi (by omega) _
  · rw [← hcnt]
    refine h.sees.word fun r hr => ?_
    rw [Nat.add_assoc]
    exact usable_desc hd hi (by omega) _

lemma Book.ne_of_mem_free (h : Book sh live) (hi : i < 7) (hx : x ∈ sh.free i)
    (hy : live y = some n) : y ≠ x := by
  rintro rfl
  obtain ⟨p, k, hp, hk, rfl⟩ := h.isBlock i hi y hx
  rw [(h.mem_free p i k hp hk).mp hx] at hy
  cases hy

section

variable (h : HeapInv descs m live V sh)
include h

/-- A block in use is put at the end of the free list and counted. -/
lemma HeapInv.pushBlock (hd : DescsOk descs)
    (hp : sh.small p = some i) (hk : k < blocksPerArena i) (hlive : live (blockAt p i k) = some n) :
    ∃ m1, m1 = m.listAppend (descAt descs i + 8) (blockAt p i k) ∧
      m1.word (p * pgSize + 4) = sh.freeCount p i ∧
      ∃ V', HeapInv descs (m1.setWord (p * pgSize + 4) (sh.freeCount p i + 1))
          (update live (blockAt p i k) none) V'
          (sh.setFree i (sh.free i ++ [blockAt p i k])) ∧
        KeepsLive live (blockAt p i k) V V' := by
  have hi := h.book.lt_of_small p i hp
  have hblock : sh.IsBlock i (blockAt p i k) := ⟨p, k, hp, hk, rfl⟩
  have hnot : blockAt p i k ∉ sh.free i := fun hmem => h.book.ne_of_mem_free hi hmem hlive rfl
  have hblocks : ∀ x ∈ sh.free i ++ [blockAt p i k], sh.IsBlock i x := by
    intro x hx
    rcases List.mem_append.mp hx with hx | hx
    · exact h.book.isBlock i hi x hx
    · rw [List.mem_singleton.mp hx]
      exact hblock
  have hnodes := h.nodesOk hd hi hblocks
  obtain ⟨V1, hsees1, hlist1, hframe1⟩ := h.sees.listAppend (h.repr.list i hi)
    (hblock.notMem_nodes hd h.inHeap hi hnot) hnodes
  have hout1 : ∀ u, Outside descs sh i u → V1 u = V u := fun u hu => hframe1 u (hu.away hblocks)
  have hpage : p ∈ sh.pages := .inl ⟨i, hp⟩
  -- one free block more
  have hmem : ∀ y, y ∈ (sh.setFree i (sh.free i ++ [blockAt p i k])).free i ↔
      y = blockAt p i k ∨ y ∈ sh.free i := by
    simp [Shape.setFree, or_comm]
  have hcnt := freeCount_add hmem hk hnot
  have hlt := blocksPerArena_lt i
  have hw : (UInt32.ofNat (sh.freeCount p i + 1)).toNat =
      (sh.setFree i (sh.free i ++ [blockAt p i k])).freeCount p i := by
    have hle' := freeCount_le (sh.setFree i (sh.free i ++ [blockAt p i k])) p i
    rw [hcnt] at hle' ⊢
    exact toNat_ofNat_of_lt (by omega)
  obtain ⟨hsees2, hrepr2⟩ := h.recount hd hp hblocks (fun q hq => freeCount_of_ne hmem hk hq)
    hsees1 hout1 hlist1 hw
  refine ⟨_, rfl, ?_, _, ⟨hsees2, hrepr2, h.book.push hblock⟩, ?_⟩
  · rw [hsees1.word (usable_word hpage (by omega)), (h.header_of_outside hd hp hout1).2.1]
  · intro y l hy hne r hr
    have hhead := h.book.apart_header hy hr (.inl ⟨i, hp⟩)
    have haway := h.book.away hd h.inHeap hi (fun z hz => ⟨hblocks z hz, ?_⟩) hy hr
    · rw [Bytes.setU32_outside _ (by omega), hframe1 _ haway]
    · rcases List.mem_append.mp hz with hz | hz
      · exact h.book.ne_of_mem_free hi hz hy
      · rwa [List.mem_singleton.mp hz]

/-! ### Giving up an arena -/

/-- The loop that takes the blocks of an arena out of the free list. -/
lemma HeapInv.removeBlocks (hd : DescsOk descs)
    (hp : sh.small p = some i) (hall : ∀ k < blocksPerArena i, blockAt p i k ∈ sh.free i)
    (hn : n ≤ blocksPerArena i) :
    ∃ V' l, (m.removeBlocks (p * pgSize) n).Sees sh.pages V' ∧
      (listAt (descAt descs i + 8)).IsList (linksOf V') l ∧
      (∀ y, y ∈ l ↔ y ∈ sh.free i ∧ ∀ k < n, y ≠ blockAt p i k) ∧
      ∀ u, Away ((listAt (descAt descs i + 8)).nodes (sh.free i)) u → V' u = V u := by
  have hi := h.book.lt_of_small p i hp
  induction n with
  | zero => exact ⟨V, sh.free i, h.sees, h.repr.list i hi, by simp, fun _ _ => rfl⟩
  | succ n ih =>
    obtain ⟨V1, l, hsees1, hlist1, hmem1, hframe1⟩ := ih (by omega)
    have hpage : p ∈ sh.pages := .inl ⟨i, hp⟩
    have hout1 : ∀ u, Outside descs sh i u → V1 u = V u := fun u hu =>
      hframe1 u (hu.away (h.book.isBlock i hi))
    have hblocks : ∀ x ∈ l, sh.IsBlock i x := fun x hx => h.book.isBlock i hi x ((hmem1 x).mp hx).1
    have hword : (m.removeBlocks (p * pgSize) n).word (p * pgSize) = descAt descs i := by
      rw [hsees1.word fun r hr => usable_page hpage (by simp only [pgSize]; omega)]
      exact (h.header_of_outside hd hp hout1).1
    have hsize : (m.removeBlocks (p * pgSize) n).word (descAt descs i) = blockSize i := by
      rw [hsees1.word fun r hr => usable_desc hd hi (by omega) _, ← (h.repr.desc i hi).1,
        Bytes.u32_congr fun r hr =>
          hout1 _ (outside_desc hd h.inHeap hi (by omega) (.inr (by omega))).1]
    -- the block is still in the list
    have hx : blockAt p i n ∈ l := (hmem1 _).mpr ⟨hall n hn, fun k hk heq => by
      have hkn := (blockAt_inj hn (by omega) heq).2
      omega⟩
    obtain ⟨xs, ys, rfl⟩ := List.append_of_mem hx
    obtain ⟨V2, hsees2, hlist2, hframe2⟩ := hsees1.listRemove hlist1 (h.nodesOk hd hi hblocks)
    have hnot := hlist1.notMem_rest
    refine ⟨V2, xs ++ ys, ?_, hlist2, fun y => ?_, fun u hu => ?_⟩
    · simpa only [Memory.removeBlocks, Memory.arena2block, hword, hsize, blockAt] using hsees2
    · have hy := hmem1 y
      have hne : y ∈ xs ++ ys → y ≠ blockAt p i n := by
        rintro hy rfl
        exact hnot (by simp only [ListEnds.mem_nodes]; exact .inr (.inl hy))
      have hmid : y ∈ xs ++ blockAt p i n :: ys ↔ y = blockAt p i n ∨ y ∈ xs ++ ys := by
        simp only [List.mem_append, List.mem_cons]
        exact or_left_comm
      constructor
      · intro hin
        obtain ⟨hfree, hold⟩ := hy.mp (hmid.mpr (.inr hin))
        refine ⟨hfree, fun k hk => ?_⟩
        by_cases hkn : k = n
        · rw [hkn]
          exact hne hin
        · exact hold k (by omega)
      · rintro ⟨hfree, hall'⟩
        exact (hmid.mp (hy.mpr ⟨hfree, fun k hk => hall' k (by omega)⟩)).resolve_left
          (hall' n (by omega))
    · rw [hframe2 u fun y hy => hu y ?_, hframe1 u hu]
      simp only [ListEnds.mem_nodes] at hy ⊢
      rcases hy with hy | hy | hy
      · exact .inl hy
      · refine .inr (.inl ((hmem1 y).mp ?_).1)
        simp only [List.mem_append, List.mem_cons] at hy ⊢
        exact hy.imp_right .inr
      · exact .inr (.inr hy)

/-- An arena with all its blocks free is given up. -/
lemma HeapInv.dropArena (hd : DescsOk descs)
    (hp : sh.small p = some i) (hall : ∀ k < blocksPerArena i, blockAt p i k ∈ sh.free i) :
    ∃ V' l, HeapInv descs ((m.removeBlocks (p * pgSize) (blocksPerArena i)).mfreePage (p * pgSize) 1)
        live V' (sh.dropSmall p i l) ∧
      PageStep m sh.pages ((m.removeBlocks (p * pgSize) (blocksPerArena i)).mfreePage (p * pgSize) 1)
        (sh.dropSmall p i l).pages ∧ ∀ x, KeepsLive live x V V' := by
  have hi := h.book.lt_of_small p i hp
  have hpage : p ∈ sh.pages := .inl ⟨i, hp⟩
  have hheap := (h.inHeap p hpage).1
  obtain ⟨V', l, hsees, hlist, hmem, hframe⟩ := h.removeBlocks hd hp hall le_rfl
  have hpages := Shape.pages_dropSmall hp l
  have hsub : (sh.dropSmall p i l).pages ⊆ sh.pages := hpages ▸ Set.subset_union_left
  have hnot : ∀ r ∈ Set.Ico p (p + 1), r ∉ (sh.dropSmall p i l).pages := by
    rintro r hr (⟨j, hj⟩ | ⟨q, c, hq, hin⟩)
    · obtain rfl : r = p := by simp only [Set.mem_Ico] at hr; omega
      simp [Shape.dropSmall] at hj
    · obtain rfl : r = p := by simp only [Set.mem_Ico] at hr; omega
      exact h.book.small_large r i q c hp hq hin
  obtain ⟨howns, hkeep⟩ := (hsees.owns.mono hpages.symm.subset).mfreePage hnot hheap
  refine ⟨V', l, ⟨hkeep.sees (hsees.mono hsub) howns, ?_, ?_⟩,
    .give (samePages_removeBlocks _ _ _) hheap hnot (.refl _) hpages, ?_⟩
  · refine h.repr.of_work hd h.inHeap h.book hheap (fun j hj => Option.some.inj (hj.symm.trans hp)) ?_
      (notMem_Ico_one p) ?_ ?_ ?_ ?_ ?_ fun c hc => by cases (h.book.large_eq_none hp).symm.trans hc
    · intro q hq
      simp [Shape.dropSmall, hq]
    · intro j hji
      simp [Shape.dropSmall, hji]
    · exact fun u hu _ => hframe u ((hu hi).away (h.book.isBlock i hi))
    · simpa [Shape.dropSmall] using fun _ => hlist
    · -- the other arenas have lost no free block
      intro q hq _
      simp only [Shape.freeCount]
      congr 1
      refine Finset.filter_congr fun k hk => ?_
      simp only [Shape.dropSmall, update_self, hmem, and_iff_left_iff_imp]
      intro _ k' hk' heq
      exact hq (blockAt_inj (Finset.mem_range.mp hk) hk' heq).1
    · intro j hj
      simp [Shape.dropSmall] at hj
  · exact h.book.dropSmall hp (fun k hk => (h.book.mem_free p i k hp hk).mp (hall k hk)) hmem
  · intro x y l' hy _ r hr
    exact hframe _ (h.book.away hd h.inHeap hi
      (fun z hz => ⟨h.book.isBlock i hi z hz, h.book.ne_of_mem_free hi hz hy⟩) hy hr)

end

/-! ### The function -/

lemma all_free_of_freeCount (h : sh.freeCount p i = blocksPerArena i) :
    ∀ k < blocksPerArena i, blockAt p i k ∈ sh.free i := by
  intro k hk
  have hcard : ((Finset.range (blocksPerArena i)).filter fun k => blockAt p i k ∈ sh.free i).card =
      (Finset.range (blocksPerArena i)).card := by
    rw [Finset.card_range]
    exact h
  exact Finset.filter_card_eq hcard k (Finset.mem_range.mpr hk)

/-- What `sys_free` does with a block in use. -/
def Frees (descs : Nat) (m : Memory) (live : Nat → Option Nat) (V : Bytes) (sh : Shape) (x : Nat)
    (m' : Memory) : Prop :=
  ∃ V' sh', HeapInv descs m' (update live x none) V' sh' ∧
    Used sh' (update live x none) ∧ KeepsLive live x V V' ∧
    PageStep m sh.pages m' sh'.pages

/-- The arenas other than that of a freed block keep a block in use. -/
lemma Used.of_ne (h : Used sh live) (hk : k < blocksPerArena i)
    (hq : sh.small q = some j) (hne : q ≠ p) :
    ∃ k' < blocksPerArena j, update live (blockAt p i k) none (blockAt q j k') ≠ none := by
  obtain ⟨k', hk', hlive⟩ := h q j hq
  refine ⟨k', hk', ?_⟩
  have hx : blockAt q j k' ≠ blockAt p i k := by
    obtain ⟨hlo, hhi⟩ := blockAt_bounds p hk
    obtain ⟨hlo', hhi'⟩ := blockAt_bounds q hk'
    simp only [pgSize] at hlo hhi hlo' hhi'
    omega
  rwa [update_of_ne hx]

variable (h : HeapInv descs m live V sh)
include h

lemma HeapInv.freeSmall (hused : Used sh live) (hd : DescsOk descs)
    (hp : sh.small p = some i) (hk : k < blocksPerArena i) (hlive : live (blockAt p i k) = some n) :
    Frees descs m live V sh (blockAt p i k) (m.sysFree (blockAt p i k)) := by
  have hi := h.book.lt_of_small p i hp
  have harena := h.word_arena hp
  have hdesc : ¬ (descAt descs i = 0 ∧ m.word (p * pgSize + 8) = 1) := by
    rintro ⟨hzero, -⟩
    simp only [DescsOk, descAt] at hd hzero
    omega
  obtain ⟨m1, hm1, hcount, V2, hinv, hkeep⟩ := h.pushBlock hd hp hk hlive
  set m2 := m1.setWord (p * pgSize + 4) (sh.freeCount p i + 1) with hm2
  set sh2 := sh.setFree i (sh.free i ++ [blockAt p i k]) with hsh2
  have hp2 : sh2.small p = some i := hp
  have hsame : SamePages m m2 := by
    rw [hm2, hm1]
    exact (samePages_listAppend _ _ _).trans (samePages_setWord _ _ _)
  have hfree : m.sysFree (blockAt p i k) =
      if sh2.freeCount p i = blocksPerArena i then
        (m2.removeBlocks (p * pgSize) (blocksPerArena i)).mfreePage (p * pgSize) 1
      else m2 := by
    simp only [Memory.sysFree, block2arena_blockAt hk, harena.1, ← hm1, hcount, ← hm2,
      (hinv.word_arena hp2).1, (hinv.word_arena hp2).2, (hinv.word_desc hd hi).2]
    rw [if_neg hdesc]
  rw [hfree]
  split_ifs with hfull
  · -- the arena is empty
    obtain ⟨V3, l, hinv3, hstep, hkeep3⟩ := hinv.dropArena hd hp2 (all_free_of_freeCount hfull)
    refine ⟨V3, _, hinv3, ?_, ?_, hstep.samePages hsame (.refl _)⟩
    · intro q j hq
      by_cases hqp : q = p
      · simp [Shape.dropSmall, hqp] at hq
      · simp only [Shape.dropSmall, update_of_ne hqp] at hq
        exact hused.of_ne hk hq hqp
    · intro y l' hy hne r hr
      have hy' : update live (blockAt p i k) none y = some l' := by
        rwa [update_of_ne hne]
      exact (hkeep3 _ y l' hy' hne r hr).trans (hkeep y l' hy hne r hr)
  · refine ⟨V2, sh2, hinv, ?_, hkeep, .keep hsame rfl⟩
    intro q j hq
    by_cases hqp : q = p
    · -- some block of the arena is not free
      subst hqp
      obtain rfl : i = j := Option.some.inj (hp.symm.trans hq)
      by_contra hnone
      push Not at hnone
      refine hfull ?_
      have hall : (Finset.range (blocksPerArena i)).filter (fun k => blockAt q i k ∈ sh2.free i) =
          Finset.range (blocksPerArena i) :=
        Finset.filter_true_of_mem fun k' hk' =>
          (hinv.book.mem_free q i k' hp2 (Finset.mem_range.mp hk')).mpr
            (hnone k' (Finset.mem_range.mp hk'))
      rw [Shape.freeCount, hall, Finset.card_range]
    · exact hused.of_ne hk hq hqp

lemma HeapInv.freeLarge (hused : Used sh live) (hd : DescsOk descs) (hq : sh.large q = some c) :
    Frees descs m live V sh (q * pgSize + 12) (m.sysFree (q * pgSize + 12)) := by
  have hpage := h.book.mem_pages_of_large hq
  have hheap := (h.inHeap q hpage).1
  have harena : block2arena (q * pgSize + 12) = q * pgSize := by
    simp only [block2arena, pgSize]
    omega
  obtain ⟨hdesc, hcnt, hlarge⟩ := h.repr.large q c hq
  have hword0 : m.word (q * pgSize) = 0 := by
    rw [← hdesc]
    exact h.sees.word fun r hr => usable_page hpage (by simp only [pgSize]; omega)
  have hword4 : m.word (q * pgSize + 4) = c := by
    rw [← hcnt]
    exact h.sees.word (usable_word hpage (by omega))
  have hword8 : m.word (q * pgSize + 8) = 1 := by
    rw [← hlarge]
    exact h.sees.word (usable_word hpage le_rfl)
  have hfree : m.sysFree (q * pgSize + 12) = m.mfreePage (q * pgSize) c := by
    simp only [Memory.sysFree, harena, hword0, hword4, hword8, and_self, if_true]
  have hpages := Shape.pages_dropLarge hq
  have hsub : (sh.dropLarge q).pages ⊆ sh.pages := hpages ▸ Set.subset_union_left
  have hnot : ∀ r ∈ Set.Ico q (q + c), r ∉ (sh.dropLarge q).pages := by
    rintro r hr (⟨j, hj⟩ | ⟨q', c', hq', hin⟩)
    · exact h.book.small_large r j q c hj hq hr
    · have hqq : q' ≠ q := by
        rintro rfl
        simp [Shape.dropLarge] at hq'
      simp only [Shape.dropLarge, update_of_ne hqq] at hq'
      exact hqq (h.book.large_large r q' c' q c hq' hq hin hr)
  obtain ⟨howns, hkeep⟩ := (h.sees.owns.mono hpages.symm.subset).mfreePage hnot hheap
  rw [hfree]
  refine ⟨V, sh.dropLarge q, ⟨hkeep.sees (h.sees.mono hsub) howns, ?_, h.book.dropLarge hq⟩, ?_,
    fun _ _ _ _ _ _ => rfl, .give (.refl m) hheap hnot (.refl _) hpages⟩
  · have hsmall : ∀ j, sh.small q ≠ some j := fun j hj => by
      cases (h.book.large_eq_none hj).symm.trans hq
    have hnot' : ∀ p, p ≠ q → sh.small p ≠ none ∨ sh.large p ≠ none → p ∉ Set.Ico q (q + c) := by
      intro p hpq hp hin
      obtain ⟨i, hi⟩ | ⟨c', hc'⟩ := hp.imp Option.ne_none_iff_exists'.mp Option.ne_none_iff_exists'.mp
      · exact h.book.small_large p i q c hi hq hin
      · have hpos := (h.book.large_pos p c' hc').1
        exact hpq (h.book.large_large p p c' q c hc' hq ⟨le_rfl, by omega⟩ hin)
    refine h.repr.of_work (i := 7) hd h.inHeap h.book hheap (fun j hj => absurd hj (hsmall j)) ?_ hnot'
      (fun _ _ => rfl) (fun _ _ _ => rfl) (by simp) (fun _ _ _ => rfl)
      (fun j hj => absurd hj (hsmall j)) ?_
    · intro q' hqq
      simp [Shape.dropLarge, hqq]
    · intro c' hc'
      simp [Shape.dropLarge] at hc'
  · intro p i hp
    obtain ⟨k, hk, hlive⟩ := hused p i hp
    refine ⟨k, hk, ?_⟩
    rwa [update_of_ne (h.book.block_ne_large ⟨p, k, hp, hk, rfl⟩ hq)]

/-- `sys_free` of a block in use. -/
lemma HeapInv.sysFree (hused : Used sh live) (hd : DescsOk descs)
    (hx : live x = some n) : Frees descs m live V sh x (m.sysFree x) := by
  rcases h.book.region x n hx with ⟨p, i, k, hp, hk, rfl, -⟩ | ⟨q, c, hq, rfl, -⟩
  · exact h.freeSmall hused hd hp hk hx
  · exact h.freeLarge hused hd hq

end SimpleOs
