import SimpleOs.Mem.HeapBook

/-!
# sys_malloc

Each part of `sys_malloc` keeps the invariant of the heap: taking the first block of a free list,
filling the list from a new arena, and making a large arena. The block that is returned is all
zeros, and the blocks that were in use keep their contents.
-/

namespace SimpleOs

open Base Memory Function Option Bytes Finset

/-- The memory holds the heap of the shape `sh`, with the blocks `live` in use; `V` is what the
kernel sees of it. -/
structure HeapInv (descs : Nat) (m : Memory) (live : Nat → Option Nat) (V : Bytes) (sh : Shape) :
    Prop where
  sees : m.Sees sh.pages V
  repr : Repr descs V sh
  book : Book sh live

/-- The blocks in use, other than `x`, have the same contents in `V'` as in `V`. -/
def KeepsLive (live : Nat → Option Nat) (x : Nat) (V V' : Bytes) : Prop :=
  ∀ y l, live y = some l → y ≠ x → ∀ r < l, V' (y + r) = V (y + r)

variable {descs : Nat} {m m' : Memory} {live : Nat → Option Nat} {V V' : Bytes} {sh sh' : Shape}
  {p q c i j k n x y r : Nat} {l rest : List Nat}

lemma HeapInv.inHeap (h : HeapInv descs m live V sh) : sh.InHeap := h.sees.owns.heap

lemma HeapInv.nodesOk (h : HeapInv descs m live V sh) (hd : DescsOk descs) (hi : i < 7)
    (hl : ∀ x ∈ l, sh.IsBlock i x) : NodesOk sh.pages ((listAt (descAt descs i + 8)).nodes l) :=
  nodesOk_nodes hd h.inHeap hi hl

/-! ### Counting free blocks -/

section

variable (hmem : ∀ y, y ∈ sh'.free i ↔ y = blockAt p i k ∨ y ∈ sh.free i)
include hmem

lemma freeCount_add (hk : k < blocksPerArena i) (hnot : blockAt p i k ∉ sh.free i) :
    sh'.freeCount p i = sh.freeCount p i + 1 := by
  have hfilter : (Finset.range (blocksPerArena i)).filter (fun j => blockAt p i j ∈ sh'.free i) =
      insert k ((Finset.range (blocksPerArena i)).filter fun j => blockAt p i j ∈ sh.free i) := by
    ext j
    simp only [mem_filter, mem_range, mem_insert, hmem]
    constructor
    · rintro ⟨hj, heq | hfree⟩
      · exact .inl (blockAt_inj hj hk heq).2
      · exact .inr ⟨hj, hfree⟩
    · rintro (rfl | ⟨hj, hfree⟩)
      · exact ⟨hk, .inl rfl⟩
      · exact ⟨hj, .inr hfree⟩
  rw [Shape.freeCount, hfilter, card_insert_of_notMem (by simp [hnot])]
  rfl

lemma freeCount_of_ne
    (hk : k < blocksPerArena i) (hne : q ≠ p) : sh'.freeCount q i = sh.freeCount q i := by
  simp only [Shape.freeCount]
  congr 1
  refine filter_congr fun j hj => ?_
  rw [hmem]
  refine or_iff_right fun heq => hne (blockAt_inj (mem_range.mp hj) hk heq).1

end

lemma freeCount_le (sh : Shape) (p i : Nat) : sh.freeCount p i ≤ blocksPerArena i := by
  have hle := card_filter_le (Finset.range (blocksPerArena i)) fun k => blockAt p i k ∈ sh.free i
  rwa [card_range] at hle

lemma blocksPerArena_lt (i : Nat) : blocksPerArena i < 2 ^ 32 := by
  have hle : blocksPerArena i ≤ pgSize - 12 := Nat.div_le_self _ _
  simp only [pgSize] at hle
  omega

/-! ### Blocks in use and the rest of the heap -/

/-- A block in use is apart from every other small block. -/
lemma Book.apart_block (h : Book sh live) (hy : live y = some n) (hx : sh.IsBlock i x) (hne : y ≠ x)
    (hr : r < n) : y + r < x ∨ x + blockSize i ≤ y + r := by
  obtain ⟨p, k, hp, hk, rfl⟩ := hx
  obtain ⟨hlo, hhi⟩ := blockAt_bounds p hk
  rcases h.region y n hy with ⟨p', j, k', hp', hk', rfl, hn⟩ | ⟨q, c, hq, rfl, hn⟩
  · obtain ⟨hlo', hhi'⟩ := blockAt_bounds p' hk'
    by_cases hpp : p' = p
    · subst hpp
      obtain rfl : j = i := some.inj (hp'.symm.trans hp)
      have hkk : k' ≠ k := fun heq => hne (by rw [heq])
      rcases blockAt_apart p' j hkk with h' | h' <;> omega
    · simp only [pgSize] at hlo hhi hlo' hhi'
      omega
  · have hnot := h.small_large p i q c hp hq
    simp only [pgSize, Set.mem_Ico] at hlo hhi hnot hn ⊢
    omega

/-- A block in use is in the heap, behind the header of its arena. -/
lemma Book.apart_header (h : Book sh live) (hy : live y = some n) (hr : r < n)
    (hp : (∃ i, sh.small p = some i) ∨ ∃ c, sh.large p = some c) :
    y + r < p * pgSize ∨ p * pgSize + 12 ≤ y + r := by
  rcases h.region y n hy with ⟨p', j, k', hp', hk', rfl, hn⟩ | ⟨q, c, hq, rfl, hn⟩
  · obtain ⟨hlo', hhi'⟩ := blockAt_bounds p' hk'
    simp only [pgSize] at hlo' hhi' ⊢
    omega
  · by_cases hpq : p = q
    · subst hpq
      omega
    have hnot : p ∉ Set.Ico q (q + c) := by
      rcases hp with ⟨i, hp⟩ | ⟨c', hp⟩
      · exact h.small_large p i q c hp hq
      · intro hmem
        have hpos := (h.large_pos p c' hp).1
        exact hpq (h.large_large p p c' q c hp hq ⟨le_rfl, by omega⟩ hmem)
    simp only [pgSize, Set.mem_Ico] at hnot hn ⊢
    omega

lemma Book.mem_pages (h : Book sh live) (hy : live y = some n) (hr : r < n) :
    (y + r) / pgSize ∈ sh.pages := by
  rcases h.region y n hy with ⟨p', j, k', hp', hk', rfl, hn⟩ | ⟨q, c, hq, rfl, hn⟩
  · rw [blockAt_div p' hk' (by omega)]
    exact .inl ⟨j, hp'⟩
  · refine .inr ⟨q, c, hq, ?_⟩
    simp only [pgSize, Set.mem_Ico] at hn ⊢
    omega

/-- A block in use is away from the nodes of a free list. -/
lemma Book.away (h : Book sh live) (hd : DescsOk descs) (hheap : sh.InHeap) (hi : i < 7)
    (hl : ∀ x ∈ l, sh.IsBlock i x ∧ y ≠ x) (hy : live y = some n) (hr : r < n) :
    Away ((listAt (descAt descs i + 8)).nodes l) (y + r) := by
  have hpage := (hheap _ (h.mem_pages hy hr)).1
  simp only [DescsOk] at hd
  simp only [pgSize] at hpage
  intro z hz
  simp only [ListEnds.mem_nodes, listAt, descAt] at hz
  rcases hz with rfl | hz | rfl
  · omega
  · have hapart := h.apart_block hy (hl z hz).1 (hl z hz).2 hr
    have hsize := sixteen_le_blockSize i
    omega
  · omega

/-! ### Work on a free list and the count of an arena -/

lemma Header.setCount (h : Header V a desc cnt large) :
    Header (V.setU32 (a + 4) (.ofNat w)) a desc (UInt32.ofNat w).toNat large := by
  refine ⟨?_, by rw [u32_setU32_self], ?_⟩
  · rw [u32_setU32_of_ne _ _ (by omega)]
    exact h.1
  · rw [u32_setU32_of_ne _ _ (by omega)]
    exact h.2.2

lemma word_apart (hu : u < p * pgSize ∨ (p + c) * pgSize ≤ u) (hc : 0 < c)
    (hr : r + 4 ≤ pgSize) : u < p * pgSize + r ∨ p * pgSize + r + 4 ≤ u := by
  have hle := Nat.mul_le_mul_right pgSize hc
  rw [Nat.add_mul] at hu
  rcases hu with hu | hu
  · exact .inl (by omega)
  · exact .inr (by omega)

lemma usable_page (hp : p ∈ sh.pages) (hr : r < pgSize) : Usable sh.pages (p * pgSize + r) := by
  left
  have hdiv : (p * pgSize + r) / pgSize = p := by
    simp only [pgSize] at hr ⊢
    omega
  rwa [hdiv]

lemma usable_word (hp : p ∈ sh.pages) (ht : t ≤ 8) : ∀ r < 4, Usable sh.pages (p * pgSize + t + r) := by
  intro r hr
  rw [Nat.add_assoc]
  exact usable_page hp (by simp only [pgSize]; omega)

section

variable (h : HeapInv descs m live V sh)
include h

lemma HeapInv.header_of_outside (hd : DescsOk descs)
    (hp : sh.small p = some i) (hout : ∀ u, Outside descs sh i u → V' u = V u) :
    Header V' (p * pgSize) (descAt descs i) (sh.freeCount p i) 0 :=
  (h.repr.small p i hp).of_same fun _ hr => hout _
    (outside_header hd (h.inHeap p (.inl ⟨i, hp⟩)).1 (h.book.lt_of_small p i hp) hr)

/-- After work on the free list of a descriptor, the count in the arena is put right. -/
lemma HeapInv.recount (hd : DescsOk descs) (hp : sh.small p = some i) (hl : ∀ x ∈ l, sh.IsBlock i x)
    (hcount : ∀ q, q ≠ p → (sh.setFree i l).freeCount q i = sh.freeCount q i)
    (hsees : m'.Sees sh.pages V') (hout : ∀ u, Outside descs sh i u → V' u = V u)
    (hlist : (listAt (descAt descs i + 8)).IsList (linksOf V') l)
    (hw : (UInt32.ofNat w).toNat = (sh.setFree i l).freeCount p i) :
    (m'.setWord (p * pgSize + 4) w).Sees sh.pages (V'.setU32 (p * pgSize + 4) (.ofNat w)) ∧
      Repr descs (V'.setU32 (p * pgSize + 4) (.ofNat w)) (sh.setFree i l) := by
  have hi := h.book.lt_of_small p i hp
  have hpage : p ∈ sh.pages := .inl ⟨i, hp⟩
  have hheap := (h.inHeap p hpage).1
  refine ⟨hsees.setWord w (usable_word hpage (by omega)), ?_⟩
  refine h.repr.of_work hd h.inHeap h.book hheap (fun j hj => some.inj (hj.symm.trans hp))
    (fun _ _ => ⟨rfl, rfl⟩) (notMem_Ico_one p) ?_ ?_ ?_ (fun q hq _ => hcount q hq) ?_
    fun c hc => by cases (h.book.large_eq_none hp).symm.trans hc
  · intro j hji
    simp [Shape.setFree, hji]
  · intro u hu hupage
    rw [setU32_outside _ (word_apart hupage (by omega) (by decide)), hout u (hu hi)]
  · -- the count is in the header, away from all nodes
    intro _
    simp only [Shape.setFree, update_self]
    refine isList_of_away hlist fun y hy r hr => setU32_outside _ ?_
    have haway (t : Nat) (ht : 4 + t < 12) : p * pgSize + (4 + t) < y ∨ y + 8 ≤ p * pgSize + (4 + t) :=
      (outside_header hd hheap hi ht).away hl y hy
    have h0 := haway 0 (by omega)
    have h3 := haway 3 (by omega)
    omega
  · intro j hj
    obtain rfl : i = j := some.inj (hp.symm.trans hj)
    rw [← hw]
    exact (h.header_of_outside hd hp hout).setCount

/-! ### Taking a block -/

lemma HeapInv.popBlock (hd : DescsOk descs) (hi : i < 7)
    (hfree : sh.free i = x :: rest) (hn : n ≤ blockSize i) :
    (m.popBlock (descAt descs i)).1 = x ∧
      ∃ V', HeapInv descs (m.popBlock (descAt descs i)).2 (update live x (some n)) V'
          (sh.setFree i rest) ∧
        (∀ r < blockSize i, V' (x + r) = 0) ∧ KeepsLive live x V V' := by
  have hlist := h.repr.list i hi
  rw [hfree] at hlist
  have hblocks : ∀ y ∈ x :: rest, sh.IsBlock i y := fun y hy => h.book.isBlock i hi y (by rwa [hfree])
  have hnodes := h.nodesOk hd hi hblocks
  obtain ⟨p, k, hp, hk, hx⟩ := hblocks x (by simp)
  -- the first block of the list
  have hfirst : m.word (descAt descs i + 8 + 4) = x := by
    have hnext := (threads h.sees hnodes).word_next (x := descAt descs i + 8) (by simp [listAt])
    exact some.inj (hnext.symm.trans (List.isChain_cons_cons.mp hlist.1).1.1)
  -- it is taken out of the list
  have hsplit : (listAt (descAt descs i + 8)).IsList (linksOf V) ([] ++ x :: rest) := hlist
  obtain ⟨V1, hsees1, hlist1, hframe1⟩ := h.sees.listRemove hsplit hnodes
  have hrest : ∀ y ∈ rest, sh.IsBlock i y := fun y hy => hblocks y (List.mem_cons_of_mem _ hy)
  have hout1 : ∀ u, Outside descs sh i u → V1 u = V u := fun u hu => hframe1 u (hu.away hrest)
  have hsize : (m.listRemove x).word (descAt descs i) = blockSize i := by
    rw [hsees1.word fun r hr => usable_desc hd hi (by omega) _, ← (h.repr.desc i hi).1,
      u32_congr fun r hr => hout1 _ (outside_desc hd h.inHeap hi (by omega) (.inr (by omega))).1]
  -- it is cleared
  have hsees2 := hsees1.memset 0 fun r hr => usable_block (hblocks x (by simp)) hr
  obtain ⟨hlo, hhi⟩ := blockAt_bounds p hk
  have hdesc_le := (hblocks x (by simp)).desc_le hd h.inHeap hi
  have hout2 : ∀ u, Outside descs sh i u → V1.fill x 0 (blockSize i) u = V u := by
    intro u hu
    rw [fill_outside _ (by rcases hu.2 p hp with hu | hu <;> omega), hout1 u hu]
  have hlist2 : (listAt (descAt descs i + 8)).IsList (linksOf (V1.fill x 0 (blockSize i))) rest := by
    refine isList_of_away hlist1 fun y hy r hr => fill_outside _ ?_
    have hne : y ≠ x := fun heq => hsplit.notMem_rest (heq ▸ hy)
    have hsixteen := sixteen_le_blockSize i
    simp only [ListEnds.mem_nodes, listAt] at hy
    rcases hy with rfl | hy | rfl
    · omega
    · rcases (hrest y hy).apart (hblocks x (by simp)) hne with h | h <;> omega
    · omega
  -- one free block less
  have hnodup := hlist.nodup
  have hmem : ∀ y, y ∈ sh.free i ↔ y = blockAt p i k ∨ y ∈ (sh.setFree i rest).free i := by
    simp [hfree, hx, Shape.setFree]
  have hnot : blockAt p i k ∉ (sh.setFree i rest).free i := by
    simpa [Shape.setFree, ← hx] using (List.nodup_cons.mp hnodup).1
  have hcnt := freeCount_add hmem hk hnot
  have hpage : p ∈ sh.pages := .inl ⟨i, hp⟩
  have hword : ((m.listRemove x).memset x 0 (blockSize i)).word (p * pgSize + 4) =
      sh.freeCount p i := by
    rw [hsees2.word (usable_word hpage (by omega)), (h.header_of_outside hd hp hout2).2.1]
  have hle := freeCount_le sh p i
  have hlt := blocksPerArena_lt i
  have hw : (UInt32.ofNat (sh.freeCount p i + (2 ^ 32 - 1))).toNat =
      (sh.setFree i rest).freeCount p i := by
    rw [UInt32.toNat_ofNat']
    omega
  obtain ⟨hsees3, hrepr3⟩ := h.recount hd hp hrest (fun q hq => (freeCount_of_ne hmem hk hq).symm)
    hsees2 hout2 hlist2 hw
  have hpop : m.popBlock (descAt descs i) = (x, ((m.listRemove x).memset x 0 (blockSize i)).setWord
      (p * pgSize + 4) (sh.freeCount p i + (2 ^ 32 - 1))) := by
    simp only [Memory.popBlock, hfirst, hsize]
    rw [hx, block2arena_blockAt hk, ← hx, hword]
  rw [hpop]
  refine ⟨rfl, _, ⟨hsees3, hrepr3, h.book.pop hi hfree hnodup hn⟩, fun r hr => ?_, ?_⟩
  · rw [setU32_outside _ (by omega), fill_inside _ (by omega)]
  · intro y l hy hne r hr
    have hapart := h.book.apart_block hy (hblocks x (by simp)) hne hr
    have hhead := h.book.apart_header hy hr (.inl ⟨i, hp⟩)
    have haway := h.book.away hd h.inHeap hi (l := rest) (fun z hz => ⟨hrest z hz, ?_⟩) hy hr
    · rw [setU32_outside _ (by omega), fill_outside _ (by omega), hframe1 _ haway]
    · -- a free block is not in use
      rintro rfl
      obtain ⟨p', k', hp', hk', hyk⟩ := hrest y hz
      have hfree' := (h.book.mem_free p' i k' hp' hk').mp (by rw [← hyk, hfree]; simp [hz])
      rw [← hyk, hy] at hfree'
      cases hfree'

end

/-! ### A new arena -/

/-- The header of a new arena: the three words are written in the order of the offsets `r` and
`t`. -/
lemma header_setU32 (hdesc : desc < 2 ^ 32) (hcnt : cnt < 2 ^ 32) (hlarge : large < 2 ^ 32) :
    Header (((V.setU32 a (.ofNat desc)).setU32 (a + 8) (.ofNat large)).setU32 (a + 4) (.ofNat cnt))
        a desc cnt large ∧
      Header (((V.setU32 a (.ofNat desc)).setU32 (a + 4) (.ofNat cnt)).setU32 (a + 8) (.ofNat large))
        a desc cnt large := by
  have h1 (s : Bytes) : ((s.setU32 a (.ofNat desc)).u32 a).toNat = desc := by
    rw [u32_setU32_self, toNat_ofNat_of_lt hdesc]
  have h2 (s : Bytes) : ((s.setU32 (a + 4) (.ofNat cnt)).u32 (a + 4)).toNat = cnt := by
    rw [u32_setU32_self, toNat_ofNat_of_lt hcnt]
  have h3 (s : Bytes) : ((s.setU32 (a + 8) (.ofNat large)).u32 (a + 8)).toNat = large := by
    rw [u32_setU32_self, toNat_ofNat_of_lt hlarge]
  refine ⟨⟨?_, h2 _, ?_⟩, ?_, ?_, h3 _⟩
  · rw [u32_setU32_of_ne _ _ (by omega), u32_setU32_of_ne _ _ (by omega), h1]
  · rw [u32_setU32_of_ne _ _ (by omega), h3]
  · rw [u32_setU32_of_ne _ _ (by omega), u32_setU32_of_ne _ _ (by omega), h1]
  · rw [u32_setU32_of_ne _ _ (by omega), h2]

lemma arena_outside (hc : 0 < c) (hr : r = 4 ∨ r = 8)
    (ht : t = 4 ∨ t = 8) (hu : u < q * pgSize ∨ (q + c) * pgSize ≤ u) :
    (((V.fill (q * pgSize) 0 (c * pgSize)).setU32 (q * pgSize) w1).setU32 (q * pgSize + r)
      w2).setU32 (q * pgSize + t) w3 u = V u := by
  have hbig : 12 ≤ pgSize := by decide
  have hword (r : Nat) (hr : r + 4 ≤ 12) : u < q * pgSize + r ∨ q * pgSize + r + 4 ≤ u :=
    word_apart hu hc (Nat.le_trans hr hbig)
  have h0 := hword 0 (by omega)
  rw [Nat.add_zero] at h0
  rw [setU32_outside _ (hword t (by omega)), setU32_outside _ (hword r (by omega)),
    setU32_outside _ h0, fill_outside _ (by simpa only [Nat.add_mul] using hu)]

/-- The loop that puts the blocks of an arena in the empty free list. -/
lemma Memory.Sees.appendBlocks (h : m.Sees sh.pages V) (hd : DescsOk descs) (hheap : sh.InHeap)
    (hi : i < 7) (hp : sh.small p = some i)
    (hlist : (listAt (descAt descs i + 8)).IsList (linksOf V) [])
    (harena : (V.u32 (p * pgSize)).toNat = descAt descs i)
    (hdesc : (V.u32 (descAt descs i)).toNat = blockSize i) (hn : n ≤ blocksPerArena i) :
    ∃ V', (m.appendBlocks (p * pgSize) n).Sees sh.pages V' ∧
      (listAt (descAt descs i + 8)).IsList (linksOf V') ((List.range n).map (blockAt p i)) ∧
      ∀ u, Away ((listAt (descAt descs i + 8)).nodes ((List.range n).map (blockAt p i))) u →
        V' u = V u := by
  have hblocks : ∀ n ≤ blocksPerArena i, ∀ x ∈ (List.range n).map (blockAt p i), sh.IsBlock i x := by
    intro n hn x hx
    obtain ⟨k, hk, rfl⟩ := List.mem_map.mp hx
    exact ⟨p, k, hp, (List.mem_range.mp hk).trans_le hn, rfl⟩
  induction n with
  | zero => exact ⟨V, h, hlist, fun _ _ => rfl⟩
  | succ n ih =>
    obtain ⟨V1, hsees1, hlist1, hframe1⟩ := ih (by omega)
    have hpage : p ∈ sh.pages := .inl ⟨i, hp⟩
    have hout1 : ∀ u, Outside descs sh i u → V1 u = V u := fun u hu =>
      hframe1 u (hu.away (hblocks n (by omega)))
    -- the words the loop reads are not in the nodes
    have hword : (m.appendBlocks (p * pgSize) n).word (p * pgSize) = descAt descs i := by
      rw [hsees1.word fun r hr => usable_page hpage (by simp only [pgSize]; omega), ← harena,
        u32_congr fun r hr => hout1 _ (outside_header hd (hheap p hpage).1 hi (by omega))]
    have hsize : (m.appendBlocks (p * pgSize) n).word (descAt descs i) = blockSize i := by
      rw [hsees1.word fun r hr => usable_desc hd hi (by omega) _, ← hdesc,
        u32_congr fun r hr => hout1 _ (outside_desc hd hheap hi (by omega) (.inr (by omega))).1]
    have hrange : (List.range n).map (blockAt p i) ++ [blockAt p i n] =
        (List.range (n + 1)).map (blockAt p i) := by
      rw [List.range_succ, List.map_append]
      rfl
    have hnodes : NodesOk sh.pages ((listAt (descAt descs i + 8)).nodes
        ((List.range n).map (blockAt p i) ++ [blockAt p i n])) := by
      rw [hrange]
      exact nodesOk_nodes hd hheap hi (hblocks (n + 1) hn)
    have hx := Shape.IsBlock.notMem_nodes (l := (List.range n).map (blockAt p i))
      (hblocks (n + 1) hn (blockAt p i n) (by simp [← hrange])) hd hheap hi fun hmem => by
        obtain ⟨k, hk, heq⟩ := List.mem_map.mp hmem
        have hlt := List.mem_range.mp hk
        have hkn := (blockAt_inj (by omega) (by omega) heq).2
        omega
    obtain ⟨V2, hsees2, hlist2, hframe2⟩ := hsees1.listAppend hlist1 hx hnodes
    rw [hrange] at hlist2 hframe2
    refine ⟨V2, ?_, hlist2, fun u hu => ?_⟩
    · simpa only [Memory.appendBlocks, Memory.arena2block, hword, hsize, blockAt] using hsees2
    · rw [hframe2 u hu, hframe1 u fun y hy => hu y ?_]
      simp only [ListEnds.mem_nodes, List.range_succ, List.map_append, List.mem_append] at hy ⊢
      tauto

lemma freeCount_addSmall_self (sh : Shape) (p i : Nat) :
    (sh.addSmall p i).freeCount p i = blocksPerArena i := by
  have hall : (Finset.range (blocksPerArena i)).filter
      (fun k => blockAt p i k ∈ (sh.addSmall p i).free i) = Finset.range (blocksPerArena i) := by
    refine filter_true_of_mem fun k hk => ?_
    simp only [Shape.addSmall, update_self, List.mem_map, List.mem_range]
    exact ⟨k, mem_range.mp hk, rfl⟩
  rw [Shape.freeCount, hall, card_range]

lemma freeCount_addSmall_of_ne (hempty : sh.free i = []) (hne : q ≠ p) :
    (sh.addSmall p i).freeCount q i = sh.freeCount q i := by
  simp only [Shape.freeCount]
  congr 1
  refine filter_congr fun k hk => ?_
  simp only [hempty, List.not_mem_nil, iff_false, Shape.addSmall, update_self, List.mem_map,
    List.mem_range, not_exists, not_and]
  intro k' hk' heq
  exact hne (blockAt_inj hk' (mem_range.mp hk) heq).1.symm

lemma Book.outside_new (h : Book sh live) (hnew : ∀ p ∈ Set.Ico q (q + c), p ∉ sh.pages)
    (hy : live y = some n) (hr : r < n) : y + r < q * pgSize ∨ (q + c) * pgSize ≤ y + r := by
  have hpage := h.mem_pages hy hr
  have hnot : ¬ (q ≤ (y + r) / pgSize ∧ (y + r) / pgSize < q + c) := fun hmem => hnew _ hmem hpage
  simp only [pgSize] at hnot ⊢
  omega

/-- A new arena is made for a descriptor whose free list is empty. If there is no page for it,
nothing changes. -/
lemma HeapInv.newArena (h : HeapInv descs m live V sh) (hd : DescsOk descs) (hi : i < 7)
    (hempty : sh.free i = []) (hnew : m.newArena (descAt descs i) = (ok, m')) :
    (ok = false → HeapInv descs m' live V sh) ∧
      (ok = true → ∃ p V', p ∉ sh.pages ∧ HeapInv descs m' live V' (sh.addSmall p i) ∧
        PageStep m sh.pages m' (sh.addSmall p i).pages ∧ ∀ x, KeepsLive live x V V') := by
  simp only [Memory.newArena] at hnew
  split at hnew
  · next m1 hmalloc =>
    cases hnew
    obtain ⟨hsees, -⟩ := h.sees.mallocPage (by omega) hmalloc
    exact ⟨fun _ => ⟨hsees, h.repr, h.book⟩, by simp⟩
  · next a m1 hmalloc =>
    cases hnew
    refine ⟨by simp, fun _ => ?_⟩
    obtain ⟨-, hsome⟩ := h.sees.mallocPage (by omega) hmalloc
    obtain ⟨q, V1, rfl, hq, hfresh, hsees1, hV1⟩ := hsome a rfl
    have hqnew : q ∉ sh.pages := hfresh q ⟨le_rfl, by omega⟩
    have hsub := (sh.pages_addSmall q i).subset
    have hheap : (sh.addSmall q i).InHeap := fun p hp => hsees1.owns.heap p (hsub hp)
    have hq' : (sh.addSmall q i).small q = some i := by simp [Shape.addSmall]
    have hpage : q ∈ (sh.addSmall q i).pages := .inl ⟨i, hq'⟩
    have hlow : ∀ r < 24, descAt descs i + r < q * pgSize := fun r hr =>
      (outside_desc (i := 7) hd h.inHeap hi hr (.inl (by omega))).2.trans_le (Nat.mul_le_mul_right _ hq)
    -- the descriptor is not in the new page
    have hdesc : ∀ {m0 : Memory} {V0 : Bytes}, m0.Sees (sh.addSmall q i).pages V0 →
        (∀ u < q * pgSize, V0 u = V u) → m0.word (descAt descs i + 4) = blocksPerArena i := by
      intro m0 V0 hsees0 hV0
      rw [hsees0.word fun r hr => ?_, ← (h.repr.desc i hi).2,
        u32_congr fun r hr => hV0 _ (by have := hlow (4 + r) (by omega); omega)]
      rw [Nat.add_assoc]
      exact usable_desc hd hi (by omega) _
    -- the page is cleared and the header written
    have hsees2 := (hsees1.mono hsub).memset 0 fun r hr => usable_page hpage hr
    have hsees4 := (hsees2.setWord (descAt descs i) fun r hr => usable_page hpage
      (by simp only [pgSize]; omega)).setWord 0 (usable_word hpage le_rfl)
    have hword4 := hdesc hsees4 fun u hu => by
      rw [setU32_outside _ (by omega), setU32_outside _ (by omega),
        fill_outside _ (by omega), hV1 u (.inl hu)]
    have hsees5 := hsees4.setWord (blocksPerArena i) (usable_word hpage (t := 4) (by omega))
    set W := (((V1.fill (q * pgSize) 0 pgSize).setU32 (q * pgSize) (.ofNat (descAt descs i))).setU32
      (q * pgSize + 8) (.ofNat 0)).setU32 (q * pgSize + 4) (.ofNat (blocksPerArena i)) with hW
    have hWout : ∀ u, u < q * pgSize ∨ (q + 1) * pgSize ≤ u → W u = V u := by
      intro u hu
      rw [hW, ← hV1 u hu, ← Nat.one_mul pgSize]
      exact arena_outside (by omega) (.inr rfl) (.inl rfl) (by simpa only [Nat.one_mul] using hu)
    have hword5 := hdesc hsees5 fun u hu => hWout u (.inl hu)
    have hhead : Header W (q * pgSize) (descAt descs i) (blocksPerArena i) 0 := by
      have hdlt : descAt descs i < 2 ^ 32 := by
        simp only [DescsOk, descAt] at hd ⊢
        omega
      exact (header_setU32 hdlt (blocksPerArena_lt i) (by omega)).1
    have hlist : (listAt (descAt descs i + 8)).IsList (linksOf W) [] := by
      have hold := h.repr.list i hi
      rw [hempty] at hold
      refine isList_of_away hold fun y hy r hr => hWout _ (.inl ?_)
      simp only [ListEnds.mem_nodes, listAt, List.not_mem_nil, false_or] at hy
      rcases hy with rfl | rfl
      · have := hlow (8 + r) (by omega)
        omega
      · have := hlow (16 + r) (by omega)
        omega
    have hsize : (W.u32 (descAt descs i)).toNat = blockSize i := by
      rw [← (h.repr.desc i hi).1, u32_congr fun r hr => hWout _ (.inl (hlow r (by omega)))]
    -- the blocks are put in the list
    obtain ⟨V', hsees', hlist', hframe⟩ := hsees5.appendBlocks hd hheap hi hq' hlist hhead.1 hsize le_rfl
    have hblocks : ∀ x ∈ (List.range (blocksPerArena i)).map (blockAt q i),
        (sh.addSmall q i).IsBlock i x := by
      intro x hx
      obtain ⟨k, hk, rfl⟩ := List.mem_map.mp hx
      exact ⟨q, k, hq', List.mem_range.mp hk, rfl⟩
    -- away from the new page and the ends of the list nothing has changed
    have hV' : ∀ u, (u < descAt descs i + 8 ∨ descAt descs i + 24 ≤ u) →
        (u < q * pgSize ∨ (q + 1) * pgSize ≤ u) → V' u = V u := by
      intro u hu hupage
      rw [hframe u fun y hy => ?_, hWout u hupage]
      simp only [ListEnds.mem_nodes, listAt] at hy
      rcases hy with rfl | hy | rfl
      · omega
      · obtain ⟨k, hk, rfl⟩ := List.mem_map.mp hy
        obtain ⟨hlo, hhi⟩ := blockAt_bounds q (List.mem_range.mp hk)
        have hsixteen := sixteen_le_blockSize i
        omega
      · omega
    refine ⟨q, V', hqnew, ⟨?_, ?_, h.book.addSmall hi hempty hqnew⟩,
      .take (.refl m) Nat.one_pos hmalloc ?_ (sh.pages_addSmall q i), fun x y l hy _ r hr => ?_⟩
    · simpa only [hword4, hword5] using hsees'
    · refine h.repr.of_work hd h.inHeap h.book hq (fun j hj => absurd (.inl ⟨j, hj⟩) hqnew) ?_
        (notMem_Ico_one q) ?_ (fun u hu => hV' u (hu hi).1) ?_
        (fun p hp _ => freeCount_addSmall_of_ne hempty hp) ?_
        fun c hc => by cases (h.book.large_eq_none_of_new hqnew).symm.trans hc
      · intro p hp
        simp [Shape.addSmall, hp]
      · intro j hji
        simp [Shape.addSmall, hji]
      · simpa [Shape.addSmall] using fun _ => hlist'
      · intro j hj
        obtain rfl : i = j := some.inj (hq'.symm.trans hj)
        rw [freeCount_addSmall_self]
        refine hhead.of_same fun r hr => hframe _ ?_
        exact (outside_header hd hq hi hr).away hblocks
    · exact ((((samePages_memset _ _ _ _).trans (samePages_setWord _ _ _)).trans
        (samePages_setWord _ _ _)).trans (samePages_setWord _ _ _)).trans (samePages_appendBlocks _ _ _)
    · have hout := h.book.outside_new hfresh hy hr
      refine hV' _ ?_ hout
      have hpage := Nat.mul_le_mul_right pgSize (h.inHeap _ (h.book.mem_pages hy hr)).1
      have hdiv := Nat.div_mul_le_self (y + r) pgSize
      have hdlow := (outside_desc (i := 7) (r := 23) hd h.inHeap hi (by omega) (.inl (by omega))).2
      omega

/-! ### A large arena -/

/-- What a call that returns `r` has to do: if it fails, nothing that is in use changes; if it
succeeds, there is one more block in use, it is all zeros, every arena has a block in use, and the
pages that were taken are those of the arenas. -/
def Mallocs (descs : Nat) (m : Memory) (live : Nat → Option Nat) (V : Bytes) (sh : Shape)
    (size : Nat) (r : Option Nat) (m' : Memory) : Prop :=
  (r = none → HeapInv descs m' live V sh) ∧
    ∀ x, r = some x → live x = none ∧
      ∃ V' sh', HeapInv descs m' (update live x (some size)) V' sh' ∧
        Used sh' (update live x (some size)) ∧ (∀ r < size, V' (x + r) = 0) ∧
        KeepsLive live x V V' ∧ PageStep m sh.pages m' sh'.pages

lemma Used.add (h : Used sh live) (x n : Nat) : Used sh (update live x (some n)) := by
  intro p i hp
  obtain ⟨k, hk, hlive⟩ := h p i hp
  refine ⟨k, hk, ?_⟩
  by_cases hx : blockAt p i k = x
  · simp [hx]
  · rwa [update_of_ne hx]

variable (h : HeapInv descs m live V sh)
include h

/-- A block of more than 1024 bytes has pages of its own. -/
lemma HeapInv.mallocLarge (hused : Used sh live) (hd : DescsOk descs)
    (hn : n < m.kernelPool.poolSize) (hm : m.mallocLarge n = (res, m')) :
    Mallocs descs m live V sh n res m' := by
  have hpool := h.sees.owns.pools.size
  obtain ⟨c, hc⟩ : ∃ c, divRoundUp (n + 12) pgSize = c := ⟨_, rfl⟩
  obtain ⟨hc0, hclt, hfits⟩ : 0 < c ∧ c < 2 ^ 32 ∧ n + 12 ≤ c * pgSize := by
    rw [← hc]
    simp only [divRoundUp, pgSize]
    omega
  simp only [Memory.mallocLarge, hc] at hm
  split at hm
  · next m1 hmalloc =>
    cases hm
    obtain ⟨hsees, -⟩ := h.sees.mallocPage hc0 hmalloc
    exact ⟨fun _ => ⟨hsees, h.repr, h.book⟩, by simp⟩
  next a m1 hmalloc =>
  obtain ⟨rfl, hm'⟩ := Prod.mk.inj hm
  refine ⟨by simp, fun x hx => ?_⟩
  cases hx
  obtain ⟨-, hsome⟩ := h.sees.mallocPage hc0 hmalloc
  obtain ⟨q, V1, rfl, hq, hfresh, hsees1, hV1⟩ := hsome a rfl
  have hqnew : q ∉ sh.pages := hfresh q ⟨le_rfl, by omega⟩
  have hlarge := h.book.large_eq_none_of_new hqnew
  have hsub := (Shape.pages_addLarge hlarge c).subset
  have hq' : (sh.addLarge q c).large q = some c := by simp [Shape.addLarge]
  have hpages : ∀ p ∈ Set.Ico q (q + c), p ∈ (sh.addLarge q c).pages := fun p hp => .inr ⟨q, c, hq', hp⟩
  have husable : ∀ r < c * pgSize, Usable (sh.addLarge q c).pages (q * pgSize + r) := by
    intro r hr
    refine .inl (hpages _ ?_)
    simp only [pgSize, Set.mem_Ico] at hr ⊢
    omega
  have hin (t : Nat) (ht : t ≤ 8) : ∀ r < 4, Usable (sh.addLarge q c).pages (q * pgSize + t + r) := by
    intro r hr
    rw [Nat.add_assoc]
    refine husable _ ?_
    omega
  -- the pages are cleared and the header written
  have hsees := ((((hsees1.mono hsub).memset 0 husable).setWord 0 fun r hr => husable r
    (by simp only [pgSize]; omega)).setWord c (hin 4 (by omega))).setWord 1 (hin 8 le_rfl)
  have hV' : ∀ u, u < q * pgSize ∨ (q + c) * pgSize ≤ u →
      (((V1.fill (q * pgSize) 0 (c * pgSize)).setU32 (q * pgSize) (.ofNat 0)).setU32 (q * pgSize + 4)
        (.ofNat c)).setU32 (q * pgSize + 8) (.ofNat 1) u = V u := fun u hu =>
    (arena_outside hc0 (.inl rfl) (.inr rfl) hu).trans (hV1 u hu)
  have hnone : live (q * pgSize + 12) = none := by
    cases hlive : live (q * pgSize + 12) with
    | none => rfl
    | some l =>
      have hpage := h.book.page_of_live hlive
      have hdiv : (q * pgSize + 12) / pgSize = q := by simp only [pgSize]; omega
      rw [hdiv] at hpage
      exact absurd hpage hqnew
  rw [← hm']
  refine ⟨hnone, _, sh.addLarge q c, ⟨hsees, ?_, h.book.addLarge ⟨hc0, hclt⟩ hfresh hfits⟩,
    hused.add _ _, ?_, ?_, .take (.refl m) hc0 hmalloc ?_ (Shape.pages_addLarge hlarge c)⟩
  · refine h.repr.of_work (i := 7) hd h.inHeap h.book hq (fun j hj => absurd (.inl ⟨j, hj⟩) hqnew) ?_ ?_
      (fun _ _ => rfl) (fun u _ => hV' u) (by simp) (fun _ _ _ => rfl)
      (fun j hj => absurd (.inl ⟨j, hj⟩) hqnew) ?_
    · intro p hp
      simp [Shape.addLarge, hp]
    · exact fun p _ hp hmem => hfresh p hmem (h.book.mem_pages_of_arena hp)
    · intro c' hc'
      obtain rfl : c = c' := some.inj (hq'.symm.trans hc')
      exact (header_setU32 (by omega) hclt (by omega)).2
  · intro r hr
    rw [setU32_outside _ (by omega), setU32_outside _ (by omega),
      setU32_outside _ (by omega), fill_inside _ (by omega)]
  · intro y l hy _ r hr
    exact hV' _ (h.book.outside_new hfresh hy hr)
  · exact (((samePages_memset _ _ _ _).trans (samePages_setWord _ _ _)).trans
      (samePages_setWord _ _ _)).trans (samePages_setWord _ _ _)

/-! ### The function -/

/-- The descriptor that is found has blocks that are large enough. -/
lemma HeapInv.findDesc (hd : DescsOk descs)
    (hsize : size ≤ 1024) : ∃ i < 7, m.findDesc descs size 7 0 = i ∧ size ≤ blockSize i := by
  have hword : ∀ i < 7, m.word (descs + 24 * i) = blockSize i := fun i hi => by
    rw [← (h.repr.desc i hi).1]
    exact h.sees.word fun r hr => usable_desc hd hi (by omega) _
  have hloop : ∀ left idx, left + idx = 7 → 0 < left →
      ∃ i < 7, m.findDesc descs size left idx = i ∧ size ≤ blockSize i := by
    intro left
    induction left with
    | zero => intro idx _ hpos; omega
    | succ left ih =>
      intro idx hidx _
      simp only [Memory.findDesc, hword idx (by omega)]
      split_ifs with hfits
      · exact ⟨idx, by omega, rfl, hfits⟩
      · refine ih (idx + 1) (by omega) ?_
        -- the last descriptor has blocks of 1024 bytes
        by_contra hzero
        obtain rfl : idx = 6 := by omega
        exact hfits hsize
  exact hloop 7 0 rfl (by omega)

lemma HeapInv.mallocSmall (hused : Used sh live) (hd : DescsOk descs)
    (hi : i < 7) (hn : n ≤ blockSize i)
    (hm : m.mallocSmall (descAt descs i) = (res, m')) : Mallocs descs m live V sh n res m' := by
  -- the first block of a list that is not empty
  have hpop : ∀ {m1 : Memory} {V1 : Bytes} {sh1 : Shape} {x : Nat} {rest : List Nat},
      HeapInv descs m1 live V1 sh1 → sh1.free i = x :: rest → (∀ x, KeepsLive live x V V1) →
      Used sh1 (update live x (some n)) → PageStep m sh.pages m1 sh1.pages →
      (some (m1.popBlock (descAt descs i)).1, (m1.popBlock (descAt descs i)).2) = (res, m') →
      Mallocs descs m live V sh n res m' := by
    intro m1 V1 sh1 x rest h1 hfree hkeep1 hused1 hstep heq
    cases heq
    obtain ⟨hx, V', hinv, hzero, hkeep⟩ := h1.popBlock hd hi hfree hn
    refine ⟨by simp, fun y hy => ?_⟩
    obtain rfl : x = y := hx.symm.trans (some.inj hy)
    have hnone : live x = none := by
      obtain ⟨p, k, hp, hk, hxk⟩ := h1.book.isBlock i hi x (by simp [hfree])
      have hmem := h1.book.mem_free p i k hp hk
      rw [← hxk] at hmem
      exact hmem.mp (by simp [hfree])
    refine ⟨hnone, V', sh1.setFree i rest, hinv, hused1, fun r hr => hzero r (by omega),
      fun y l hy hne r hr => (hkeep y l hy hne r hr).trans (hkeep1 x y l hy hne r hr), ?_⟩
    exact hstep.samePages (.refl m) (samePages_popBlock _ _)
  have hempty : m.listEmpty (descAt descs i + 8) = decide (sh.free i = []) :=
    h.sees.listEmpty (h.repr.list i hi) (h.nodesOk hd hi (h.book.isBlock i hi))
  simp only [Memory.mallocSmall, hempty, decide_eq_true_eq] at hm
  cases hfree : sh.free i with
  | cons x rest =>
    rw [if_neg (by simp [hfree])] at hm
    exact hpop h hfree (fun _ _ _ _ _ _ _ => rfl) (hused.add x n) (.keep (.refl m) rfl) hm
  | nil =>
    rw [if_pos hfree] at hm
    obtain ⟨ok, m1, hnew⟩ : ∃ ok m1, m.newArena (descAt descs i) = (ok, m1) := ⟨_, _, rfl⟩
    obtain ⟨hfail, hok⟩ := h.newArena hd hi hfree hnew
    rw [hnew] at hm
    cases ok with
    | false =>
      cases hm
      exact ⟨fun _ => hfail rfl, by simp⟩
    | true =>
      obtain ⟨p, V1, hp, h1, hstep, hkeep1⟩ := hok rfl
      obtain ⟨k, hk⟩ : ∃ k, blocksPerArena i = k + 1 :=
        ⟨_, (Nat.succ_pred_eq_of_pos (blocksPerArena_pos i hi)).symm⟩
      have hfree1 : (sh.addSmall p i).free i =
          blockAt p i 0 :: ((List.range k).map Nat.succ).map (blockAt p i) := by
        simp [Shape.addSmall, hk, List.range_succ_eq_map]
      refine hpop h1 hfree1 hkeep1 ?_ hstep hm
      · intro q j hq
        by_cases hqp : q = p
        · subst hqp
          obtain rfl : i = j := by simpa [Shape.addSmall] using hq
          exact ⟨0, by omega, by simp⟩
        · simp only [Shape.addSmall, update_of_ne hqp] at hq
          exact hused.add _ _ q j hq

lemma HeapInv.sysMalloc (hused : Used sh live) (hd : DescsOk descs)
    (hm : m.sysMalloc descs n = (res, m')) : Mallocs descs m live V sh n res m' := by
  simp only [Memory.sysMalloc] at hm
  by_cases hguard : 0 < n ∧ n < m.kernelPool.poolSize
  · rw [if_neg (not_not_intro hguard)] at hm
    by_cases hlarge : 1024 < n
    · rw [if_pos hlarge] at hm
      exact h.mallocLarge hused hd hguard.2 hm
    · rw [if_neg hlarge] at hm
      obtain ⟨i, hi, hfind, hfits⟩ := h.findDesc hd (Nat.le_of_not_lt hlarge)
      rw [hfind] at hm
      exact h.mallocSmall hused hd hi hfits hm
  · rw [if_pos hguard] at hm
    cases hm
    exact ⟨fun _ => h, by simp⟩

end SimpleOs
