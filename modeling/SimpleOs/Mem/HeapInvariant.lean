import SimpleOs.Mem.HeapLists

/-!
# The invariant of the heap

The heap is described by its shape: the pages that are arenas of small blocks, the runs of pages
that are large arenas, and the free list of each size. `Repr` says that the bytes of the memory
represent a shape, `Book` that the shape agrees with the blocks that are in use.
-/

namespace SimpleOs

open Base Memory

/-! ### Blocks -/

/-- The block size of descriptor `i`. -/
def blockSize (i : Nat) : Nat := 16 * 2 ^ i

/-- How many blocks an arena of descriptor `i` has. -/
def blocksPerArena (i : Nat) : Nat := (pgSize - 12) / blockSize i

/-- The address of descriptor `i`. -/
def descAt (descs i : Nat) : Nat := descs + 24 * i

/-- Block `k` of an arena in page `p`. -/
def blockAt (p i k : Nat) : Nat := p * pgSize + 12 + k * blockSize i

/-- The descriptors are in the kernel's image. -/
def DescsOk (descs : Nat) : Prop := 0xc0000000 ≤ descs ∧ descs + 24 * 7 ≤ 0xc0100000

variable {p q i j k n u x descs : Nat}

lemma sixteen_le_blockSize (i : Nat) : 16 ≤ blockSize i :=
  Nat.le_mul_of_pos_right 16 (Nat.two_pow_pos i)

lemma blocksPerArena_pos : ∀ i < 7, 0 < blocksPerArena i := by decide

lemma blockAt_bounds (p : Nat) (hk : k < blocksPerArena i) :
    p * pgSize + 12 ≤ blockAt p i k ∧ blockAt p i k + blockSize i ≤ (p + 1) * pgSize := by
  have hfit : (k + 1) * blockSize i ≤ pgSize - 12 :=
    (Nat.mul_le_mul_right _ hk).trans (Nat.div_mul_le_self _ _)
  rw [Nat.add_one_mul] at hfit
  simp only [blockAt, pgSize] at hfit ⊢
  omega

lemma blockAt_apart (p i : Nat) (hne : k ≠ k') :
    blockAt p i k + blockSize i ≤ blockAt p i k' ∨ blockAt p i k' + blockSize i ≤ blockAt p i k := by
  rcases Nat.lt_or_gt_of_ne hne with hlt | hlt
  · have hle := Nat.mul_le_mul_right (blockSize i) (Nat.succ_le_of_lt hlt)
    rw [Nat.succ_mul] at hle
    simp only [blockAt]
    omega
  · have hle := Nat.mul_le_mul_right (blockSize i) (Nat.succ_le_of_lt hlt)
    rw [Nat.succ_mul] at hle
    simp only [blockAt]
    omega

lemma blockAt_div (p : Nat) (hk : k < blocksPerArena i) (hj : j < blockSize i) :
    (blockAt p i k + j) / pgSize = p := by
  obtain ⟨hlo, hhi⟩ := blockAt_bounds p hk
  simp only [pgSize] at hlo hhi ⊢
  omega

lemma blockAt_inj (hk : k < blocksPerArena i) (hk' : k' < blocksPerArena i)
    (heq : blockAt p i k = blockAt p' i k') : p = p' ∧ k = k' := by
  have hpos : 0 < blockSize i := by have := sixteen_le_blockSize i; omega
  have hp := blockAt_div p hk hpos
  have hp' := blockAt_div p' hk' hpos
  obtain rfl : p = p' := by rw [← hp, heq, hp']
  refine ⟨rfl, ?_⟩
  by_contra hne
  rcases blockAt_apart p i hne with h | h <;> omega

lemma block2arena_blockAt (hk : k < blocksPerArena i) : block2arena (blockAt p i k) = p * pgSize := by
  have hpos : 0 < blockSize i := by have := sixteen_le_blockSize i; omega
  have hdiv := blockAt_div p hk hpos
  rw [Nat.add_zero] at hdiv
  rw [block2arena, hdiv]

/-! ### Shapes -/

/-- The arenas of small blocks, by page, with their descriptor; the large arenas, by first page,
with their number of pages; and the free list of each descriptor. -/
structure Shape where
  small : Nat → Option Nat
  large : Nat → Option Nat
  free : Nat → List Nat

namespace Shape

/-- The pages of all arenas. -/
def pages (sh : Shape) : Set Nat :=
  {p | (∃ i, sh.small p = some i) ∨ ∃ q c, sh.large q = some c ∧ p ∈ Set.Ico q (q + c)}

/-- The free blocks of an arena. -/
def freeCount (sh : Shape) (p i : Nat) : Nat :=
  ((Finset.range (blocksPerArena i)).filter fun k => blockAt p i k ∈ sh.free i).card

/-- A block of an arena of descriptor `i`. -/
def IsBlock (sh : Shape) (i x : Nat) : Prop :=
  ∃ p k, sh.small p = some i ∧ k < blocksPerArena i ∧ x = blockAt p i k

lemma IsBlock.apart {sh : Shape} {y : Nat} (hx : sh.IsBlock i x) (hy : sh.IsBlock i y)
    (hne : x ≠ y) : x + blockSize i ≤ y ∨ y + blockSize i ≤ x := by
  obtain ⟨p, k, hp, hk, rfl⟩ := hx
  obtain ⟨p', k', hp', hk', rfl⟩ := hy
  by_cases hpp : p = p'
  · subst hpp
    exact blockAt_apart p i fun heq => hne (by rw [heq])
  · obtain ⟨hlo, hhi⟩ := blockAt_bounds p hk
    obtain ⟨hlo', hhi'⟩ := blockAt_bounds p' hk'
    simp only [pgSize] at hlo hhi hlo' hhi'
    omega

end Shape

/-- The blocks in use, with the number of bytes asked for, are those that are not free; and no two
arenas share a page. -/
structure Book (sh : Shape) (live : Nat → Option Nat) : Prop where
  lt_of_small : ∀ p i, sh.small p = some i → i < 7
  large_pos : ∀ q c, sh.large q = some c → 0 < c ∧ c < 2 ^ 32
  small_large : ∀ p i q c, sh.small p = some i → sh.large q = some c → p ∉ Set.Ico q (q + c)
  large_large : ∀ p q c q' c', sh.large q = some c → sh.large q' = some c' →
    p ∈ Set.Ico q (q + c) → p ∈ Set.Ico q' (q' + c') → q = q'
  isBlock : ∀ i < 7, ∀ x ∈ sh.free i, sh.IsBlock i x
  mem_free : ∀ p i k, sh.small p = some i → k < blocksPerArena i →
    (blockAt p i k ∈ sh.free i ↔ live (blockAt p i k) = none)
  region : ∀ x n, live x = some n →
    (∃ p i k, sh.small p = some i ∧ k < blocksPerArena i ∧ x = blockAt p i k ∧ n ≤ blockSize i) ∨
      ∃ q c, sh.large q = some c ∧ x = q * pgSize + 12 ∧ n + 12 ≤ c * pgSize
  large_live : ∀ q c, sh.large q = some c → live (q * pgSize + 12) ≠ none

lemma Book.mem_pages_of_large {live : Nat → Option Nat} (h : Book sh live)
    (hq : sh.large q = some c) : q ∈ sh.pages := by
  have hpos := (h.large_pos q c hq).1
  exact .inr ⟨q, c, hq, ⟨le_rfl, by omega⟩⟩

lemma Book.mem_pages_of_arena {live : Nat → Option Nat} (h : Book sh live)
    (hp : sh.small p ≠ none ∨ sh.large p ≠ none) : p ∈ sh.pages := by
  rcases hp with hp | hp
  · exact .inl (Option.ne_none_iff_exists'.mp hp)
  · obtain ⟨c, hc⟩ := Option.ne_none_iff_exists'.mp hp
    exact h.mem_pages_of_large hc

lemma Book.large_eq_none {live : Nat → Option Nat} (h : Book sh live)
    (hp : sh.small p = some i) : sh.large p = none := by
  by_contra hlarge
  obtain ⟨c, hc⟩ := Option.ne_none_iff_exists'.mp hlarge
  have hpos := (h.large_pos p c hc).1
  exact h.small_large p i p c hp hc ⟨le_rfl, by omega⟩

lemma Book.large_eq_none_of_new {live : Nat → Option Nat} (h : Book sh live)
    (hp : p ∉ sh.pages) : sh.large p = none := by
  by_contra hlarge
  obtain ⟨c, hc⟩ := Option.ne_none_iff_exists'.mp hlarge
  exact hp (h.mem_pages_of_large hc)

/-- Every arena of small blocks has a block in use. -/
def Used (sh : Shape) (live : Nat → Option Nat) : Prop :=
  ∀ p i, sh.small p = some i → ∃ k < blocksPerArena i, live (blockAt p i k) ≠ none

/-- The `struct arena` at an address. -/
def Header (V : Bytes) (a desc cnt large : Nat) : Prop :=
  (V.u32 a).toNat = desc ∧ (V.u32 (a + 4)).toNat = cnt ∧ (V.u32 (a + 8)).toNat = large

lemma Header.of_same {V V' : Bytes} (h : Header V a desc cnt large)
    (hsame : ∀ r < 12, V' (a + r) = V (a + r)) : Header V' a desc cnt large := by
  have hword (t : Nat) (ht : t ≤ 8) : V'.u32 (a + t) = V.u32 (a + t) := by
    refine Bytes.u32_congr fun r hr => ?_
    simpa only [Nat.add_assoc] using hsame (t + r) (by omega)
  have h0 := hword 0 (by omega)
  rw [Nat.add_zero] at h0
  rw [Header, h0, hword 4 (by omega), hword 8 (by omega)]
  exact h

/-- The bytes of the memory represent the shape. -/
structure Repr (descs : Nat) (V : Bytes) (sh : Shape) : Prop where
  desc : ∀ i < 7, (V.u32 (descAt descs i)).toNat = blockSize i ∧
    (V.u32 (descAt descs i + 4)).toNat = blocksPerArena i
  list : ∀ i < 7, (listAt (descAt descs i + 8)).IsList (linksOf V) (sh.free i)
  small : ∀ p i, sh.small p = some i →
    Header V (p * pgSize) (descAt descs i) (sh.freeCount p i) 0
  large : ∀ q c, sh.large q = some c → Header V (q * pgSize) 0 c 1

/-! ### Where the nodes are -/

variable {sh sh' : Shape} {live : Nat → Option Nat} {V V' : Bytes} {l : List Nat}

/-- The small arenas are in the heap. -/
def Shape.InHeap (sh : Shape) : Prop :=
  ∀ p ∈ sh.pages, 0xc0100 ≤ p ∧ p ≤ 0xc0100 + 8 * 4095

lemma usable_block (h : sh.IsBlock i x) (hj : j < blockSize i) : Usable sh.pages (x + j) := by
  obtain ⟨p, k, hp, hk, rfl⟩ := h
  left
  rw [blockAt_div p hk hj]
  exact .inl ⟨i, hp⟩

lemma usable_desc (hd : DescsOk descs) (hi : i < 7) (hj : j < 24) (P : Set Nat) :
    Usable P (descAt descs i + j) := by
  right
  simp only [DescsOk, descAt, pgSize] at hd ⊢
  omega

lemma Shape.IsBlock.desc_le (hx : sh.IsBlock j x) (hd : DescsOk descs) (hheap : sh.InHeap)
    (hi : i < 7) : descAt descs i + 24 ≤ x := by
  obtain ⟨p, k, hp, hk, rfl⟩ := hx
  have hpage := (hheap p (.inl ⟨j, hp⟩)).1
  obtain ⟨hlo, -⟩ := blockAt_bounds p hk
  simp only [DescsOk, descAt, pgSize] at hd hlo ⊢
  omega

lemma Shape.IsBlock.notMem_nodes (hx : sh.IsBlock i x) (hd : DescsOk descs) (hheap : sh.InHeap)
    (hi : i < 7) (hnot : x ∉ l) : x ∉ (listAt (descAt descs i + 8)).nodes l := by
  have hle := hx.desc_le hd hheap hi
  simp only [ListEnds.mem_nodes, listAt]
  rintro (rfl | hmem | rfl)
  · omega
  · exact hnot hmem
  · omega

/-- The nodes of a free list: the ends, in the descriptor, and blocks. -/
lemma nodesOk_nodes (hd : DescsOk descs) (hheap : sh.InHeap) (hi : i < 7)
    (hl : ∀ x ∈ l, sh.IsBlock i x) : NodesOk sh.pages ((listAt (descAt descs i + 8)).nodes l) := by
  have hsize := sixteen_le_blockSize i
  have hdesc : ∀ x ∈ l, 0xc0100 * 4096 ≤ x ∧ x + 16 ≤ 2 ^ 32 := by
    intro x hx
    obtain ⟨p, k, hp, hk, rfl⟩ := hl x hx
    have hpage := hheap p (.inl ⟨i, hp⟩)
    obtain ⟨hlo, hhi⟩ := blockAt_bounds p hk
    simp only [pgSize] at hlo hhi
    omega
  simp only [DescsOk] at hd
  constructor
  · intro y hy r hr
    simp only [ListEnds.mem_nodes, listAt] at hy
    rcases hy with rfl | hy | rfl
    · rw [Nat.add_assoc]
      exact usable_desc hd hi (by omega) _
    · exact usable_block (hl y hy) (by omega)
    · rw [Nat.add_assoc, Nat.add_assoc]
      exact usable_desc hd hi (by omega) _
  · intro y hy
    simp only [ListEnds.mem_nodes, listAt, descAt] at hy
    rcases hy with rfl | hy | rfl
    · omega
    · have hbound := hdesc y hy
      omega
    · omega
  · intro y hy z hz hne
    simp only [ListEnds.mem_nodes, listAt, descAt] at hy hz
    rcases hy with rfl | hy | rfl <;> rcases hz with rfl | hz | rfl
    · exact absurd rfl hne
    · have hbound := hdesc z hz
      omega
    · omega
    · have hbound := hdesc y hy
      omega
    · rcases (hl y hy).apart (hl z hz) hne with h | h <;> omega
    · have hbound := hdesc y hy
      omega
    · omega
    · have hbound := hdesc z hz
      omega
    · exact absurd rfl hne

/-! ### Frames

Work on the blocks of one descriptor, and in one arena of it, leaves everything else that
represents the shape alone. -/

/-- A byte that is neither in the ends of the free list of descriptor `i` nor in the blocks of its
arenas. -/
def Outside (descs : Nat) (sh : Shape) (i u : Nat) : Prop :=
  (u < descAt descs i + 8 ∨ descAt descs i + 24 ≤ u) ∧
    ∀ p, sh.small p = some i → u < p * pgSize + 12 ∨ (p + 1) * pgSize ≤ u

lemma Outside.away (h : Outside descs sh i u) (hl : ∀ x ∈ l, sh.IsBlock i x) :
    Away ((listAt (descAt descs i + 8)).nodes l) u := by
  intro y hy
  obtain ⟨hdesc, hblocks⟩ := h
  simp only [ListEnds.mem_nodes, listAt] at hy
  rcases hy with rfl | hy | rfl
  · omega
  · obtain ⟨p, k, hp, hk, rfl⟩ := hl y hy
    obtain ⟨hlo, hhi⟩ := blockAt_bounds p hk
    have hsize := sixteen_le_blockSize i
    rcases hblocks p hp with h | h <;> omega
  · omega

lemma outside_desc (hd : DescsOk descs) (hheap : sh.InHeap) (hj : j < 7) (hr : r < 24)
    (hne : j ≠ i ∨ r < 8) :
    Outside descs sh i (descAt descs j + r) ∧ descAt descs j + r < 0xc0100 * pgSize := by
  simp only [DescsOk] at hd
  have hlow : descAt descs j + r < 0xc0100 * pgSize := by simp only [descAt, pgSize]; omega
  refine ⟨⟨by simp only [descAt]; omega, fun p hp => .inl ?_⟩, hlow⟩
  have hpage := (hheap p (.inl ⟨i, hp⟩)).1
  simp only [pgSize] at hlow ⊢
  omega

lemma outside_header (hd : DescsOk descs) (hp : 0xc0100 ≤ p) (hi : i < 7) (hr : r < 12) :
    Outside descs sh i (p * pgSize + r) := by
  simp only [DescsOk] at hd
  refine ⟨.inr ?_, fun q _ => ?_⟩
  · simp only [descAt, pgSize]
    omega
  · simp only [pgSize]
    omega

/-- A block of another descriptor. -/
lemma outside_block (hd : DescsOk descs) (hheap : sh.InHeap) (hi : i < 7) (hp : sh.small p = some j)
    (hk : k < blocksPerArena j) (hne : j ≠ i) (hr : r < blockSize j) :
    Outside descs sh i (blockAt p j k + r) := by
  obtain ⟨hlo, hhi⟩ := blockAt_bounds p hk
  have hpage := (hheap p (.inl ⟨j, hp⟩)).1
  simp only [DescsOk] at hd
  simp only [pgSize] at hlo hhi
  refine ⟨.inr ?_, fun q hq => ?_⟩
  · simp only [descAt]
    omega
  · have hqp : q ≠ p := by
      rintro rfl
      exact hne (Option.some.inj (hp.symm.trans hq))
    simp only [pgSize]
    omega

lemma notMem_Ico_one {P : Nat → Prop} (p0 : Nat) : ∀ p, p ≠ p0 → P p → p ∉ Set.Ico p0 (p0 + 1) := by
  intro p hne _ hmem
  simp only [Set.mem_Ico] at hmem
  omega

/-- The memory represents the new shape when it represented the old one and what was worked on is
right: the arena in the `c0` pages from `p0` on and, if there is a descriptor `i`, its free list. -/
lemma Repr.of_work (h : Repr descs V sh) (hd : DescsOk descs) (hheap : sh.InHeap)
    (hbook : Book sh live) (hp0 : 0xc0100 ≤ p0)
    (hclass : ∀ j, sh.small p0 = some j → j = i)
    (hsame : ∀ p, p ≠ p0 → sh'.small p = sh.small p ∧ sh'.large p = sh.large p)
    (hapart : ∀ p, p ≠ p0 → sh.small p ≠ none ∨ sh.large p ≠ none → p ∉ Set.Ico p0 (p0 + c0))
    (hfree : ∀ j, j ≠ i → sh'.free j = sh.free j)
    (hV : ∀ u, (i < 7 → Outside descs sh i u) → u < p0 * pgSize ∨ (p0 + c0) * pgSize ≤ u → V' u = V u)
    (hlist : i < 7 → (listAt (descAt descs i + 8)).IsList (linksOf V') (sh'.free i))
    (hcount : ∀ p, p ≠ p0 → sh.small p = some i → sh'.freeCount p i = sh.freeCount p i)
    (hsmall : ∀ j, sh'.small p0 = some j →
      Header V' (p0 * pgSize) (descAt descs j) (sh'.freeCount p0 j) 0)
    (hlarge : ∀ c, sh'.large p0 = some c → Header V' (p0 * pgSize) 0 c 1) : Repr descs V' sh' := by
  have hVdesc : ∀ j < 7, ∀ r < 24, (j ≠ i ∨ r < 8) → V' (descAt descs j + r) = V (descAt descs j + r) := by
    intro j hj r hr hne
    obtain ⟨hout, hlow⟩ := outside_desc hd hheap hj hr hne
    exact hV _ (fun _ => hout) (.inl (hlow.trans_le (Nat.mul_le_mul_right _ hp0)))
  have hVhead : ∀ p, 0xc0100 ≤ p → p ∉ Set.Ico p0 (p0 + c0) →
      ∀ r < 12, V' (p * pgSize + r) = V (p * pgSize + r) := by
    intro p hp hout r hr
    refine hV _ (fun hi => outside_header hd hp hi hr) ?_
    simp only [pgSize, Set.mem_Ico] at hout ⊢
    omega
  constructor
  · intro j hj
    have hword (t : Nat) (ht : t = 0 ∨ t = 4) :
        V'.u32 (descAt descs j + t) = V.u32 (descAt descs j + t) := by
      refine Bytes.u32_congr fun r hr => ?_
      rw [Nat.add_assoc]
      exact hVdesc j hj _ (by omega) (.inr (by omega))
    have h0 := hword 0 (.inl rfl)
    rw [Nat.add_zero] at h0
    rw [h0, hword 4 (.inr rfl)]
    exact h.desc j hj
  · intro j hj
    by_cases hji : j = i
    · subst hji
      exact hlist hj
    rw [hfree j hji]
    refine isList_of_away (h.list j hj) fun y hy r hr => ?_
    simp only [ListEnds.mem_nodes, listAt] at hy
    rcases hy with rfl | hy | rfl
    · rw [Nat.add_assoc]
      exact hVdesc j hj _ (by omega) (.inl hji)
    · obtain ⟨p, k, hp, hk, rfl⟩ := hbook.isBlock j hj y hy
      have hout := hapart p (fun heq => hji (hclass j (heq ▸ hp))) (.inl (by simp [hp]))
      have hsize := sixteen_le_blockSize j
      obtain ⟨hlo, hhi⟩ := blockAt_bounds p hk
      refine hV _ (fun hi => outside_block hd hheap hi hp hk hji (by omega)) ?_
      simp only [pgSize, Set.mem_Ico] at hout hlo hhi ⊢
      omega
    · rw [Nat.add_assoc, Nat.add_assoc]
      exact hVdesc j hj _ (by omega) (.inl hji)
  · intro p j hp
    by_cases hpp : p = p0
    · subst hpp
      exact hsmall j hp
    rw [(hsame p hpp).1] at hp
    have hsame : sh'.freeCount p j = sh.freeCount p j := by
      by_cases hji : j = i
      · subst hji
        exact hcount p hpp hp
      · simp only [Shape.freeCount, hfree j hji]
    rw [hsame]
    exact (h.small p j hp).of_same
      (hVhead p (hheap p (.inl ⟨j, hp⟩)).1 (hapart p hpp (.inl (by simp [hp]))))
  · intro q c hq
    by_cases hqp : q = p0
    · subst hqp
      exact hlarge c hq
    rw [(hsame q hqp).2] at hq
    exact (h.large q c hq).of_same (hVhead q (hheap q (hbook.mem_pages_of_large hq)).1
      (hapart q hqp (.inr (by simp [hq]))))

end SimpleOs
