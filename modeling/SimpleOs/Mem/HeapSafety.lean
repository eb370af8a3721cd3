import SimpleOs.Mem.HeapFree
import SimpleOs.Base.Transition

/-!
# Heap safety

Kernel threads allocate and free blocks, and write to the blocks they have. In every state that is
reached the memory holds a heap in good order, whatever was asked for and whenever memory ran out.
-/

namespace SimpleOs

open Base Memory Function Bytes

variable {descs : Nat} {m m' : Memory} {live : Nat → Option Nat} {V V' : Bytes} {sh sh' : Shape}
  {p q c i j k n x y r : Nat} {l rest : List Nat}

/-! ### Start-up -/

/-- No arena, and nothing free. -/
def Shape.empty : Shape := ⟨fun _ => none, fun _ => none, fun _ => []⟩

lemma Shape.pages_empty : Shape.empty.pages = ∅ := by
  simp [Shape.pages, Shape.empty]

/-- After `n` rounds of `block_desc_init` the first `n` descriptors are set up. -/
lemma Memory.Sees.blockDescInit (h : m.Sees P V) (hd : DescsOk descs) (hn : n ≤ 7) :
    ∃ V', (m.blockDescInit descs n).Sees P V' ∧
      ∀ i < n, ((V'.u32 (descAt descs i)).toNat = blockSize i ∧
        (V'.u32 (descAt descs i + 4)).toNat = blocksPerArena i) ∧
        (listAt (descAt descs i + 8)).IsList (linksOf V') [] := by
  induction n with
  | zero => exact ⟨V, h, by simp⟩
  | succ n ih =>
    obtain ⟨V1, hsees1, hdescs⟩ := ih (by omega)
    have husable : ∀ r < 24, Usable P (descAt descs n + r) := fun r hr => usable_desc hd (by omega) hr P
    have hsees2 := hsees1.setWord (blockSize n) fun r hr => husable r (by omega)
    have hin (t : Nat) : ∀ r, t + r < 24 → Usable P (descAt descs n + t + r) := fun r hr => by
      rw [Nat.add_assoc]
      exact husable _ hr
    have hsees3 := hsees2.setWord (blocksPerArena n) fun r hr => hin 4 r (by omega)
    have hlt : descAt descs n + 24 < 2 ^ 32 := by
      simp only [DescsOk, descAt] at hd ⊢
      omega
    obtain ⟨V', hsees', hlist, hframe⟩ := hsees3.listInit (fun r hr => hin 8 r (by omega)) (by omega)
    refine ⟨V', hsees', fun i hi => ?_⟩
    by_cases hin : i = n
    · -- the descriptor of this round
      subst hin
      have hword (t : Nat) (ht : t ≤ 4) := u32_congr fun r hr =>
        hframe (descAt descs i + t + r) (.inl (by omega))
      have hword0 := hword 0 (by omega)
      rw [Nat.add_zero] at hword0
      have hsize : blockSize i < 2 ^ 32 :=
        (Nat.mul_le_mul_left 16 (Nat.pow_le_pow_right (by omega) (show i ≤ 6 by omega))).trans_lt
          (by decide)
      refine ⟨⟨?_, ?_⟩, hlist⟩
      · rw [hword0, u32_setU32_of_ne _ _ (by omega), u32_setU32_self, toNat_ofNat_of_lt hsize]
      · rw [hword 4 le_rfl, u32_setU32_self, toNat_ofNat_of_lt (blocksPerArena_lt i)]
    · -- an earlier one
      have hsame : ∀ r < 24, V' (descAt descs i + r) = V1 (descAt descs i + r) := by
        intro r hr
        have hbelow : descAt descs i + r < descAt descs n := by
          simp only [descAt]
          omega
        rw [hframe _ (by omega), setU32_outside _ (by omega), setU32_outside _ (by omega)]
      have hword (t : Nat) (ht : t ≤ 4) : V'.u32 (descAt descs i + t) = V1.u32 (descAt descs i + t) :=
        u32_congr fun r hr => by
          rw [Nat.add_assoc]
          exact hsame _ (by omega)
      have hword0 := hword 0 (by omega)
      rw [Nat.add_zero] at hword0
      obtain ⟨hdesc, hlist1⟩ := hdescs i (by omega)
      rw [hword0, hword 4 le_rfl]
      refine ⟨hdesc, isList_of_away hlist1 fun y hy r hr => ?_⟩
      simp only [ListEnds.mem_nodes, listAt, List.not_mem_nil, false_or] at hy
      rcases hy with rfl | rfl
      · rw [Nat.add_assoc]
        exact hsame _ (by omega)
      · rw [Nat.add_assoc, Nat.add_assoc]
        exact hsame _ (by omega)

/-- The memory after `mem_init`. -/
def memInit (descs allMem : Nat) (pte : Nat → Pte) (phys vaddrBits : Bytes) : Memory :=
  (memPoolInit allMem pte phys vaddrBits).blockDescInit descs 7

lemma heapInv_memInit (hd : DescsOk descs) (allMem : Nat) {pte : Nat → Pte} (hpte : LoaderPages pte)
    (phys vaddrBits : Bytes) :
    ∃ V, HeapInv descs (memInit descs allMem pte phys vaddrBits) (fun _ => none) V .empty := by
  have howns : (memPoolInit allMem pte phys vaddrBits).Owns Shape.empty.pages := by
    rw [Shape.pages_empty]
    exact owns_memPoolInit allMem hpte phys vaddrBits
  obtain ⟨V, hsees, hdescs⟩ := howns.sees.blockDescInit hd le_rfl
  refine ⟨V, hsees, ⟨fun i hi => (hdescs i hi).1, fun i hi => (hdescs i hi).2, ?_, ?_⟩, ?_⟩
  · intro p i hp
    cases hp
  · intro q c hq
    cases hq
  · constructor <;> simp [Shape.empty]

/-! ### Writing to a block -/

lemma HeapInv.store (h : HeapInv descs m live V sh) (hd : DescsOk descs) (hx : live x = some n)
    {off : Nat} (hin : off + c ≤ n) (data : Nat → UInt8) :
    ∃ V', HeapInv descs (m.store (x + off) data c) live V' sh := by
  set V' : Bytes := fun u =>
    if x + off ≤ u ∧ u < x + off + c then data (u - (x + off)) else V u with hV'
  have hsees : (m.store (x + off) data c).Sees sh.pages V' := h.sees.store (fun r hr => by
    rw [Nat.add_assoc]
    exact .inl (h.book.mem_pages hx (by omega))) fun u => rfl
  -- only bytes of the block change
  have hout : ∀ u, u < x ∨ x + n ≤ u → V' u = V u := by
    intro u hu
    simp only [hV']
    rw [if_neg (by omega)]
  have hhead : ∀ p, ((∃ i, sh.small p = some i) ∨ ∃ c, sh.large p = some c) →
      ∀ r < 12, V' (p * pgSize + r) = V (p * pgSize + r) := by
    intro p hp r hr
    refine hout _ ?_
    by_contra hcontra
    have hapart := h.book.apart_header hx (r := p * pgSize + r - x) (by omega) hp
    omega
  refine ⟨V', hsees, ⟨fun j hj => ?_, fun j hj => ?_, fun p j hp => ?_, fun q c hq => ?_⟩, h.book⟩
  · -- the descriptors are in front of the heap
    have hword (t : Nat) (ht : t + 4 ≤ 24) : V'.u32 (descAt descs j + t) = V.u32 (descAt descs j + t) := by
      refine u32_congr fun r hr => hout _ ?_
      by_contra hcontra
      have hpage := (h.inHeap _ (h.book.mem_pages hx (r := descAt descs j + t + r - x) (by omega))).1
      simp only [DescsOk, descAt, pgSize] at hd hpage hcontra
      omega
    have h0 := hword 0 (by omega)
    rw [Nat.add_zero] at h0
    rw [h0, hword 4 (by omega)]
    exact h.repr.desc j hj
  · refine isList_of_away (h.repr.list j hj) fun y hy r hr => hout _ ?_
    by_contra hcontra
    have haway := h.book.away hd h.inHeap hj (fun z hz => ⟨h.book.isBlock j hj z hz,
      h.book.ne_of_mem_free hj hz hx⟩) hx (r := y + r - x) (by omega) y hy
    omega
  · exact (h.repr.small p j hp).of_same (hhead p (.inl ⟨j, hp⟩))
  · exact (h.repr.large q c hq).of_same (hhead q (.inr ⟨c, hq⟩))

/-! ### The transition system -/

/-- The memory, and the blocks in use with the number of bytes that was asked for. -/
structure HeapState where
  mem : Memory
  live : Nat → Option Nat

/-- What kernel threads do with the heap. -/
inductive HeapAct where
  | malloc (size : Nat)
  | free (ptr : Nat)
  | write (ptr off cnt : Nat) (data : Nat → UInt8)

/-- The heap from `mem_init` on: blocks are freed and written to only while they are in use. -/
def heapSystem (descs : Nat) : System HeapState HeapAct where
  init s := ∃ allMem pte phys vaddrBits, 0x200000 ≤ allMem ∧ allMem < 2 ^ 32 ∧ LoaderPages pte ∧
    s = ⟨memInit descs allMem pte phys vaddrBits, fun _ => none⟩
  step s a s' :=
    match a with
    | .malloc size =>
      match s.mem.sysMalloc descs size with
      | (none, m) => s' = ⟨m, s.live⟩
      | (some ptr, m) => s' = ⟨m, update s.live ptr (some size)⟩
    | .free ptr => s.live ptr ≠ none ∧ s' = ⟨s.mem.sysFree ptr, update s.live ptr none⟩
    | .write ptr off cnt data => ∃ n, s.live ptr = some n ∧ off + cnt ≤ n ∧
      s' = ⟨s.mem.store (ptr + off) data cnt, s.live⟩

/-- The heap is in good order. -/
def HeapState.Ok (descs : Nat) (s : HeapState) : Prop :=
  ∃ V sh, HeapInv descs s.mem s.live V sh ∧ Used sh s.live

/-- A call of `sys_malloc` returns a block. -/
def HeapAct.Succeeds (descs : Nat) (s : HeapState) : HeapAct → Prop
  | .malloc size => (s.mem.sysMalloc descs size).1 ≠ none
  | _ => True

/-- One step: the heap stays in good order, and the pages that are taken and given back are those
of the arenas. -/
lemma HeapInv.step (h : HeapInv descs s.mem s.live V sh)
    (hused : Used sh s.live) (hd : DescsOk descs) (hs : (heapSystem descs).step s a s') :
    ∃ V' sh', HeapInv descs s'.mem s'.live V' sh' ∧ Used sh' s'.live ∧
      (a.Succeeds descs s → PageStep s.mem sh.pages s'.mem sh'.pages) := by
  cases a with
  | malloc size =>
    obtain ⟨res, m', hm⟩ : ∃ res m', s.mem.sysMalloc descs size = (res, m') := ⟨_, _, rfl⟩
    obtain ⟨hfail, hok⟩ := h.sysMalloc hused hd hm
    simp only [heapSystem, hm] at hs
    cases res with
    | none =>
      subst hs
      refine ⟨V, sh, hfail rfl, hused, fun hsucc => ?_⟩
      simp [HeapAct.Succeeds, hm] at hsucc
    | some ptr =>
      subst hs
      obtain ⟨-, V', sh', hinv', hused', -, -, hstep⟩ := hok ptr rfl
      exact ⟨V', sh', hinv', hused', fun _ => hstep⟩
  | free ptr =>
    obtain ⟨hlive, rfl⟩ := hs
    obtain ⟨n, hn⟩ := Option.ne_none_iff_exists'.mp hlive
    obtain ⟨V', sh', hinv', hused', -, hstep⟩ := h.sysFree hused hd hn
    exact ⟨V', sh', hinv', hused', fun _ => hstep⟩
  | write ptr off cnt data =>
    obtain ⟨n, hn, hin, rfl⟩ := hs
    obtain ⟨V', hinv'⟩ := h.store hd hn hin data
    exact ⟨V', sh, hinv', hused, fun _ => .keep ⟨rfl, rfl, rfl, rfl⟩ rfl⟩

lemma HeapState.Ok.step (h : s.Ok descs) (hd : DescsOk descs)
    (hs : (heapSystem descs).step s a s') : s'.Ok descs := by
  obtain ⟨V, sh, hinv, hused⟩ := h
  obtain ⟨V', sh', hinv', hused', -⟩ := hinv.step hused hd hs
  exact ⟨V', sh', hinv', hused'⟩

lemma HeapState.ok_of_reachable (hd : DescsOk descs)
    (h : (heapSystem descs).Reachable (fun _ _ => True) s) : s.Ok descs := by
  refine h.invariant (HeapState.Ok descs) ?_ fun s a s' hok _ hs => hok.step hd hs
  rintro s ⟨allMem, pte, phys, vaddrBits, -, -, hpte, rfl⟩
  obtain ⟨V, hinv⟩ := heapInv_memInit hd allMem hpte phys vaddrBits
  exact ⟨V, .empty, hinv, fun p i hp => by cases hp⟩

lemma Book.block2arena (h : Book sh live) (hy : live y = some n) :
    ∃ p, block2arena y = p * pgSize ∧
      ((∃ i, sh.small p = some i) ∨ ∃ c, sh.large p = some c) := by
  rcases h.region y n hy with ⟨p, i, k, hp, hk, rfl, -⟩ | ⟨q, c, hq, rfl, -⟩
  · exact ⟨p, block2arena_blockAt hk, .inl ⟨i, hp⟩⟩
  · refine ⟨q, ?_, .inr ⟨c, hq⟩⟩
    simp only [Memory.block2arena, pgSize]
    omega

/-- Two blocks in use do not overlap. -/
lemma Book.apart (h : Book sh live) (hx : live x = some n) (hy : live y = some k) (hne : x ≠ y)
    (hr : r < n) : x + r < y ∨ y + k ≤ x + r := by
  rcases h.region y k hy with ⟨p, i, k', hp, hk, rfl, hn⟩ | ⟨q, c, hq, rfl, hn⟩
  · have hapart := h.apart_block hx ⟨p, k', hp, hk, rfl⟩ hne hr
    omega
  · -- were the byte in the large arena, so would be its page
    by_contra hcontra
    have hpage : (x + r) / pgSize ∈ Set.Ico q (q + c) := by
      simp only [pgSize, Set.mem_Ico] at hn hcontra ⊢
      omega
    rcases h.region x n hx with ⟨p, i, k', hp, hk, rfl, hn'⟩ | ⟨q', c', hq', rfl, hn'⟩
    · rw [blockAt_div p hk (by omega)] at hpage
      exact h.small_large p i q c hp hq hpage
    · refine hne ?_
      rw [h.large_large _ q' c' q c hq' hq ?_ hpage]
      simp only [pgSize, Set.mem_Ico] at hn' ⊢
      omega

/-- What a block that `sys_malloc` returned is like, in the memory after the call: zeros, in mapped
pages of the heap, apart from the blocks that were in use and from the headers of all arenas. Every
arena has a block in use, so its header is found from one of them. -/
structure FreshBlock (s : HeapState) (n ptr : Nat) (m' : Memory) : Prop where
  zero : ∀ k < n, m'.view (ptr + k) = 0
  mapped : ∀ k < n, kHeapStart ≤ ptr + k ∧ (m'.pte ((ptr + k) / pgSize)).present = true
  apart : ∀ q l, s.live q = some l → ∀ k < n, ptr + k < q ∨ q + l ≤ ptr + k
  headers : ∀ q l, update s.live ptr (some n) q = some l →
    ∀ k < n, ptr + k < block2arena q ∨ block2arena q + 12 ≤ ptr + k

end SimpleOs
