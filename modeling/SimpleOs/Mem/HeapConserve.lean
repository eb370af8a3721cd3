import SimpleOs.Mem.HeapSafety

/-!
# The heap gives back what it takes

The addresses and the frames that are taken are those that were taken at the start and those of the
pages of the arenas. Every arena has a block in use, so when all blocks are freed there is no arena
left and both bitmaps are what they were at the start.
-/

namespace SimpleOs

open Base Memory

namespace Memory

variable {m₀ m m' : Memory} {P : Set Nat} {p q i cnt : Nat}

/-! ### Frames of pages -/

/-- The frames of the pages `P`. -/
def pageFrames (m : Memory) (P : Set Nat) : Set Nat := {i | ∃ p ∈ P, m.HasFrame p i}

lemma Owns.hasFrame (h : m.Owns P) (hp : p ∈ P)
    (hpte : m.pte p = ⟨m.kernelPool.phyAddrStart + i * pgSize, true⟩) : m.HasFrame p i := by
  obtain ⟨j, hj⟩ := h.frame p hp
  have hframe := congrArg Pte.frame (hj.2.2.symm.trans hpte)
  simp only [pgSize] at hframe
  obtain rfl : j = i := by omega
  exact hj

lemma Keeps.frames_subset (hkeep : Keeps P m m') (h : m.Owns P) : m'.pageFrames P ⊆ m.pageFrames P := by
  rintro i ⟨p, hp, hi⟩
  refine ⟨p, hp, h.hasFrame hp ?_⟩
  rw [← hkeep.pte p (.inl hp), hi.2.2, hkeep.layout.kernelStart]

lemma Keeps.frames_eq (hkeep : Keeps P m m') (h : m.Owns P) (h' : m'.Owns P) :
    m'.pageFrames P = m.pageFrames P := by
  refine (hkeep.frames_subset h).antisymm ?_
  rintro i ⟨p, hp, hi⟩
  refine ⟨p, hp, h'.hasFrame hp ?_⟩
  rw [hkeep.pte p (.inl hp), hi.2.2, hkeep.layout.kernelStart]

lemma pageFrames_insert (h : m.HasFrame q i) (P : Set Nat) :
    m.pageFrames (insert q P) = m.pageFrames P ∪ {i} := by
  ext j
  constructor
  · rintro ⟨p, rfl | hp, hj⟩
    · exact .inr (hj.unique h)
    · exact .inl ⟨p, hp, hj⟩
  · rintro (⟨p, hp, hj⟩ | rfl)
    · exact ⟨p, .inr hp, hj⟩
    · exact ⟨q, .inl rfl, h⟩

/-! ### Taking and giving back frames -/

/-- The frames that are taken are those of `m₀` and those of the pages `P`. -/
def FramesAdded (m₀ m : Memory) (P : Set Nat) : Prop :=
  Bitmap.Adds m₀.kernelPool.poolBitmap m.kernelPool.poolBitmap (m.pageFrames P)

lemma keptByMap_framesAdded (m₀ : Memory) : KeptByMap (FramesAdded m₀) := by
  intro m m' P q frame pool h hadd hpalloc hm' hkeep h'
  obtain ⟨i, hscan, heq⟩ := Option.map_eq_some_iff.mp hpalloc
  cases heq
  obtain ⟨-, hclear, -⟩ := Bitmap.bitmapScan_one_eq_some hscan
  have hdiv : q * pgSize / pgSize = q := Nat.mul_div_cancel q (by decide)
  have hi : m'.HasFrame q i := by
    refine h'.hasFrame (Set.mem_insert q P) ?_
    subst hm'
    simp [Memory.pageTableAdd, hdiv, Nat.add_comm]
  rw [FramesAdded, pageFrames_insert hi, hkeep.frames_eq h (h'.mono (Set.subset_insert q P))]
  refine hadd.union ?_ ?_ fun j => ?_
  · rw [hm']; rfl
  · rintro j rfl
    exact hclear
  · have htest : m'.kernelPool.poolBitmap.bitmapScanTest j =
        if j = i then true else m.kernelPool.poolBitmap.bitmapScanTest j := by
      rw [hm']
      exact Bitmap.bitmapScanTest_bitmapSet _ _ _ _
    rw [htest]
    by_cases hji : j = i <;> simp [hji]

lemma keptByUnmap_framesAdded (m₀ : Memory) : KeptByUnmap (FramesAdded m₀) := by
  intro m m' P q h hq hadd hm' hkeep h'
  obtain ⟨i, hi⟩ := h.frame q (Set.mem_insert q P)
  have hP := h.mono (Set.subset_insert q P)
  have hfree : i ∉ m.pageFrames P := by
    rintro ⟨p, hp, hpi⟩
    exact hq (h.inj p (.inr hp) q (.inl rfl) i hpi hi ▸ hp)
  have hdiff : m'.pageFrames P = m.pageFrames (insert q P) \ {i} := by
    rw [hkeep.frames_eq hP h', pageFrames_insert hi, Set.union_sdiff_right,
      Set.sdiff_singleton_eq_self hfree]
  rw [FramesAdded, hdiff]
  rw [h.pfree hi] at hm'
  refine hadd.diff ?_ ?_ fun j => ?_
  · rw [hm']; rfl
  · rintro j rfl
    exact ⟨q, .inl rfl, hi⟩
  · have htest : m'.kernelPool.poolBitmap.bitmapScanTest j =
        if j = i then false else m.kernelPool.poolBitmap.bitmapScanTest j := by
      rw [hm']
      exact Bitmap.bitmapScanTest_bitmapSet _ _ _ _
    rw [htest]
    by_cases hji : j = i <;> simp [hji]

/-! ### Both bitmaps -/

/-- The addresses and frames that are taken are those of `m₀` and those of the pages `P`. -/
structure PagesAdded (m₀ m : Memory) (P : Set Nat) : Prop where
  vaddr : Bitmap.Adds m₀.kernelVaddr m.kernelVaddr {j | 0xc0100 + j ∈ P}
  frames : FramesAdded m₀ m P

lemma PagesAdded.samePages (h : PagesAdded m₀ m P) (hsame : SamePages m m') : PagesAdded m₀ m' P := by
  have hframes : m'.pageFrames P = m.pageFrames P := by
    simp only [Memory.pageFrames, HasFrame, hsame.pool, hsame.pte]
  refine ⟨hsame.vaddr ▸ h.vaddr, ?_⟩
  rw [FramesAdded, hframes, hsame.pool]
  exact h.frames

lemma Owns.samePages (h : m.Owns P) (hsame : SamePages m m') : m'.Owns P := by
  refine h.of_same ⟨?_, ?_, ?_, ?_, ?_⟩ (fun _ _ => by rw [hsame.pte]) ?_ fun _ _ _ hi => ?_
  · rw [hsame.pool]
  · rw [hsame.pool]
  · rw [hsame.user]
  · rw [hsame.vaddr]
  · rw [hsame.pool]
  · rw [hsame.vaddr]
    exact h.bit
  · rw [hsame.pool]
    exact hi.2.1

/-- `malloc_page` takes the addresses and frames of the new pages. -/
lemma PagesAdded.mallocPage (hadd : PagesAdded m₀ m P) (h : m.Owns P) (hcnt : 0 < cnt)
    (hmalloc : m.mallocPage cnt = (some (q * pgSize), m')) :
    PagesAdded m₀ m' (P ∪ Set.Ico q (q + cnt)) := by
  obtain ⟨-, -, hsome⟩ := h.mallocPage_rounds (keptByMap_framesAdded m₀) hcnt (fun _ => hadd.frames) hmalloc
  obtain ⟨start, hq, hclear, hvaddr, -, -, hframes⟩ := hsome _ rfl
  obtain rfl : q = 0xc0100 + start := Nat.eq_of_mul_eq_mul_right (by decide) hq
  refine ⟨?_, hframes⟩
  rw [hvaddr]
  have hset : {j | 0xc0100 + j ∈ P ∪ Set.Ico (0xc0100 + start) (0xc0100 + start + cnt)} =
      {j | 0xc0100 + j ∈ P} ∪ Set.Ico start (start + cnt) := by
    ext j
    simp only [Set.mem_ofPred_eq, Set.mem_union, Set.mem_Ico]
    refine or_congr_right ?_
    omega
  rw [hset]
  refine hadd.vaddr.union (btmpBytesLen_setRun _ _ _ _) (fun j hj => hclear j hj.1 hj.2) fun j => ?_
  rw [bitmapScanTest_setRun]
  by_cases hin : start ≤ j ∧ j < start + cnt <;> simp [hin]

/-- `mfree_page` gives back the addresses and frames of the pages. -/
lemma PagesAdded.mfreePage (hadd : PagesAdded m₀ m (P ∪ Set.Ico q (q + cnt)))
    (h : m.Owns (P ∪ Set.Ico q (q + cnt))) (hdisj : ∀ p ∈ Set.Ico q (q + cnt), p ∉ P)
    (hq : 0xc0100 ≤ q) : PagesAdded m₀ (m.mfreePage (q * pgSize) cnt) P := by
  obtain ⟨-, -, hvaddr, hframes⟩ := h.unmapPages (keptByUnmap_framesAdded m₀) hadd.frames hdisj
  have hstart : (q * pgSize - kHeapStart) / pgSize = q - 0xc0100 := by
    simp only [kHeapStart, pgSize]
    omega
  refine ⟨?_, hframes⟩
  have hset : {j | 0xc0100 + j ∈ P} =
      {j | 0xc0100 + j ∈ P ∪ Set.Ico q (q + cnt)} \ {j | 0xc0100 + j ∈ Set.Ico q (q + cnt)} := by
    ext j
    have hj := hdisj (0xc0100 + j)
    exact ⟨fun hP => ⟨.inl hP, fun hin => hj hin hP⟩, fun hdiff => hdiff.1.resolve_right hdiff.2⟩
  rw [hset]
  refine hadd.vaddr.diff ?_ (fun j hj => .inr hj) fun j => ?_
  · rw [Memory.mfreePage, Memory.vaddrRemove, hvaddr]
    exact btmpBytesLen_setRun _ _ _ _
  · rw [Memory.mfreePage, Memory.vaddrRemove, hvaddr, hstart, bitmapScanTest_setRun,
      Set.mem_ofPred_eq, Set.mem_Ico]
    by_cases hin : q - 0xc0100 ≤ j ∧ j < q - 0xc0100 + cnt
    · rw [if_pos hin]
      simp only [Bool.false_eq_true, false_iff, not_and]
      omega
    · rw [if_neg hin, iff_self_and]
      omega

lemma PagesAdded.step {P' : Set Nat} (hadd : PagesAdded m₀ m P) (h : m.Owns P)
    (hstep : PageStep m P m' P') : PagesAdded m₀ m' P' := by
  cases hstep with
  | keep hsame hP =>
    rw [hP]
    exact hadd.samePages hsame
  | take hbefore hcnt hmalloc hafter hP =>
    rw [hP]
    exact ((hadd.samePages hbefore).mallocPage (h.samePages hbefore) hcnt hmalloc).samePages hafter
  | give hbefore hq hdisj hafter hP =>
    subst hP
    exact ((hadd.samePages hbefore).mfreePage (h.samePages hbefore) hdisj hq).samePages hafter

end Memory

/-! ### The free lists and the arenas -/

variable {descs : Nat} {s₀ s : HeapState} {sh : Shape} {V : Bytes}

/-- The lists, the counters and the blocks in use say the same: each free list holds the blocks of
its arenas that are not in use, each once, each counter is the number of blocks of its arena in the
list, every arena has a block in use, and every block in use is in an arena. -/
structure HeapState.Conserves (descs : Nat) (s : HeapState) (sh : Shape) : Prop where
  list : ∀ i < 7, (listAt (descAt descs i + 8)).IsList (linksOf s.mem.view) (sh.free i) ∧
    (sh.free i).Nodup
  free : ∀ i < 7, ∀ x, x ∈ sh.free i ↔ sh.IsBlock i x ∧ s.live x = none
  cnt : ∀ p i, sh.small p = some i → s.mem.word (p * pgSize) = descAt descs i ∧
    s.mem.word (p * pgSize + 4) = sh.freeCount p i
  used : ∀ p i, sh.small p = some i → ∃ k < blocksPerArena i, s.live (blockAt p i k) ≠ none
  region : ∀ x n, s.live x = some n →
    (∃ i < 7, sh.IsBlock i x) ∨ ∃ q c, sh.large q = some c ∧ x = q * pgSize + 12

lemma HeapInv.conserves (h : HeapInv descs s.mem s.live V sh) (hused : Used sh s.live)
    (hd : DescsOk descs) : s.Conserves descs sh where
  list i hi := by
    have hlist := h.repr.list i hi
    have hnodes := h.nodesOk hd hi (h.book.isBlock i hi)
    refine ⟨isList_of_away hlist fun y hy r hr => ?_, hlist.nodup⟩
    exact h.sees.view _ (hnodes.usable y hy r hr)
  free i hi x := by
    constructor
    · intro hx
      obtain ⟨p, k, hp, hk, rfl⟩ := h.book.isBlock i hi x hx
      exact ⟨⟨p, k, hp, hk, rfl⟩, (h.book.mem_free p i k hp hk).mp hx⟩
    · rintro ⟨⟨p, k, hp, hk, rfl⟩, hnone⟩
      exact (h.book.mem_free p i k hp hk).mpr hnone
  cnt p i hp := h.word_arena hp
  used := hused
  region x n hx := by
    rcases h.book.region x n hx with ⟨p, i, k, hp, hk, hxk, -⟩ | ⟨q, c, hq, hxq, -⟩
    · exact .inl ⟨i, h.book.lt_of_small p i hp, p, k, hp, hk, hxk⟩
    · exact .inr ⟨q, c, hq, hxq⟩

lemma Used.pages_eq_empty {live : Nat → Option Nat} (hused : Used sh live) (hbook : Book sh live)
    (hnone : ∀ x, live x = none) : sh.pages = ∅ := by
  refine Set.eq_empty_iff_forall_notMem.mpr ?_
  rintro p (⟨i, hp⟩ | ⟨q, c, hq, -⟩)
  · obtain ⟨k, -, hlive⟩ := hused p i hp
    exact hlive (hnone _)
  · exact hbook.large_live q c hq (hnone _)

/-! ### Runs -/

/-- The heap is in good order, and what is taken is what its arenas have and what was taken at the
start. -/
def HeapState.Balanced (s : HeapState) (descs : Nat) (s₀ : HeapState) : Prop :=
  ∃ V sh, HeapInv descs s.mem s.live V sh ∧ Used sh s.live ∧ PagesAdded s₀.mem s.mem sh.pages

lemma HeapState.Balanced.step (h : s.Balanced descs s₀)
    (hd : DescsOk descs) (hsucc : a.Succeeds descs s) (hs : (heapSystem descs).step s a s') :
    s'.Balanced descs s₀ := by
  obtain ⟨V, sh, hinv, hused, hadd⟩ := h
  obtain ⟨V', sh', hinv', hused', hstep⟩ := hinv.step hused hd hs
  exact ⟨V', sh', hinv', hused', hadd.step hinv.sees.owns (hstep hsucc)⟩

lemma HeapState.balanced_init (hd : DescsOk descs) (h : (heapSystem descs).init s₀) :
    s₀.Balanced descs s₀ := by
  obtain ⟨allMem, pte, phys, vaddrBits, -, -, hpte, rfl⟩ := h
  obtain ⟨V, hinv⟩ := heapInv_memInit hd allMem hpte phys vaddrBits
  refine ⟨V, .empty, hinv, fun p i hp => by (cases hp), ?_, ?_⟩
  · simpa [Shape.pages_empty] using Bitmap.adds_empty _
  · simpa [Shape.pages_empty, FramesAdded, Memory.pageFrames] using Bitmap.adds_empty _

lemma HeapState.reachable_malloc_free (hmalloc : (s₀.mem.sysMalloc descs n).1 = some ptr) :
    ((heapSystem descs).startingAt s₀).Reachable (HeapAct.Succeeds descs)
      ⟨(s₀.mem.sysMalloc descs n).2.sysFree ptr, Function.update s₀.live ptr none⟩ := by
  have hpair : s₀.mem.sysMalloc descs n = (some ptr, (s₀.mem.sysMalloc descs n).2) :=
    Prod.ext hmalloc rfl
  have htaken : ((heapSystem descs).startingAt s₀).Reachable (HeapAct.Succeeds descs)
      ⟨(s₀.mem.sysMalloc descs n).2, Function.update s₀.live ptr (some n)⟩ := by
    refine .step (.init rfl) (l := .malloc n) (by simp [HeapAct.Succeeds, hmalloc]) ?_
    simp only [System.startingAt, heapSystem]
    rw [hpair]
  exact htaken.step (l := .free ptr) trivial ⟨by simp, by simp⟩

end SimpleOs
