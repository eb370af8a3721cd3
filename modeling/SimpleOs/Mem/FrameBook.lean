import SimpleOs.Mem.Directory
import SimpleOs.Mem.ForkCopy

/-!
# Which kernel frames are whose

The frames of the kernel pool are of two kinds: those behind the kernel's own pages, and those of the
page tables of the processes, which the kernel has mapped nowhere. A `Book` lists both. No frame
stands in it twice, and what the allocator does next concerns no frame that stands in it.
-/

namespace SimpleOs

open Base

namespace Memory

variable {m m' : Memory} {P : Set Nat} {cnt q p k : Nat}

/-! ### New frames were free -/

/-- The frames that were taken still are. -/
def StayTaken (m m' : Memory) : Prop :=
  ∀ k, m.taken .kernel k = true → m'.taken .kernel k = true

/-- A page is in a frame that was free before. -/
def InNew (m m' : Memory) (p : Nat) : Prop :=
  ∃ k, m.taken .kernel k = false ∧ m'.pte p = ⟨m.kernelPool.phyAddrStart + k * pgSize, true⟩

lemma StayTaken.refl (m : Memory) : StayTaken m m := fun _ h => h

variable {m1 m2 m3 : Memory}

lemma StayTaken.trans (h : StayTaken m1 m2) (h' : StayTaken m2 m3) :
    StayTaken m1 m3 := fun k hk => h' k (h k hk)

lemma StayTaken.free (h : StayTaken m m') (hk : m'.taken .kernel k = false) :
    m.taken .kernel k = false := by
  by_contra hne
  rw [Bool.not_eq_false] at hne
  rw [h k hne] at hk
  cases hk

lemma stayTaken_mallocPage (m : Memory) (cnt : Nat) : StayTaken m (m.mallocPage cnt).2 := by
  refine mallocPage_rel .refl (fun _ _ _ => .trans) (fun m v frame pool hpalloc k hk => ?_)
    (fun _ _ _ hk => hk) m cnt
  obtain ⟨i, -, heq⟩ := Option.map_eq_some_iff.mp hpalloc
  cases heq
  refine (Bitmap.bitmapScanTest_bitmapSet _ _ _ _).trans ?_
  split_ifs
  · rfl
  · exact hk

/-- Pages that come to `P₀` are in frames that were free in `m₀`. -/
structure AllNew (m₀ : Memory) (P₀ : Set Nat) (m : Memory) (P : Set Nat) : Prop where
  stay : StayTaken m₀ m
  start : m.kernelPool.phyAddrStart = m₀.kernelPool.phyAddrStart
  page : ∀ p ∈ P, p ∈ P₀ ∨ InNew m₀ m p

lemma keptByMap_allNew (m0 : Memory) (P0 : Set Nat) : KeptByMap (AllNew m0 P0) := by
  intro m m' P q frame pool _ hnew hpalloc hm' hkeep _
  obtain ⟨i, hscan, heq⟩ := Option.map_eq_some_iff.mp hpalloc
  cases heq
  obtain ⟨-, hclear, -⟩ := Bitmap.bitmapScan_one_eq_some hscan
  have hdiv : q * pgSize / pgSize = q := Nat.mul_div_cancel q (by decide)
  refine ⟨fun k hk => ?_, hkeep.layout.kernelStart.trans hnew.start, ?_⟩
  · rw [hm']
    refine (Bitmap.bitmapScanTest_bitmapSet _ _ _ _).trans ?_
    split_ifs
    · rfl
    · exact hnew.stay k hk
  · rintro p (rfl | hp)
    · refine .inr ⟨i, hnew.stay.free hclear, ?_⟩
      rw [hm', ← hnew.start]
      simp [pageTableAdd, hdiv, Nat.add_comm]
    · refine (hnew.page p hp).imp_right ?_
      rintro ⟨k, hfree, hpte⟩
      refine ⟨k, hfree, ?_⟩
      rw [hkeep.pte p (.inl hp), hpte]

/-! ### The pools stay where they are -/

/-- The pools have the places and the sizes they had. -/
structure SamePools (m m' : Memory) : Prop where
  start : ∀ pf, (m'.pool pf).phyAddrStart = (m.pool pf).phyAddrStart
  size : ∀ pf, (m'.pool pf).poolSize = (m.pool pf).poolSize
  frames : ∀ pf, m'.frames pf = m.frames pf

lemma SamePools.refl (m : Memory) : SamePools m m := ⟨fun _ => rfl, fun _ => rfl, fun _ => rfl⟩

lemma SamePools.trans (h : SamePools m1 m2) (h' : SamePools m2 m3) : SamePools m1 m3 :=
  ⟨fun pf => (h'.start pf).trans (h.start pf), fun pf => (h'.size pf).trans (h.size pf),
    fun pf => (h'.frames pf).trans (h.frames pf)⟩

lemma SamePools.layout (h : SamePools m m') (hl : m.Layout) : m'.Layout :=
  hl.congr h.start h.size h.frames

lemma SamePools.of_eq (hk : m'.kernelPool = m.kernelPool) (hu : m'.userPool = m.userPool) :
    SamePools m m' := by
  have hpool (pf : PoolFlags) : m'.pool pf = m.pool pf := by cases pf <;> assumption
  exact ⟨fun pf => by rw [hpool], fun pf => by rw [hpool], fun pf => by simp only [Memory.frames, hpool]⟩

lemma samePools_mark (m : Memory) (pf : PoolFlags) (i : Nat) (v : Bool) :
    SamePools m (m.mark pf i v) :=
  ⟨fun _ => phyAddrStart_mark .., fun _ => poolSize_mark .., fun _ => frames_mark ..⟩

lemma samePools_palloc (h : m.palloc pf = some (frame, m')) : SamePools m m' := by
  obtain ⟨i, -, -, -, rfl⟩ := palloc_eq_some h
  exact samePools_mark m pf i true

lemma samePools_pfree (m : Memory) (a : Nat) : SamePools m (m.pfree a) := by
  simp only [pfree]
  split_ifs
  · exact samePools_mark m .user (m.userPool.bitIdx a) false
  · exact samePools_mark m .kernel (m.kernelPool.bitIdx a) false

lemma samePools_mallocPage (m : Memory) (cnt : Nat) : SamePools m (m.mallocPage cnt).2 := by
  refine mallocPage_rel .refl (fun _ _ _ => .trans) (fun m v frame pool hpalloc => ?_)
    (fun _ _ => .of_eq rfl rfl) m cnt
  have hmem : m.palloc .kernel = some (frame, m.setPool .kernel pool) := by
    simp only [palloc, Memory.pool, hpalloc, Option.map_some]
  exact (samePools_palloc hmem).trans (.of_eq rfl rfl)

lemma samePools_unmapPages (cnt : Nat) (m : Memory) (v : Nat) : SamePools m (unmapPages cnt m v) :=
  unmapPages_rel .refl (fun _ _ _ => .trans)
    (fun m v => (samePools_pfree m (m.addrV2p v)).trans (.of_eq rfl rfl)) cnt m v

lemma samePools_mfreePage (m : Memory) (v cnt : Nat) : SamePools m (m.mfreePage v cnt) :=
  (samePools_unmapPages cnt m v).trans (.of_eq rfl rfl)

/-- Nothing but the bits of the pools is changed. -/
structure OnlyBits (m m' : Memory) : Prop where
  phys : m'.phys = m.phys
  pte : m'.pte = m.pte
  pools : SamePools m m'

lemma OnlyBits.refl (m : Memory) : OnlyBits m m := ⟨rfl, rfl, .refl m⟩

lemma OnlyBits.trans (h : OnlyBits m1 m2) (h' : OnlyBits m2 m3) :
    OnlyBits m1 m3 := ⟨h'.phys.trans h.phys, h'.pte.trans h.pte, h.pools.trans h'.pools⟩

lemma onlyBits_pfree (m : Memory) (a : Nat) : OnlyBits m (m.pfree a) := by
  refine ⟨?_, ?_, samePools_pfree m a⟩ <;> simp only [pfree] <;> split_ifs <;> rfl

lemma onlyBits_palloc (h : m.palloc pf = some (frame, m')) : OnlyBits m m' := by
  have hpools := samePools_palloc h
  obtain ⟨i, -, -, -, rfl⟩ := palloc_eq_some h
  exact ⟨by cases pf <;> rfl, by cases pf <;> rfl, hpools⟩

/-! ### No pages at all -/

/-- `malloc_page` for no pages takes nothing. -/
lemma mallocPage_zero (h : m.mallocPage 0 = (r, m')) :
    m' = m ∧ ∀ v, r = some v → v / pgSize * pgSize = v := by
  obtain ⟨rfl, rfl⟩ | ⟨start, ok, -, hmap, rfl⟩ := mallocPage_cases h
  · exact ⟨rfl, by simp⟩
  · cases hmap
    refine ⟨rfl, fun v hv => ?_⟩
    rw [← Option.some.inj hv, Nat.mul_div_cancel _ (by decide)]

/-! ### Frames that are not given back stay -/

lemma Owns.taken_unmapPages (h : m.Owns (P ∪ Set.Ico q (q + cnt)))
    (hdisj : ∀ p ∈ Set.Ico q (q + cnt), p ∉ P) (hk : m.taken .kernel k = true)
    (hpage : ∀ p ∈ P ∪ Set.Ico q (q + cnt), ¬ m.HasFrame p k) :
    (Memory.unmapPages cnt m (q * pgSize)).taken .kernel k = true := by
  have hround : KeptByUnmap fun m P => m.taken .kernel k = true ∧ ∀ p ∈ P, ¬ m.HasFrame p k := by
    rintro m m' P q h - ⟨hk, hpage⟩ hm' hkeep -
    obtain ⟨i, hi⟩ := h.frame q (Set.mem_insert q P)
    have hki : k ≠ i := fun heq => hpage q (Set.mem_insert q P) (heq ▸ hi)
    refine ⟨?_, fun p hp hframe => hpage p (.inr hp) ⟨?_, hk, ?_⟩⟩
    · rw [hm', h.pfree hi]
      exact ((Bitmap.bitmapScanTest_bitmapSet _ _ _ _).trans (if_neg hki)).trans hk
    · rw [← hkeep.layout.kernelLen]
      exact hframe.1
    · rw [← hkeep.pte p (.inl hp), ← hkeep.layout.kernelStart]
      exact hframe.2.2
  exact (h.unmapPages hround ⟨hk, hpage⟩ hdisj).2.2.2.1

end Memory

namespace PageDir

/-! ### The book -/

/-- The pages of a block. -/
def Block.pages (b : Block) : Set Nat := Set.Ico b.page (b.page + b.cnt)

/-- Two blocks have no page in common. -/
def Block.Apart (a b : Block) : Prop := Disjoint a.pages b.pages

/-- The pages of some blocks. -/
def pagesOf (bs : List Block) : Set Nat := { p | ∃ b ∈ bs, p ∈ b.pages }

/-- The kernel owns the pages `bs`, and the frames `tabs` of its pool are page tables. -/
structure Book (m : Memory) (bs : List Block) (tabs : Set Nat) : Prop where
  owns : m.Owns (pagesOf bs)
  apart : bs.Pairwise Block.Apart
  start : m.kernelPool.phyAddrStart = 0x200000
  lt : ∀ k ∈ tabs, k < 8 * m.kernelPool.poolBitmap.btmpBytesLen
  taken : ∀ k ∈ tabs, m.taken .kernel k = true
  page : ∀ k ∈ tabs, ∀ p ∈ pagesOf bs, ¬ m.HasFrame p k

variable {m m' : Memory} {b : Block} {bs bs' : List Block} {tabs tabs' : Set Nat} {cnt k p : Nat}

lemma Block.Apart.symm {a b : Block} (h : a.Apart b) : b.Apart a := Disjoint.symm h

lemma pagesOf_cons (b : Block) (bs : List Block) : pagesOf (b :: bs) = b.pages ∪ pagesOf bs := by
  ext p
  simp [pagesOf]

lemma pagesOf_mono (h : ∀ b ∈ bs', b ∈ bs) : pagesOf bs' ⊆ pagesOf bs :=
  fun _ ⟨b, hb, hp⟩ => ⟨b, h b hb, hp⟩

lemma mem_pagesOf (hb : b ∈ bs) (h1 : b.page ≤ p) (h2 : p < b.page + b.cnt) :
    p ∈ pagesOf bs := ⟨b, hb, h1, h2⟩

namespace Book

section

variable (h : Book m bs tabs)
include h

lemma perm (hbs : bs.Perm bs') : Book m bs' tabs := by
  have hpages : pagesOf bs' = pagesOf bs :=
    Set.Subset.antisymm (pagesOf_mono fun b hb => hbs.mem_iff.mpr hb)
      (pagesOf_mono fun b hb => hbs.mem_iff.mp hb)
  have hsymm : ∀ {a b : Block}, a.Apart b → b.Apart a := fun hab => hab.symm
  exact ⟨hpages ▸ h.owns, (hbs.pairwise_iff hsymm).mp h.apart, h.start, h.lt, h.taken, hpages ▸ h.page⟩

lemma mono (hbs : List.Sublist bs' bs) (htabs : tabs' ⊆ tabs) : Book m bs' tabs' := by
  have hsub : pagesOf bs' ⊆ pagesOf bs := pagesOf_mono fun b hb => hbs.subset hb
  exact ⟨h.owns.mono hsub, h.apart.sublist hbs, h.start, fun k hk => h.lt k (htabs hk),
    fun k hk => h.taken k (htabs hk), fun k hk p hp => h.page k (htabs hk) p (hsub hp)⟩

lemma cons_empty (hb : b.cnt = 0) : Book m (b :: bs) tabs := by
  have hempty : b.pages = ∅ := by simp [Block.pages, hb]
  have hpages : pagesOf (b :: bs) = pagesOf bs := by rw [pagesOf_cons, hempty, Set.empty_union]
  refine ⟨hpages ▸ h.owns, List.pairwise_cons.mpr ⟨fun b' _ => ?_, h.apart⟩, h.start, h.lt, h.taken,
    hpages ▸ h.page⟩
  rw [Block.Apart, hempty]
  exact Set.empty_disjoint _

/-- The book stays as it is when its frames stay taken and its pages stay where they are. -/
lemma of_same (howns : m'.Owns (pagesOf bs)) (hlayout : Memory.SameLayout m m')
    (hpte : ∀ p ∈ pagesOf bs, m'.pte p = m.pte p)
    (htaken : ∀ k ∈ tabs, m'.taken .kernel k = true) : Book m' bs tabs where
  owns := howns
  apart := h.apart
  start := hlayout.kernelStart.trans h.start
  lt := fun k hk => by
    rw [hlayout.kernelLen]
    exact h.lt k hk
  taken := htaken
  page := fun k hk p hp hframe => by
    refine h.page k hk p hp ⟨h.lt k hk, h.taken k hk, ?_⟩
    rw [← hpte p hp, hframe.2.2, hlayout.kernelStart]

/-- `malloc_page` adds a block, or nothing. -/
lemma mallocPage (hmalloc : m.mallocPage cnt = (r, m')) :
    Book m' bs tabs ∧ Memory.Keeps (pagesOf bs) m m' ∧
      ∀ v, r = some v → v / pgSize * pgSize = v ∧ Book m' (⟨v / pgSize, cnt⟩ :: bs) tabs := by
  rcases Nat.eq_zero_or_pos cnt with rfl | hcnt
  · obtain ⟨rfl, hdiv⟩ := Memory.mallocPage_zero hmalloc
    exact ⟨h, .refl _ _, fun v hv => ⟨hdiv v hv, h.cons_empty rfl⟩⟩
  obtain ⟨howns, hkeep, hsome⟩ := h.owns.mallocPage_rounds (Memory.keptByMap_allNew m (pagesOf bs)) hcnt
    (fun _ => ⟨.refl m, rfl, fun _ hp => .inl hp⟩) hmalloc
  have hstay := m.stayTaken_mallocPage cnt
  rw [hmalloc] at hstay
  have hbook : Book m' bs tabs := h.of_same howns hkeep.layout (fun p hp => hkeep.pte p (.inl hp))
    fun k hk => hstay k (h.taken k hk)
  refine ⟨hbook, hkeep, fun v hv => ?_⟩
  obtain ⟨start, rfl, -, -, hdisj, howns', hnew⟩ := hsome v hv
  rw [Nat.mul_div_cancel _ (by decide)]
  refine ⟨rfl, ?_, ?_, hbook.start, hbook.lt, hbook.taken, ?_⟩
  · rw [pagesOf_cons, Set.union_comm]
    exact howns'
  · refine List.pairwise_cons.mpr ⟨fun b hb => ?_, h.apart⟩
    exact Set.disjoint_left.mpr fun p hp hpb => hdisj p hp ⟨b, hb, hpb⟩
  · intro k hk p hp hframe
    rw [pagesOf_cons] at hp
    rcases hp with hp | hp
    · -- the page is in a frame that was free, the table in one that was not
      obtain ⟨j, hfree, hpte⟩ := (hnew.page p (.inr hp)).resolve_left (hdisj p hp)
      have hjk := congrArg Pte.frame (hpte.symm.trans hframe.2.2)
      rw [h.start, hbook.start] at hjk
      simp only [pgSize] at hjk
      obtain rfl : j = k := by omega
      rw [h.taken j hk] at hfree
      cases hfree
    · exact hbook.page k hk p hp hframe

end

/-- `mfree_page` takes a block off. -/
lemma mfreePage (h : Book m (b :: bs) tabs) :
    Book (m.mfreePage (b.page * pgSize) b.cnt) bs tabs ∧
      Memory.Keeps (pagesOf bs) m (m.mfreePage (b.page * pgSize) b.cnt) := by
  rcases Nat.eq_zero_or_pos b.cnt with hzero | hpos
  · rw [hzero]
    exact ⟨h.mono (List.sublist_cons_self b bs) subset_rfl, .refl _ _⟩
  have howns := h.owns
  rw [pagesOf_cons, Set.union_comm] at howns
  have hdisj : ∀ p ∈ Set.Ico b.page (b.page + b.cnt), p ∉ pagesOf bs := by
    rintro p hp ⟨b', hb', hpb'⟩
    exact Set.disjoint_left.mp ((List.pairwise_cons.mp h.apart).1 b' hb') hp hpb'
  have hheap := (howns.heap b.page (.inr ⟨le_rfl, by omega⟩)).1
  obtain ⟨howns', hkeep⟩ := howns.mfreePage hdisj hheap
  refine ⟨(h.mono (List.sublist_cons_self b bs) subset_rfl).of_same howns' hkeep.layout
    (fun p hp => hkeep.pte p (.inl hp)) fun k hk => ?_, hkeep⟩
  refine howns.taken_unmapPages hdisj (h.taken k hk) fun p hp => h.page k hk p ?_
  rw [pagesOf_cons]
  exact hp.symm

section

variable (h : Book m bs tabs)
include h

lemma palloc (hpalloc : m.palloc .kernel = some (frame, m')) :
    ∃ k ∉ tabs, frame = 0x200000 + k * pgSize ∧ Book m' bs (insert k tabs) ∧
      m'.phys = m.phys ∧ m'.pte = m.pte ∧ m'.userPool = m.userPool := by
  obtain ⟨k, hlt, hfree, rfl, rfl⟩ := Memory.palloc_eq_some hpalloc
  have hout : k ∉ tabs := by
    intro hk
    rw [h.taken k hk] at hfree
    cases hfree
  refine ⟨k, hout, ?_, ⟨h.owns.mark .kernel k, h.apart, h.start, ?_, ?_, ?_⟩, rfl, rfl, rfl⟩
  · rw [Memory.frameAt, Nat.add_comm]
    exact congrArg (· + k * pgSize) h.start
  · rintro j (rfl | hj)
    · exact hlt
    · exact h.lt j hj
  · intro j hj
    rw [Memory.taken_mark]
    split_ifs with hjk
    · rfl
    · exact h.taken j (hj.resolve_left fun heq => hjk ⟨rfl, heq⟩)
  · rintro j (rfl | hj) p hp hframe
    · -- an owned page is in a frame that was taken before
      obtain ⟨i, hi⟩ := h.owns.frame p hp
      have hij := congrArg Pte.frame (hi.2.2.symm.trans hframe.2.2)
      simp only [Memory.mark, Memory.setPool, Memory.pool, pgSize] at hij
      obtain rfl : i = j := by omega
      rw [show m.taken .kernel i = true from hi.2.1] at hfree
      cases hfree
    · exact h.page j hj p hp ⟨h.lt j hj, h.taken j hj, hframe.2.2⟩

lemma pfree_user (ha : m.userPool.phyAddrStart ≤ a) : Book (m.pfree a) bs tabs := by
  have hm : m.pfree a = { m with userPool := m.userPool.release a } := by rw [Memory.pfree, if_pos ha]
  rw [hm]
  have hlayout : Memory.SameLayout m { m with userPool := m.userPool.release a } :=
    ⟨rfl, rfl, rfl, rfl, rfl⟩
  exact h.of_same (h.owns.of_same hlayout (fun _ _ => rfl) h.owns.bit fun _ _ _ hi => hi.2.1) hlayout
    (fun _ _ => rfl) h.taken

/-- Giving back a frame of the kernel pool that stands in the book nowhere else. -/
lemma pfree_kernel (ha : a < m.userPool.phyAddrStart) (hk : ∀ k ∈ tabs, k ≠ m.kernelPool.bitIdx a)
    (hp : ∀ p ∈ pagesOf bs, ¬ m.HasFrame p (m.kernelPool.bitIdx a)) : Book (m.pfree a) bs tabs := by
  have hm : m.pfree a = { m with kernelPool := m.kernelPool.release a } := by
    rw [Memory.pfree, if_neg (by omega)]
  have hlayout : Memory.SameLayout m { m with kernelPool := m.kernelPool.release a } :=
    ⟨rfl, rfl, rfl, rfl, rfl⟩
  have htest (j : Nat) (hj : j ≠ m.kernelPool.bitIdx a) :
      ({ m with kernelPool := m.kernelPool.release a } : Memory).taken .kernel j = m.taken .kernel j :=
    (Bitmap.bitmapScanTest_bitmapSet _ _ _ _).trans (if_neg hj)
  rw [hm]
  refine h.of_same (h.owns.of_same hlayout (fun _ _ => rfl) h.owns.bit fun p hpage i hi => ?_) hlayout
    (fun _ _ => rfl) fun k hktabs => (htest k (hk k hktabs)).trans (h.taken k hktabs)
  exact (htest i fun heq => hp p hpage (heq ▸ hi)).trans hi.2.1

/-- The bit of frame `k` of the kernel pool. -/
lemma bitIdx_table (hk : k < 8 * m.kernelPool.poolBitmap.btmpBytesLen) :
    m.kernelPool.bitIdx (0x200000 + k * pgSize) = k ∧
      0x200000 + k * pgSize < m.userPool.phyAddrStart := by
  have hhigh := h.owns.pools.high
  have hfits := h.owns.pools.fits
  simp only [Pool.bitIdx, h.start, pgSize] at hhigh ⊢
  omega

/-- `pfree(0)` clears a bit far behind the bitmap. -/
lemma pfree_zero : Book (m.pfree 0) bs tabs := by
  have hhigh := h.owns.pools.high
  have hfits := h.owns.pools.fits
  have hidx : 8 * m.kernelPool.poolBitmap.btmpBytesLen ≤ m.kernelPool.bitIdx 0 := by
    simp only [Pool.bitIdx, h.start, pgSize] at hhigh ⊢
    omega
  refine h.pfree_kernel (by rw [h.start] at hhigh; omega) (fun k hk heq => ?_) fun p hp hframe => ?_
  · exact absurd (h.lt k hk) (by omega)
  · exact absurd hframe.1 (by omega)

end

lemma pfree_table (h : Book m bs (insert k tabs)) (hk : k ∉ tabs) :
    Book (m.pfree (0x200000 + k * pgSize)) bs tabs := by
  obtain ⟨hidx, hlt⟩ := h.bitIdx_table (h.lt k (Set.mem_insert k tabs))
  have hbook := h.mono (List.Sublist.refl bs) (Set.subset_insert k tabs)
  refine hbook.pfree_kernel hlt (fun j hj heq => ?_) fun p hp => ?_
  · rw [hidx] at heq
    exact hk (heq ▸ hj)
  · rw [hidx]
    exact h.page k (Set.mem_insert k tabs) p hp

lemma phys (h : Book m bs tabs) (phys : Bytes) : Book { m with phys := phys } bs tabs :=
  h.of_same (h.owns.of_same ⟨rfl, rfl, rfl, rfl, rfl⟩ (fun _ _ => rfl) h.owns.bit fun _ _ _ hi => hi.2.1)
    ⟨rfl, rfl, rfl, rfl, rfl⟩ (fun _ _ => rfl) h.taken

lemma palloc_user (h : Book m bs tabs) (hpalloc : m.palloc .user = some (frame, m')) :
    Book m' bs tabs ∧ m.userPool.phyAddrStart ≤ frame ∧ m'.phys = m.phys ∧ m'.pte = m.pte ∧
      m'.userPool.phyAddrStart = m.userPool.phyAddrStart := by
  obtain ⟨j, -, -, rfl, rfl⟩ := Memory.palloc_eq_some hpalloc
  refine ⟨h.of_same (h.owns.mark .user j) ⟨rfl, rfl, rfl, rfl, rfl⟩ (fun _ _ => rfl) h.taken, ?_, rfl, rfl,
    rfl⟩
  exact Nat.le_add_left _ _

end Book

end PageDir

end SimpleOs
