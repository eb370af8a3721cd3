import SimpleOs.Mem.Fork

/-!
# The child is a copy of the parent

The loop of `copy_body_stack3`, round by round: the pages the child has got are in frames that were
free when the fork began, with the bytes of the parent's pages. Nothing that the parent has mapped
is written to, and the kernel's pages are written to in the buffer only.
-/

namespace SimpleOs

open Base Function Option

namespace Memory

variable {m : Memory} {P : Set Nat}

lemma Owns.mark (h : m.Owns P) (pf : PoolFlags) (j : Nat) : (m.mark pf j true).Owns P := by
  cases pf with
  | kernel =>
    refine h.of_same ⟨rfl, rfl, rfl, rfl, rfl⟩ (fun _ _ => rfl) h.bit fun p hp i hi => ?_
    have htest : (m.mark .kernel j true).taken .kernel i = true := by
      rw [taken_mark]
      split_ifs
      · rfl
      · exact hi.2.1
    exact htest
  | user => exact h.of_same ⟨rfl, rfl, rfl, rfl, rfl⟩ (fun _ _ => rfl) h.bit fun _ _ _ hi => hi.2.1

/-- Frame `j` of the user pool has been taken, and possibly one of the kernel pool. -/
structure TakesUser (m : Memory) (j : Nat) (m' : Memory) : Prop where
  layout : SameLayout m m'
  layout_of : m.Layout → m'.Layout
  owns : ∀ P, m.Owns P → m'.Owns P
  frames : m'.frames .user = m.frames .user
  phys : m'.phys = m.phys
  pte : m'.pte = m.pte
  taken : ∀ i, m'.taken .user i = true ↔ i = j ∨ m.taken .user i = true

lemma takesUser_mark (m : Memory) (j : Nat) : TakesUser m j (m.mark .user j true) where
  layout := ⟨rfl, rfl, rfl, rfl, rfl⟩
  layout_of := fun h => h.mark .user j true
  owns := fun _ h => h.mark .user j
  frames := rfl
  phys := rfl
  pte := rfl
  taken := fun i => by
    by_cases hi : i = j <;> simp [hi]

lemma TakesUser.mark_kernel (h : TakesUser m j m') (k : Nat) :
    TakesUser m j (m'.mark .kernel k true) where
  layout := h.layout.trans ⟨rfl, rfl, rfl, rfl, rfl⟩
  layout_of := fun hl => (h.layout_of hl).mark .kernel k true
  owns := fun P hP => (h.owns P hP).mark .kernel k
  frames := h.frames
  phys := h.phys
  pte := h.pte
  taken := h.taken

lemma Owns.view_setFrame (h : m.Owns P) {frame u : Nat} (data : Nat → UInt8)
    (hframe : m.userPool.phyAddrStart ≤ frame) (hu : Usable P u) :
    (m.setFrame frame data).view u = m.view u := by
  have hlt := h.addrV2p_lt hu
  exact if_neg (by simp only [addrV2p] at hlt ⊢; simp only [Memory.setFrame]; omega)

end Memory

namespace AddrSpace

variable {sp sp' : AddrSpace} {m : Memory}

/-- A page that is mapped has a page table. -/
def Tabled (sp : AddrSpace) : Prop := ∀ p, sp.pte p ≠ none → sp.pde (p / 1024) ≠ none

/-- What `get_a_page_without_opvaddrbitmap` does: one page more, in a frame that was free. -/
lemma getAPage_eq_some (htab : sp.Tabled) (h : sp.getAPage m page = some (sp', m')) :
    ∃ j < m.frames .user, m.taken .user j = false ∧ sp'.pte page = some (m.frameAt .user j) ∧
      (∀ q, q ≠ page → sp'.pte q = sp.pte q) ∧ sp'.Tabled ∧ m.TakesUser j m' := by
  obtain ⟨⟨frame, pool⟩, hpalloc, hadd⟩ := bind_eq_some_iff.mp h
  have hmem : m.palloc .user = some (frame, m.setPool .user pool) := by
    simp only [Memory.palloc, Memory.pool, hpalloc, map_some]
  obtain ⟨j, hj, hfree, rfl, hm1⟩ := Memory.palloc_eq_some hmem
  have htakes := m.takesUser_mark j
  rw [← hm1] at htakes
  refine ⟨j, hj, hfree, ?_⟩
  simp only [AddrSpace.pageTableAdd] at hadd
  split at hadd
  · next table htable =>
    cases hadd
    refine ⟨by simp, fun q hq => update_of_ne hq _ _, fun p hp => ?_, htakes⟩
    by_cases hpp : p = page
    · simp [hpp, htable]
    · exact htab p (by simpa [hpp] using hp)
  · next hnone =>
    obtain ⟨⟨table, kernelPool⟩, htable, heq⟩ := map_eq_some_iff.mp hadd
    cases heq
    have hkernel : (m.setPool .user pool).palloc .kernel =
        some (table, { m with userPool := pool, kernelPool := kernelPool }) := by
      simp only [Memory.palloc, Memory.pool, Memory.setPool, htable, map_some]
    obtain ⟨k, -, -, -, hm2⟩ := Memory.palloc_eq_some hkernel
    -- the table is new, so no page of it was mapped
    have hsame : ∀ q, q / 1024 = page / 1024 → sp.pte q = none := by
      intro q hq
      by_contra hne
      exact htab q hne (by rw [hq]; exact hnone)
    refine ⟨by simp, fun q hq => ?_, fun p hp => ?_, ?_⟩
    · simp only [if_neg hq]
      split_ifs with hdiv
      · exact (hsame q hdiv).symm
      · rfl
    · by_cases hdiv : p / 1024 = page / 1024
      · simp [hdiv]
      · have hpp : p ≠ page := fun heq => hdiv (by rw [heq])
        simp only [if_neg hpp, if_neg hdiv] at hp
        simpa [hdiv] using htab p hp
    · rw [hm2]
      exact htakes.mark_kernel k

end AddrSpace

namespace Cpu

variable {s s' s₁ : Cpu} {parent child : Proc} {P Q : Set Nat} {n : Nat}

/-! ### The parent -/

/-- A process that is running: the kernel owns the pages of its PCB, its directory and its bitmap;
its user pages are those of its bitmap, in frames that are taken. -/
structure IsParent (s : Cpu) (p : Proc) (P : Set Nat) : Prop where
  owns : s.mem.Owns P
  layout : s.mem.Layout
  running : s.cr3 = s.mem.addrV2p p.pgdir
  pgdir : p.pgdir / pgSize ∈ P
  bits : ∀ k < divRoundUp userBitmapLen pgSize * pgSize, (p.bits + k) / pgSize ∈ P
  bitmap : ∀ i < 8 * userBitmapLen, (s.vaddrBitmap p).bitmapScanTest i = true ↔
    ((s.spaceOf p).pte (firstUserPage + i)).isSome = true
  frames : ∀ page f, (s.spaceOf p).pte page = some f → firstUserPage ≤ page ∧ page < kernelPage ∧
    ∃ j < s.mem.frames .user, s.mem.taken .user j = true ∧ f = s.mem.frameAt .user j

/-! ### One page -/

lemma copyPage_eq_some (h : s.copyPage parent child bufPage page = some s') :
    ∃ f sp g m2, (s.dirs s.cr3).pte page = some f ∧
      (s.dirs (s.mem.addrV2p child.pgdir)).getAPage
        (s.mem.store bufPage (fun r => s.mem.phys (f + r)) pgSize) page = some (sp, m2) ∧
      sp.pte page = some g ∧
      s' = { s with
        mem := m2.setFrame g fun r => m2.view (bufPage + r)
        dirs := update s.dirs (s.mem.addrV2p child.pgdir) sp
        cr3 := m2.addrV2p parent.pgdir } := by
  obtain ⟨data, hread, h⟩ := bind_eq_some_iff.mp h
  obtain ⟨f, hf, rfl⟩ := map_eq_some_iff.mp hread
  obtain ⟨s2, hget, h⟩ := bind_eq_some_iff.mp h
  obtain ⟨⟨sp, m2⟩, hsp, rfl⟩ := map_eq_some_iff.mp hget
  obtain ⟨s3, hwrite, rfl⟩ := map_eq_some_iff.mp h
  obtain ⟨g, hg, rfl⟩ := map_eq_some_iff.mp hwrite
  refine ⟨f, sp, g, m2, hf, hsp, ?_, rfl⟩
  simpa [pageDirActivate, Memory.addrV2p, Memory.store] using hg

/-- A page has been copied from frame `f` to frame `j` of the user pool, which was free. The page
`qb` of the kernel was the buffer. -/
structure PageCopied (s : Cpu) (child : Proc) (Q : Set Nat) (qb page f j : Nat) (s' : Cpu) : Prop where
  owns : s'.mem.Owns Q
  same : Memory.SameLayout s.mem s'.mem
  layout : s'.mem.Layout
  frames : s'.mem.frames .user = s.mem.frames .user
  pte : s'.mem.pte = s.mem.pte
  view : ∀ u, u / pgSize ∈ Q → u / pgSize ≠ qb → s'.mem.view u = s.mem.view u
  dirs : ∀ d, d ≠ s.mem.addrV2p child.pgdir → s'.dirs d = s.dirs d
  tabled : (s'.spaceOf child).Tabled
  free : s.mem.taken .user j = false
  taken : ∀ i, s'.mem.taken .user i = true ↔ i = j ∨ s.mem.taken .user i = true
  new : (s'.spaceOf child).pte page = some (s.mem.frameAt .user j)
  others : ∀ q, q ≠ page → (s'.spaceOf child).pte q = (s.spaceOf child).pte q
  bytes : ∀ r < pgSize, s'.mem.phys (s.mem.frameAt .user j + r) = s.mem.phys (f + r)
  rest : ∀ i, i ≠ j → ∀ r < pgSize,
    s'.mem.phys (s.mem.frameAt .user i + r) = s.mem.phys (s.mem.frameAt .user i + r)

lemma pageCopied_of_copyPage (howns : s.mem.Owns Q) (hlayout : s.mem.Layout)
    (hbuf : qb ∈ Q) (htabled : (s.spaceOf child).Tabled)
    (hcopy : s.copyPage parent child (qb * pgSize) page = some s') :
    ∃ f j, (s.dirs s.cr3).pte page = some f ∧ PageCopied s child Q qb page f j s' ∧
      s'.cr3 = s.mem.addrV2p parent.pgdir := by
  obtain ⟨f, sp, g, m2, hf, hget, hg, rfl⟩ := copyPage_eq_some hcopy
  have hpg : 0 < pgSize := by decide
  -- a: the buffer gets the bytes
  have hdiv : ∀ r < pgSize, (qb * pgSize + r) / pgSize = qb := fun r hr => by
    rw [Nat.mul_comm, Nat.mul_add_div hpg, Nat.div_eq_of_lt hr, Nat.add_zero]
  have hin : ∀ r < pgSize, Memory.Usable Q (qb * pgSize + r) := fun r hr =>
    .inl (by rw [hdiv r hr]; exact hbuf)
  obtain ⟨howns1, huser1, hview1⟩ := howns.store (fun r => s.mem.phys (f + r)) hin
  set m1 := s.mem.store (qb * pgSize) (fun r => s.mem.phys (f + r)) pgSize with hm1
  -- b, c: the child gets a frame
  obtain ⟨j, hj, hfree, hpte, hothers, htabled', htakes⟩ := AddrSpace.getAPage_eq_some htabled hget
  obtain rfl : m1.frameAt .user j = g := some.inj (hpte.symm.trans hg)
  have hview2 : ∀ u, m2.view u = m1.view u := fun u => by
    simp only [Memory.view, Memory.addrV2p, htakes.phys, htakes.pte]
  have hstart : m2.userPool.phyAddrStart ≤ m1.frameAt .user j := by
    rw [htakes.layout.userStart]
    exact Nat.le_add_left _ _
  have howns2 := htakes.owns Q howns1
  -- d: the frame gets the bytes of the buffer
  have hspace : ∀ data, ({ s with
      mem := m2.setFrame (m1.frameAt .user j) data
      dirs := update s.dirs (s.mem.addrV2p child.pgdir) sp
      cr3 := m2.addrV2p parent.pgdir } : Cpu).spaceOf child = sp := fun data => by
    have haddr : m2.addrV2p child.pgdir = s.mem.addrV2p child.pgdir := by
      simp only [Memory.addrV2p, htakes.pte, hm1, Memory.store]
    show update s.dirs (s.mem.addrV2p child.pgdir) sp (m2.addrV2p child.pgdir) = sp
    rw [haddr, update_self]
  refine ⟨f, j, hf, ?_, by simp only [Memory.addrV2p, htakes.pte, hm1, Memory.store]⟩
  constructor
  case owns =>
    exact howns2.of_same ⟨rfl, rfl, rfl, rfl, rfl⟩ (fun _ _ => rfl) howns2.bit fun _ _ _ hi => hi.2.1
  case same => exact huser1.layout.trans (htakes.layout.trans ⟨rfl, rfl, rfl, rfl, rfl⟩)
  case layout =>
    refine (htakes.layout_of (huser1.layout_of hlayout)).congr ?_ ?_ ?_ <;> rintro (_ | _) <;> rfl
  case frames => exact htakes.frames
  case pte => exact htakes.pte
  case view =>
    intro u hu hne
    have hout : ¬(qb * pgSize ≤ u ∧ u < qb * pgSize + pgSize) := by
      rintro ⟨h1, h2⟩
      refine hne ?_
      rw [← hdiv (u - qb * pgSize) (by omega)]
      congr 1
      omega
    have hset := howns2.view_setFrame (fun r => m2.view (qb * pgSize + r)) hstart (.inl hu)
    rw [hset, hview2, hview1 u (.inl hu), if_neg hout]
  case dirs => exact fun d hd => update_of_ne hd _ _
  case tabled =>
    rw [hspace]
    exact htabled'
  case free => exact hfree
  case taken => exact htakes.taken
  case new =>
    rw [hspace]
    exact hpte
  case others =>
    intro q hq
    rw [hspace]
    exact hothers q hq
  case bytes =>
    intro r hr
    have hdata : m2.view (qb * pgSize + r) = s.mem.phys (f + r) := by
      rw [hview2, hview1 _ (hin r hr), if_pos (by omega), Nat.add_sub_cancel_left]
    show (if _ ∧ _ then _ else _) = _
    rw [if_pos ⟨Nat.le_add_right _ _, Nat.add_lt_add_left hr _⟩]
    simp only [← hdata]
    congr 2
    exact Nat.add_sub_cancel_left ..
  case rest =>
    intro i hi r hr
    show (if _ ∧ _ then _ else _) = _
    rw [← huser1.frameAt i, if_neg ?_, htakes.phys]
    swap
    · simp only [Memory.frameAt, pgSize] at hr ⊢
      omega
    refine huser1.phys _ ?_
    rw [huser1.frameAt]
    simp only [Memory.frameAt, Memory.pool]
    omega

/-! ### The loop -/

/-- When the loop starts: the child has an empty directory of its own, and the buffer is a page of
its own. -/
structure Ready (s : Cpu) (parent child : Proc) (Q : Set Nat) (qb : Nat) : Prop where
  isParent : s.IsParent parent Q
  buf : qb ∈ Q
  bits : ∀ k < userBitmapLen, (parent.bits + k) / pgSize ≠ qb
  dirs_ne : s.mem.addrV2p child.pgdir ≠ s.mem.addrV2p parent.pgdir
  empty : s.spaceOf child = .empty

/-- After `n` rounds, from the state `s₁` on. -/
structure CopyInv (s₁ : Cpu) (parent child : Proc) (Q : Set Nat) (qb n : Nat) (s : Cpu) : Prop where
  owns : s.mem.Owns Q
  same : Memory.SameLayout s₁.mem s.mem
  layout : s.mem.Layout
  frames : s.mem.frames .user = s₁.mem.frames .user
  pte : s.mem.pte = s₁.mem.pte
  view : ∀ u, u / pgSize ∈ Q → u / pgSize ≠ qb → s.mem.view u = s₁.mem.view u
  running : s.cr3 = s₁.mem.addrV2p parent.pgdir
  dirs : ∀ d, d ≠ s₁.mem.addrV2p child.pgdir → s.dirs d = s₁.dirs d
  tabled : (s.spaceOf child).Tabled
  taken : ∀ j, s₁.mem.taken .user j = true → s.mem.taken .user j = true
  old : ∀ j, s₁.mem.taken .user j = true → ∀ r < pgSize,
    s.mem.phys (s₁.mem.frameAt .user j + r) = s₁.mem.phys (s₁.mem.frameAt .user j + r)
  all : ∀ page f, (s₁.spaceOf parent).pte page = some f → page < firstUserPage + n →
    (s.spaceOf child).pte page ≠ none
  only : ∀ page g, (s.spaceOf child).pte page = some g → ∃ f, (s₁.spaceOf parent).pte page = some f ∧
    (∀ r < pgSize, s.mem.phys (g + r) = s₁.mem.phys (f + r)) ∧
    ∃ j, s₁.mem.taken .user j = false ∧ s.mem.taken .user j = true ∧ g = s₁.mem.frameAt .user j
  inj : ∀ p q g, (s.spaceOf child).pte p = some g → (s.spaceOf child).pte q = some g → p = q

lemma CopyInv.frameAt (h : CopyInv s₁ parent child Q qb n s) (j : Nat) :
    s.mem.frameAt .user j = s₁.mem.frameAt .user j := by
  simp only [Memory.frameAt, Memory.pool, h.same.userStart]

lemma CopyInv.addrV2p (h : CopyInv s₁ parent child Q qb n s) (v : Nat) :
    s.mem.addrV2p v = s₁.mem.addrV2p v := by
  simp only [Memory.addrV2p, h.pte]

lemma CopyInv.bitmapScanTest (h : CopyInv s₁ parent child Q qb n s)
    (hready : Ready s₁ parent child Q qb) (hi : i < 8 * userBitmapLen) :
    (s.vaddrBitmap parent).bitmapScanTest i = (s₁.vaddrBitmap parent).bitmapScanTest i := by
  have hk : i / 8 < userBitmapLen := by omega
  have hpages : userBitmapLen ≤ divRoundUp userBitmapLen pgSize * pgSize := by decide
  have hview := h.view (parent.bits + i / 8) (hready.isParent.bits _ (by omega)) (hready.bits _ hk)
  simp only [Bitmap.bitmapScanTest, vaddrBitmap, hview]

lemma CopyInv.start (h : Ready s₁ parent child Q qb) : CopyInv s₁ parent child Q qb 0 s₁ where
  owns := h.isParent.owns
  same := .refl _
  layout := h.isParent.layout
  frames := rfl
  pte := rfl
  view := fun _ _ _ => rfl
  running := h.isParent.running
  dirs := fun _ _ => rfl
  tabled := by
    rw [h.empty]
    exact fun p hp => absurd rfl hp
  taken := fun _ hj => hj
  old := fun _ _ _ _ => rfl
  all := fun page f hf hlt => by
    have hpage := (h.isParent.frames page f hf).1
    omega
  only := fun page g hg => by
    rw [h.empty] at hg
    cases hg
  inj := fun p q g hg => by
    rw [h.empty] at hg
    cases hg

lemma CopyInv.skip (h : CopyInv s₁ parent child Q qb n s)
    (hready : Ready s₁ parent child Q qb) (hn : n < 8 * userBitmapLen)
    (hbit : (s.vaddrBitmap parent).bitmapScanTest n = false) :
    CopyInv s₁ parent child Q qb (n + 1) s := by
  refine { h with all := fun page f hf hlt => ?_ }
  by_cases hpage : page = firstUserPage + n
  · have hset := (hready.isParent.bitmap n hn).mpr (by rw [← hpage, hf]; rfl)
    rw [← h.bitmapScanTest hready hn, hbit] at hset
    cases hset
  · exact h.all page f hf (by omega)

/-- A round whose bit is set: the child gets the page. -/
lemma CopyInv.copy (h : CopyInv s₁ parent child Q qb n s) (hready : Ready s₁ parent child Q qb)
    (hcopy : s.copyPage parent child (qb * pgSize) (firstUserPage + n) = some s') :
    CopyInv s₁ parent child Q qb (n + 1) s' := by
  obtain ⟨f, j, hf, hc, hcr3⟩ := pageCopied_of_copyPage h.owns h.layout hready.buf h.tabled hcopy
  -- the page that is read is the parent's, in a frame that was taken from the start
  have hfp : (s₁.spaceOf parent).pte (firstUserPage + n) = some f := by
    rw [h.running, h.dirs _ hready.dirs_ne.symm] at hf
    exact hf
  obtain ⟨-, -, jf, hjf, hjftaken, rfl⟩ := hready.isParent.frames _ f hfp
  have hfresh : s₁.mem.taken .user j = false := by
    by_contra hne
    have htaken := h.taken j (by simpa using hne)
    rw [hc.free] at htaken
    cases htaken
  have hne : ∀ i, s.mem.taken .user i = true → i ≠ j := by
    rintro i hi rfl
    rw [hc.free] at hi
    cases hi
  have hrest : ∀ i, i ≠ j → ∀ r < pgSize,
      s'.mem.phys (s₁.mem.frameAt .user i + r) = s.mem.phys (s₁.mem.frameAt .user i + r) := by
    intro i hi r hr
    rw [← h.frameAt]
    exact hc.rest i hi r hr
  constructor
  case owns => exact hc.owns
  case same => exact h.same.trans hc.same
  case layout => exact hc.layout
  case frames => exact hc.frames.trans h.frames
  case pte => exact hc.pte.trans h.pte
  case view => exact fun u hu hqb => (hc.view u hu hqb).trans (h.view u hu hqb)
  case running => exact hcr3.trans (h.addrV2p _)
  case dirs => exact fun d hd => (hc.dirs d (by rw [h.addrV2p]; exact hd)).trans (h.dirs d hd)
  case tabled => exact hc.tabled
  case taken => exact fun i hi => (hc.taken i).mpr (.inr (h.taken i hi))
  case old =>
    intro i hi r hr
    rw [hrest i (hne i (h.taken i hi)) r hr]
    exact h.old i hi r hr
  case all =>
    intro page f hf hlt
    by_cases hpage : page = firstUserPage + n
    · rw [hpage, hc.new]
      exact some_ne_none _
    · rw [hc.others page hpage]
      exact h.all page f hf (by omega)
  case only =>
    intro page g hg
    by_cases hpage : page = firstUserPage + n
    · rw [hpage, hc.new] at hg
      cases hg
      refine ⟨_, hpage ▸ hfp, fun r hr => ?_, j, hfresh, (hc.taken j).mpr (.inl rfl), h.frameAt j⟩
      rw [hc.bytes r hr]
      exact h.old jf hjftaken r hr
    · rw [hc.others page hpage] at hg
      obtain ⟨f, hf', hbytes, i, hi, htaken, rfl⟩ := h.only page g hg
      refine ⟨f, hf', fun r hr => ?_, i, hi, (hc.taken i).mpr (.inr htaken), rfl⟩
      rw [hrest i (hne i htaken) r hr]
      exact hbytes r hr
  case inj =>
    -- a page the child had before is in a frame that was taken before
    refine unique_of_fresh (firstUserPage + n) h.inj (fun p g hp hg => by rwa [hc.others p hp] at hg)
      fun p g hnew hg => ?_
    obtain ⟨-, -, -, i, -, htaken, rfl⟩ := h.only p g hg
    rw [hc.new, Option.some.injEq, h.frameAt] at hnew
    simp only [Memory.frameAt, pgSize] at hnew
    exact absurd (by omega) (hne i htaken)

lemma CopyInv.of_copyBodyStack3 (hready : Ready s₁ parent child Q qb) (hn : n ≤ 8 * userBitmapLen)
    (hcopy : s₁.copyBodyStack3 parent child (qb * pgSize) n = some s) :
    CopyInv s₁ parent child Q qb n s := by
  induction n generalizing s with
  | zero =>
    cases hcopy
    exact .start hready
  | succ n ih =>
    obtain ⟨s2, hprev, hstep⟩ := bind_eq_some_iff.mp hcopy
    have hinv := ih (by omega) hprev
    split_ifs at hstep with hbit
    · exact hinv.copy hready hstep
    · cases hstep
      exact hinv.skip hready (by omega) (by simpa using hbit)

/-! ### Before the loop -/

/-- The pages `K` of the kernel and all of the users' are as they were. -/
structure Spares (K : Set Nat) (m m' : Memory) : Prop where
  user : Memory.KeepsUser m m'
  pte : ∀ p ∈ K, m'.pte p = m.pte p
  view : ∀ u, u / pgSize ∈ K → m'.view u = m.view u

lemma Spares.trans (h : Spares K m1 m2) (h' : Spares K m2 m3) :
    Spares K m1 m3 where
  user := h.user.trans h'.user
  pte := fun p hp => (h'.pte p hp).trans (h.pte p hp)
  view := fun u hu => (h'.view u hu).trans (h.view u hu)

lemma Spares.mono {K' : Set Nat} {m : Memory} (h : Spares K' m m') (hsub : K ⊆ K') :
    Spares K m m' :=
  ⟨h.user, fun p hp => h.pte p (hsub hp), fun u hu => h.view u (hsub hu)⟩

lemma Spares.addrV2p {m : Memory} (h : Spares K m m')
    (hv : v / pgSize ∈ K) : m'.addrV2p v = m.addrV2p v := by
  simp only [Memory.addrV2p, Memory.translate, h.pte _ hv]

/-- `get_kernel_pages` leaves the owned pages alone. -/
lemma getKernelPages_spec (howns : s.mem.Owns P) (hcnt : 0 < cnt)
    (hget : s.getKernelPages cnt = (some v, s')) :
    ∃ q, v = q * pgSize ∧ 0xc0100 ≤ q ∧ (∀ p ∈ Set.Ico q (q + cnt), p ∉ P) ∧
      s'.mem.Owns (P ∪ Set.Ico q (q + cnt)) ∧ Spares P s.mem s'.mem ∧
      s' = { s with mem := s'.mem } := by
  obtain ⟨hv, rfl⟩ := Prod.mk.inj hget
  obtain ⟨q, hq, hlow, hnew, howns', huser, hpte, hview⟩ :=
    howns.getKernelPages hcnt (Prod.ext hv rfl)
  exact ⟨q, hq, hlow, hnew, howns', ⟨huser, hpte, hview⟩, rfl⟩

/-- `memcpy` to pages of the kernel leaves the other ones alone. -/
lemma memcpy_spec (src : Nat) (howns : s.mem.Owns P) (hpages : Set.Ico q (q + cnt) ⊆ P) :
    (s.memcpy (q * pgSize) src (cnt * pgSize)).mem.Owns P ∧
      (∀ K ⊆ P, (∀ p ∈ Set.Ico q (q + cnt), p ∉ K) →
        Spares K s.mem (s.memcpy (q * pgSize) src (cnt * pgSize)).mem) ∧
      ∀ r < cnt * pgSize, (s.memcpy (q * pgSize) src (cnt * pgSize)).mem.view (q * pgSize + r) =
        s.mem.view (src + r) := by
  have hpage : ∀ r < cnt * pgSize, (q * pgSize + r) / pgSize ∈ Set.Ico q (q + cnt) := by
    intro r hr
    simp only [pgSize] at hr ⊢
    simp only [Set.mem_Ico]
    omega
  have hin : ∀ r < cnt * pgSize, Memory.Usable P (q * pgSize + r) := fun r hr =>
    .inl (hpages (hpage r hr))
  obtain ⟨howns', huser, hview⟩ := howns.store (fun r => s.mem.view (src + r)) hin
  refine ⟨howns', fun K hK hout => ⟨huser, fun _ _ => rfl, fun u hu => ?_⟩, fun r hr => ?_⟩
  · refine (hview u (.inl (hK hu))).trans (if_neg fun hr => ?_)
    have hin' := hpage (u - q * pgSize) (by omega)
    rw [show q * pgSize + (u - q * pgSize) = u by omega] at hin'
    exact hout _ hin' hu
  · refine (hview _ (hin r hr)).trans ?_
    rw [if_pos (by omega), Nat.add_sub_cancel_left]

/-- The number of pages of an address bitmap. -/
def bitmapPages : Nat := divRoundUp userBitmapLen pgSize

/-- The child's PCB and bitmap. -/
lemma copyPcbVaddrbitmapStack0_spec (howns : s.mem.Owns P) (hq1 : q1 ∈ P)
    (h : s.copyPcbVaddrbitmapStack0 parent (q1 * pgSize) = some (some child, s')) :
    ∃ q, child.bits = q * pgSize ∧ (∀ p ∈ Set.Ico q (q + bitmapPages), p ∉ P) ∧
      s'.mem.Owns (P ∪ Set.Ico q (q + bitmapPages)) ∧
      (∀ K ⊆ P, q1 ∉ K → Spares K s.mem s'.mem ∧
        ((∀ k < bitmapPages * pgSize, (parent.bits + k) / pgSize ∈ K) →
          ∀ k < bitmapPages * pgSize, s'.mem.view (child.bits + k) = s.mem.view (parent.bits + k))) ∧
      s'.dirs = s.dirs ∧ s'.cr3 = s.cr3 := by
  obtain ⟨⟨pid, tasks⟩, -, heq⟩ := map_eq_some_iff.mp h
  have hsingle : Set.Ico q1 (q1 + 1) ⊆ P := by
    intro p hp
    simp only [Set.mem_Ico] at hp
    obtain rfl : p = q1 := by omega
    exact hq1
  obtain ⟨howns1, hspares1, -⟩ := memcpy_spec parent.pcb howns hsingle
  have hone : ∀ K ⊆ P, q1 ∉ K → Spares K s.mem (s.memcpy (q1 * pgSize) parent.pcb pgSize).mem := by
    refine fun K hK hout => hspares1 K hK fun p hp hpK => ?_
    simp only [Set.mem_Ico] at hp
    obtain rfl : p = q1 := by omega
    exact hout hpK
  dsimp only at heq
  split at heq
  · cases heq
  · next bits s2 hget =>
    obtain ⟨hchild, rfl⟩ := Prod.mk.inj heq
    cases hchild
    have howns1' :
        { s.memcpy (q1 * pgSize) parent.pcb pgSize with tasks := tasks }.mem.Owns P := howns1
    obtain ⟨q, rfl, -, hnew, howns2, hspares2, hs2⟩ := getKernelPages_spec howns1' (by decide) hget
    obtain ⟨howns3, hspares3, hbytes⟩ :=
      memcpy_spec parent.bits howns2 (Set.subset_union_right : Set.Ico q (q + bitmapPages) ⊆ _)
    refine ⟨q, rfl, hnew, howns3, fun K hK hout => ⟨?_, fun hbits k hk => ?_⟩, ?_, ?_⟩
    · refine ((hone K hK hout).trans (hspares2.mono hK)).trans ?_
      exact hspares3 K (hK.trans Set.subset_union_left) fun p hp hpK => hnew p hp (hK hpK)
    · rw [← ((hone K hK hout).trans (hspares2.mono hK)).view _ (hbits k hk)]
      exact hbytes k hk
    · rw [hs2]; rfl
    · rw [hs2]; rfl

lemma createPageDir_spec (howns : s.mem.Owns P) (h : s.createPageDir = (some pgdir, s')) :
    ∃ q, pgdir = q * pgSize ∧ q ∉ P ∧ s'.mem.Owns (insert q P) ∧ Spares P s.mem s'.mem ∧
      s'.dirs = update s.dirs (s'.mem.addrV2p pgdir) .empty ∧ s'.cr3 = s.cr3 := by
  simp only [createPageDir] at h
  split at h
  · cases h
  · next v s₁ hget =>
    obtain ⟨hv, rfl⟩ := Prod.mk.inj h
    cases hv
    obtain ⟨q, rfl, -, hnew, howns1, hspares, hs1⟩ := getKernelPages_spec howns (by decide) hget
    refine ⟨q, rfl, hnew q ⟨le_rfl, by omega⟩, ?_, hspares, by rw [hs1], by rw [hs1]⟩
    have hset : P ∪ Set.Ico q (q + 1) = insert q P := by
      ext p
      simp only [Set.mem_union, Set.mem_Ico, Set.mem_insert_iff]
      rw [or_comm]
      refine or_congr_left ?_
      omega
    rw [hset] at howns1
    exact howns1

/-- The parent is a process as before when its pages have been left alone. -/
lemma IsParent.of_spares (h : s.IsParent parent P) (hspares : Spares P s.mem s₁.mem)
    (howns : s₁.mem.Owns Q) (hsub : P ⊆ Q) (hcr3 : s₁.cr3 = s.cr3)
    (hdir : s₁.dirs (s.mem.addrV2p parent.pgdir) = s.dirs (s.mem.addrV2p parent.pgdir)) :
    s₁.IsParent parent Q ∧ s₁.spaceOf parent = s.spaceOf parent := by
  have haddr := hspares.addrV2p h.pgdir
  have hspace : s₁.spaceOf parent = s.spaceOf parent := by rw [spaceOf, haddr, hdir]; rfl
  have hpages : userBitmapLen ≤ divRoundUp userBitmapLen pgSize * pgSize := by decide
  refine ⟨?_, hspace⟩
  constructor
  case owns => exact howns
  case layout => exact hspares.user.layout_of h.layout
  case running => rw [hcr3, haddr, h.running]
  case pgdir => exact hsub h.pgdir
  case bits => exact fun k hk => hsub (h.bits k hk)
  case bitmap =>
    intro i hi
    have hview := hspares.view _ (h.bits (i / 8) (by omega))
    have htest : (s₁.vaddrBitmap parent).bitmapScanTest i = (s.vaddrBitmap parent).bitmapScanTest i := by
      simp only [Bitmap.bitmapScanTest, vaddrBitmap, hview]
    rw [htest, hspace]
    exact h.bitmap i hi
  case frames =>
    intro page f hf
    rw [hspace] at hf
    obtain ⟨hlow, hhigh, j, hj, htaken, rfl⟩ := h.frames page f hf
    refine ⟨hlow, hhigh, j, ?_, ?_, ?_⟩
    · rw [hspares.user.frames]; exact hj
    · rw [hspares.user.taken]; exact htaken
    · exact (hspares.user.frameAt j).symm

/-- The stages of a fork that succeeds. -/
lemma sysFork_eq_some (h : s.sysFork parent = some (some child, s')) :
    ∃ pcb sA bufPage sB c sC pgdir sD sE, s.getKernelPages 1 = (some pcb, sA) ∧
      sA.getKernelPages 1 = (some bufPage, sB) ∧
      sB.copyPcbVaddrbitmapStack0 parent pcb = some (some c, sC) ∧
      sC.createPageDir = (some pgdir, sD) ∧ child = { c with pgdir := pgdir } ∧
      sD.copyBodyStack3 parent child bufPage (8 * userBitmapLen) = some sE ∧
      s' = { sE with mem := sE.mem.mfreePage bufPage 1 } := by
  simp only [sysFork] at h
  split at h
  · cases h
  · next pcb sA hA =>
    split at h
    · cases h
    · next bufPage sB hB =>
      obtain ⟨⟨c, sC⟩, hC, h⟩ := bind_eq_some_iff.mp h
      dsimp only at h
      split at h
      · cases h
      · next c =>
        split at h
        · cases h
        · next pgdir sD hD =>
          obtain ⟨sE, hE, heq⟩ := map_eq_some_iff.mp h
          obtain ⟨hchild, rfl⟩ := Prod.mk.inj heq
          cases hchild
          exact ⟨pcb, sA, bufPage, sB, c, sC, pgdir, sD, sE, hA, hB, hC, hD, rfl, hE, rfl⟩

/-- What the stages before the loop leave: the child has a bitmap with the bytes of the parent's, in
pages of its own. -/
structure Prepared (s : Cpu) (parent : Proc) (P : Set Nat) (s₁ : Cpu) (child : Proc) (Q : Set Nat)
    (qb : Nat) : Prop where
  ready : Ready s₁ parent child Q qb
  spares : Spares P s.mem s₁.mem
  space : s₁.spaceOf parent = s.spaceOf parent
  sub : P ⊆ Q
  buf_notMem : qb ∉ P
  buf_low : 0xc0100 ≤ qb
  pgdir : child.pgdir / pgSize ∈ Q ∧ child.pgdir / pgSize ≠ qb
  bits : ∀ k < userBitmapLen, (child.bits + k) / pgSize ∈ Q ∧ (child.bits + k) / pgSize ≠ qb ∧
    (child.bits + k) / pgSize ∉ P
  copied : ∀ k < userBitmapLen, s₁.mem.view (child.bits + k) = s.mem.view (parent.bits + k)

lemma prepared_of_stages (hp : s.IsParent parent P) (hA : s.getKernelPages 1 = (some pcb, sA))
    (hB : sA.getKernelPages 1 = (some bufPage, sB))
    (hC : sB.copyPcbVaddrbitmapStack0 parent pcb = some (some c, sC))
    (hD : sC.createPageDir = (some pgdir, sD)) :
    ∃ Q qb, bufPage = qb * pgSize ∧ Prepared s parent P sD { c with pgdir := pgdir } Q qb := by
  obtain ⟨q1, rfl, -, hnew1, howns1, hspares1, hsA⟩ := getKernelPages_spec hp.owns one_pos hA
  obtain ⟨qb, rfl, hlow, hnew2, howns2, hspares2, hsB⟩ := getKernelPages_spec howns1 one_pos hB
  set P1 := P ∪ Set.Ico q1 (q1 + 1) with hP1
  set P2 := P1 ∪ Set.Ico qb (qb + 1) with hP2
  have hP : P ⊆ P2 := Set.subset_union_left.trans Set.subset_union_left
  have hq1 : q1 ∈ P2 := .inl (.inr ⟨le_rfl, by omega⟩)
  have hq₁P : q1 ∉ P := hnew1 q1 ⟨le_rfl, by omega⟩
  have hqb : qb ∈ P2 := .inr ⟨le_rfl, by omega⟩
  have hqbP : qb ∉ P := fun hmem => hnew2 qb ⟨le_rfl, by omega⟩ (.inl hmem)
  obtain ⟨q3, hbits, hnew3, howns3, hC', hdirsC, hcr3C⟩ := copyPcbVaddrbitmapStack0_spec howns2 hq1 hC
  obtain ⟨hspares3, hbytes⟩ := hC' P hP hq₁P
  obtain ⟨q4, rfl, hnew4, howns4, hspares4, hdirs, hcr3⟩ := createPageDir_spec howns3 hD
  set P3 := P2 ∪ Set.Ico q3 (q3 + bitmapPages) with hP3
  have hspares12 : Spares P s.mem sB.mem := hspares1.trans (hspares2.mono Set.subset_union_left)
  have hspares : Spares P s.mem sD.mem :=
    (hspares12.trans hspares3).trans (hspares4.mono (hP.trans Set.subset_union_left))
  have hsub : P ⊆ insert q4 P3 := (hP.trans Set.subset_union_left).trans (Set.subset_insert _ _)
  have hdiv : q4 * pgSize / pgSize = q4 := Nat.mul_div_cancel _ (by decide)
  have hdirsD : sD.dirs = update s.dirs (sD.mem.addrV2p (q4 * pgSize)) .empty := by
    rw [hdirs, hdirsC, hsB, hsA]
  -- the new directory is in another frame than the parent's
  have hne : sD.mem.addrV2p (q4 * pgSize) ≠ sD.mem.addrV2p parent.pgdir := by
    intro heq
    have hsame := howns4.addrV2p_inj (.inl (by rw [hdiv]; exact .inl rfl))
      (.inl (hsub hp.pgdir)) heq
    rw [← hdiv, hsame] at hnew4
    exact hnew4 (.inl (hP hp.pgdir))
  have hcr3D : sD.cr3 = s.cr3 := by rw [hcr3, hcr3C, hsB, hsA]
  obtain ⟨hparent, hspace⟩ := hp.of_spares hspares howns4 hsub hcr3D (by
    rw [hdirsD, ← hspares.addrV2p hp.pgdir, update_of_ne hne.symm])
  have hlen : userBitmapLen ≤ bitmapPages * pgSize := by decide
  -- the pages of the child's bitmap
  have hpage : ∀ k < userBitmapLen, (c.bits + k) / pgSize ∈ Set.Ico q3 (q3 + bitmapPages) := by
    intro k hk
    rw [hbits]
    have hk' : k < bitmapPages * pgSize := by omega
    simp only [pgSize] at hk' ⊢
    simp only [Set.mem_Ico]
    omega
  refine ⟨insert q4 P3, qb, rfl, ?_⟩
  constructor
  case ready =>
    refine ⟨hparent, .inr (.inl hqb), fun k hk heq => ?_, hne, ?_⟩
    · exact hqbP (heq ▸ hp.bits k (lt_of_lt_of_le hk hlen))
    · rw [spaceOf, hdirsD, update_self]
  case spares => exact hspares
  case space => exact hspace
  case sub => exact hsub
  case buf_notMem => exact hqbP
  case buf_low => exact hlow
  case pgdir =>
    simp only [hdiv]
    exact ⟨.inl rfl, fun heq => hnew4 (.inl (heq ▸ hqb))⟩
  case bits =>
    intro k hk
    have hnot := hnew3 _ (hpage k hk)
    exact ⟨.inr (.inr (hpage k hk)), fun heq => hnot (heq ▸ hqb), fun hmem => hnot (hP hmem)⟩
  case copied =>
    intro k hk
    have hk' : k < bitmapPages * pgSize := by omega
    rw [hspares4.view _ (.inr (hpage k hk)), hbytes hp.bits k hk']
    exact hspares12.view _ (hp.bits k hk')

/-! ### The copy -/

/-- The child's address space is a copy of the parent's, which is as it was. -/
structure SpaceCopied (s : Cpu) (parent : Proc) (s' : Cpu) (child : Proc) : Prop where
  copied : ∀ page f, (s.spaceOf parent).pte page = some f →
    ∃ g, (s'.spaceOf child).pte page = some g ∧ ∀ r < pgSize, s'.mem.phys (g + r) = s.mem.phys (f + r)
  apart : ∀ page g, (s'.spaceOf child).pte page = some g →
    ∀ page' f, (s.spaceOf parent).pte page' = some f → g ≠ f
  distinct : ∀ p q g, (s'.spaceOf child).pte p = some g → (s'.spaceOf child).pte q = some g → p = q
  only : ∀ page, (s.spaceOf parent).pte page = none → (s'.spaceOf child).pte page = none
  parent_space : s'.spaceOf parent = s.spaceOf parent
  parent_bytes : ∀ page f, (s.spaceOf parent).pte page = some f →
    ∀ r < pgSize, s'.mem.phys (f + r) = s.mem.phys (f + r)
  bitmap : ∀ k < userBitmapLen,
    (s'.vaddrBitmap child).bits k = (s.vaddrBitmap parent).bits k ∧
      (s'.vaddrBitmap parent).bits k = (s.vaddrBitmap parent).bits k
  separate : ∀ k l, k < userBitmapLen → l < userBitmapLen →
    s'.mem.addrV2p (child.bits + k) ≠ s'.mem.addrV2p (parent.bits + l)

/-- A fork that succeeds copies the address space of the parent. -/
theorem space_copied_of_sysFork {s s' : Cpu} {parent child : Proc} {P : Set Nat}
    (hp : s.IsParent parent P) (hfork : s.sysFork parent = some (some child, s')) :
    SpaceCopied s parent s' child := by
  obtain ⟨pcb, sA, bufPage, sB, c, sC, pgdir, sD, sE, hA, hB, hC, hD, rfl, hE, rfl⟩ :=
    sysFork_eq_some hfork
  obtain ⟨Q, qb, rfl, hprep⟩ := prepared_of_stages hp hA hB hC hD
  set child : Proc := { c with pgdir := pgdir } with hchild
  have hinv := CopyInv.of_copyBodyStack3 hprep.ready le_rfl hE
  -- the buffer is given back; all other pages stay
  have hset : Q \ {qb} ∪ Set.Ico qb (qb + 1) = Q := by
    ext p
    simp only [Set.mem_union, Set.mem_sdiff, Set.mem_singleton_iff, Set.mem_Ico]
    constructor
    · rintro (hp | hp)
      · exact hp.1
      · obtain rfl : p = qb := by omega
        exact hprep.ready.buf
    · intro hp
      by_cases hpq : p = qb
      · exact .inr (by omega)
      · exact .inl ⟨hp, hpq⟩
  have hownsE : sE.mem.Owns (Q \ {qb} ∪ Set.Ico qb (qb + 1)) := by rw [hset]; exact hinv.owns
  obtain ⟨howns', hkeep⟩ := hownsE.mfreePage (by
    rintro p hp ⟨-, hne⟩
    simp only [Set.mem_Ico] at hp
    exact hne (by simp only [Set.mem_singleton_iff]; omega)) hprep.buf_low
  have haddr : ∀ v, v / pgSize ∈ Q → v / pgSize ≠ qb →
      (sE.mem.mfreePage (qb * pgSize) 1).addrV2p v = sD.mem.addrV2p v := fun v hv hne => by
    rw [← hinv.addrV2p]
    simp only [Memory.addrV2p, Memory.translate, hkeep.pte _ (.inl ⟨hv, hne⟩)]
  have hview : ∀ v, v / pgSize ∈ Q → v / pgSize ≠ qb →
      (sE.mem.mfreePage (qb * pgSize) 1).view v = sD.mem.view v := fun v hv hne => by
    rw [← hinv.view v hv hne]
    simp only [Memory.view, Memory.addrV2p, Memory.translate, hkeep.phys, hkeep.pte _ (.inl ⟨hv, hne⟩)]
  have hpgdir : parent.pgdir / pgSize ≠ qb := fun heq => hprep.buf_notMem (heq ▸ hp.pgdir)
  have hbits : ∀ k < userBitmapLen, (parent.bits + k) / pgSize ∈ P ∧ (parent.bits + k) / pgSize ≠ qb :=
    fun k hk => ⟨hp.bits k (lt_of_lt_of_le hk (by decide)), hprep.ready.bits k hk⟩
  set s' : Cpu := { sE with mem := sE.mem.mfreePage (qb * pgSize) 1 } with hs'
  have hchildSpace : s'.spaceOf child = sE.spaceOf child := by
    rw [spaceOf, spaceOf, hinv.addrV2p]
    exact congrArg sE.dirs (haddr _ hprep.pgdir.1 hprep.pgdir.2)
  have hparentSpace : s'.spaceOf parent = s.spaceOf parent := by
    rw [← hprep.space, spaceOf, spaceOf, ← hinv.dirs _ hprep.ready.dirs_ne.symm]
    exact congrArg sE.dirs (haddr _ (hprep.sub hp.pgdir) hpgdir)
  -- the frames of the parent hold what they held when the fork began
  have hstart : ∀ j r, sD.mem.phys (s.mem.frameAt .user j + r) = s.mem.phys (s.mem.frameAt .user j + r) :=
    fun j r => hprep.spares.user.phys _ (by simp only [Memory.frameAt, Memory.pool]; omega)
  constructor
  case copied =>
    intro page f hf
    obtain ⟨-, hhigh, j, -, -, rfl⟩ := hp.frames page f hf
    have hlast : firstUserPage + 8 * userBitmapLen = kernelPage := by decide
    obtain ⟨g, hg⟩ := Option.ne_none_iff_exists'.mp
      (hinv.all page _ (by rw [hprep.space]; exact hf) (by omega))
    obtain ⟨f', hf', hbytes, -⟩ := hinv.only page g hg
    rw [hprep.space, hf] at hf'
    cases hf'
    refine ⟨g, by rw [hchildSpace, hg], fun r hr => ?_⟩
    exact ((congrFun hkeep.phys _).trans (hbytes r hr)).trans (hstart j r)
  case apart =>
    rintro page g hg page' f hf rfl
    rw [hchildSpace] at hg
    obtain ⟨-, -, -, j, hfree, -, hj⟩ := hinv.only page g hg
    obtain ⟨-, -, i, -, htaken, hi⟩ := hp.frames page' g hf
    rw [hprep.spares.user.frameAt] at hj
    have hij : i = j := by
      rw [hi] at hj
      simp only [Memory.frameAt, pgSize] at hj
      omega
    rw [hij, ← hprep.spares.user.taken, hfree] at htaken
    cases htaken
  case distinct =>
    rw [hchildSpace]
    exact hinv.inj
  case only =>
    intro page hnone
    rw [hchildSpace]
    by_contra hne
    obtain ⟨g, hg⟩ := Option.ne_none_iff_exists'.mp hne
    obtain ⟨f, hf, -⟩ := hinv.only page g hg
    rw [hprep.space, hnone] at hf
    cases hf
  case parent_space => exact hparentSpace
  case parent_bytes =>
    intro page f hf r hr
    obtain ⟨-, -, j, -, htaken, rfl⟩ := hp.frames page f hf
    have hold := hinv.old j (by rw [hprep.spares.user.taken]; exact htaken) r hr
    rw [hprep.spares.user.frameAt] at hold
    exact ((congrFun hkeep.phys _).trans hold).trans (hstart j r)
  case bitmap =>
    intro k hk
    obtain ⟨hin, hne, -⟩ := hprep.bits k hk
    refine ⟨(hview _ hin hne).trans (hprep.copied k hk), ?_⟩
    exact (hview _ (hprep.sub (hbits k hk).1) (hbits k hk).2).trans (hprep.spares.view _ (hbits k hk).1)
  case separate =>
    intro k l hk hl heq
    obtain ⟨hin, hne, hnot⟩ := hprep.bits k hk
    obtain ⟨hinl, hnel⟩ := hbits l hl
    have hsame := howns'.addrV2p_inj (.inl ⟨hin, hne⟩) (.inl ⟨hprep.sub hinl, hnel⟩) heq
    exact hnot (hsame ▸ hinl)

/-! ### A fork of a process with one page -/

/-- A machine with 32 MB. The kernel has 25 pages: a PCB, a page directory and a bitmap whose last
bit is set. A page table and the page of a stack are taken too; the stack holds some bytes. -/
def stackMem : Memory :=
  let m := memPoolInit 0x2000000 (fun _ => ⟨0, false⟩) Bytes.zero Bytes.zero
  { kernelPool := { m.kernelPool with poolBitmap :=
      ⟨480, fun k => if k < 3 then 0xff else if k = 3 then 3 else 0⟩ }
    userPool := { m.userPool with poolBitmap := ⟨480, fun k => if k = 0 then 1 else 0⟩ }
    kernelVaddr := ⟨480, fun k => if k < 3 then 0xff else if k = 3 then 1 else 0⟩
    pte := fun p =>
      if p < 0xc0100 then ⟨(p - 0xc0000) * pgSize, true⟩
      else ⟨0x200000 + (p - 0xc0100) * pgSize, true⟩
    phys := fun a =>
      if a < 0x1100000 then (if a = 0x202000 + 94198 then 0x80 else 0) else UInt8.ofNat a }

/-- The process whose pages these are. -/
def stackProc : Proc := ⟨0xc0100000, 0xc0101000, 0xc0102000, 3⟩

/-- The process is running. -/
def stackCpu : Cpu where
  mem := stackMem
  tasks := .boot 0 1 fun _ => 1
  dirs := fun d =>
    if d = 0x201000 then
      ⟨fun i => if i = 767 then some 0x219000 else none,
        fun p => if p = 0xbffff then some 0x1100000 else none⟩
    else .empty
  cr3 := 0x201000

lemma bitmapScanTest_stackCpu (hi : i < 8 * userBitmapLen) :
    (stackCpu.vaddrBitmap stackProc).bitmapScanTest i = decide (i = 753591) := by
  have hlen : userBitmapLen = 94199 := by decide
  have haddr : stackMem.addrV2p (0xc0102000 + i / 8) = 0x202000 + i / 8 := by
    have hpte : stackMem.pte ((0xc0102000 + i / 8) / pgSize) =
        ⟨0x200000 + ((0xc0102000 + i / 8) / pgSize - 0xc0100) * pgSize, true⟩ :=
      if_neg (by simp only [pgSize]; omega)
    rw [Memory.addrV2p, Memory.translate, hpte]
    simp only [pgSize]
    omega
  have hbyte : stackMem.view (0xc0102000 + i / 8) = if i / 8 = 94198 then 0x80 else 0 := by
    rw [Memory.view, haddr]
    refine (if_pos (by omega)).trans ?_
    simp only [Nat.add_left_cancel_iff]
  show (stackMem.view (0xc0102000 + i / 8)).toNat.testBit (i % 8) = _
  rw [hbyte]
  split_ifs with hlast
  · have hbit : ∀ r < 8, (0x80 : UInt8).toNat.testBit r = decide (r = 7) := by decide
    rw [hbit _ (Nat.mod_lt _ (by omega))]
    exact decide_eq_decide.mpr (by omega)
  · have hne : i ≠ 753591 := by omega
    simp [hne]

lemma isParent_stackProc : stackCpu.IsParent stackProc (Set.Ico 0xc0100 0xc0119) := by
  have htaken : ∀ i < 25, stackMem.kernelPool.poolBitmap.bitmapScanTest i = true ∧
      stackMem.kernelVaddr.bitmapScanTest i = true := by decide
  have hframe : ∀ p ∈ Set.Ico 0xc0100 0xc0119, stackMem.HasFrame p (p - 0xc0100) := by
    intro p hp
    simp only [Set.mem_Ico] at hp
    refine ⟨?_, (htaken _ (by omega)).1, ?_⟩
    · have hlen : stackMem.kernelPool.poolBitmap.btmpBytesLen = 480 := rfl
      omega
    · exact if_neg (by omega)
  have hspace : stackCpu.spaceOf stackProc =
      ⟨fun i => if i = 767 then some 0x219000 else none,
        fun p => if p = 0xbffff then some 0x1100000 else none⟩ := by
    rfl
  constructor
  case owns =>
    constructor
    case pools => constructor <;> decide +kernel
    case low => exact fun p h1 h2 => if_pos h2
    case heap =>
      intro p hp
      simp only [Set.mem_Ico] at hp
      omega
    case bit =>
      intro p hp
      simp only [Set.mem_Ico] at hp
      exact (htaken _ (by omega)).2
    case frame => exact fun p hp => ⟨_, hframe p hp⟩
    case inj =>
      intro p hp q hq i hpi hqi
      have h1 := (hframe p hp).unique hpi
      have h2 := (hframe q hq).unique hqi
      simp only [Set.mem_Ico] at hp hq
      omega
  case layout =>
    refine (Memory.layout_memPoolInit 0x2000000 (fun _ => ⟨0, false⟩) Bytes.zero Bytes.zero).congr
      ?_ ?_ ?_ <;> rintro (_ | _) <;> rfl
  case running => decide +kernel
  case pgdir => decide
  case bits =>
    intro k hk
    have hk' : k < 23 * 4096 := hk
    simp only [stackProc, pgSize, Set.mem_Ico]
    omega
  case bitmap =>
    intro i hi
    rw [bitmapScanTest_stackCpu hi, hspace]
    have hpage : firstUserPage + i = 0xbffff ↔ i = 753591 := by
      simp only [firstUserPage, userVaddrStart, pgSize]
      omega
    simp only [← hpage]
    split_ifs with heq <;> simp [heq]
  case frames =>
    intro page f hf
    rw [hspace] at hf
    dsimp only at hf
    split_ifs at hf with hpage
    cases hf
    rw [hpage]
    exact ⟨by decide, by decide, 0, by decide, by decide, by decide⟩

lemma copyBodyStack3_of_last (hclear : ∀ i < n, (s.vaddrBitmap parent).bitmapScanTest i = false)
    (hset : (s.vaddrBitmap parent).bitmapScanTest n = true) :
    s.copyBodyStack3 parent child bufPage (n + 1) =
      s.copyPage parent child bufPage (firstUserPage + n) := by
  have hbelow : ∀ k ≤ n, s.copyBodyStack3 parent child bufPage k = some s := by
    intro k hk
    induction k with
    | zero => rfl
    | succ k ih => simp [copyBodyStack3, ih (by omega), hclear k (by omega)]
  simp [copyBodyStack3, hbelow n le_rfl, hset]

/-- A page that is mapped can be copied while there are frames. -/
lemma isSome_copyPage (parent : Proc) (bufPage : Nat) (hf : (s.dirs s.cr3).pte page = some f)
    (hempty : s.spaceOf child = .empty) (huser : s.mem.userPool.palloc.isSome = true)
    (hkernel : s.mem.kernelPool.palloc.isSome = true) :
    (s.copyPage parent child bufPage page).isSome = true := by
  obtain ⟨⟨frame, pool⟩, hframe⟩ := isSome_iff_exists.mp huser
  obtain ⟨⟨table, kernelPool⟩, htable⟩ := isSome_iff_exists.mp hkernel
  have hget : (s.dirs (s.mem.addrV2p child.pgdir)).getAPage
      (s.mem.store bufPage (fun r => s.mem.phys (f + r)) pgSize) page =
      some (⟨update (fun _ => none) (page / 1024) (some table), fun p =>
        if p = page then some frame else if p / 1024 = page / 1024 then none else none⟩,
        { s.mem.store bufPage (fun r => s.mem.phys (f + r)) pgSize with
          userPool := pool, kernelPool := kernelPool }) := by
    rw [show s.dirs (s.mem.addrV2p child.pgdir) = .empty from hempty]
    simp [AddrSpace.getAPage, AddrSpace.pageTableAdd, AddrSpace.empty, Memory.store, hframe, htable]
  have haddr : (s.mem.store bufPage (fun r => s.mem.phys (f + r)) pgSize).addrV2p child.pgdir =
      s.mem.addrV2p child.pgdir := rfl
  simp [copyPage, readPage, hf, getAPage, pageDirActivate, haddr, hget, writePage]

lemma exists_sysFork_stackProc :
    ∃ child s', stackCpu.sysFork stackProc = some (some child, s') := by
  have hA : (stackCpu.getKernelPages 1).1 = some 0xc0119000 := by decide +kernel
  set sA := (stackCpu.getKernelPages 1).2 with hsA
  have hB : (sA.getKernelPages 1).1 = some 0xc011a000 := by decide +kernel
  set sB := (sA.getKernelPages 1).2 with hsB
  have hC : ((sB.copyPcbVaddrbitmapStack0 stackProc 0xc0119000).bind Prod.fst).isSome = true := by
    decide +kernel
  have hD : (sB.copyPcbVaddrbitmapStack0 stackProc 0xc0119000).map (fun r => r.2.createPageDir.1) =
      some (some 0xc0132000) := by decide +kernel
  have hpools : (sB.copyPcbVaddrbitmapStack0 stackProc 0xc0119000).map (fun r =>
      (r.2.createPageDir.2.mem.userPool.palloc.isSome,
        r.2.createPageDir.2.mem.kernelPool.palloc.isSome)) = some (true, true) := by decide +kernel
  obtain ⟨c, hc⟩ := isSome_iff_exists.mp hC
  obtain ⟨⟨oc, sC⟩, hcopy, rfl⟩ := bind_eq_some_iff.mp hc
  rw [hcopy] at hD hpools
  have hD' : sC.createPageDir.1 = some 0xc0132000 := some.inj hD
  obtain ⟨huser, hkernel⟩ := Prod.mk.inj (some.inj hpools)
  set sD := sC.createPageDir.2 with hsD
  have hA' : stackCpu.getKernelPages 1 = (some 0xc0119000, sA) := Prod.ext hA rfl
  have hB' : sA.getKernelPages 1 = (some 0xc011a000, sB) := Prod.ext hB rfl
  have hD'' : sC.createPageDir = (some 0xc0132000, sD) := Prod.ext hD' rfl
  obtain ⟨Q, qb, hqb, hprep⟩ := prepared_of_stages isParent_stackProc hA' hB' hcopy hD''
  -- the bit of the stack is the last one, and the only one
  have hbit : ∀ i < 8 * userBitmapLen,
      (sD.vaddrBitmap stackProc).bitmapScanTest i = decide (i = 753591) := by
    intro i hi
    rw [Bool.eq_iff_iff, hprep.ready.isParent.bitmap i hi, hprep.space, ← isParent_stackProc.bitmap i hi,
      bitmapScanTest_stackCpu hi]
  have hlen : 8 * userBitmapLen = 753591 + 1 := by decide
  have hloop : sD.copyBodyStack3 stackProc { c with pgdir := 0xc0132000 } 0xc011a000
      (8 * userBitmapLen) = sD.copyPage stackProc { c with pgdir := 0xc0132000 } 0xc011a000
        (firstUserPage + 753591) := by
    rw [hlen]
    refine copyBodyStack3_of_last (fun i hi => ?_) ?_
    · rw [hbit i (by omega)]
      exact decide_eq_false (by omega)
    · rw [hbit _ (by omega)]
      exact decide_eq_true rfl
  have hstack : ((sD.spaceOf stackProc).pte (firstUserPage + 753591)).isSome = true := by
    rw [← hprep.ready.isParent.bitmap _ (by omega), hbit _ (by omega)]
    exact decide_eq_true rfl
  obtain ⟨f, hf⟩ := isSome_iff_exists.mp hstack
  rw [spaceOf, ← hprep.ready.isParent.running] at hf
  obtain ⟨sE, hE⟩ := isSome_iff_exists.mp
    (isSome_copyPage stackProc 0xc011a000 hf hprep.ready.empty huser hkernel)
  refine ⟨{ c with pgdir := 0xc0132000 }, { sE with mem := sE.mem.mfreePage 0xc011a000 1 }, ?_⟩
  simp only [sysFork, hA', hB', hcopy, hD'', hloop, hE, bind_some, map_some]

/-- The child has a copy of the stack. -/
theorem space_copied_stackProc :
    ∃ child s', stackCpu.sysFork stackProc = some (some child, s') ∧
      SpaceCopied stackCpu stackProc s' child := by
  obtain ⟨child, s', hfork⟩ := exists_sysFork_stackProc
  exact ⟨child, s', hfork, space_copied_of_sysFork isParent_stackProc hfork⟩

end Cpu

end SimpleOs
