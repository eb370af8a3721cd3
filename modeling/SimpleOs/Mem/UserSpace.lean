import SimpleOs.Mem.Frames
import SimpleOs.Mem.Lifecycle

/-!
# The address space of a process

The user side of `malloc_page`, `get_a_page` and `mfree_page` in `kernel/memory.c`. The data pages
come from the user pool; the page tables come from the kernel pool, and `page_table_add` does not
look whether it got a frame for one. While there is a frame for every new page table, each page has
a user frame of its own and each directory entry a kernel frame of its own.
-/

namespace SimpleOs

open Base Function Finset

/-- The memory as one process sees it: the pools, the page directory, the page tables by the address
of the frame they are in, and the bitmap of `userprog_vaddr`. -/
structure UserSpace where
  mem : Memory
  pde : Nat → Pte
  table : Nat → Nat → Pte
  vaddrBitmap : Bitmap

/-- The number of the first page a process can use. -/
def firstUserPage : Nat := userVaddrStart / pgSize

/-- The number of the first page of the kernel. -/
def kernelPage : Nat := 0xc0000

namespace UserSpace

/-- What `pte_ptr` of a page points to. -/
def pte (u : UserSpace) (page : Nat) : Pte := u.table (u.pde (page / 1024)).frame (page % 1024)

/-- Write a page table entry. -/
def setPte (u : UserSpace) (page : Nat) (e : Pte) : UserSpace :=
  let frame := (u.pde (page / 1024)).frame
  { u with
    table := update u.table frame (update (u.table frame) (page % 1024) e) }

/-- The second branch of `page_table_add`: a new page table, cleared. When the kernel pool is
empty `palloc` returns 0, and the table is put there. -/
def addTable (u : UserSpace) (pdeIdx : Nat) : UserSpace :=
  let got := (u.mem.palloc .kernel).getD (0, u.mem)
  { u with
    mem := got.2
    pde := update u.pde pdeIdx ⟨got.1, true⟩
    table := update u.table got.1 fun _ => ⟨0, false⟩ }

/-- `page_table_add`. -/
def pageTableAdd (u : UserSpace) (page frame : Nat) : UserSpace :=
  if (u.pde (page / 1024)).present then u.setPte page ⟨frame, true⟩
  else (u.addTable (page / 1024)).setPte page ⟨frame, true⟩

/-- The loop of `malloc_page`. -/
def mapPages : (cnt : Nat) → UserSpace → (page : Nat) → Bool × UserSpace
  | 0, u, _ => (true, u)
  | cnt + 1, u, page =>
    match u.mem.palloc .user with
    | none => (false, u)
    | some (frame, mem) => mapPages cnt ({ u with mem := mem }.pageTableAdd page frame) (page + 1)

/-- `malloc_page(PF_USER, pg_cnt)`, with `vaddr_get`. -/
def mallocPage (u : UserSpace) (pgCnt : Nat) : Option Nat × UserSpace :=
  match u.vaddrBitmap.bitmapScan pgCnt with
  | none => (none, u)
  | some start =>
    match mapPages pgCnt { u with vaddrBitmap := Memory.setRun u.vaddrBitmap start true pgCnt }
        (firstUserPage + start) with
    | (true, u) => (some (userVaddrStart + start * pgSize), u)
    | (false, u) => (none, u)

/-- `get_a_page(PF_USER, vaddr)`. -/
def getAPage (u : UserSpace) (vaddr : Nat) : Option Nat × UserSpace :=
  let bitIdx := (vaddr - userVaddrStart) / pgSize
  let u := { u with vaddrBitmap := u.vaddrBitmap.bitmapSet bitIdx true }
  match u.mem.palloc .user with
  | none => (none, u)
  | some (frame, mem) => (some vaddr, { u with mem := mem }.pageTableAdd (vaddr / pgSize) frame)

/-- One round of the loop of `mfree_page`: `pfree` and `page_table_pte_remove`. -/
def unmapPage (u : UserSpace) (page : Nat) : UserSpace :=
  { u with mem := u.mem.pfree (u.pte page).frame }.setPte page ⟨(u.pte page).frame, false⟩

/-- The loop of `mfree_page`. -/
def unmapPages : (cnt : Nat) → UserSpace → (page : Nat) → UserSpace
  | 0, u, _ => u
  | cnt + 1, u, page => unmapPages cnt (u.unmapPage page) (page + 1)

/-- `mfree_page(PF_USER, vaddr, pg_cnt)`, with `vaddr_remove`. -/
def mfreePage (u : UserSpace) (vaddr pgCnt : Nat) : UserSpace :=
  let u := unmapPages pgCnt u (vaddr / pgSize)
  { u with
    vaddrBitmap := Memory.setRun u.vaddrBitmap ((vaddr - userVaddrStart) / pgSize) false pgCnt }

/-! ### Sound address spaces -/

/-- A page whose directory entry and page table entry are present. -/
def Mapped (u : UserSpace) (page : Nat) : Prop :=
  (u.pde (page / 1024)).present = true ∧ (u.pte page).present = true

/-- The mappings of the user's part: two pages are in two frames; the frame of a page is taken from
the user pool; a page table is in a frame taken from the kernel pool that is no other page table. -/
structure Sound (u : UserSpace) : Prop where
  pages_inj : ∀ p < kernelPage, ∀ q < kernelPage, u.Mapped p → u.Mapped q →
    (u.pte p).frame = (u.pte q).frame → p = q
  pages : ∀ p < kernelPage, u.Mapped p →
    ∃ j < u.mem.frames .user, u.mem.taken .user j = true ∧ (u.pte p).frame = u.mem.frameAt .user j
  tables : ∀ i < kernelPage / 1024, (u.pde i).present = true →
    ∃ j < u.mem.frames .kernel, u.mem.taken .kernel j = true ∧
      (u.pde i).frame = u.mem.frameAt .kernel j
  tables_inj : ∀ i < kernelPage / 1024, ∀ j < kernelPage / 1024, (u.pde i).present = true →
    (u.pde j).present = true → (u.pde i).frame = (u.pde j).frame → i = j

/-- A page of the user's part that is mapped, or one that the process holds: the scan for several
pages can go one bit past the end of the bitmap, to the first page of the kernel. -/
def Live (u : UserSpace) (held : Set Nat) (page : Nat) : Prop :=
  u.Mapped page ∧ (page < kernelPage ∨ page ∈ held)

/-- What is kept between the calls, for the pages `held` that the process has obtained. -/
structure Inv (u : UserSpace) (held : Set Nat) : Prop where
  layout : u.mem.Layout
  len : u.vaddrBitmap.btmpBytesLen = userBitmapLen
  kernel : (u.pde 768).present = true ∧ (u.pde 768).frame < u.mem.kernelPool.phyAddrStart
  tables : ∀ i < 768, (u.pde i).present = true →
    ∃ j < u.mem.frames .kernel, u.mem.taken .kernel j = true ∧
      (u.pde i).frame = u.mem.frameAt .kernel j
  tables_inj : ∀ i ≤ 768, ∀ j ≤ 768, (u.pde i).present = true → (u.pde j).present = true →
    (u.pde i).frame = (u.pde j).frame → i = j
  held_le : ∀ p ∈ held, p ≤ kernelPage
  held_mapped : ∀ p ∈ held, u.Mapped p
  pages : ∀ p, u.Live held p →
    ∃ j < u.mem.frames .user, u.mem.taken .user j = true ∧ (u.pte p).frame = u.mem.frameAt .user j
  pages_inj : ∀ p q, u.Live held p → u.Live held q → (u.pte p).frame = (u.pte q).frame → p = q

variable {u u' : UserSpace} {page p i j frame : Nat} {e : Pte}

lemma Inv.sound (h : u.Inv held) : u.Sound where
  pages_inj := fun p hp q hq hmp hmq => h.pages_inj p q ⟨hmp, .inl hp⟩ ⟨hmq, .inl hq⟩
  pages := fun p hp hmp => h.pages p ⟨hmp, .inl hp⟩
  tables := h.tables
  tables_inj := fun i hi j hj => h.tables_inj i (le_of_lt hi) j (le_of_lt hj)

lemma Inv.mono (h : u.Inv held') (hsub : held ⊆ held') : u.Inv held := { h with
  held_le := fun p hp => h.held_le p (hsub hp)
  held_mapped := fun p hp => h.held_mapped p (hsub hp)
  pages := fun p hp => h.pages p ⟨hp.1, hp.2.imp_right fun hm => hsub hm⟩
  pages_inj := fun p q hp hq =>
    h.pages_inj p q ⟨hp.1, hp.2.imp_right fun hm => hsub hm⟩ ⟨hq.1, hq.2.imp_right fun hm => hsub hm⟩ }

lemma Inv.setBitmap (h : u.Inv held) (hlen : b.btmpBytesLen = userBitmapLen) :
    { u with vaddrBitmap := b }.Inv held :=
  { h with len := hlen }

lemma Inv.take (h : u.Inv held) (pf : PoolFlags) (j : Nat) :
    { u with mem := u.mem.mark pf j true }.Inv held := { h with
  layout := h.layout.mark pf j true
  kernel := ⟨h.kernel.1, by
    have hstart := Memory.phyAddrStart_mark u.mem pf .kernel j true
    simp only [Memory.pool] at hstart
    rw [hstart]
    exact h.kernel.2⟩
  tables := fun i hi hp => by
    obtain ⟨k, hk, htaken, heq⟩ := h.tables i hi hp
    exact ⟨k, by simpa using hk, by simp [htaken], by simpa using heq⟩
  pages := fun p hp => by
    obtain ⟨k, hk, htaken, heq⟩ := h.pages p hp
    exact ⟨k, by simpa using hk, by simp [htaken], heq.trans (Memory.frameAt_mark ..).symm⟩ }

lemma Inv.frame_ne (h : u.Inv held) (hj : j < u.mem.frames .user)
    (hfree : u.mem.taken .user j = false) (hp : u.Live held p) :
    (u.pte p).frame ≠ u.mem.frameAt .user j := by
  intro heq
  obtain ⟨k, hk, htaken, hk'⟩ := h.pages p hp
  obtain ⟨-, rfl⟩ := h.layout.frameAt_inj hk hj (hk'.symm.trans heq)
  rw [hfree] at htaken
  cases htaken

/-! ### Writing an entry -/

lemma pte_setPte (hinj : (u.pde (p / 1024)).frame = (u.pde (page / 1024)).frame →
    p / 1024 = page / 1024) : (u.setPte page e).pte p = if p = page then e else u.pte p := by
  simp only [pte, setPte]
  by_cases hframe : (u.pde (p / 1024)).frame = (u.pde (page / 1024)).frame
  · have hiff : p % 1024 = page % 1024 ↔ p = page := by omega
    rw [hframe, update_self, update_apply]
    simp only [hiff]
  · have hne : p ≠ page := by
      rintro rfl
      exact hframe rfl
    rw [update_of_ne hframe, if_neg hne]

lemma Inv.pte_setPte (h : u.Inv held) (hpage : page ≤ kernelPage)
    (htable : (u.pde (page / 1024)).present = true) (hp : p ≤ kernelPage)
    (hptable : (u.pde (p / 1024)).present = true) :
    (u.setPte page e).pte p = if p = page then e else u.pte p := by
  refine UserSpace.pte_setPte fun hframe => ?_
  simp only [kernelPage] at hpage hp
  exact h.tables_inj _ (by omega) _ (by omega) hptable htable hframe

/-- A page is put in a frame that no other page is in. -/
lemma Inv.setPte (h : u.Inv held) (hpage : page ≤ kernelPage)
    (htable : (u.pde (page / 1024)).present = true) (hj : j < u.mem.frames .user)
    (htaken : u.mem.taken .user j = true) (hframe : frame = u.mem.frameAt .user j)
    (hfresh : ∀ p, u.Live held p → (u.pte p).frame ≠ frame) :
    (u.setPte page ⟨frame, true⟩).Inv (insert page held) := by
  set e : Pte := ⟨frame, true⟩ with he
  have hself : (u.setPte page e).pte page = e := by
    rw [h.pte_setPte hpage htable hpage htable, if_pos rfl]
  -- a page that is live is the new one or was live, with the entry it had
  have hlive : ∀ p, (u.setPte page e).Live (insert page held) p → p ≠ page →
      u.Live held p ∧ (u.setPte page e).pte p = u.pte p := by
    intro p hp hne
    have hle : p ≤ kernelPage :=
      hp.2.elim le_of_lt fun hm => h.held_le p (hm.resolve_left hne)
    have hpte : (u.setPte page e).pte p = u.pte p := by
      rw [h.pte_setPte hpage htable hle hp.1.1, if_neg hne]
    refine ⟨⟨⟨hp.1.1, by rw [← hpte]; exact hp.1.2⟩, hp.2.imp_right fun hm => ?_⟩, hpte⟩
    exact hm.resolve_left hne
  refine { h with held_le := ?_, held_mapped := ?_, pages := ?_, pages_inj := ?_ }
  · rintro p (rfl | hp)
    · exact hpage
    · exact h.held_le p hp
  · intro p hp
    by_cases hne : p = page
    · rw [hne]
      exact ⟨htable, by rw [hself]⟩
    · have hmem : p ∈ held := hp.resolve_left hne
      have hmapped := h.held_mapped p hmem
      refine ⟨hmapped.1, ?_⟩
      rw [h.pte_setPte hpage htable (h.held_le p hmem) hmapped.1, if_neg hne]
      exact hmapped.2
  · intro p hp
    by_cases hne : p = page
    · rw [hne, hself]
      exact ⟨j, hj, htaken, hframe⟩
    · obtain ⟨hlp, hpte⟩ := hlive p hp hne
      rw [hpte]
      exact h.pages p hlp
  · intro p q hp hq heq
    by_cases hnp : p = page <;> by_cases hnq : q = page
    · rw [hnp, hnq]
    · obtain ⟨hlq, hpte⟩ := hlive q hq hnq
      rw [hnp, hself, hpte] at heq
      exact absurd heq.symm (hfresh q hlq)
    · obtain ⟨hlp, hpte⟩ := hlive p hp hnp
      rw [hnq, hself, hpte] at heq
      exact absurd heq (hfresh p hlp)
    · obtain ⟨hlp, hptep⟩ := hlive p hp hnp
      obtain ⟨hlq, hpteq⟩ := hlive q hq hnq
      rw [hptep, hpteq] at heq
      exact h.pages_inj p q hlp hlq heq

/-! ### A new page table -/

/-- The address space with a new, cleared table. -/
def withTable (u : UserSpace) (i frame : Nat) : UserSpace :=
  { u with
    pde := update u.pde i ⟨frame, true⟩
    table := update u.table frame fun _ => ⟨0, false⟩ }

/-- A frame of the kernel pool that is free is no page table. -/
lemma Inv.table_ne (h : u.Inv held) (hk : k < u.mem.frames .kernel)
    (hfree : u.mem.taken .kernel k = false) (hi : i ≤ 768) (hpres : (u.pde i).present = true) :
    (u.pde i).frame ≠ u.mem.frameAt .kernel k := by
  intro hframe
  rcases Nat.lt_or_eq_of_le hi with hlt | rfl
  · obtain ⟨k', hk', htaken, hk''⟩ := h.tables i hlt hpres
    obtain ⟨-, rfl⟩ := h.layout.frameAt_inj hk' hk (hk''.symm.trans hframe)
    rw [hfree] at htaken
    cases htaken
  · -- the table of the first kernel pages lies below the pools
    have hlow := h.kernel.2
    have hrange := (h.layout.frameAt_range hk).1
    simp only [Memory.pool] at hrange
    omega

lemma pde_withTable_of_ne (hne : j ≠ i) : (u.withTable i frame).pde j = u.pde j :=
  update_of_ne hne _ _

@[simp] lemma pde_withTable_self : (u.withTable i frame).pde i = ⟨frame, true⟩ :=
  update_self _ _ _

lemma pte_withTable_of_ne (hne : p / 1024 ≠ i) (hframe : (u.pde (p / 1024)).frame ≠ frame) :
    (u.withTable i frame).pte p = u.pte p := by
  rw [pte, pde_withTable_of_ne hne]
  exact congrFun (update_of_ne hframe _ _) _

section NewTable

variable (h : u.Inv held) (hi : i < 768) (habsent : (u.pde i).present = false)
  (hnew : ∀ i' ≤ 768, (u.pde i').present = true → (u.pde i').frame ≠ frame)
include h hnew in
/-- What is mapped with the new table was mapped before it. -/
lemma Inv.of_live_withTable (hp : (u.withTable i frame).Live held p) :
    u.Live held p ∧ (u.withTable i frame).pte p = u.pte p := by
  have hle : p ≤ kernelPage := hp.2.elim le_of_lt (h.held_le p)
  have hne : p / 1024 ≠ i := by
    rintro rfl
    have hpte := hp.1.2
    simp [pte, withTable] at hpte
  have hpres : (u.pde (p / 1024)).present = true := by
    rw [← pde_withTable_of_ne hne]
    exact hp.1.1
  have hidx : p / 1024 ≤ 768 := by
    simp only [kernelPage] at hle
    omega
  have hpte := pte_withTable_of_ne hne (hnew _ hidx hpres)
  exact ⟨⟨⟨hpres, by rw [← hpte]; exact hp.1.2⟩, hp.2⟩, hpte⟩
include h hi habsent hnew in
/-- A directory entry that was not present gets a table in a kernel frame of its own. -/
lemma Inv.withTable {k : Nat} (hk : k < u.mem.frames .kernel) (htaken : u.mem.taken .kernel k = true)
    (hframe : frame = u.mem.frameAt .kernel k) : (u.withTable i frame).Inv held := by
  refine { h with kernel := ?_, tables := ?_, tables_inj := ?_, held_mapped := ?_, pages := ?_, pages_inj := ?_ }
  · rw [pde_withTable_of_ne (by omega)]
    exact h.kernel
  · intro i' hi' hpres
    by_cases hne : i' = i
    · rw [hne, pde_withTable_self]
      exact ⟨k, hk, htaken, hframe⟩
    · rw [pde_withTable_of_ne hne] at hpres ⊢
      exact h.tables i' hi' hpres
  · intro i₁ h₁ i₂ h₂ hp₁ hp₂ heq
    by_cases hn₁ : i₁ = i <;> by_cases hn₂ : i₂ = i
    · rw [hn₁, hn₂]
    · rw [pde_withTable_of_ne hn₂] at hp₂ heq
      rw [hn₁, pde_withTable_self] at heq
      exact absurd heq.symm (hnew i₂ h₂ hp₂)
    · rw [pde_withTable_of_ne hn₁] at hp₁ heq
      rw [hn₂, pde_withTable_self] at heq
      exact absurd heq (hnew i₁ h₁ hp₁)
    · rw [pde_withTable_of_ne hn₁] at hp₁ heq
      rw [pde_withTable_of_ne hn₂] at hp₂ heq
      exact h.tables_inj i₁ h₁ i₂ h₂ hp₁ hp₂ heq
  · intro p hp
    obtain ⟨hpres, hmapped⟩ := h.held_mapped p hp
    have hidx : p / 1024 ≤ 768 := by
      have hle := h.held_le p hp
      simp only [kernelPage] at hle
      omega
    have hne : p / 1024 ≠ i := by
      rintro rfl
      rw [habsent] at hpres
      cases hpres
    refine ⟨?_, ?_⟩
    · rw [pde_withTable_of_ne hne]
      exact hpres
    · rw [pte_withTable_of_ne hne (hnew _ hidx hpres)]
      exact hmapped
  · intro p hp
    obtain ⟨hlp, hpte⟩ := h.of_live_withTable hnew hp
    rw [hpte]
    exact h.pages p hlp
  · intro p q hp hq heq
    obtain ⟨hlp, hptep⟩ := h.of_live_withTable hnew hp
    obtain ⟨hlq, hpteq⟩ := h.of_live_withTable hnew hq
    rw [hptep, hpteq] at heq
    exact h.pages_inj p q hlp hlq heq

end NewTable

/-- The second branch of `page_table_add`, when there is a frame for the table. -/
lemma Inv.addTable (h : u.Inv held) (hi : i < 768) (habsent : (u.pde i).present = false)
    (hfree : u.mem.palloc .kernel ≠ none) :
    ((u.addTable i).pde i).present = true ∧ (u.addTable i).Inv held ∧
      (∃ k, (u.addTable i).mem = u.mem.mark .kernel k true) ∧
      ∀ p, (u.addTable i).Live held p → u.Live held p ∧ (u.addTable i).pte p = u.pte p := by
  obtain ⟨⟨frame, m'⟩, hpalloc⟩ := Option.ne_none_iff_exists'.mp hfree
  obtain ⟨k, hk, hclear, rfl, rfl⟩ := Memory.palloc_eq_some hpalloc
  have heq : u.addTable i =
      { u with mem := u.mem.mark .kernel k true }.withTable i (u.mem.frameAt .kernel k) := by
    simp only [UserSpace.addTable, hpalloc, Option.getD_some, UserSpace.withTable]
  have hnew : ∀ i' ≤ 768, (u.pde i').present = true →
      (u.pde i').frame ≠ u.mem.frameAt .kernel k := fun i' hi' hp' => h.table_ne hk hclear hi' hp'
  have htake := h.take .kernel k
  rw [heq]
  refine ⟨by rw [pde_withTable_self], ?_, ⟨k, rfl⟩, fun p hp => htake.of_live_withTable hnew hp⟩
  exact htake.withTable hi habsent hnew (by simpa using hk) (by simp) (by simp)

/-! ### The calls -/

/-- `page_table_add` with a frame fresh from the user pool, when there is a frame for the page table
it may need. -/
lemma Inv.pageTableAdd (h : u.Inv held) (hpage : page ≤ kernelPage)
    (hpalloc : u.mem.palloc .user = some (frame, m'))
    (htable : (u.pde (page / 1024)).present = false → u.mem.palloc .kernel ≠ none) :
    ({ u with mem := m' }.pageTableAdd page frame).Inv (insert page held) := by
  obtain ⟨j, hj, hclear, rfl, rfl⟩ := Memory.palloc_eq_some hpalloc
  have hfresh : ∀ p, u.Live held p → (u.pte p).frame ≠ u.mem.frameAt .user j :=
    fun p hp => h.frame_ne hj hclear hp
  have h1 := h.take .user j
  simp only [UserSpace.pageTableAdd]
  split_ifs with hpres
  · exact h1.setPte hpage hpres (by simpa using hj) (by simp) (by simp) hfresh
  · have habsent : (u.pde (page / 1024)).present = false := by simpa using hpres
    have hidx : page / 1024 < 768 := by
      have hne : page / 1024 ≠ 768 := by
        intro heq
        rw [heq, h.kernel.1] at habsent
        cases habsent
      simp only [kernelPage] at hpage
      omega
    have hfree : (u.mem.mark .user j true).palloc .kernel ≠ none := by
      rw [ne_eq, Memory.palloc_mark_eq_none_iff (by simp)]
      exact htable habsent
    obtain ⟨htbl, h2, ⟨k, hmem⟩, hlive⟩ := h1.addTable hidx habsent hfree
    refine h2.setPte hpage htbl (by simpa [hmem] using hj) (by simp [hmem]) (by simp [hmem])
      fun p hp => ?_
    rw [(hlive p hp).2]
    exact hfresh p (hlive p hp).1

/-- One round of the loop of `mfree_page`. -/
lemma Inv.unmapPage (h : u.Inv held) (hpage : page ∈ held) :
    (u.unmapPage page).Inv (held \ {page}) := by
  have hle := h.held_le page hpage
  have hmapped := h.held_mapped page hpage
  obtain ⟨j, hj, -, hframe⟩ := h.pages page ⟨hmapped, .inr hpage⟩
  have hmem : (u.unmapPage page).mem = u.mem.mark .user j false := by
    show u.mem.pfree (u.pte page).frame = _
    rw [hframe, h.layout.pfree_frameAt hj]
  have hpte : ∀ p ≤ kernelPage, (u.pde (p / 1024)).present = true →
      (u.unmapPage page).pte p = if p = page then ⟨(u.pte page).frame, false⟩ else u.pte p :=
    fun p hp hpres => h.pte_setPte hle hmapped.1 hp hpres
  -- the page is not mapped any more, so what is live was live and is another page
  have hlive : ∀ p, (u.unmapPage page).Live (held \ {page}) p →
      p ≠ page ∧ u.Live held p ∧ (u.unmapPage page).pte p = u.pte p := by
    intro p hp
    have hple : p ≤ kernelPage := hp.2.elim le_of_lt fun hm => h.held_le p hm.1
    have hpres : (u.pde (p / 1024)).present = true := hp.1.1
    have heq := hpte p hple hpres
    have hne : p ≠ page := by
      rintro rfl
      have hpresent := hp.1.2
      rw [heq, if_pos rfl] at hpresent
      cases hpresent
    rw [if_neg hne] at heq
    exact ⟨hne, ⟨⟨hpres, by rw [← heq]; exact hp.1.2⟩, hp.2.imp_right fun hm => hm.1⟩, heq⟩
  refine { h with layout := ?_, kernel := ?_, tables := ?_, held_le := ?_, held_mapped := ?_, pages := ?_, pages_inj := ?_ }
  · rw [hmem]
    exact h.layout.mark .user j false
  · rw [hmem]
    exact h.kernel
  · intro i hi hpres
    obtain ⟨k, hk, htaken, heq⟩ := h.tables i hi hpres
    rw [hmem]
    exact ⟨k, hk, htaken, heq⟩
  · exact fun p hp => h.held_le p hp.1
  · intro p hp
    obtain ⟨hpres, hpresent⟩ := h.held_mapped p hp.1
    refine ⟨hpres, ?_⟩
    rw [hpte p (h.held_le p hp.1) hpres, if_neg (by simpa using hp.2)]
    exact hpresent
  · intro p hp
    obtain ⟨hne, hlp, heq⟩ := hlive p hp
    obtain ⟨k, hk, htaken, hk'⟩ := h.pages p hlp
    -- it is in another frame than the page that goes
    have hkj : k ≠ j := by
      rintro rfl
      exact hne (h.pages_inj p page hlp ⟨hmapped, .inr hpage⟩ (hk'.trans hframe.symm))
    rw [heq, hmem]
    exact ⟨k, hk, by simpa [hkj] using htaken, hk'⟩
  · intro p q hp hq heq
    obtain ⟨-, hlp, hptep⟩ := hlive p hp
    obtain ⟨-, hlq, hpteq⟩ := hlive q hq
    rw [hptep, hpteq] at heq
    exact h.pages_inj p q hlp hlq heq

/-! ### Frames for the page tables -/

/-- The directory entries of `cnt` pages that are not present. -/
def missing (u : UserSpace) (first cnt : Nat) : Finset Nat :=
  ((Finset.range cnt).image fun k => (first + k) / 1024).filter fun i => (u.pde i).present = false

lemma mem_missing :
    i ∈ u.missing first cnt ↔ (∃ k < cnt, (first + k) / 1024 = i) ∧ (u.pde i).present = false := by
  simp [missing]

/-- There is a frame for each page table that a call on `cnt` pages has to make. -/
def TablesFit (u : UserSpace) (first cnt : Nat) : Prop :=
  (u.missing first cnt).card ≤ u.mem.freeFrames .kernel

lemma TablesFit.palloc_ne_none (h : u.TablesFit first (cnt + 1))
    (habsent : (u.pde (first / 1024)).present = false) : u.mem.palloc .kernel ≠ none := by
  have hmem : first / 1024 ∈ u.missing first (cnt + 1) :=
    mem_missing.mpr ⟨⟨0, by omega, rfl⟩, habsent⟩
  exact Memory.palloc_ne_none (lt_of_lt_of_le (card_pos.mpr ⟨_, hmem⟩) h)

/-- And when the first page has been mapped there is one for each of the others. -/
lemma TablesFit.pageTableAdd (h : u.TablesFit first (cnt + 1))
    (hpalloc : u.mem.palloc .user = some (frame, m')) :
    ({ u with mem := m' }.pageTableAdd first frame).TablesFit (first + 1) cnt := by
  obtain ⟨j, -, -, -, rfl⟩ := Memory.palloc_eq_some hpalloc
  have hsub : ∀ i, (∃ k < cnt, (first + 1 + k) / 1024 = i) → ∃ k < cnt + 1, (first + k) / 1024 = i := by
    rintro i ⟨k, hk, rfl⟩
    exact ⟨k + 1, by omega, by congr 1; omega⟩
  simp only [TablesFit, UserSpace.pageTableAdd]
  split_ifs with hpres
  · -- no table is made
    refine (card_le_card fun i hi => ?_).trans (h.trans_eq ?_)
    · obtain ⟨hk, habsent⟩ := mem_missing.mp hi
      exact mem_missing.mpr ⟨hsub i hk, habsent⟩
    · exact (Memory.freeFrames_mark_of_ne (by simp)).symm
  · have habsent : (u.pde (first / 1024)).present = false := by simpa using hpres
    have hfree : (u.mem.mark .user j true).palloc .kernel ≠ none := by
      rw [ne_eq, Memory.palloc_mark_eq_none_iff (by simp)]
      exact h.palloc_ne_none habsent
    obtain ⟨⟨tbl, m2⟩, htbl⟩ := Option.ne_none_iff_exists'.mp hfree
    obtain ⟨k, hk, hclear, rfl, rfl⟩ := Memory.palloc_eq_some htbl
    -- one entry fewer is missing and one frame fewer is free
    have hcount := Memory.freeFrames_mark_true hk hclear
    have hsame : (u.mem.mark .user j true).freeFrames .kernel = u.mem.freeFrames .kernel :=
      Memory.freeFrames_mark_of_ne (by simp)
    have hmem : first / 1024 ∈ u.missing first (cnt + 1) :=
      mem_missing.mpr ⟨⟨0, by omega, rfl⟩, habsent⟩
    have herase := card_erase_add_one hmem
    have hle : (({ u with mem := u.mem.mark .user j true }.addTable (first / 1024)).setPte first
        ⟨frame, true⟩ |>.missing (first + 1) cnt).card ≤
          ((u.missing first (cnt + 1)).erase (first / 1024)).card := by
      refine card_le_card fun i hi => ?_
      obtain ⟨hex, hpresent⟩ := mem_missing.mp hi
      simp only [UserSpace.setPte, addTable, update_apply] at hpresent
      split_ifs at hpresent with hne
      exact mem_erase.mpr ⟨hne, mem_missing.mpr ⟨hsub i hex, hpresent⟩⟩
    have hmem' : (({ u with mem := u.mem.mark .user j true }.addTable (first / 1024)).setPte first
        ⟨frame, true⟩).mem = (u.mem.mark .user j true).mark .kernel k true := by
      simp only [UserSpace.setPte, addTable, htbl, Option.getD_some]
    rw [hmem']
    simp only [TablesFit] at h
    omega

/-! ### The loops -/

/-- The pages of a call. -/
def pagesFrom (first cnt : Nat) : Set Nat := { p | first ≤ p ∧ p < first + cnt }

lemma pagesFrom_succ (first cnt : Nat) :
    pagesFrom first (cnt + 1) = insert first (pagesFrom (first + 1) cnt) := by
  ext p
  simp only [pagesFrom, Set.mem_ofPred_eq, Set.mem_insert_iff]
  omega

/-- The loop of `malloc_page`: the pages are obtained when it comes to its end. -/
lemma Inv.mapPages (h : u.Inv held) (hle : ∀ k < cnt, first + k ≤ kernelPage)
    (hfit : u.TablesFit first cnt) :
    (UserSpace.mapPages cnt u first).2.Inv held ∧
      ((UserSpace.mapPages cnt u first).1 = true →
        (UserSpace.mapPages cnt u first).2.Inv (pagesFrom first cnt ∪ held)) := by
  induction cnt generalizing u first held with
  | zero =>
    refine ⟨h, fun _ => h.mono ?_⟩
    rintro p (hp | hp)
    · simp only [pagesFrom, Set.mem_ofPred_eq] at hp
      omega
    · exact hp
  | succ cnt ih =>
    simp only [UserSpace.mapPages]
    split
    · exact ⟨h, fun hfalse => by cases hfalse⟩
    · next frame m' hpalloc =>
      have hfirst : first ≤ kernelPage := hle 0 (by omega)
      have hadd := h.pageTableAdd hfirst hpalloc fun habsent => hfit.palloc_ne_none habsent
      have hle' : ∀ k < cnt, first + 1 + k ≤ kernelPage := fun k hk => by
        have hnext := hle (k + 1) (by omega)
        omega
      obtain ⟨hany, hend⟩ := ih hadd hle' (hfit.pageTableAdd hpalloc)
      refine ⟨hany.mono (Set.subset_insert _ _), fun htrue => (hend htrue).mono ?_⟩
      rw [pagesFrom_succ, Set.insert_union, Set.union_insert]

/-- The loop of `mfree_page`. -/
lemma Inv.unmapPages (h : u.Inv held) (hheld : pagesFrom first cnt ⊆ held) :
    (UserSpace.unmapPages cnt u first).Inv (held \ pagesFrom first cnt) := by
  induction cnt generalizing u first held with
  | zero => exact h.mono Set.sdiff_subset
  | succ cnt ih =>
    rw [pagesFrom_succ] at hheld ⊢
    have hone := h.unmapPage (hheld (Set.mem_insert _ _))
    have hrest : pagesFrom (first + 1) cnt ⊆ held \ {first} := by
      intro p hp
      refine ⟨hheld (Set.mem_insert_of_mem _ hp), ?_⟩
      simp only [pagesFrom, Set.mem_ofPred_eq, Set.mem_singleton_iff] at hp ⊢
      omega
    have hall := ih hone hrest
    rwa [Set.sdiff_sdiff, Set.singleton_union] at hall

end UserSpace

/-! ### Runs of one process -/

/-- An address space and the pages the process has obtained and not given back. -/
structure SpaceState where
  space : UserSpace
  held : Set Nat

/-- A call of one of the three functions. -/
inductive SpaceAct where
  | mallocPage (pgCnt : Nat)
  | getAPage (vaddr : Nat)
  | mfreePage (vaddr pgCnt : Nat)

/-- The page directory of a new process maps nothing below the kernel; the kernel's part is the one
of `loader.s`, below the pools. Any frames of the pools may be taken by others. -/
def UserSpace.Fresh (u : UserSpace) : Prop :=
  u.mem.Layout ∧ u.vaddrBitmap.btmpBytesLen = userBitmapLen ∧
    (∀ i < 768, (u.pde i).present = false) ∧
    (u.pde 768).present = true ∧ (u.pde 768).frame < u.mem.kernelPool.phyAddrStart

/-- Calls of `malloc_page`, of `get_a_page` on user pages that are not mapped and of `mfree_page` on
pages that have been obtained. -/
def spaceSystem : System SpaceState SpaceAct where
  init s := s.space.Fresh ∧ s.held = ∅
  step s a s' :=
    match a with
    | .mallocPage pgCnt =>
      match s.space.mallocPage pgCnt with
      | (none, u) => s' = ⟨u, s.held⟩
      | (some vaddr, u) => s' = ⟨u, UserSpace.pagesFrom (vaddr / pgSize) pgCnt ∪ s.held⟩
    | .getAPage vaddr =>
      firstUserPage ≤ vaddr / pgSize ∧ vaddr / pgSize < kernelPage ∧
        ¬s.space.Mapped (vaddr / pgSize) ∧
        match s.space.getAPage vaddr with
        | (none, u) => s' = ⟨u, s.held⟩
        | (some vaddr, u) => s' = ⟨u, insert (vaddr / pgSize) s.held⟩
    | .mfreePage vaddr pgCnt =>
      pgSize ∣ vaddr ∧ UserSpace.pagesFrom (vaddr / pgSize) pgCnt ⊆ s.held ∧
        s' = ⟨s.space.mfreePage vaddr pgCnt, s.held \ UserSpace.pagesFrom (vaddr / pgSize) pgCnt⟩

/-- The kernel pool has a frame for each page table that the call has to make. -/
def TablesFit (s : SpaceState) : SpaceAct → Prop
  | .mallocPage pgCnt => ∀ start, s.space.vaddrBitmap.bitmapScan pgCnt = some start →
      s.space.TablesFit (firstUserPage + start) pgCnt
  | .getAPage vaddr => s.space.TablesFit (vaddr / pgSize) 1
  | .mfreePage _ _ => True

namespace UserSpace

variable {u : UserSpace}

lemma Fresh.inv (h : u.Fresh) : u.Inv ∅ := by
  obtain ⟨hlayout, hlen, habsent, hkernel⟩ := h
  have hnone : ∀ i < 768, (u.pde i).present ≠ true := fun i hi => by simp [habsent i hi]
  have hdead : ∀ p, ¬u.Live ∅ p := by
    rintro p ⟨hmapped, hp | hp⟩
    · refine hnone (p / 1024) ?_ hmapped.1
      simp only [kernelPage] at hp
      omega
    · exact hp
  constructor
  case layout => exact hlayout
  case len => exact hlen
  case kernel => exact hkernel
  case tables => exact fun i hi hpres => absurd hpres (hnone i hi)
  case tables_inj =>
    intro i hi j hj hpi hpj _
    have hi' : i = 768 := by
      by_contra hne
      exact hnone i (by omega) hpi
    have hj' : j = 768 := by
      by_contra hne
      exact hnone j (by omega) hpj
    rw [hi', hj']
  case held_le => exact fun p hp => absurd hp (Set.notMem_empty p)
  case held_mapped => exact fun p hp => absurd hp (Set.notMem_empty p)
  case pages => exact fun p hp => absurd hp (hdead p)
  case pages_inj => exact fun p q hp => absurd hp (hdead p)

lemma Inv.scan_le (h : u.Inv held)
    (hscan : u.vaddrBitmap.bitmapScan cnt = some start) (hk : k < cnt) :
    firstUserPage + start + k ≤ kernelPage := by
  obtain ⟨hle, -⟩ := Bitmap.bitmapScan_eq_some hscan (by omega)
  have hlast : firstUserPage + 8 * userBitmapLen = kernelPage := by decide
  rw [h.len] at hle
  omega

lemma page_of_start (start : Nat) :
    (userVaddrStart + start * pgSize) / pgSize = firstUserPage + start :=
  Nat.add_mul_div_right _ _ (by decide)

lemma Inv.mallocPage (h : u.Inv held) (hfit : ∀ start, u.vaddrBitmap.bitmapScan cnt = some start →
      u.TablesFit (firstUserPage + start) cnt) :
    (u.mallocPage cnt).2.Inv held ∧ ∀ vaddr, (u.mallocPage cnt).1 = some vaddr →
      (u.mallocPage cnt).2.Inv (pagesFrom (vaddr / pgSize) cnt ∪ held) := by
  cases hscan : u.vaddrBitmap.bitmapScan cnt with
  | none =>
    simp only [UserSpace.mallocPage, hscan]
    exact ⟨h, fun vaddr hv => by cases hv⟩
  | some start =>
    have hbits := h.setBitmap ((Memory.btmpBytesLen_setRun u.vaddrBitmap start cnt true).trans h.len)
    obtain ⟨hany, hend⟩ := hbits.mapPages (fun k hk => h.scan_le hscan hk) (hfit start hscan)
    simp only [UserSpace.mallocPage, hscan]
    split
    · next u' heq =>
      rw [heq] at hany hend
      refine ⟨hany, fun vaddr hv => ?_⟩
      cases hv
      rw [page_of_start]
      exact hend rfl
    · next u' heq =>
      rw [heq] at hany
      exact ⟨hany, fun vaddr hv => by cases hv⟩

lemma Inv.getAPage (h : u.Inv held) (hpage : vaddr / pgSize ≤ kernelPage)
    (hfit : u.TablesFit (vaddr / pgSize) 1) :
    (u.getAPage vaddr).2.Inv held ∧ ∀ v, (u.getAPage vaddr).1 = some v →
      (u.getAPage vaddr).2.Inv (insert (v / pgSize) held) := by
  have hbits : { u with vaddrBitmap :=
      u.vaddrBitmap.bitmapSet ((vaddr - userVaddrStart) / pgSize) true }.Inv held := h.setBitmap h.len
  simp only [UserSpace.getAPage]
  split
  · exact ⟨hbits, fun v hv => by cases hv⟩
  · next frame m' hpalloc =>
    have hadd := hbits.pageTableAdd hpage hpalloc fun habsent => hfit.palloc_ne_none habsent
    refine ⟨hadd.mono (Set.subset_insert _ _), fun v hv => ?_⟩
    cases hv
    exact hadd

lemma Inv.mfreePage (h : u.Inv held) (hheld : pagesFrom (vaddr / pgSize) cnt ⊆ held) :
    (u.mfreePage vaddr cnt).Inv (held \ pagesFrom (vaddr / pgSize) cnt) := by
  have hall := h.unmapPages hheld
  exact hall.setBitmap ((Memory.btmpBytesLen_setRun _ _ _ _).trans hall.len)

end UserSpace

/-- In every run in which the kernel pool has a frame for each new page table, the mappings are
sound in every state. -/
theorem space_sound_of_reachable {s : SpaceState} (h : spaceSystem.Reachable TablesFit s) :
    s.space.Sound := by
  suffices hinv : s.space.Inv s.held from hinv.sound
  refine h.invariant (fun s => s.space.Inv s.held) ?_ ?_
  · rintro s ⟨hfresh, hheld⟩
    rw [hheld]
    exact hfresh.inv
  · intro s a s' hinv hfit hstep
    cases a with
    | mallocPage cnt =>
      obtain ⟨hany, hend⟩ := hinv.mallocPage hfit
      simp only [spaceSystem] at hstep
      split at hstep
      · next u heq =>
        rw [heq] at hany
        rw [hstep]
        exact hany
      · next vaddr u heq =>
        rw [heq] at hend
        rw [hstep]
        exact hend vaddr rfl
    | getAPage vaddr =>
      obtain ⟨-, hlt, -, hstep⟩ := hstep
      obtain ⟨hany, hend⟩ := hinv.getAPage hlt.le hfit
      split at hstep
      · next u heq =>
        rw [heq] at hany
        rw [hstep]
        exact hany
      · next v u heq =>
        rw [heq] at hend
        rw [hstep]
        exact hend v rfl
    | mfreePage vaddr cnt =>
      obtain ⟨-, hheld, rfl⟩ := hstep
      exact hinv.mfreePage hheld

/-- A new process on a machine of 32 MB, all frames free. -/
def freshSpace : UserSpace where
  mem := memPoolInit 0x2000000 (fun _ => ⟨0, false⟩) Bytes.zero Bytes.zero
  pde := fun i => ⟨0x101000, decide (i = 768)⟩
  table := fun _ _ => ⟨0, false⟩
  vaddrBitmap := ⟨userBitmapLen, Bytes.zero⟩

lemma fresh_freshSpace : freshSpace.Fresh := by
  refine ⟨Memory.layout_memPoolInit _ _ _ _, rfl, fun i hi => ?_, by decide, by decide +kernel⟩
  exact decide_eq_false (by omega)

/-- The page of the stack is mapped. -/
theorem space_sound_stack :
    (freshSpace.getAPage userStack3Vaddr).2.Sound ∧
      (freshSpace.getAPage userStack3Vaddr).2.Mapped (userStack3Vaddr / pgSize) := by
  have hfit : TablesFit ⟨freshSpace, ∅⟩ (.getAPage userStack3Vaddr) := by
    have hmissing : (freshSpace.missing (userStack3Vaddr / pgSize) 1).card ≤ 1 :=
      (card_filter_le _ _).trans card_image_le
    have hfree : 0 < freshSpace.mem.freeFrames .kernel :=
      card_pos.mpr ⟨0, mem_filter.mpr ⟨mem_range.mpr (by decide), by decide⟩⟩
    exact hmissing.trans hfree
  have hstep : spaceSystem.step ⟨freshSpace, ∅⟩ (.getAPage userStack3Vaddr)
      ⟨(freshSpace.getAPage userStack3Vaddr).2, insert (userStack3Vaddr / pgSize) ∅⟩ := by
    refine ⟨by decide, by decide, fun hmapped => ?_, rfl⟩
    have hpres := hmapped.1
    revert hpres
    decide
  exact ⟨space_sound_of_reachable (.step (.init ⟨fresh_freshSpace, rfl⟩) hfit hstep),
    by decide +kernel, by decide +kernel⟩

/-- The same process when others have taken all frames of the kernel pool. -/
def starvedSpace : UserSpace :=
  let pool := freshSpace.mem.kernelPool
  { freshSpace with
    mem := { freshSpace.mem with
      kernelPool := { pool with poolBitmap := { pool.poolBitmap with bits := fun _ => 0xff } } } }

/-- The kernel pool is used up when the process asks for its first page: the page table is put in
frame 0, which no pool has. -/
theorem not_sound_of_no_frame :
    ¬∀ s, spaceSystem.Reachable (fun _ _ => True) s → s.space.Sound := by
  intro hall
  have hlayout : starvedSpace.mem.Layout := by
    refine fresh_freshSpace.1.congr ?_ ?_ ?_ <;> rintro (_ | _) <;> rfl
  have hfresh : starvedSpace.Fresh :=
    ⟨hlayout, rfl, fresh_freshSpace.2.2.1, fresh_freshSpace.2.2.2⟩
  have hstep : spaceSystem.step ⟨starvedSpace, ∅⟩ (.getAPage userVaddrStart)
      ⟨(starvedSpace.getAPage userVaddrStart).2, insert (userVaddrStart / pgSize) ∅⟩ := by
    refine ⟨by decide, by decide, fun hmapped => ?_, rfl⟩
    have hpres := hmapped.1
    revert hpres
    decide
  have hsound := hall _ (.step (.init ⟨hfresh, rfl⟩) trivial hstep)
  obtain ⟨j, -, -, hframe⟩ := hsound.tables 32 (by decide) (by decide +kernel)
  have hzero : ((starvedSpace.getAPage userVaddrStart).2.pde 32).frame = 0 := by decide +kernel
  have hstart : 0 < (((starvedSpace.getAPage userVaddrStart).2.mem).pool .kernel).phyAddrStart := by
    decide +kernel
  exact absurd (hframe.symm.trans hzero) (Nat.add_pos_right _ hstart).ne'

end SimpleOs
