import SimpleOs.Mem.FrameBook

/-!
# Directories and page tables in order

`Good` is what the kernel keeps about its page directories: every directory has the kernel's quarter
that `loader.s` made; the kernel pages and the page tables of the processes stand in a book, so no
page table is a directory and no two processes share one; and the page tables map pages of the user
pool only. The lemmas below say what the parts of the calls do to it.
-/

namespace SimpleOs

open Base Bytes List

/-! ### Entries -/

lemma pgSize_dvd_frame (k : Nat) : pgSize ∣ 0x200000 + k * pgSize :=
  Nat.dvd_add (by decide) (Nat.dvd_mul_left _ _)

lemma toNat_mkEntry (hf : pgSize ∣ f) (hlt : f < 2 ^ 32) : (mkEntry f).toNat = f + 7 := by
  obtain ⟨c, rfl⟩ := hf
  rw [mkEntry, UInt32.toNat_ofNat']
  simp only [pgSize] at hlt ⊢
  omega

lemma entryFrame_mkEntry (hf : pgSize ∣ f) (hlt : f < 2 ^ 32) : entryFrame (mkEntry f) = f := by
  rw [entryFrame, toNat_mkEntry hf hlt]
  obtain ⟨c, rfl⟩ := hf
  simp only [pgSize]
  omega

lemma entryPresent_mkEntry (hf : pgSize ∣ f) (hlt : f < 2 ^ 32) :
    entryPresent (mkEntry f) = true := by
  rw [entryPresent, toNat_mkEntry hf hlt]
  obtain ⟨c, rfl⟩ := hf
  simp only [pgSize, beq_iff_eq]
  omega

lemma frame_unique (hf : pgSize ∣ f) (hf' : pgSize ∣ f') (h1 : f ≤ a)
    (h2 : a < f + pgSize) (h1' : f' ≤ a) (h2' : a < f' + pgSize) : f = f' := by
  simp only [pgSize] at *
  omega

namespace Memory

variable {m m' : Memory}

lemma entry_congr (hi : i < 1024) (h : ∀ a, f ≤ a → a < f + pgSize → m'.phys a = m.phys a) :
    m'.entry f i = m.entry f i := by
  refine u32_congr fun r hr => h _ (by omega) ?_
  simp only [pgSize]
  omega

lemma entry_setEntry (e : UInt32) (hf : pgSize ∣ f) (hf' : pgSize ∣ f') (hi : i < 1024)
    (hj : j < 1024) :
    (m.setEntry f i e).entry f' j = if f = f' ∧ i = j then e else m.entry f' j := by
  split_ifs with heq
  · rw [heq.1, heq.2]
    exact u32_setU32_self _ _ _
  · refine u32_setU32_of_ne _ e ?_
    obtain ⟨c, rfl⟩ := hf
    obtain ⟨d, rfl⟩ := hf'
    simp only [pgSize] at heq ⊢
    omega

lemma entry_setFrame_of_ne (data : Nat → UInt8) (hf : pgSize ∣ f) (hf' : pgSize ∣ f') (hj : j < 1024)
    (hne : f ≠ f') : (m.setFrame f data).entry f' j = m.entry f' j := by
  refine entry_congr hj fun a h1 h2 => if_neg fun ha => ?_
  exact hne (frame_unique hf hf' ha.1 ha.2 h1 h2)

lemma entry_setFrame_zero (hj : j < 1024) : (m.setFrame f fun _ => 0).entry f j = 0 := by
  refine u32_of_byteOf fun r hr => ?_
  rw [show byteOf 0 r = 0 by simp [byteOf]]
  refine if_pos ?_
  simp only [pgSize]
  omega

lemma entry_eq_view (hq : (m.pte q).frame = f) (hi : i < 1024) :
    m.entry f i = m.view.u32 (q * pgSize + 4 * i) := by
  refine u32_congr fun r hr => ?_
  have hdiv : (q * pgSize + 4 * i + r) / pgSize = q := by
    simp only [pgSize]
    omega
  have hmod : (q * pgSize + 4 * i + r) % pgSize = 4 * i + r := by
    simp only [pgSize]
    omega
  rw [view, addrV2p, translate, hdiv, hmod, hq, Nat.add_assoc]

lemma KernelHalf.congr (h : m.KernelHalf f) (hentry : ∀ i < 1024, m'.entry f i = m.entry f i) :
    m'.KernelHalf f :=
  ⟨fun i hi h768 => (hentry i (by omega)).trans (h.1 i hi h768), (hentry 1023 (by omega)).trans h.2⟩

end Memory

namespace PageDir

/-! ### The pages and tables of the processes -/

/-- The kernel pages of a process. -/
def UserTask.blocks (t : UserTask) : List Block :=
  ⟨t.pgdir, 1⟩ :: ⟨t.pcb, 1⟩ :: if t.hanging then [] else [⟨t.bits, vaddrBitmapPages⟩]

/-- The kernel pages that are in use. -/
def blocks (procs : List UserTask) (held : List Block) : List Block :=
  held ++ procs.flatMap UserTask.blocks

/-- The frame of the directory of a process. -/
def dirOf (m : Memory) (t : UserTask) : Nat := (m.pte t.pgdir).frame

/-- Entry `i` of the directory of a process that has not exited points to a page table of its own. -/
def HasTable (m : Memory) (procs : List UserTask) (t : UserTask) (i : Nat) : Prop :=
  t ∈ procs ∧ t.hanging = false ∧ i < 768 ∧ entryPresent (m.entry (dirOf m t) i) = true

/-- The page table that entry `i` points to. -/
def tableOf (m : Memory) (t : UserTask) (i : Nat) : Nat := entryFrame (m.entry (dirOf m t) i)

/-- The frames of the kernel pool that are page tables. -/
def tabs (m : Memory) (procs : List UserTask) : Set Nat :=
  { k | ∃ t i, HasTable m procs t i ∧ tableOf m t i = 0x200000 + k * pgSize }

/-- The address of a user frame, or 0. -/
def UserOrZero (m : Memory) (f : Nat) : Prop := f = 0 ∨ m.userPool.phyAddrStart ≤ f

/-- Directories and page tables in order. A process that got no frame for a page table has it at
address 0. -/
structure Good (m : Memory) (procs : List UserTask) (held : List Block) : Prop where
  book : Book m (blocks procs held) (tabs m procs)
  layout : m.Layout
  boot : m.KernelHalf bootDir
  half : ∀ t ∈ procs, m.KernelHalf (dirOf m t)
  table : ∀ t i, HasTable m procs t i → tableOf m t i = 0 ∨ ∃ k, tableOf m t i = 0x200000 + k * pgSize
  inj : ∀ t i t' i', HasTable m procs t i → HasTable m procs t' i' → tableOf m t i ≠ 0 →
    tableOf m t i = tableOf m t' i' → t = t' ∧ i = i'
  entries : ∀ t i, HasTable m procs t i → ∀ j < 1024, UserOrZero m (entryFrame (m.entry (tableOf m t i) j))

/-- A frame that is a directory or a page table. -/
inductive IsStruct (m : Memory) (procs : List UserTask) : Nat → Prop where
  | boot : IsStruct m procs bootDir
  | dir {t : UserTask} : t ∈ procs → IsStruct m procs (dirOf m t)
  | table {t : UserTask} {i : Nat} : HasTable m procs t i → IsStruct m procs (tableOf m t i)

/-- A page directory. -/
def IsDir (m : Memory) (procs : List UserTask) (f : Nat) : Prop :=
  f = bootDir ∨ ∃ t ∈ procs, f = dirOf m t

variable {m m' : Memory} {procs procs' : List UserTask} {t t' : UserTask}
  {b : Block} {k p cnt : Nat}

/-- The pages `bs` are in the frames they were in, and so are the pools. -/
structure Leaves (bs : List Block) (m m' : Memory) : Prop where
  pte : ∀ p ∈ pagesOf bs, m'.pte p = m.pte p
  pools : m.SamePools m'

lemma Leaves.trans {m1 m2 m3 : Memory} (h : Leaves bs m1 m2)
    (h' : Leaves bs' m2 m3) (hsub : ∀ b ∈ bs, b ∈ bs') : Leaves bs m1 m3 :=
  ⟨fun p hp => (h'.pte p (pagesOf_mono hsub hp)).trans (h.pte p hp), h.pools.trans h'.pools⟩

/-! ### Where things are -/

lemma IsDir.isStruct (h : IsDir m procs f) : IsStruct m procs f := by
  rcases h with rfl | ⟨t, ht, rfl⟩
  · exact .boot
  · exact .dir ht

lemma mem_blocks_held (hb : b ∈ held) : b ∈ blocks procs held := mem_append_left _ hb

lemma mem_blocks_task (ht : t ∈ procs) (hb : b ∈ t.blocks) : b ∈ blocks procs held :=
  mem_append_right _ (mem_flatMap.mpr ⟨t, ht, hb⟩)

lemma mem_pages_pgdir (ht : t ∈ procs) : t.pgdir ∈ pagesOf (blocks procs held) :=
  ⟨⟨t.pgdir, 1⟩, mem_blocks_task ht (mem_cons_self ..), le_rfl, Nat.lt_succ_self _⟩

lemma Book.frame_of_page {tabs : Set Nat} (h : Book m bs tabs) (hp : p ∈ pagesOf bs) :
    ∃ k, (m.pte p).frame = 0x200000 + k * pgSize ∧ (m.pte p).present = true ∧ k ∉ tabs ∧ m.HasFrame p k ∧
      0x200000 + k * pgSize < m.userPool.phyAddrStart := by
  obtain ⟨k, hk⟩ := h.owns.frame p hp
  refine ⟨k, ?_, ?_, fun hmem => h.page k hmem p hp hk, hk, (h.bitIdx_table hk.1).2⟩
  · rw [hk.2.2, h.start]
  · rw [hk.2.2]

namespace Good

section

variable (h : Good m procs held)
include h

lemma dir_eq (ht : t ∈ procs) :
    ∃ k, dirOf m t = 0x200000 + k * pgSize ∧ k ∉ tabs m procs ∧ m.HasFrame t.pgdir k ∧
      dirOf m t < m.userPool.phyAddrStart := by
  obtain ⟨k, hframe, -, hk, hhas, hlt⟩ := h.book.frame_of_page (mem_pages_pgdir ht)
  refine ⟨k, hframe, hk, hhas, ?_⟩
  rw [dirOf, hframe]
  exact hlt

lemma blocks_apart (ht : t ∈ procs) (ht' : t' ∈ procs) (hne : t ≠ t')
    (hb : b ∈ t.blocks) (hb' : b' ∈ t'.blocks) : b.Apart b' := by
  have hpair := (pairwise_flatMap.mp (pairwise_append.mp h.book.apart).2.1).2
  have hsymm : Std.Symm fun a c : UserTask => ∀ x ∈ a.blocks, ∀ y ∈ c.blocks, x.Apart y :=
    ⟨fun a c hac x hx y hy => (hac y hy x hx).symm⟩
  exact hpair.forall ht ht' hne b hb b' hb'

lemma pgdir_inj (ht : t ∈ procs) (ht' : t' ∈ procs) (heq : t.pgdir = t'.pgdir) : t = t' := by
  by_contra hne
  have hapart := h.blocks_apart ht ht' hne (mem_cons_self ..) (mem_cons_self ..)
  refine Set.disjoint_left.mp hapart ⟨le_rfl, Nat.lt_succ_self _⟩ ?_
  rw [heq]
  exact ⟨le_rfl, Nat.lt_succ_self _⟩

lemma dir_inj (ht : t ∈ procs) (ht' : t' ∈ procs) (heq : dirOf m t = dirOf m t') : t = t' := by
  obtain ⟨k, hk, -, hhas, -⟩ := h.dir_eq ht
  obtain ⟨k', hk', -, hhas', -⟩ := h.dir_eq ht'
  rw [hk, hk'] at heq
  simp only [pgSize] at heq
  obtain rfl : k = k' := by omega
  exact h.pgdir_inj ht ht' (h.book.owns.inj _ (mem_pages_pgdir ht) _ (mem_pages_pgdir ht') k hhas hhas')

lemma table_ne_dir (htab : HasTable m procs t i) (ht' : t' ∈ procs) :
    tableOf m t i ≠ dirOf m t' := by
  obtain ⟨k, hk, hout, -, -⟩ := h.dir_eq ht'
  rw [hk]
  intro heq
  exact hout ⟨t, i, htab, heq⟩

lemma struct_dvd (hf : IsStruct m procs f) : pgSize ∣ f ∧ f < m.userPool.phyAddrStart := by
  have hhigh := h.book.owns.pools.high
  rw [h.book.start] at hhigh
  cases hf with
  | boot => exact ⟨by decide, by simp only [bootDir]; omega⟩
  | dir ht =>
    obtain ⟨k, hk, -, -, hlt⟩ := h.dir_eq ht
    exact ⟨hk ▸ pgSize_dvd_frame k, hlt⟩
  | table htab =>
    rcases h.table _ _ htab with hzero | ⟨k, hk⟩
    · rw [hzero]
      exact ⟨Nat.dvd_zero _, by omega⟩
    · rw [hk]
      exact ⟨pgSize_dvd_frame k, (h.book.bitIdx_table (h.book.lt k ⟨_, _, htab, hk⟩)).2⟩

lemma struct_lt (hf : IsStruct m procs f) : f < 2 ^ 32 :=
  (h.struct_dvd hf).2.trans h.book.owns.pools.fits

/-- The page tables of `loader.s` lie between the boot directory and the kernel pool; those of the
processes do not. -/
lemma kernelTable_table (htab : HasTable m procs t i) :
    State.kernelTable (tableOf m t i) = none := by
  refine if_neg ?_
  rcases h.table t i htab with hzero | ⟨k, hk⟩
  · omega
  · omega

/-- A page in use that holds no directory is in no directory and in no page table. -/
lemma frame_ne_struct (hp : p ∈ pagesOf (blocks procs held))
    (hdir : ∀ t ∈ procs, p ≠ t.pgdir) (hf : IsStruct m procs f) : (m.pte p).frame ≠ f := by
  obtain ⟨k, hframe, -, hk, hhas, -⟩ := h.book.frame_of_page hp
  rw [hframe]
  cases hf with
  | boot => exact Nat.ne_of_gt (by simp only [bootDir]; omega)
  | dir ht =>
    obtain ⟨k', hk', -, hhas', -⟩ := h.dir_eq ht
    rw [hk']
    intro heq
    simp only [pgSize] at heq
    obtain rfl : k = k' := by omega
    exact hdir _ ht (h.book.owns.inj _ hp _ (mem_pages_pgdir ht) k hhas hhas')
  | table htab => exact fun heq => hk ⟨_, _, htab, heq.symm⟩

/-! ### What leaves directories and tables alone -/

section

variable (hbook : Book m' (blocks procs held') (tabs m procs))
include hbook

/-- Directories and tables stay in order when the entries of the directories stay, the tables map
pages of the user pool, and the book is kept. -/
lemma of_dirs (hpools : m.SamePools m') (hpte : ∀ t ∈ procs, m'.pte t.pgdir = m.pte t.pgdir)
    (hentry : ∀ f, IsDir m procs f → ∀ i < 1024, m'.entry f i = m.entry f i)
    (huser : ∀ t i, HasTable m procs t i → ∀ j < 1024,
      UserOrZero m (entryFrame (m'.entry (tableOf m t i) j))) : Good m' procs held' := by
  have hdir : ∀ t ∈ procs, dirOf m' t = dirOf m t := fun t ht => by rw [dirOf, hpte t ht, dirOf]
  have hdirEntry : ∀ t ∈ procs, ∀ i < 1024, m'.entry (dirOf m' t) i = m.entry (dirOf m t) i :=
    fun t ht i hi => by rw [hdir t ht, hentry _ (.inr ⟨t, ht, rfl⟩) i hi]
  have hhas : ∀ t i, HasTable m' procs t i ↔ HasTable m procs t i := by
    intro t i
    refine and_congr_right fun ht => and_congr_right fun _ => and_congr_right fun hi => ?_
    rw [hdirEntry t ht i (by omega)]
  have htable : ∀ t i, HasTable m procs t i → tableOf m' t i = tableOf m t i := by
    intro t i htab
    rw [tableOf, hdirEntry t htab.1 i (by have := htab.2.2.1; omega), tableOf]
  have htabs : tabs m' procs = tabs m procs := by
    ext k
    refine exists_congr fun t => exists_congr fun i => ?_
    rw [hhas]
    exact and_congr_right fun htab => by rw [htable t i htab]
  have hstart : m'.userPool.phyAddrStart = m.userPool.phyAddrStart := hpools.start .user
  refine ⟨htabs ▸ hbook, hpools.layout h.layout, h.boot.congr (hentry _ (.inl rfl)), ?_, ?_, ?_, ?_⟩
  · intro t ht
    rw [hdir t ht]
    exact (h.half t ht).congr (hentry _ (.inr ⟨t, ht, rfl⟩))
  · intro t i htab
    have htab := (hhas t i).mp htab
    rw [htable t i htab]
    exact h.table t i htab
  · intro t i t' i' htab htab'
    have htab := (hhas t i).mp htab
    have htab' := (hhas t' i').mp htab'
    rw [htable t i htab, htable t' i' htab']
    exact h.inj t i t' i' htab htab'
  · intro t i htab j hj
    have htab := (hhas t i).mp htab
    rw [htable t i htab, UserOrZero, hstart]
    exact huser t i htab j hj

lemma of_same (hpools : m.SamePools m') (hpte : ∀ t ∈ procs, m'.pte t.pgdir = m.pte t.pgdir)
    (hentry : ∀ f, IsStruct m procs f → ∀ i < 1024, m'.entry f i = m.entry f i) :
    Good m' procs held' := by
  refine h.of_dirs hbook hpools hpte (fun f hf => hentry f hf.isStruct) fun t i htab j hj => ?_
  rw [hentry _ (.table htab) j hj]
  exact h.entries t i htab j hj

lemma of_bits (hbits : m.OnlyBits m') : Good m' procs held' :=
  h.of_same hbook hbits.pools (fun t _ => by rw [hbits.pte])
    fun f _ i _ => by rw [Memory.entry, hbits.phys, Memory.entry]

end

lemma retask (hbook : Book m (blocks procs' held') (tabs m procs))
    (hhalf : ∀ t ∈ procs', m.KernelHalf (dirOf m t))
    (hhas : ∀ t i, HasTable m procs' t i → HasTable m procs t i) : Good m procs' held' where
  book := hbook.mono (List.Sublist.refl _) fun _ ⟨t, i, htab, hk⟩ => ⟨t, i, hhas t i htab, hk⟩
  layout := h.layout
  boot := h.boot
  half := hhalf
  table := fun t i htab => h.table t i (hhas t i htab)
  inj := fun t i t' i' htab htab' => h.inj t i t' i' (hhas t i htab) (hhas t' i' htab')
  entries := fun t i htab => h.entries t i (hhas t i htab)

end

lemma drop_held (h : Good m procs (b :: held)) : Good m procs held :=
  h.of_same (h.book.mono (List.sublist_cons_self ..) subset_rfl) (.refl m) (fun _ _ => rfl)
    fun _ _ _ _ => rfl

/-- The kernel asks for pages. -/
lemma mallocPage (h : Good m procs held) (hmalloc : m.mallocPage cnt = (r, m')) :
    Good m' procs held ∧ Leaves (blocks procs held) m m' ∧
      ∀ v, r = some v → v / pgSize * pgSize = v ∧ Good m' procs (⟨v / pgSize, cnt⟩ :: held) := by
  obtain ⟨hbook, hkeep, hsome⟩ := h.book.mallocPage hmalloc
  have hpools : m.SamePools m' := by
    have hpools := m.samePools_mallocPage cnt
    rwa [hmalloc] at hpools
  have hpte : ∀ p ∈ pagesOf (blocks procs held), m'.pte p = m.pte p := fun p hp => hkeep.pte p (.inl hp)
  have hdir : ∀ t ∈ procs, m'.pte t.pgdir = m.pte t.pgdir := fun t ht => hpte _ (mem_pages_pgdir ht)
  have hentry : ∀ f, IsStruct m procs f → ∀ i < 1024, m'.entry f i = m.entry f i :=
    fun f _ i _ => by rw [Memory.entry, hkeep.phys, Memory.entry]
  refine ⟨h.of_same hbook hpools hdir hentry, ⟨hpte, hpools⟩, fun v hv => ?_⟩
  obtain ⟨hdiv, hbook'⟩ := hsome v hv
  exact ⟨hdiv, h.of_same hbook' hpools hdir hentry⟩

lemma mfreePage (h : Good m procs (b :: held)) :
    Good (m.mfreePage (b.page * pgSize) b.cnt) procs held ∧
      Leaves (blocks procs held) m (m.mfreePage (b.page * pgSize) b.cnt) := by
  have hbook : Book m (b :: blocks procs held) (tabs m procs) := h.book
  obtain ⟨hbook', hkeep⟩ := hbook.mfreePage
  have hpte := fun p hp => hkeep.pte p (.inl hp)
  exact ⟨h.of_same hbook' (m.samePools_mfreePage _ _) (fun t ht => hpte _ (mem_pages_pgdir ht))
    fun f _ i _ => by rw [Memory.entry, hkeep.phys, Memory.entry], hpte, m.samePools_mfreePage _ _⟩

section

variable (h : Good m procs held)
include h

/-- The kernel writes to its pages, but to no directory. -/
lemma store (data : Nat → UInt8) (hin : ∀ r < n, (v + r) / pgSize ∈ pagesOf (blocks procs held) ∧
      ∀ t ∈ procs, (v + r) / pgSize ≠ t.pgdir) : Good (m.store v data n) procs held := by
  refine h.of_same (h.book.phys _) (.of_eq rfl rfl) (fun _ _ => rfl) fun f hf i hi => ?_
  refine Memory.entry_congr hi fun a h1 h2 => Memory.storeBytes_of_ne _ _ _ fun r hr heq => ?_
  -- the byte would be in the frame of the page and in the frame `f`
  obtain ⟨hpage, hdir⟩ := hin r hr
  obtain ⟨k, hframe, -⟩ := h.book.frame_of_page hpage
  refine h.frame_ne_struct hpage hdir hf (frame_unique (a := a) ?_ (h.struct_dvd hf).1 ?_ ?_ h1 h2)
  · rw [hframe]
    exact pgSize_dvd_frame k
  · rw [← heq]
    exact Nat.le_add_right _ _
  · rw [← heq]
    exact Nat.add_lt_add_left (Nat.mod_lt _ (by decide)) _

lemma held_page (hb : b ∈ held) (h1 : b.page ≤ p) (h2 : p < b.page + b.cnt) :
    p ∈ pagesOf (blocks procs held) ∧ ∀ t ∈ procs, p ≠ t.pgdir := by
  refine ⟨mem_pagesOf (mem_blocks_held hb) h1 h2, fun t ht heq => ?_⟩
  have hdir : (⟨t.pgdir, 1⟩ : Block) ∈ procs.flatMap UserTask.blocks :=
    mem_flatMap.mpr ⟨t, ht, mem_cons_self ..⟩
  have hapart := (pairwise_append.mp h.book.apart).2.2 b hb _ hdir
  refine Set.disjoint_left.mp hapart ⟨h1, h2⟩ ?_
  rw [heq]
  exact ⟨le_rfl, Nat.lt_succ_self _⟩

/-- A page of the bitmap of a process is no directory. -/
lemma bits_page (ht : t ∈ procs) (hlive : t.hanging = false)
    (h1 : t.bits ≤ p) (h2 : p < t.bits + vaddrBitmapPages) :
    p ∈ pagesOf (blocks procs held) ∧ ∀ t' ∈ procs, p ≠ t'.pgdir := by
  have hb : (⟨t.bits, vaddrBitmapPages⟩ : Block) ∈ t.blocks := by simp [UserTask.blocks, hlive]
  refine ⟨mem_pagesOf (mem_blocks_task ht hb) h1 h2, fun t' ht' heq => ?_⟩
  have hapart : Block.Apart ⟨t'.pgdir, 1⟩ ⟨t.bits, vaddrBitmapPages⟩ := by
    by_cases hne : t' = t
    · subst hne
      have hown := (pairwise_flatMap.mp (pairwise_append.mp h.book.apart).2.1).1 t' ht'
      exact (pairwise_cons.mp hown).1 _ (by simp [hlive])
    · exact h.blocks_apart ht' ht hne (mem_cons_self ..) hb
  refine Set.disjoint_right.mp hapart ⟨h1, h2⟩ ?_
  rw [heq]
  exact ⟨le_rfl, Nat.lt_succ_self _⟩

lemma store_held (data : Nat → UInt8) (hb : b ∈ held)
    (hlow : b.page * pgSize ≤ v) (hhigh : v + n ≤ (b.page + b.cnt) * pgSize) :
    Good (m.store v data n) procs held ∧ ∀ u, b.page ≤ u / pgSize → u / pgSize < b.page + b.cnt →
      (m.store v data n).view u = if v ≤ u ∧ u < v + n then data (u - v) else m.view u := by
  have hpage : ∀ r < n, b.page ≤ (v + r) / pgSize ∧ (v + r) / pgSize < b.page + b.cnt := by
    simp only [pgSize] at hlow hhigh ⊢
    omega
  refine ⟨h.store data fun r hr => h.held_page hb (hpage r hr).1 (hpage r hr).2, fun u h1 h2 => ?_⟩
  refine (h.book.owns.store data fun r hr => .inl ?_).2.2 u (.inl (h.held_page hb h1 h2).1)
  exact (h.held_page hb (hpage r hr).1 (hpage r hr).2).1

lemma getKernelPages (hget : m.getKernelPages cnt = (r, m')) :
    Good m' procs held ∧ Leaves (blocks procs held) m m' ∧
      ∀ v, r = some v → v / pgSize * pgSize = v ∧ Good m' procs (⟨v / pgSize, cnt⟩ :: held) ∧
        ∀ u, v / pgSize ≤ u / pgSize → u / pgSize < v / pgSize + cnt → m'.view u = 0 := by
  simp only [Memory.getKernelPages] at hget
  split at hget
  · next m1 hmalloc =>
    cases hget
    obtain ⟨hgood, hleaves, -⟩ := h.mallocPage hmalloc
    exact ⟨hgood, hleaves, by simp⟩
  · next v m1 hmalloc =>
    cases hget
    obtain ⟨-, hleaves, hsome⟩ := h.mallocPage hmalloc
    obtain ⟨hdiv, hgood⟩ := hsome v rfl
    obtain ⟨hgood', hview⟩ := hgood.store_held (v := v) (n := cnt * pgSize) (fun _ => 0)
      (mem_cons_self ..) (by rw [hdiv]) (by rw [Nat.add_mul, hdiv])
    refine ⟨hgood'.drop_held, ⟨hleaves.pte, hleaves.pools.trans (.of_eq rfl rfl)⟩, fun v' hv => ?_⟩
    cases hv
    refine ⟨hdiv, hgood', fun u h1 h2 => (hview u h1 h2).trans (if_pos ?_)⟩
    simp only [pgSize] at h1 h2 hdiv ⊢
    omega

/-! ### New directories -/

lemma halfAt (hf : IsDir m procs f) : m.KernelHalf f := by
  rcases hf with rfl | ⟨t, ht, rfl⟩
  · exact h.boot
  · exact h.half t ht

lemma selfTable (hf : IsDir m procs f) : m.selfTable f = f := by
  rw [Memory.selfTable, (h.halfAt hf).2,
    entryFrame_mkEntry (h.struct_dvd hf.isStruct).1 (h.struct_lt hf.isStruct)]

lemma seenDir (hf : IsDir m procs f) : m.seenDir f = f := by
  rw [Memory.seenDir, h.selfTable hf]
  exact h.selfTable hf

lemma seenTable (hf : IsDir m procs f) (i : Nat) : m.seenTable f i = entryFrame (m.entry f i) := by
  rw [Memory.seenTable, h.selfTable hf]

end

lemma isDir_congr (hf : IsDir m procs f) (hpte : ∀ t ∈ procs, m'.pte t.pgdir = m.pte t.pgdir) :
    IsDir m' procs f := by
  refine hf.imp_right ?_
  rintro ⟨t, ht, rfl⟩
  exact ⟨t, ht, by rw [dirOf, dirOf, hpte t ht]⟩

/-- `create_page_dir`: nothing is mapped below the kernel, and the kernel's quarter is a copy. -/
lemma createPageDir (h : Good m procs held) (hcr3 : IsDir m procs cr3)
    (hcreate : m.createPageDir cr3 = (r, m')) :
    Good m' procs held ∧ Leaves (blocks procs held) m m' ∧
      ∀ v, r = some v → v / pgSize * pgSize = v ∧ Good m' procs (⟨v / pgSize, 1⟩ :: held) ∧
        m'.KernelHalf (m'.pte (v / pgSize)).frame ∧
        ∀ i < 768, m'.entry (m'.pte (v / pgSize)).frame i = 0 := by
  simp only [Memory.createPageDir] at hcreate
  split at hcreate
  · next m1 hget =>
    cases hcreate
    obtain ⟨hgood, hleaves, -⟩ := h.getKernelPages hget
    exact ⟨hgood, hleaves, by simp⟩
  · next v m1 hget =>
    obtain ⟨rfl, hm'⟩ := Prod.mk.inj hcreate
    obtain ⟨-, hleaves, hsome⟩ := h.getKernelPages hget
    obtain ⟨hdiv, hgood1, hzero⟩ := hsome v rfl
    obtain ⟨hgood2, hview2⟩ := hgood1.store_held (v := v + 0x300 * 4) (n := 1024)
      (fun r => m1.phys (m1.seenDir cr3 + 0x300 * 4 + r)) (mem_cons_self ..)
      (by rw [hdiv]; omega) (by rw [Nat.add_mul, hdiv]; simp only [pgSize]; omega)
    set m2 := m1.store (v + 0x300 * 4) (fun r => m1.phys (m1.seenDir cr3 + 0x300 * 4 + r)) 1024 with hm2
    obtain ⟨hgood3, hview3⟩ := hgood2.store_held (v := v + 1023 * 4) (n := 4)
      (byteOf (.ofNat (m2.addrV2p v + 7))) (mem_cons_self ..)
      (by rw [hdiv]; omega) (by rw [Nat.add_mul, hdiv]; simp only [pgSize]; omega)
    have hm3 : m2.store (v + 1023 * 4) (byteOf (.ofNat (m2.addrV2p v + 7))) 4 = m' := hm'
    rw [hm3] at hgood3 hview3
    have hleaves' : Leaves (blocks procs held) m m' := by
      rw [← hm3]
      exact ⟨hleaves.pte, hleaves.pools.trans (.of_eq rfl rfl)⟩
    refine ⟨hgood3.drop_held, hleaves', fun v' hv => ?_⟩
    cases hv
    -- the new directory, seen through its page
    have hentry : ∀ i < 1024, ∀ e : UInt32,
        (∀ r < 4, m'.view (v / pgSize * pgSize + 4 * i + r) = byteOf e r) →
        m'.entry (m'.pte (v / pgSize)).frame i = e := by
      intro i hi e he
      rw [Memory.entry_eq_view rfl hi]
      exact u32_of_byteOf he
    have hpage : ∀ i < 1024, ∀ r < 4, v / pgSize ≤ (v + 4 * i + r) / pgSize ∧
        (v + 4 * i + r) / pgSize < v / pgSize + 1 := by
      simp only [pgSize] at hdiv ⊢
      omega
    have hcr31 : IsDir m1 procs cr3 := isDir_congr hcr3 fun t ht => hleaves.pte _ (mem_pages_pgdir ht)
    refine ⟨hdiv, hgood3, ⟨fun i hi h768 => ?_, ?_⟩, fun i hi => ?_⟩
    · rw [Memory.entry_eq_view rfl (by omega), ← (hgood1.halfAt hcr31).1 i hi h768]
      refine u32_congr fun r hr => ?_
      obtain ⟨hp1, hp2⟩ := hpage i (by omega) r hr
      have hoff : cr3 + 0x300 * 4 + (v + 4 * i + r - (v + 0x300 * 4)) = cr3 + 4 * i + r := by omega
      rw [hdiv, hview3 _ hp1 hp2, if_neg (by omega), hview2 _ hp1 hp2, if_pos (by omega),
        hgood1.seenDir hcr31, hoff]
    · refine hentry 1023 (by omega) _ fun r hr => ?_
      obtain ⟨hp1, hp2⟩ := hpage 1023 (by omega) r hr
      have hframe : m2.addrV2p v = (m'.pte (v / pgSize)).frame := by
        have hmod : v % pgSize = 0 := by
          simp only [pgSize] at hdiv ⊢
          omega
        rw [← hm3, Memory.addrV2p, Memory.translate, hmod]
        rfl
      have hoff : v + 4 * 1023 + r - (v + 1023 * 4) = r := by omega
      rw [hdiv, hview3 _ hp1 hp2, if_pos (by omega), hframe, mkEntry, hoff]
    · refine hentry i (by omega) _ fun r hr => ?_
      obtain ⟨hp1, hp2⟩ := hpage i (by omega) r hr
      rw [hdiv, hview3 _ hp1 hp2, if_neg (by omega), hview2 _ hp1 hp2, if_neg (by omega),
        hzero _ hp1 hp2]
      simp [byteOf]

/-- A new process takes pages over from the kernel. -/
lemma adopt (h : Good m procs held')
    (hperm : held'.Perm (⟨pgdir, 1⟩ :: ⟨pcb, 1⟩ :: ⟨bits, vaddrBitmapPages⟩ :: held))
    (hhalf : m.KernelHalf (m.pte pgdir).frame)
    (hzero : ∀ i < 768, m.entry (m.pte pgdir).frame i = 0) :
    Good m (⟨pcb, pgdir, bits, false⟩ :: procs) held := by
  set t : UserTask := ⟨pcb, pgdir, bits, false⟩ with ht
  refine h.retask (h.book.perm ?_) ?_ ?_
  · have hblocks : blocks (t :: procs) held = held ++ (t.blocks ++ procs.flatMap UserTask.blocks) := rfl
    rw [hblocks]
    refine (hperm.append_right _).trans ?_
    rw [← append_assoc]
    exact List.Perm.append_right _ (perm_append_comm : (t.blocks ++ held).Perm _)
  · rintro t' ht'
    rcases mem_cons.mp ht' with rfl | ht'
    · exact hhalf
    · exact h.half t' ht'
  · rintro t' i ⟨ht', hlive, hi, hpresent⟩
    rcases mem_cons.mp ht' with rfl | ht'
    · -- nothing is mapped yet
      have hnone : m.entry (dirOf m t) i = 0 := hzero i hi
      rw [hnone] at hpresent
      cases hpresent
    · exact ⟨ht', hlive, hi, hpresent⟩

lemma blocks_erase (ht : t ∈ procs) :
    (blocks procs held).Perm (blocks (procs.erase t) (t.blocks ++ held)) := by
  have hperm : (procs.flatMap UserTask.blocks).Perm
      (t.blocks ++ (procs.erase t).flatMap UserTask.blocks) :=
    (perm_cons_erase ht).flatMap_right _
  refine (hperm.append_left held).trans ?_
  rw [← append_assoc]
  exact perm_append_comm.append_right _

section

variable (h : Good m procs held)
include h

lemma disown (ht : t ∈ procs) : Good m (procs.erase t) (t.blocks ++ held) :=
  h.retask (h.book.perm (blocks_erase ht)) (fun t' ht' => h.half t' (mem_of_mem_erase ht'))
    fun _ _ htab => ⟨mem_of_mem_erase htab.1, htab.2⟩

/-! ### Page tables -/

lemma palloc_user (hpalloc : m.palloc .user = some (f, m')) :
    Good m' procs held ∧ m.OnlyBits m' ∧ pgSize ∣ f ∧ f < 2 ^ 32 ∧ m.userPool.phyAddrStart ≤ f := by
  have hbits := Memory.onlyBits_palloc hpalloc
  refine ⟨h.of_bits (h.book.palloc_user hpalloc).1 hbits, hbits, ?_⟩
  obtain ⟨j, hj, -, rfl, -⟩ := Memory.palloc_eq_some hpalloc
  obtain ⟨hlow, hhigh⟩ := h.layout.frameAt_range hj
  have hfits := h.layout.fits
  refine ⟨Nat.dvd_add (Nat.dvd_mul_left _ _) (h.layout.aligned .user), ?_, hlow⟩
  simp only [Memory.pool, pgSize] at hhigh
  omega

lemma setFrame_user (data : Nat → UInt8) (hf : pgSize ∣ f)
    (huser : m.userPool.phyAddrStart ≤ f) : Good (m.setFrame f data) procs held := by
  refine h.of_same (h.book.phys _) (.of_eq rfl rfl) (fun _ _ => rfl) fun f' hf' i hi => ?_
  obtain ⟨hdvd, hlt⟩ := h.struct_dvd hf'
  exact Memory.entry_setFrame_of_ne data hf hdvd hi (by omega)

/-- An entry of a page table of a process is changed. -/
lemma setTableEntry (htab : HasTable m procs t i) (hj : j < 1024) {e : UInt32}
    (he : UserOrZero m (entryFrame e)) : Good (m.setEntry (tableOf m t i) j e) procs held := by
  have hdvd := (h.struct_dvd (.table htab)).1
  refine h.of_dirs (h.book.phys _) (.of_eq rfl rfl) (fun _ _ => rfl) (fun f hf i' hi' => ?_)
    fun t' i' htab' j' hj' => ?_
  · have hne : tableOf m t i ≠ f := by
      rcases hf with rfl | ⟨t', ht', rfl⟩
      · rcases h.table t i htab with hzero | ⟨k, hk⟩
        · rw [hzero]
          decide
        · rw [bootDir]
          omega
      · exact h.table_ne_dir htab ht'
    rw [Memory.entry_setEntry e hdvd (h.struct_dvd hf.isStruct).1 hj hi', if_neg fun heq => hne heq.1]
  · rw [Memory.entry_setEntry e hdvd (h.struct_dvd (.table htab')).1 hj hj']
    split_ifs
    · exact he
    · exact h.entries t' i' htab' j' hj'

end

lemma entry_newTable (hd : pgSize ∣ d) (hf : pgSize ∣ f) (hi : i < 1024)
    (hf' : pgSize ∣ f') (hj : j < 1024) (e : UInt32) :
    ((m.setEntry d i e).setFrame f fun _ => 0).entry f' j =
      if f = f' then 0 else if d = f' ∧ i = j then e else m.entry f' j := by
  split_ifs with hff' hd'
  · rw [hff']
    exact Memory.entry_setFrame_zero hj
  · rw [Memory.entry_setFrame_of_ne _ hf hf' hj hff', Memory.entry_setEntry e hd hf' hi hj, if_pos hd']
  · rw [Memory.entry_setFrame_of_ne _ hf hf' hj hff', Memory.entry_setEntry e hd hf' hi hj, if_neg hd']

/-- A process gets a page table: at a frame of the kernel pool that is in no use, or at address 0. -/
lemma newTable (h : Good m procs held) (ht : t ∈ procs) (hlive : t.hanging = false) (hi : i < 768)
    (hf : f = 0 ∨ ∃ k, f = 0x200000 + k * pgSize ∧ k ∉ tabs m procs)
    (hbook : Book m (blocks procs held) (tabs m procs ∪ { k | f = 0x200000 + k * pgSize })) :
    Good ((m.setEntry (dirOf m t) i (mkEntry f)).setFrame f fun _ => 0) procs held ∧
      HasTable ((m.setEntry (dirOf m t) i (mkEntry f)).setFrame f fun _ => 0) procs t i ∧
      tableOf ((m.setEntry (dirOf m t) i (mkEntry f)).setFrame f fun _ => 0) t i = f := by
  set m' := (m.setEntry (dirOf m t) i (mkEntry f)).setFrame f fun _ => 0 with hm'
  have hfdvd : pgSize ∣ f := by
    rcases hf with rfl | ⟨k, rfl, -⟩
    exacts [Nat.dvd_zero _, pgSize_dvd_frame k]
  have hflt : f < 2 ^ 32 := by
    rcases hf with rfl | ⟨k, hk, -⟩
    · decide
    · have hlt := (hbook.bitIdx_table (hbook.lt k (.inr hk))).2
      have hfits := h.book.owns.pools.fits
      omega
  have hentry : ∀ f', IsStruct m procs f' → ∀ j < 1024, m'.entry f' j =
      if f = f' then 0 else if dirOf m t = f' ∧ i = j then mkEntry f else m.entry f' j :=
    fun f' hf' j hj => entry_newTable (h.struct_dvd (.dir ht)).1 hfdvd (by omega) (h.struct_dvd hf').1 hj _
  -- the frame of the table is no directory
  have hfdir : ∀ d, IsDir m procs d → f ≠ d := by
    rintro d (rfl | ⟨t', ht', rfl⟩)
    · rcases hf with rfl | ⟨k, rfl, -⟩
      · decide
      · rw [bootDir]
        omega
    · obtain ⟨k', hk', -, hhas, -⟩ := h.dir_eq ht'
      rcases hf with rfl | ⟨k, rfl, -⟩
      · omega
      · rw [hk']
        intro heq
        simp only [pgSize] at heq
        obtain rfl : k = k' := by omega
        exact hbook.page k (.inr rfl) _ (mem_pages_pgdir ht') hhas
  have hdirEntry : ∀ d, IsDir m procs d → ∀ j < 1024,
      m'.entry d j = if dirOf m t = d ∧ i = j then mkEntry f else m.entry d j :=
    fun d hd j hj => by rw [hentry d hd.isStruct j hj, if_neg (hfdir d hd)]
  have hown : m'.entry (dirOf m t) i = mkEntry f := by
    rw [hdirEntry _ (.inr ⟨t, ht, rfl⟩) i (by omega), if_pos ⟨rfl, rfl⟩]
  have hdir : ∀ t', dirOf m' t' = dirOf m t' := fun _ => rfl
  -- a table is the new one or an old one
  have hcases : ∀ t' j, HasTable m' procs t' j → t' = t ∧ j = i ∧ tableOf m' t' j = f ∨
      HasTable m procs t' j ∧ tableOf m' t' j = tableOf m t' j ∧ ¬(t' = t ∧ j = i) := by
    rintro t' j ⟨ht', hlive', hj, hpresent⟩
    have hent := hdirEntry (dirOf m t') (.inr ⟨t', ht', rfl⟩) j (by omega)
    by_cases heq : dirOf m t = dirOf m t' ∧ i = j
    · obtain rfl := h.dir_inj ht ht' heq.1
      obtain rfl := heq.2
      refine .inl ⟨rfl, rfl, ?_⟩
      rw [tableOf, hdir, hown, entryFrame_mkEntry hfdvd hflt]
    · rw [if_neg heq] at hent
      rw [hdir, hent] at hpresent
      refine .inr ⟨⟨ht', hlive', hj, hpresent⟩, ?_, ?_⟩
      · rw [tableOf, hdir, hent, tableOf]
      · rintro ⟨rfl, rfl⟩
        exact heq ⟨rfl, rfl⟩
  have hhalf : ∀ d, IsDir m procs d → m'.KernelHalf d := by
    intro d hd
    have hold := h.halfAt hd
    refine ⟨fun j hj h768 => ?_, ?_⟩
    · rw [hdirEntry d hd j (by omega), if_neg (by omega)]
      exact hold.1 j hj h768
    · rw [hdirEntry d hd 1023 (by omega), if_neg (by omega)]
      exact hold.2
  refine ⟨⟨?_, ?_, hhalf _ (.inl rfl), fun t' ht' => hhalf _ (.inr ⟨t', ht', rfl⟩), ?_, ?_, ?_⟩, ?_, ?_⟩
  · refine Book.mono (hbook.phys _) (List.Sublist.refl _) ?_
    rintro k ⟨t', j, htab, hk⟩
    rcases hcases t' j htab with ⟨rfl, rfl, hnew⟩ | ⟨hold, hsame, -⟩
    · exact .inr (hnew.symm.trans hk)
    · exact .inl ⟨t', j, hold, hsame.symm.trans hk⟩
  · have hpools : m.SamePools m' := .of_eq rfl rfl
    exact hpools.layout h.layout
  · intro t' j htab
    rcases hcases t' j htab with ⟨rfl, rfl, hnew⟩ | ⟨hold, hsame, -⟩
    · rw [hnew]
      exact hf.imp_right (Exists.imp fun _ => And.left)
    · rw [hsame]
      exact h.table t' j hold
  · -- an old table is not in the new frame
    have hfresh : ∀ t' j, HasTable m procs t' j → f ≠ 0 → tableOf m t' j ≠ f := by
      intro t' j htab hne heq
      obtain ⟨k, hk, hout⟩ := hf.resolve_left hne
      exact hout ⟨t', j, htab, heq.trans hk⟩
    intro t1 i1 t2 i2 htab1 htab2 hne heq
    rcases hcases t1 i1 htab1 with ⟨rfl, rfl, hnew1⟩ | ⟨hold1, hsame1, -⟩ <;>
      rcases hcases t2 i2 htab2 with ⟨rfl, rfl, hnew2⟩ | ⟨hold2, hsame2, -⟩
    · exact ⟨rfl, rfl⟩
    · rw [hnew1] at hne heq
      exact absurd (hsame2.symm.trans heq.symm) (hfresh t2 i2 hold2 hne)
    · rw [heq, hnew2] at hne
      exact absurd (hsame1.symm.trans (heq.trans hnew2)) (hfresh t1 i1 hold1 hne)
    · rw [hsame1] at hne heq
      rw [hsame2] at heq
      exact h.inj t1 i1 t2 i2 hold1 hold2 hne heq
  · intro t' j htab j' hj'
    rcases hcases t' j htab with ⟨rfl, rfl, hnew⟩ | ⟨hold, hsame, -⟩
    · rw [hnew, Memory.entry_setFrame_zero hj']
      exact .inl rfl
    · rw [hsame, hentry _ (.table hold) j' hj']
      split_ifs with hff' hdd
      · exact .inl rfl
      · exact absurd hdd.1.symm (h.table_ne_dir hold ht)
      · exact h.entries t' j hold j' hj'
  · refine ⟨ht, hlive, hi, ?_⟩
    rw [hdir, hown, entryPresent_mkEntry hfdvd hflt]
  · rw [tableOf, hdir, hown, entryFrame_mkEntry hfdvd hflt]

end Good

end PageDir

end SimpleOs
