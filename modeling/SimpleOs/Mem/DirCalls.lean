import SimpleOs.Mem.DirInvariant

/-!
# The calls keep the directories in order

The calls of a process on its own address space, which go through the directory in use, and the end
of a process, which gives its page tables back one by one.
-/

namespace SimpleOs

open Base Option List

namespace PageDir

variable {m m' : Memory} {procs : List UserTask} {held bs : List Block} {tb : Set Nat}
  {t : UserTask} {s s' : State} {f i j k n page cnt : Nat}

/-! ### Giving page tables back -/

lemma Book.pfree_userOrZero (h : Book m bs tb) (hf : UserOrZero m f) : Book (m.pfree f) bs tb := by
  rcases hf with rfl | hf
  · exact h.pfree_zero
  · exact h.pfree_user hf

lemma entry_onlyBits (h : m.OnlyBits m') (f i : Nat) : m'.entry f i = m.entry f i := by
  rw [Memory.entry, h.phys, Memory.entry]

lemma tableOf_onlyBits (h : m.OnlyBits m') : tableOf m' t i = tableOf m t i := by
  rw [tableOf, dirOf, entry_onlyBits h, h.pte, tableOf, dirOf]

lemma hasTable_onlyBits (h : m.OnlyBits m') : HasTable m' procs t i ↔ HasTable m procs t i := by
  rw [HasTable, dirOf, entry_onlyBits h, h.pte, HasTable, dirOf]

lemma userOrZero_samePools (h : m.SamePools m') : UserOrZero m' f ↔ UserOrZero m f := by
  have hstart : m'.userPool.phyAddrStart = m.userPool.phyAddrStart := h.start .user
  rw [UserOrZero, hstart, UserOrZero]

/-- The inner loop of `release_prog_resource`. -/
lemma Book.releaseEntries (h : Book m bs tb)
    (huser : ∀ j < n, UserOrZero m (entryFrame (m.entry f j))) :
    Book (m.releaseEntries f n) bs tb ∧ m.OnlyBits (m.releaseEntries f n) := by
  induction n with
  | zero => exact ⟨h, .refl m⟩
  | succ n ih =>
    obtain ⟨hbook, hbits⟩ := ih fun j hj => huser j (by omega)
    simp only [Memory.releaseEntries]
    split_ifs
    · have hzero : UserOrZero (m.releaseEntries f n) (entryFrame ((m.releaseEntries f n).entry f n)) := by
        rw [entry_onlyBits hbits, userOrZero_samePools hbits.pools]
        exact huser n (by omega)
      exact ⟨hbook.pfree_userOrZero hzero, hbits.trans (Memory.onlyBits_pfree _ _)⟩
    · exact ⟨hbook, hbits⟩

/-- The frames of the page tables of a process, from entry `n` of its directory on. -/
def ownTabs (m : Memory) (procs : List UserTask) (t : UserTask) (n : Nat) : Set Nat :=
  { k | ∃ i, n ≤ i ∧ HasTable m procs t i ∧ tableOf m t i = 0x200000 + k * pgSize }

/-- The outer loop: after `n` rounds the page tables from entry `n` on are left. -/
lemma Good.releaseTables (h : Good m procs held) (ht : t ∈ procs) (hlive : t.hanging = false)
    (hbook : Book m bs (tb ∪ ownTabs m procs t 0)) (hdisj : ∀ k ∈ ownTabs m procs t 0, k ∉ tb)
    (hn : n ≤ 768) :
    Book (m.releaseTables (dirOf m t) t.pgdir n) bs (tb ∪ ownTabs m procs t n) ∧
      m.OnlyBits (m.releaseTables (dirOf m t) t.pgdir n) := by
  induction n with
  | zero => exact ⟨hbook, .refl m⟩
  | succ n ih =>
    obtain ⟨hbookn, hbits⟩ := ih (by omega)
    set mn := m.releaseTables (dirOf m t) t.pgdir n with hmn
    -- the entries are those of the start: only bits of the pools have changed
    have hpde : mn.view.u32 (t.pgdir * pgSize + 4 * n) = m.entry (dirOf m t) n := by
      rw [← Memory.entry_eq_view rfl (by omega), entry_onlyBits hbits, hbits.pte]
      rfl
    have hseen : mn.seenTable (dirOf m t) n = tableOf m t n := by
      have hsame : mn.seenTable (dirOf m t) n = m.seenTable (dirOf m t) n := by
        simp only [Memory.seenTable, Memory.selfTable, entry_onlyBits hbits]
      rw [hsame, h.seenTable (.inr ⟨t, ht, rfl⟩)]
      rfl
    have hstep : m.releaseTables (dirOf m t) t.pgdir (n + 1) =
        if entryPresent (m.entry (dirOf m t) n) then
          (mn.releaseEntries (tableOf m t n) 1024).pfree (tableOf m t n) else mn := by
      simp only [Memory.releaseTables, ← hmn, hpde, hseen, tableOf]
    rw [hstep]
    split_ifs with hpresent
    · have htab : HasTable m procs t n := ⟨ht, hlive, by omega, hpresent⟩
      obtain ⟨hbook', hbits'⟩ := hbookn.releaseEntries (f := tableOf m t n) (n := 1024) fun j hj => by
        rw [entry_onlyBits hbits, userOrZero_samePools hbits.pools]
        exact h.entries t n htab j hj
      generalize mn.releaseEntries (tableOf m t n) 1024 = mr at hbook' hbits' ⊢
      refine ⟨?_, (hbits.trans hbits').trans (Memory.onlyBits_pfree _ _)⟩
      rcases h.table t n htab with hzero | ⟨k, hk⟩
      · rw [hzero]
        refine hbook'.pfree_zero.mono (List.Sublist.refl _) (Set.union_subset_union_right _ ?_)
        rintro k ⟨i, hi, hrest⟩
        exact ⟨i, by omega, hrest⟩
      · rw [hk]
        have hsub : insert k (tb ∪ ownTabs m procs t (n + 1)) ⊆ tb ∪ ownTabs m procs t n := by
          rintro k' (hkk' | hk' | ⟨i, hi, hrest⟩)
          · exact .inr ⟨n, le_rfl, htab, by rw [hkk', hk]⟩
          · exact .inl hk'
          · exact .inr ⟨i, by omega, hrest⟩
        refine (hbook'.mono (List.Sublist.refl _) hsub).pfree_table ?_
        -- the table stands in the book once
        rintro (hkt | ⟨i, hi, htab', hk'⟩)
        · exact hdisj k ⟨n, Nat.zero_le n, htab, hk⟩ hkt
        · have hne : tableOf m t n ≠ 0 := by
            omega
          have hni := (h.inj t n t i htab htab' hne (hk.trans hk'.symm)).2
          omega
    · refine ⟨hbookn.mono (List.Sublist.refl _) (Set.union_subset_union_right _ ?_), hbits⟩
      rintro k ⟨i, hi, hrest⟩
      exact ⟨i, by omega, hrest⟩

/-- A block in two parts. -/
lemma Book.split {a c : Nat} (h : Book m (⟨page, a + c⟩ :: bs) tb) :
    Book m (⟨page, a⟩ :: ⟨page + a, c⟩ :: bs) tb := by
  have hunion : (⟨page, a + c⟩ : Block).pages = (⟨page, a⟩ : Block).pages ∪ (⟨page + a, c⟩ : Block).pages := by
    simp only [Block.pages]
    rw [Set.Ico_union_Ico_eq_Ico (by omega) (by omega), Nat.add_assoc]
  have hpages : pagesOf (⟨page, a⟩ :: ⟨page + a, c⟩ :: bs) = pagesOf (⟨page, a + c⟩ :: bs) := by
    rw [pagesOf_cons, pagesOf_cons, pagesOf_cons, hunion, Set.union_assoc]
  obtain ⟨hfirst, hrest⟩ := pairwise_cons.mp h.apart
  refine ⟨hpages ▸ h.owns, ?_, h.start, h.lt, h.taken, hpages ▸ h.page⟩
  refine pairwise_cons.mpr ⟨fun b hb => ?_, pairwise_cons.mpr ⟨fun b hb => ?_, hrest⟩⟩
  · rcases mem_cons.mp hb with rfl | hb
    · exact Set.disjoint_left.mpr fun p hp hp' => absurd hp.2 (not_lt.mpr hp'.1)
    · exact (hfirst b hb).mono_left (hunion ▸ Set.subset_union_left)
  · exact (hfirst b hb).mono_left (hunion ▸ Set.subset_union_right)

lemma Good.nodup (h : Good m procs held) : procs.Nodup := by
  have hpair := (pairwise_flatMap.mp (pairwise_append.mp h.book.apart).2.1).2
  refine hpair.imp fun {a b} hab heq => ?_
  subst heq
  have hapart := hab _ (mem_cons_self ..) _ (mem_cons_self ..)
  exact Set.disjoint_left.mp hapart ⟨le_rfl, Nat.lt_succ_self _⟩ ⟨le_rfl, Nat.lt_succ_self _⟩

/-- `release_prog_resource`: the process keeps its PCB and its directory. The last page of its bitmap
is in nobody's hands. -/
lemma Good.exit (h : Good m procs held) (ht : t ∈ procs) (hlive : t.hanging = false) :
    Good ((m.releaseTables (dirOf m t) t.pgdir 768).mfreePage (t.bits * pgSize) (userBitmapLen / pgSize))
        ({ t with hanging := true } :: procs.erase t) held ∧
      Leaves (blocks ({ t with hanging := true } :: procs.erase t) held) m
        ((m.releaseTables (dirOf m t) t.pgdir 768).mfreePage (t.bits * pgSize)
          (userBitmapLen / pgSize)) := by
  set t' : UserTask := { t with hanging := true } with ht'
  set procs' := t' :: procs.erase t with hprocs'
  set n := userBitmapLen / pgSize with hn
  have hhas : ∀ u i, HasTable m procs' u i → u ∈ procs.erase t ∧ HasTable m procs u i := by
    rintro u i ⟨hu, hulive, hrest⟩
    have hu : u ∈ procs.erase t := by
      rcases mem_cons.mp hu with rfl | hu
      · cases hulive
      · exact hu
    exact ⟨hu, mem_of_mem_erase hu, hulive, hrest⟩
  have hperm : (blocks procs held).Perm (⟨t.bits, n + 1⟩ :: blocks procs' held) := by
    refine (Good.blocks_erase ht).trans ?_
    have hcnt : vaddrBitmapPages = n + 1 := by decide
    have hblocks : t.blocks = [⟨t.pgdir, 1⟩, ⟨t.pcb, 1⟩] ++ [⟨t.bits, n + 1⟩] := by
      simp [UserTask.blocks, hlive, hcnt]
    have hblocks' : blocks procs' held =
        held ++ ([⟨t.pgdir, 1⟩, ⟨t.pcb, 1⟩] ++ (procs.erase t).flatMap UserTask.blocks) := rfl
    rw [hblocks', hblocks, ← append_assoc held, ← List.cons_append]
    refine List.Perm.append_right _ ?_
    rw [append_assoc]
    refine perm_append_comm.trans ?_
    exact List.Perm.cons _ List.Perm.rfl
  have hbook : Book m (⟨t.bits, n⟩ :: ⟨t.bits + n, 1⟩ :: blocks procs' held) (tabs m procs) :=
    (h.book.perm hperm).split
  have hgood : Good m procs' (⟨t.bits, n⟩ :: ⟨t.bits + n, 1⟩ :: held) := by
    refine h.retask hbook ?_ fun u i htab => (hhas u i htab).2
    intro u hu
    rcases mem_cons.mp hu with rfl | hu
    · exact h.half t ht
    · exact h.half u (mem_of_mem_erase hu)
  obtain ⟨hrel, hbits⟩ := @Good.releaseTables _ procs held _ (tabs m procs') _ 768 h ht hlive
    (hbook.mono (List.Sublist.refl _) (by
      rintro k (⟨u, i, htab, hk⟩ | ⟨i, -, htab, hk⟩)
      · exact ⟨u, i, (hhas u i htab).2, hk⟩
      · exact ⟨t, i, htab, hk⟩))
    (by
      -- no other process has a page table of this one
      rintro k ⟨i, -, htab, hk⟩ ⟨u, i', htab', hk'⟩
      obtain ⟨hu, huold⟩ := hhas u i' htab'
      obtain rfl := (h.inj t i u i' htab huold (by rw [hk]; omega) (hk.trans hk'.symm)).1
      exact h.nodup.not_mem_erase hu) le_rfl
  have hgood' : Good (m.releaseTables (dirOf m t) t.pgdir 768) procs'
      (⟨t.bits, n⟩ :: ⟨t.bits + n, 1⟩ :: held) :=
    hgood.of_bits (hrel.mono (List.Sublist.refl _) Set.subset_union_left) hbits
  obtain ⟨hfree, hleaves⟩ := hgood'.mfreePage
  refine ⟨hfree.drop_held, fun p hp => ?_, hbits.pools.trans hleaves.pools⟩
  rw [hleaves.pte p (pagesOf_mono (fun b hb => mem_cons_of_mem _ hb) hp), hbits.pte]

/-! ### A process on its own address space -/

lemma Good.view_eq (h : Good m procs held) (hpte : m'.pte = m.pte)
    (hphys : ∀ a, (∀ f, IsStruct m procs f → ¬(f ≤ a ∧ a < f + pgSize)) → m'.phys a = m.phys a) {u : Nat}
    (hu : u / pgSize ∈ pagesOf held) : m'.view u = m.view u := by
  obtain ⟨b, hb, h1, h2⟩ := hu
  obtain ⟨hpage, hdir⟩ := h.held_page hb h1 h2
  obtain ⟨k, hframe, -⟩ := h.book.frame_of_page hpage
  rw [Memory.view, Memory.addrV2p, hpte]
  refine hphys _ fun f hf hin => h.frame_ne_struct hpage hdir hf ?_
  refine frame_unique (hframe ▸ pgSize_dvd_frame k) (h.struct_dvd hf).1 (Nat.le_add_right _ _) ?_ hin.1 hin.2
  exact Nat.add_lt_add_left (Nat.mod_lt _ (by decide)) _

/-- The directory of a process that has not exited is in use. -/
structure Serves (s : State) (t : UserTask) : Prop where
  good : Good s.mem s.procs s.held
  first : UserOrZero s.mem s.firstPte.frame
  mem : t ∈ s.procs
  live : t.hanging = false
  cr3 : s.cr3 = dirOf s.mem t

/-- The tasks are as they were, and so are the pages that the kernel has in hand. -/
structure SameTasks (s s' : State) : Prop where
  cr3 : s'.cr3 = s.cr3
  cur : s'.cur = s.cur
  procs : s'.procs = s.procs
  held : s'.held = s.held
  forking : s'.forking = s.forking
  pte : s'.mem.pte = s.mem.pte
  pools : s.mem.SamePools s'.mem
  view : ∀ u, u / pgSize ∈ pagesOf s.held → s'.mem.view u = s.mem.view u

lemma SameTasks.refl (s : State) : SameTasks s s :=
  ⟨rfl, rfl, rfl, rfl, rfl, rfl, .refl _, fun _ _ => rfl⟩

lemma SameTasks.trans {s1 s2 s3 : State} (h : SameTasks s1 s2) (h' : SameTasks s2 s3) :
    SameTasks s1 s3 :=
  ⟨h'.1.trans h.1, h'.2.trans h.2, h'.3.trans h.3, h'.4.trans h.4, h'.5.trans h.5, h'.6.trans h.6,
    h.7.trans h'.7, fun u hu => (h'.view u (h.held ▸ hu)).trans (h.view u hu)⟩

namespace Serves

section

variable (h : Serves s t)
include h

lemma isDir : IsDir s.mem s.procs s.cr3 := .inr ⟨t, h.mem, h.cr3⟩

lemma seenDir : s.mem.seenDir s.cr3 = dirOf s.mem t :=
  (h.good.seenDir h.isDir).trans h.cr3

lemma seenTable (i : Nat) : s.mem.seenTable s.cr3 i = tableOf s.mem t i := by
  rw [h.good.seenTable h.isDir, h.cr3]
  rfl

lemma of_mem (hgood : Good m s.procs s.held) (hpte : m.pte = s.mem.pte) (hpools : s.mem.SamePools m)
    (hview : ∀ u, u / pgSize ∈ pagesOf s.held → m.view u = s.mem.view u) :
    Serves { s with mem := m } t ∧ SameTasks s { s with mem := m } := by
  refine ⟨⟨hgood, (userOrZero_samePools hpools).mpr h.first, h.mem, h.live, ?_⟩,
    rfl, rfl, rfl, rfl, rfl, hpte, hpools, hview⟩
  rw [dirOf, hpte]
  exact h.cr3

lemma of_bits (hbook : Book m (blocks s.procs s.held) (tabs s.mem s.procs))
    (hbits : s.mem.OnlyBits m) :
    Serves { s with mem := m } t ∧ SameTasks s { s with mem := m } :=
  h.of_mem (h.good.of_bits hbook hbits) hbits.pte hbits.pools fun u _ => by
    rw [Memory.view, Memory.addrV2p, hbits.phys, hbits.pte]
    rfl

lemma palloc (hpalloc : s.mem.palloc .user = some (f, m)) :
    (Serves { s with mem := m } t ∧ SameTasks s { s with mem := m }) ∧ pgSize ∣ f ∧ f < 2 ^ 32 ∧
      m.userPool.phyAddrStart ≤ f := by
  obtain ⟨-, hbits, hdvd, hlt, huser⟩ := h.good.palloc_user hpalloc
  have hstart : m.userPool.phyAddrStart = s.mem.userPool.phyAddrStart := hbits.pools.start .user
  exact ⟨h.of_bits (h.good.book.palloc_user hpalloc).1 hbits, hdvd, hlt, hstart ▸ huser⟩

lemma hasTable (hi : i < 768)
    (hpresent : entryPresent (s.mem.entry s.cr3 i) = true) : HasTable s.mem s.procs t i :=
  ⟨h.mem, h.live, hi, h.cr3 ▸ hpresent⟩

/-- The second branch of `page_table_add`. -/
lemma addTable (hi : i < 768) : (Serves (s.addTable i) t ∧ SameTasks s (s.addTable i)) ∧
      HasTable (s.addTable i).mem (s.addTable i).procs t i := by
  -- the frame is new, or it is frame 0
  obtain ⟨f, m1, hgot, hbits, hf, hbook⟩ : ∃ f m1, (s.mem.palloc .kernel).getD (0, s.mem) = (f, m1) ∧
      s.mem.OnlyBits m1 ∧ (f = 0 ∨ ∃ k, f = 0x200000 + k * pgSize ∧ k ∉ tabs s.mem s.procs) ∧
      Book m1 (blocks s.procs s.held) (tabs s.mem s.procs ∪ { k | f = 0x200000 + k * pgSize }) := by
    cases hpalloc : s.mem.palloc .kernel with
    | none =>
      refine ⟨0, s.mem, rfl, .refl _, .inl rfl, h.good.book.mono (List.Sublist.refl _) ?_⟩
      rintro k (hk | hk)
      · exact hk
      · simp only [Set.mem_ofPred_eq] at hk
        omega
    | some r =>
      obtain ⟨f, m1⟩ := r
      obtain ⟨k, hk, rfl, hbook, -⟩ := h.good.book.palloc hpalloc
      refine ⟨_, m1, rfl, Memory.onlyBits_palloc hpalloc, .inr ⟨k, rfl, hk⟩,
        hbook.mono (List.Sublist.refl _) ?_⟩
      rintro k' (hk' | hk')
      · exact .inr hk'
      · simp only [Set.mem_ofPred_eq, pgSize] at hk'
        exact .inl (by omega)
  have htabs : tabs m1 s.procs = tabs s.mem s.procs := by
    simp only [tabs, HasTable, tableOf, dirOf, Memory.entry, hbits.phys, hbits.pte]
  have hdir : dirOf m1 t = dirOf s.mem t := by rw [dirOf, hbits.pte, dirOf]
  have hgood1 : Good m1 s.procs s.held :=
    h.good.of_bits (hbook.mono (List.Sublist.refl _) Set.subset_union_left) hbits
  obtain ⟨hgood, htab, htable⟩ := hgood1.newTable h.mem h.live hi (htabs ▸ hf) (htabs ▸ hbook)
  -- the frame of the table is found through the entry just made
  have hmem : (s.addTable i).mem =
      (m1.setEntry (dirOf m1 t) i (mkEntry f)).setFrame f fun _ => 0 := by
    have hseen : (m1.setEntry (dirOf m1 t) i (mkEntry f)).seenTable s.cr3 i = f := by
      have hdvd := (hgood1.struct_dvd (.dir h.mem)).1
      rw [h.cr3, ← hdir, Memory.seenTable, Memory.selfTable,
        Memory.entry_setEntry _ hdvd hdvd (by omega) (by omega), if_neg (by omega),
        (hgood1.half t h.mem).2, entryFrame_mkEntry hdvd (hgood1.struct_lt (.dir h.mem)),
        Memory.entry_setEntry _ hdvd hdvd (by omega) (by omega), if_pos ⟨rfl, rfl⟩]
      have hfdvd := (hgood.struct_dvd (.table htab)).1
      have hflt := hgood.struct_lt (.table htab)
      rw [htable] at hfdvd hflt
      exact entryFrame_mkEntry hfdvd hflt
    simp only [State.addTable, hgot, h.seenDir, ← hdir, hseen]
  have hstate : s.addTable i = { s with mem := (s.addTable i).mem } := rfl
  rw [hstate, hmem]
  refine ⟨h.of_mem hgood hbits.pte (hbits.pools.trans (.of_eq rfl rfl)) fun u hu => ?_, htab⟩
  refine Eq.symm (@Good.view_eq _ s.mem _ _ hgood hbits.pte.symm (fun a ha => ?_) _ hu)
  have hout : ¬(f ≤ a ∧ a < f + pgSize) := by
    have hout := ha _ (.table htab)
    rwa [htable] at hout
  have hout' := ha _ (.dir h.mem)
  have hphys : ((m1.setEntry (dirOf m1 t) i (mkEntry f)).setFrame f fun _ => 0).phys a =
      m1.phys.setU32 (dirOf m1 t + 4 * i) (mkEntry f) a := if_neg hout
  have hdir' : dirOf ((m1.setEntry (dirOf m1 t) i (mkEntry f)).setFrame f fun _ => 0) t = dirOf m1 t := rfl
  rw [hphys, Bytes.setU32_outside _ (by simp only [pgSize] at hout'; omega), hbits.phys]

lemma setTableEntry (htab : HasTable s.mem s.procs t i) (hj : j < 1024) {e : UInt32}
    (he : UserOrZero s.mem (entryFrame e)) :
    Serves { s with mem := s.mem.setEntry (tableOf s.mem t i) j e } t ∧
      SameTasks s { s with mem := s.mem.setEntry (tableOf s.mem t i) j e } := by
  refine h.of_mem (h.good.setTableEntry htab hj he) rfl (.of_eq rfl rfl) fun u hu => ?_
  refine @Good.view_eq _ (s.mem.setEntry (tableOf s.mem t i) j e) _ _ h.good rfl (fun a ha => ?_) _ hu
  have hout := ha _ (.table htab)
  refine Bytes.setU32_outside _ ?_
  simp only [pgSize] at hout
  omega

lemma setPteAt (htab : HasTable s.mem s.procs t i) (hj : j < 1024)
    (hdvd : pgSize ∣ f) (hlt : f < 2 ^ 32) (huser : s.mem.userPool.phyAddrStart ≤ f) :
    Serves (s.setPteAt (tableOf s.mem t i) j f) t ∧
      SameTasks s (s.setPteAt (tableOf s.mem t i) j f) := by
  rw [State.setPteAt, h.good.kernelTable_table htab]
  exact h.setTableEntry htab hj (by rw [entryFrame_mkEntry hdvd hlt]; exact .inr huser)

/-- The page is then found there. -/
lemma translate_setPteAt (htab : HasTable s.mem s.procs t i) (hj : j < 1024)
    (hdvd : pgSize ∣ f) (hlt : f < 2 ^ 32) :
    (s.setPteAt (tableOf s.mem t i) j f).translate s.cr3 ((1024 * i + j) * pgSize) = some f := by
  have htable := (h.good.struct_dvd (.table htab)).1
  have hdir := (h.good.struct_dvd h.isDir.isStruct).1
  have hi := htab.2.2.1
  have hidx : (1024 * i + j) * pgSize / 0x400000 = i := by
    simp only [pgSize]
    omega
  have hoff : (1024 * i + j) * pgSize / pgSize % 1024 = j := by
    rw [Nat.mul_div_cancel _ (by decide)]
    omega
  have hne : tableOf s.mem t i ≠ s.cr3 := h.cr3 ▸ h.good.table_ne_dir htab h.mem
  have hentry : (s.mem.setEntry (tableOf s.mem t i) j (mkEntry f)).entry s.cr3 i = s.mem.entry s.cr3 i := by
    rw [Memory.entry_setEntry _ htable hdir hj (by omega), if_neg fun heq => hne heq.1]
  have hpresent : entryPresent (s.mem.entry s.cr3 i) = true := h.cr3 ▸ htab.2.2.2
  have hframe : entryFrame (s.mem.entry s.cr3 i) = tableOf s.mem t i := by rw [h.cr3, tableOf]
  have hnew : (s.mem.setEntry (tableOf s.mem t i) j (mkEntry f)).entry (tableOf s.mem t i) j = mkEntry f := by
    rw [Memory.entry_setEntry _ htable htable hj hj, if_pos ⟨rfl, rfl⟩]
  simp only [State.setPteAt, h.good.kernelTable_table htab, State.translate, hidx, hoff, hentry, hpresent,
    hframe, State.pteAt, hnew, entryFrame_mkEntry hdvd hlt, entryPresent_mkEntry hdvd hlt, if_true,
    Nat.mul_mod_left, Nat.add_zero]

/-- The directory entry of the first kernel page is there, and its table is the one of `loader.s`. -/
lemma kernelEntry :
    entryPresent (s.mem.entry s.cr3 768) = true ∧ s.mem.seenTable s.cr3 768 = 0x101000 := by
  have hentry : s.mem.entry s.cr3 768 = loaderEntry 768 := (h.good.halfAt h.isDir).1 768 (by omega) le_rfl
  rw [h.good.seenTable h.isDir, hentry]
  exact ⟨by decide, by decide⟩

/-- `page_table_add` in the part of the user, and in the one page of the kernel that a scan for
several pages can reach. -/
lemma pageTableAdd (hpage : page ≤ kernelPage) (hdvd : pgSize ∣ f)
    (hlt : f < 2 ^ 32) (huser : s.mem.userPool.phyAddrStart ≤ f) :
    Serves (s.pageTableAdd page f) t ∧ SameTasks s (s.pageTableAdd page f) ∧
      (page < kernelPage → (s.pageTableAdd page f).translate s.cr3 (page * pgSize) = some f) := by
  have hcr3 : s.mem.seenDir s.cr3 = s.cr3 := h.good.seenDir h.isDir
  rcases Nat.lt_or_ge (page / 1024) 768 with hi | hi
  · -- first the table, then the entry
    obtain ⟨s1, hs1, hserves, hsame, htab⟩ : ∃ s1,
        (if entryPresent (s.mem.entry (s.mem.seenDir s.cr3) (page / 1024)) then s
          else s.addTable (page / 1024)) = s1 ∧ Serves s1 t ∧ SameTasks s s1 ∧
          HasTable s1.mem s1.procs t (page / 1024) := by
      split_ifs with hpresent
      · rw [hcr3] at hpresent
        exact ⟨s, rfl, h, .refl s, h.hasTable hi hpresent⟩
      · obtain ⟨⟨h1, h2⟩, h3⟩ := h.addTable hi
        exact ⟨_, rfl, h1, h2, h3⟩
    have huser1 : s1.mem.userPool.phyAddrStart ≤ f := by
      have hstart : s1.mem.userPool.phyAddrStart = s.mem.userPool.phyAddrStart := hsame.pools.start .user
      rwa [hstart]
    have hset := hserves.setPteAt htab (Nat.mod_lt page (by omega)) hdvd hlt huser1
    have htrans := hserves.translate_setPteAt htab (Nat.mod_lt page (by omega)) hdvd hlt
    rw [Nat.div_add_mod] at htrans
    simp only [State.pageTableAdd, hs1, hserves.seenTable]
    exact ⟨hset.1, hsame.trans hset.2, fun _ => hsame.cr3 ▸ htrans⟩
  · obtain rfl : page = kernelPage := by
      simp only [kernelPage] at hpage ⊢
      omega
    obtain ⟨hpresent, hseen⟩ := h.kernelEntry
    have hadd : s.pageTableAdd kernelPage f = { s with firstPte := ⟨f, true⟩ } := by
      have hidx : kernelPage / 1024 = 768 := by decide
      simp only [State.pageTableAdd, hidx, hcr3, hpresent, if_true, hseen]
      rfl
    rw [hadd]
    refine ⟨⟨h.good, .inr huser, h.mem, h.live, h.cr3⟩, ⟨rfl, rfl, rfl, rfl, rfl, rfl, .refl _, fun _ _ => rfl⟩, ?_⟩
    exact fun hlt => absurd hlt (lt_irrefl _)

/-- The loop of `malloc_page`. -/
lemma mapPages (hpage : page + cnt ≤ kernelPage + 1) :
    Serves (State.mapPages cnt s page).2 t ∧ SameTasks s (State.mapPages cnt s page).2 := by
  induction cnt generalizing s page with
  | zero => exact ⟨h, .refl s⟩
  | succ cnt ih =>
    simp only [State.mapPages]
    split
    · exact ⟨h, .refl s⟩
    · next frame m hpalloc =>
      obtain ⟨⟨h1, hsame1⟩, hdvd, hlt, huser⟩ := h.palloc hpalloc
      obtain ⟨h2, hsame2, -⟩ := h1.pageTableAdd (show page ≤ kernelPage by omega) hdvd hlt huser
      obtain ⟨h3, hsame3⟩ := ih h2 (show page + 1 + cnt ≤ kernelPage + 1 by omega)
      exact ⟨h3, (hsame1.trans hsame2).trans hsame3⟩

/-! ### The bitmap of the process -/

/-- `bitmap_set` at a bit of the pages of the bitmap. -/
lemma bitmapSet
    (hidx : bitIdx / 8 < vaddrBitmapPages * pgSize) (hs' : s.bitmapSet t bitIdx v = some s') :
    Serves s' t ∧ SameTasks s s' := by
  simp only [State.bitmapSet] at hs'
  split_ifs at hs'
  cases hs'
  have hlow : t.bits ≤ (t.bits * pgSize + bitIdx / 8) / pgSize := by
    simp only [pgSize]
    omega
  have hhigh : (t.bits * pgSize + bitIdx / 8) / pgSize < t.bits + vaddrBitmapPages := by
    simp only [pgSize] at hidx ⊢
    omega
  have hin : ∀ r < 1, (t.bits * pgSize + bitIdx / 8 + r) / pgSize = (t.bits * pgSize + bitIdx / 8) / pgSize := by simp
  have hpage := h.good.bits_page h.mem h.live hlow hhigh
  refine h.of_mem (h.good.store _ fun r hr => ?_) rfl (.of_eq rfl rfl) fun u hu => ?_
  · rw [hin r hr]
    exact hpage
  · -- the byte is in the bitmap, so not in a page the kernel has in hand
    have hview := (h.good.book.owns.store (n := 1) (fun _ => ((s.vaddrBitmap t).bitmapSet bitIdx v).bits
      (bitIdx / 8)) fun r hr => .inl (by rw [hin r hr]; exact hpage.1)).2.2 u
      (.inl (pagesOf_mono (fun b hb => mem_blocks_held hb) hu))
    rw [hview, if_neg fun hvu => ?_]
    obtain rfl : u = t.bits * pgSize + bitIdx / 8 := by omega
    obtain ⟨b, hb, hub⟩ := hu
    have hbits : (⟨t.bits, vaddrBitmapPages⟩ : Block) ∈ s.procs.flatMap UserTask.blocks :=
      mem_flatMap.mpr ⟨t, h.mem, by simp [UserTask.blocks, h.live]⟩
    have hapart := (pairwise_append.mp h.good.book.apart).2.2 b hb _ hbits
    exact Set.disjoint_left.mp hapart hub ⟨hlow, hhigh⟩

lemma setRun (hrun : start + cnt ≤ 8 * userBitmapLen + 1) (hs' : s.setRun t start v cnt = some s') :
    Serves s' t ∧ SameTasks s s' := by
  induction cnt generalizing s' with
  | zero =>
    cases hs'
    exact ⟨h, .refl s⟩
  | succ cnt ih =>
    obtain ⟨s1, hs1, hset⟩ := bind_eq_some_iff.mp hs'
    obtain ⟨h1, hsame1⟩ := ih (by omega) hs1
    have hpages : userBitmapLen < vaddrBitmapPages * pgSize := by decide
    obtain ⟨h2, hsame2⟩ := h1.bitmapSet (by omega) hset
    exact ⟨h2, hsame1.trans hsame2⟩

/-- `malloc_page(PF_USER, pg_cnt)`. -/
lemma mallocUser {r : Option Nat} (hs' : s.mallocUser t cnt = some (r, s')) :
    Serves s' t ∧ SameTasks s s' := by
  simp only [State.mallocUser] at hs'
  split at hs'
  · cases hs'
    exact ⟨h, .refl s⟩
  · next start hscan =>
    obtain ⟨s1, hs1, heq⟩ := map_eq_some_iff.mp hs'
    rcases Nat.eq_zero_or_pos cnt with rfl | hcnt
    · cases hs1
      cases heq
      exact ⟨h, .refl s⟩
    have hrun : start + cnt ≤ 8 * userBitmapLen + 1 := (Bitmap.bitmapScan_eq_some hscan hcnt).1
    obtain ⟨h1, hsame1⟩ := h.setRun hrun hs1
    have hpages : firstUserPage + 8 * userBitmapLen = kernelPage := by decide
    obtain ⟨h2, hsame2⟩ := h1.mapPages (show firstUserPage + start + cnt ≤ kernelPage + 1 by omega)
    have hs2 : s' = (State.mapPages cnt s1 (firstUserPage + start)).2 := by
      split at heq
      · next s2 hmap => rw [hmap]; exact (Prod.mk.inj heq).2.symm
      · next s2 hmap => rw [hmap]; exact (Prod.mk.inj heq).2.symm
    rw [hs2]
    exact ⟨h2, hsame1.trans hsame2⟩

lemma pfree (hf : UserOrZero s.mem f) :
    Serves { s with mem := s.mem.pfree f } t ∧ SameTasks s { s with mem := s.mem.pfree f } := by
  have hbits := s.mem.onlyBits_pfree f
  exact h.of_bits (h.good.book.pfree_userOrZero hf) hbits

end

lemma entryFrame_clear (e : UInt32) : entryFrame (.ofNat (e.toNat - e.toNat % 2)) = entryFrame e := by
  have hlt := e.toNat_lt
  simp only [entryFrame, UInt32.toNat_ofNat', pgSize]
  omega

variable (h : Serves s t)
include h

lemma clearPteAt (htab : HasTable s.mem s.procs t i) (hj : j < 1024) :
    Serves (s.clearPteAt (tableOf s.mem t i) j) t ∧ SameTasks s (s.clearPteAt (tableOf s.mem t i) j) := by
  rw [State.clearPteAt, h.good.kernelTable_table htab]
  exact h.setTableEntry htab hj (by rw [entryFrame_clear]; exact h.good.entries t i htab j hj)

/-- One round of the loop of `mfree_page`. -/
lemma unmapPage (hpage : page ≤ kernelPage) (hs' : s.unmapPage page = some s') :
    Serves s' t ∧ SameTasks s s' := by
  simp only [State.unmapPage, h.good.selfTable h.isDir] at hs'
  split_ifs at hs' with hpresent
  cases hs'
  rcases Nat.lt_or_ge (page / 1024) 768 with hi | hi
  · have htab := h.hasTable hi hpresent
    have hj : page % 1024 < 1024 := Nat.mod_lt page (by omega)
    obtain ⟨h1, hsame1⟩ := h.pfree (h.good.entries t _ htab _ hj)
    have hbits := s.mem.onlyBits_pfree (entryFrame (s.mem.entry (tableOf s.mem t (page / 1024)) (page % 1024)))
    have hclear := h1.clearPteAt ((hasTable_onlyBits hbits).mpr htab) hj
    rw [tableOf_onlyBits hbits] at hclear
    simp only [h.seenTable, State.pteAt, h.good.kernelTable_table htab]
    exact ⟨hclear.1, hsame1.trans hclear.2⟩
  · obtain rfl : page = kernelPage := by
      simp only [kernelPage] at hpage ⊢
      omega
    obtain ⟨-, hseen⟩ := h.kernelEntry
    have hidx : kernelPage / 1024 = 768 := by decide
    obtain ⟨h1, hsame1⟩ := h.pfree h.first
    rw [hidx, hseen]
    refine ⟨⟨h1.good, h1.first, h1.mem, h1.live, h1.cr3⟩, ⟨rfl, rfl, rfl, rfl, rfl, hsame1.pte, hsame1.pools,
      hsame1.view⟩⟩

/-- The loop of `mfree_page`. -/
lemma unmapPages (hpage : page + cnt ≤ kernelPage + 1)
    (hs' : State.unmapPages cnt s page = some s') : Serves s' t ∧ SameTasks s s' := by
  induction cnt generalizing s page with
  | zero =>
    obtain rfl := some.inj hs'
    exact ⟨h, .refl s⟩
  | succ cnt ih =>
    obtain ⟨s1, hs1, hrest⟩ := bind_eq_some_iff.mp hs'
    obtain ⟨h1, hsame1⟩ := h.unmapPage (by omega) hs1
    obtain ⟨h2, hsame2⟩ := ih h1 (by omega) hrest
    exact ⟨h2, hsame1.trans hsame2⟩

/-- `mfree_page(PF_USER, vaddr, pg_cnt)`. -/
lemma mfreeUser (hlow : firstUserPage ≤ page) (hpage : page + cnt ≤ kernelPage + 1)
    (hs' : s.mfreeUser t page cnt = some s') : Serves s' t ∧ SameTasks s s' := by
  obtain ⟨s1, hs1, hrun⟩ := bind_eq_some_iff.mp hs'
  have hpages : firstUserPage + 8 * userBitmapLen = kernelPage := by decide
  obtain ⟨h1, hsame1⟩ := h.unmapPages hpage hs1
  obtain ⟨h2, hsame2⟩ := h1.setRun (by omega) hrun
  exact ⟨h2, hsame1.trans hsame2⟩

/-- `get_a_page(PF_USER, vaddr)` at an address that has a bit in the bitmap. -/
lemma getAPage (hlow : userVaddrStart ≤ vaddr)
    (hhigh : vaddr < 0xc0000000) (hs' : s.getAPage t vaddr = some s') : Serves s' t ∧ SameTasks s s' := by
  obtain ⟨s1, hs1, heq⟩ := map_eq_some_iff.mp hs'
  have hidx : (vaddr + 2 ^ 32 - userVaddrStart) % 2 ^ 32 / pgSize / 8 < vaddrBitmapPages * pgSize := by
    have hpages : vaddrBitmapPages * pgSize = 94208 := by decide
    rw [hpages]
    simp only [userVaddrStart, pgSize] at hlow ⊢
    omega
  obtain ⟨h1, hsame1⟩ := h.bitmapSet hidx hs1
  split at heq
  · subst heq
    exact ⟨h1, hsame1⟩
  · next frame m hpalloc =>
    subst heq
    have hpage : vaddr / pgSize ≤ kernelPage := by
      simp only [pgSize, kernelPage]
      omega
    obtain ⟨⟨h2, hsame2⟩, hdvd, hlt, huser⟩ := h1.palloc hpalloc
    obtain ⟨h3, hsame3, -⟩ := h2.pageTableAdd hpage hdvd hlt huser
    exact ⟨h3, (hsame1.trans hsame2).trans hsame3⟩

end Serves

end PageDir

end SimpleOs
