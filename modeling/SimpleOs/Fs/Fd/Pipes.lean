import SimpleOs.Fs.Fd.Refs

/-!
# Counting the descriptors of a pipe

The `fd_pos` of a slot that holds a pipe counts the descriptors that refer to it. `sys_pipe` sets it
to 2 before it knows whether both descriptors can be installed, and `sys_lseek` takes it for a
position.
-/

namespace SimpleOs

open Base Function Option

/-! ### Slots and counts -/

/-- Nothing but pipes is open: a slot is in use if somebody refers to it, its `fd_pos` is the number
`r` of descriptors that do, and each buffer belongs to one slot. -/
structure PipesOnly (table : Nat → File) (pipe : Nat → Option UInt32) (r : Nat → Nat) : Prop where
  used : ∀ g, 0 < r g ↔ (table g).fdInode ≠ none
  slots : ∀ g b, (table g).fdInode = some b → g < maxFileOpen ∧ (table g).fdFlag = pipeFlag ∧
    (table g).fdPos.toNat = r g ∧ ∃ a, b = .page a ∧ pipe a ≠ none
  pages : ∀ a, pipe a ≠ none → ∃ g, (table g).fdInode = some (.page a)
  inj : ∀ g g' a, (table g).fdInode = some (.page a) → (table g').fdInode = some (.page a) → g = g'

namespace PipesOnly

variable {table : Nat → File} {pipe : Nat → Option UInt32}

variable (h : PipesOnly table pipe r)
include h

lemma exists_page (hr : 0 < r g) :
    ∃ a, (table g).fdInode = some (.page a) ∧ pipe a ≠ none ∧ (table g).fdFlag = pipeFlag ∧
      (table g).fdPos.toNat = r g ∧ g < maxFileOpen := by
  obtain ⟨b, hb⟩ := Option.ne_none_iff_exists'.mp ((h.used g).mp hr)
  obtain ⟨hlt, hflag, hpos, a, rfl, ha⟩ := h.slots g b hb
  exact ⟨a, hb, ha, hflag, hpos, hlt⟩

/-- A slot keeps its pipe, and the count follows the descriptors. -/
lemma setPos (hr : 0 < r g) (hn : 0 < n) (hpos : pos.toNat = n) :
    PipesOnly (update table g { table g with fdPos := pos }) pipe (update r g n) := by
  have hinode : ∀ g', (update table g { table g with fdPos := pos } g').fdInode =
      (table g').fdInode := by
    intro g'
    by_cases hg : g' = g
    · simp [hg]
    · simp [hg]
  refine ⟨fun g' => ?_, fun g' b hb => ?_, fun a ha => ?_, fun g1 g2 a h1 h2 => ?_⟩
  · by_cases hg : g' = g
    · subst hg
      simpa [hn] using (h.used g').mp hr
    · simpa [hg] using h.used g'
  · rw [hinode] at hb
    obtain ⟨hlt, hflag, hcount, hpage⟩ := h.slots g' b hb
    by_cases hg : g' = g
    · subst hg
      simpa [hpos] using ⟨hlt, hflag, hpage⟩
    · simpa [hg] using ⟨hlt, hflag, hcount, hpage⟩
  · simpa only [hinode] using h.pages a ha
  · rw [hinode] at h1 h2
    exact h.inj g1 g2 a h1 h2

/-- The last descriptor goes, and with it the page. -/
lemma free (hg : (table g).fdInode = some (.page a)) (hfile : file.fdInode = none) :
    PipesOnly (update table g file) (update pipe a none) (update r g 0) := by
  have hself : ∀ g' b, (update table g file g').fdInode = some b → g' ≠ g := by
    rintro g' b hb rfl
    simp [hfile] at hb
  refine ⟨fun g' => ?_, fun g' b hb => ?_, fun a' ha' => ?_, fun g1 g2 a' h1 h2 => ?_⟩
  · by_cases hg' : g' = g
    · simp [hg', hfile]
    · simpa [hg'] using h.used g'
  · have hne := hself g' b hb
    rw [update_of_ne hne] at hb ⊢
    obtain ⟨hlt, hflag, hcount, a', rfl, ha'⟩ := h.slots g' b hb
    have haa : a' ≠ a := fun heq => hne (h.inj g' g a (heq ▸ hb) hg)
    exact ⟨hlt, hflag, by simpa [hne] using hcount, a', rfl, by simpa [haa] using ha'⟩
  · have haa : a' ≠ a := by
      rintro rfl
      simp at ha'
    rw [update_of_ne haa] at ha'
    obtain ⟨g', hg'⟩ := h.pages a' ha'
    have hne : g' ≠ g := by
      rintro rfl
      exact haa (FdPtr.page.inj (some.inj (hg'.symm.trans hg)))
    exact ⟨g', by simpa [hne] using hg'⟩
  · rw [update_of_ne (hself g1 _ h1)] at h1
    rw [update_of_ne (hself g2 _ h2)] at h2
    exact h.inj g1 g2 a' h1 h2

lemma make (hlt : g < maxFileOpen) (hg : (table g).fdInode = none) (ha : pipe a = none) :
    PipesOnly (update table g ⟨2, pipeFlag, some (.page a)⟩)
      (update pipe a (some word)) (update r g 2) := by
  have hold : ∀ g' a', (table g').fdInode = some (.page a') → g' ≠ g ∧ a' ≠ a := by
    intro g' a' hg'
    obtain ⟨-, -, -, a'', heq, ha''⟩ := h.slots g' _ hg'
    obtain rfl := FdPtr.page.inj heq
    constructor
    · rintro rfl
      rw [hg] at hg'
      cases hg'
    · rintro rfl
      exact ha'' ha
  refine ⟨fun g' => ?_, fun g' b hb => ?_, fun a' ha' => ?_, ?_⟩
  · by_cases hg' : g' = g
    · simp [hg']
    · simpa [hg'] using h.used g'
  · by_cases hg' : g' = g
    · subst hg'
      simp only [update_self, Option.some.injEq] at hb ⊢
      subst hb
      exact ⟨hlt, trivial, rfl, a, rfl, by simp⟩
    · rw [update_of_ne hg'] at hb ⊢
      obtain ⟨hlt', hflag, hcount, a', rfl, ha'⟩ := h.slots g' b hb
      have haa := (hold g' a' hb).2
      exact ⟨hlt', hflag, by simpa [hg'] using hcount, a', rfl, by simpa [haa] using ha'⟩
  · by_cases haa : a' = a
    · exact ⟨g, by simp [haa]⟩
    · rw [update_of_ne haa] at ha'
      obtain ⟨g', hg'⟩ := h.pages a' ha'
      exact ⟨g', by simpa [(hold g' a' hg').1] using hg'⟩
  · refine unique_of_fresh g h.inj (fun g' a' hne hg' => by rwa [update_of_ne hne] at hg') fun g' a' hnew hg' => ?_
    simp only [update_self, Option.some.injEq, FdPtr.page.injEq] at hnew
    exact absurd hnew.symm (hold g' a' hg').2

lemma setPage (hg : (table g).fdInode = some (.page a)) (word : UInt32) :
    PipesOnly table (update pipe a (some word)) r := by
  refine ⟨h.used, fun g' b hb => ?_, fun a' ha' => ?_, h.inj⟩
  · obtain ⟨hlt, hflag, hcount, a', rfl, ha'⟩ := h.slots g' b hb
    refine ⟨hlt, hflag, hcount, a', rfl, ?_⟩
    by_cases haa : a' = a
    · simp [haa]
    · simpa [haa] using ha'
  · by_cases haa : a' = a
    · exact ⟨g, haa ▸ hg⟩
    · rw [update_of_ne haa] at ha'
      exact h.pages a' ha'

end PipesOnly

namespace FdState

variable {s s' : FdState} {D : Finset (Nat × Nat)} {x : Nat × Nat} {p fd : Nat}

/-- The counts are right, and a page is a buffer as long as somebody refers to its pipe. -/
structure PipesCounted (s : FdState) : Prop where
  count : ∀ g < maxFileOpen, s.isPipe g = true → (s.fileTable g).fdInode ≠ none →
    (s.fileTable g).fdPos.toNat = s.refs s.live g
  pages : ∀ a, s.pipe a ≠ none ↔ ∃ g < maxFileOpen, s.isPipe g = true ∧
    (s.fileTable g).fdInode = some (.page a) ∧ 0 < s.refs s.live g

lemma pipesCounted_of_pipesOnly (h : PipesOnly s.fileTable s.pipe (s.refs s.live)) :
    s.PipesCounted where
  count := by
    intro g _ _ hne
    obtain ⟨b, hb⟩ := Option.ne_none_iff_exists'.mp hne
    exact (h.slots g b hb).2.2.1
  pages := by
    intro a
    refine ⟨fun ha => ?_, fun ⟨g, _, _, hg, _⟩ => ?_⟩
    · obtain ⟨g, hg⟩ := h.pages a ha
      obtain ⟨hlt, hflag, -, -⟩ := h.slots g _ hg
      exact ⟨g, hlt, isPipe_iff.mpr hflag, hg, (h.used g).mpr (by simp [hg])⟩
    · obtain ⟨-, -, -, a', heq, ha'⟩ := h.slots g _ hg
      obtain rfl : a = a' := FdPtr.page.inj heq
      exact ha'

/-- Only pipes are open, and the descriptors in `D` are counted; there are no more of them than the
pids allow; and the word at the place of `i_size` in a page is the value of its lock's semaphore. -/
structure PipeInv (s : FdState) (D : Finset (Nat × Nat)) : Prop where
  only : PipesOnly s.fileTable s.pipe (s.refs D)
  within : D ⊆ pids ×ˢ Finset.Ico 3 8
  words : ∀ a w, s.pipe a = some w → w.toNat ≤ 1

/-! ### One descriptor less, one descriptor more -/

lemma pipesOnly_dropPipe (h : PipesOnly s.fileTable s.pipe r) (hr : 0 < r g)
    (hdrop : s.dropPipe g = some s') :
    PipesOnly s'.fileTable s'.pipe (update r g (r g - 1)) := by
  obtain ⟨a, hpage, -, -, hpos, -⟩ := h.exists_page hr
  have hsub := toNat_sub_one (hpos ▸ hr)
  simp only [dropPipe] at hdrop
  split_ifs at hdrop with hlast
  · simp only [hpage, Option.some.injEq] at hdrop
    subst hdrop
    have hzero : r g - 1 = 0 := by rw [← hpos, ← hsub, hlast, UInt32.toNat_zero]
    rw [hzero]
    exact h.free hpage rfl
  · cases hdrop
    refine h.setPos hr ?_ (hsub.trans (by rw [hpos]))
    refine Nat.pos_of_ne_zero fun hzero => hlast ?_
    rw [← UInt32.toNat_inj, hsub, hpos, hzero, UInt32.toNat_zero]

lemma pipe_dropPipe (h : s.dropPipe g = some s') (hw : s'.pipe a = some w) : s.pipe a = some w := by
  simp only [dropPipe] at h
  split_ifs at h
  · split at h
    · rename_i b hb
      cases h
      by_cases hab : a = b
      · simp [hab] at hw
      · simpa [hab] using hw
    · cases h
  · cases h
    exact hw

lemma pipesOnly_closeSlot (h : PipesOnly s.fileTable s.pipe r) (hr : 0 < r g)
    (hclose : (if s.isPipe g then s.dropPipe g else s.fileClose p g) = some s') :
    PipesOnly s'.fileTable s'.pipe (update r g (r g - 1)) ∧
      ∀ a w, s'.pipe a = some w → s.pipe a = some w := by
  obtain ⟨-, -, -, hflag, -⟩ := h.exists_page hr
  rw [if_pos (isPipe_iff.mpr hflag)] at hclose
  exact ⟨pipesOnly_dropPipe h hr hclose, fun _ _ hw => pipe_dropPipe hclose hw⟩

/-- A round of the loop in `sys_exit`. -/
lemma PipeInv.releaseFd (h : s.PipeInv D) (hfd : fd ∈ Finset.Ico 3 8) (hx : (p, fd) ∈ D)
    (hrelease : s.releaseFd p fd = some s') : s'.PipeInv (D.erase (p, fd)) := by
  have hrefs : s'.refs (D.erase (p, fd)) = s.refs (D.erase (p, fd)) :=
    refs_congr fun x hx => (sameFdsBut_releaseFd hfd hrelease).fdTable x (Finset.ne_of_mem_erase hx)
  have hwithin := (Finset.erase_subset (p, fd) D).trans h.within
  obtain ⟨hnone, rfl⟩ | ⟨g, s1, hg, hs1, hs'⟩ := releaseFd_eq_some hfd hrelease
  · refine ⟨?_, hwithin, h.words⟩
    rw [refs_erase_of_none (x := (p, fd)) hnone]
    exact h.only
  · obtain ⟨h1, hwords⟩ := pipesOnly_closeSlot h.only (refs_pos hx hg) hs1
    rw [refs_erase hx hg] at hrefs
    obtain rfl | rfl := hs'
    · exact ⟨hrefs ▸ h1, hwithin, fun a w hw => h.words a w (hwords a w hw)⟩
    · exact ⟨hrefs ▸ h1, hwithin, fun a w hw => h.words a w (hwords a w hw)⟩

lemma PipeInv.sysClose {fd : Int} {o : Option Nat} (h : s.PipeInv s.live) (hp : p ∈ s.procs)
    (hclose : s.sysClose p fd = some (o, s')) : s'.PipeInv s'.live := by
  by_cases hfd : 2 < fd
  · obtain ⟨g, s1, hmem, hg, hs1, rfl⟩ := sysClose_eq_some hfd hclose
    have hsame := sameFds_closeSlot hs1
    have hlive : (s1.setFd p fd.toNat none).live = s.live := by
      show s1.procs ×ˢ _ = s.procs ×ˢ _
      rw [hsame.procs]
    have hx : (p, fd.toNat) ∈ s.live := mem_live.mpr ⟨hp, hmem⟩
    obtain ⟨h1, hwords⟩ := pipesOnly_closeSlot h.only (refs_pos hx hg) hs1
    refine ⟨?_, hlive ▸ h.within, fun a w hw => h.words a w (hwords a w hw)⟩
    rw [hlive, refs_setFd_none hsame.fdTable, refs_erase hx hg]
    exact h1
  · rw [FdState.sysClose, if_neg hfd] at hclose
    cases hclose
    exact h

/-- A round of the loop in `sys_fork`. -/
lemma PipeInv.shareFd (h : s.PipeInv D) (hpid : child ∈ pids)
    (hp : (p, fd) ∈ D) (hchild : (child, fd) ∉ D) (hcopy : s.fdTable child fd = s.fdTable p fd)
    (hshare : s.shareFd p fd = some s') : s'.PipeInv (insert (child, fd) D) := by
  have hrefs : s'.refs (insert (child, fd) D) = s.refs (insert (child, fd) D) :=
    refs_congr fun x _ => by rw [(sameFds_shareFd hshare).fdTable]
  have hpair := h.within hp
  rw [Finset.mem_product] at hpair
  have hwithin : insert (child, fd) D ⊆ pids ×ˢ Finset.Ico 3 8 :=
    Finset.insert_subset (by rw [Finset.mem_product]; exact ⟨hpid, hpair.2⟩) h.within
  simp only [FdState.shareFd] at hshare
  cases hg : s.fdTable p fd with
  | none =>
    simp only [hg, Option.some.injEq] at hshare
    subst hshare
    refine ⟨?_, hwithin, h.words⟩
    rw [refs_insert_of_none (x := (child, fd)) (hcopy.trans hg)]
    exact h.only
  | some g =>
    have hr := refs_pos hp hg
    obtain ⟨a, hpage, -, hflag, hpos, -⟩ := h.only.exists_page hr
    simp only [hg, if_pos (isPipe_iff.mpr hflag), Option.some.injEq] at hshare
    subst hshare
    refine ⟨?_, hwithin, h.words⟩
    rw [hrefs, refs_insert hchild (hcopy.trans hg)]
    refine h.only.setPos hr (Nat.succ_pos _) ?_
    have hle := (refs_le_card (s := s) (g := g)).trans (card_le_of_subset h.within)
    rw [UInt32.toNat_add, hpos]
    exact Nat.mod_eq_of_lt (by simp only [UInt32.toNat_one]; omega)

lemma PipeInv.sysFork (h : s.PipeInv s.live) (hp : p ∈ s.procs) (hchild : child ∉ s.procs)
    (hpid : child ∈ pids) (hfork : s.sysFork p child = some s') : s'.PipeInv s'.live := by
  have hcopy : (s.copyProcess p child).PipeInv s.live := by
    have hrefs : (s.copyProcess p child).refs s.live = s.refs s.live :=
      refs_congr fun x hx => by
        have hne : x.1 ≠ child := fun heq => hchild (heq ▸ (mem_live.mp hx).1)
        simp [copyProcess, hne]
    exact ⟨hrefs ▸ h.only, h.within, h.words⟩
  exact (sysFork_induction PipeInv (fun _ _ _ h => ⟨h.only, h.within, h.words⟩)
    (fun _ _ _ _ h hp hc hcopy hs => h.shareFd hpid hp hc hcopy hs) hp hchild hcopy hfork).1

lemma PipeInv.sysExit (h : s.PipeInv s.live) (hp : p ∈ s.procs) (hexit : s.sysExit p = some s') :
    s'.PipeInv s'.live :=
  (sysExit_induction PipeInv (fun _ _ _ h => ⟨h.only, h.within, h.words⟩)
    (fun _ _ _ _ h hfd hx hs => h.releaseFd hfd hx hs) hp h hexit).1

/-! ### Steps -/

/-- The count is set to 2 and grows by as many descriptors as there is room for. -/
lemma sysPipe_spec (hp : p ∈ s.procs) (h : s.sysPipe p page = some o) :
    ∃ g < maxFileOpen, (s.fileTable g).fdInode = none ∧ s.pipe page = none ∧
      o.2.2.fileTable = update s.fileTable g ⟨2, pipeFlag, some (.page page)⟩ ∧
      o.2.2.pipe = update s.pipe page (some 1) ∧ o.2.2.procs = s.procs ∧
      o.2.2.refs s.live =
        update (s.refs s.live) g (s.refs s.live g + min 2 (s.freeFds p).card) := by
  obtain ⟨g, s1, hlt, hfree, hpage, hs1, ho⟩ := sysPipe_eq_some h
  have hp1 : p ∈ s1.procs := by rw [hs1]; exact hp
  have hlive1 : s1.live = s.live := by rw [hs1]; rfl
  have hrefs1 : s1.refs s.live = s.refs s.live := by rw [hs1]; rfl
  have hfree1 : s1.freeFds p = s.freeFds p := by rw [hs1]; rfl
  set s2 := (s1.pcbFdInstall p g).2 with hs2
  have hinst1 := installed_pcbFdInstall s1 p g
  have hinst2 := installed_pcbFdInstall s2 p g
  have hlive2 : s2.live = s.live := by rw [← hlive1, live, hinst1.procs]; rfl
  refine ⟨g, hlt, hfree, hpage, ?_, ?_, ?_, ?_⟩
  · rw [ho, hinst2.fileTable, hinst1.fileTable, hs1]
    rfl
  · rw [ho, hinst2.pipe, hinst1.pipe, hs1]
    rfl
  · rw [ho, hinst2.procs, hinst1.procs, hs1]
    rfl
  · have h1 := refs_pcbFdInstall hp1 g
    have h2 := refs_pcbFdInstall (s := s2) (by rw [hinst1.procs]; exact hp1) g
    rw [hlive1, ← hs2, hfree1, hrefs1] at h1
    rw [hlive2] at h2
    rw [ho]
    split_ifs at h1 with hnone
    · -- the process has no room
      have hzero : (s.freeFds p).card = 0 := by rw [hnone, Finset.card_empty]
      have hnone2 : s2.freeFds p = ∅ := by rw [h1, hfree1, hnone]
      rw [if_pos hnone2] at h2
      rw [h2, h1, hrefs1, hzero]
      simp
    · split_ifs at h2 with hnone2
      · -- it has room for one
        have hone : (s.freeFds p).card = 1 := by rw [← h1.2, hnone2, Finset.card_empty]
        rw [h2, h1.1, hone]
        rfl
      · have htwo : 2 ≤ (s.freeFds p).card := by
          omega
        rw [h2.1, h1.1, min_eq_left htwo]
        simp

/-- `sys_pipe` of a process that has room for two descriptors. -/
lemma PipeInv.sysPipe (h : s.PipeInv s.live)
    (hp : p ∈ s.procs) (hroom : 2 ≤ (s.freeFds p).card) (hpipe : s.sysPipe p page = some o) :
    o.2.2.PipeInv o.2.2.live := by
  obtain ⟨g, hlt, hfree, hpage, htable, hpages, hprocs, hrefs⟩ := sysPipe_spec hp hpipe
  have hzero : s.refs s.live g = 0 :=
    Nat.eq_zero_of_not_pos fun hpos => (h.only.used g).mp hpos hfree
  have hlive : o.2.2.live = s.live := by rw [live, hprocs]; rfl
  refine ⟨?_, hlive ▸ h.within, fun a w hw => ?_⟩
  · rw [hlive, hrefs, htable, hpages, hzero, min_eq_left hroom]
    exact h.only.make hlt hfree hpage
  · rw [hpages] at hw
    by_cases ha : a = page
    · rw [ha, update_self] at hw
      cases hw
      exact Nat.le_refl 1
    · rw [update_of_ne ha] at hw
      exact h.words a w hw

/-- Without room for two, it leaves a count of 2 for fewer descriptors. -/
lemma PipeInv.not_counted_of_sysPipe
    (h : s.PipeInv s.live) (hp : p ∈ s.procs) (hroom : ¬2 ≤ (s.freeFds p).card)
    (hpipe : s.sysPipe p page = some o) : ¬o.2.2.PipesCounted := by
  intro hcounted
  obtain ⟨g, hlt, hfree, hpage, htable, -, hprocs, hrefs⟩ := sysPipe_spec hp hpipe
  have hzero : s.refs s.live g = 0 :=
    Nat.eq_zero_of_not_pos fun hpos => (h.only.used g).mp hpos hfree
  have hlive : o.2.2.live = s.live := by rw [live, hprocs]; rfl
  have hslot : o.2.2.fileTable g = ⟨2, pipeFlag, some (.page page)⟩ := by simp [htable]
  have hcount := hcounted.count g hlt (isPipe_iff.mpr (by rw [hslot])) (by rw [hslot]; simp)
  rw [hslot, hlive, hrefs, update_self] at hcount
  have htwo : (2 : UInt32).toNat = 2 := rfl
  simp only [htwo] at hcount
  omega

/-- `sys_lseek` returns -1, or sets the position to one in the file. -/
lemma sysLseek_eq_some {fd offset : Int} (h : s.sysLseek p fd offset whence = some (o, s')) :
    (o = none ∧ s' = s) ∨ ∃ g b size pos, s.fdLocal2global p fd = some g ∧
      (s.fileTable g).fdInode = some b ∧ s.sizeWord p b = some size ∧ 0 ≤ pos ∧
      pos ≤ int32 size.toNat - 1 ∧ o = some (UInt32.ofNat pos.toNat) ∧
      s' = s.setSlot g { s.fileTable g with fdPos := UInt32.ofNat pos.toNat } := by
  rw [sysLseek] at h
  split_ifs at h with hneg
  · cases h
    exact .inl ⟨rfl, rfl⟩
  · obtain ⟨g, hg, h⟩ := bind_eq_some_iff.mp h
    obtain ⟨b, hb, h⟩ := bind_eq_some_iff.mp h
    obtain ⟨size, hsize, h⟩ := map_eq_some_iff.mp h
    simp only at h
    split_ifs at h with hrange
    · cases h
      exact .inl ⟨rfl, rfl⟩
    · cases h
      rw [not_or, Int.not_lt, Int.not_lt] at hrange
      exact .inr ⟨g, b, size, _, hg, hb, hsize, hrange.1, hrange.2, rfl, rfl⟩

variable (h : s.PipeInv s.live)
include h

/-- A position in the file, on a pipe, is 0, which is not the count. -/
lemma PipeInv.not_counted_of_sysLseek {fd offset : Int}
    (hseek : s.sysLseek p fd offset whence = some (some pos, s')) :
    (∃ g, s.fdLocal2global p fd = some g ∧ s.isPipe g = true) ∧ ¬s'.PipesCounted := by
  obtain ⟨hnone, -⟩ | ⟨g, b, size, n, hg, hb, hsize, hn, hle, -, rfl⟩ := sysLseek_eq_some hseek
  · cases hnone
  obtain ⟨hlt, hflag, hpos, a, rfl, -⟩ := h.only.slots g b hb
  refine ⟨⟨g, hg, isPipe_iff.mpr hflag⟩, fun hcounted => ?_⟩
  have hused : 0 < s.refs s.live g := (h.only.used g).mpr (by simp [hb])
  have hword := h.words a size hsize
  have hzero : n.toNat = 0 := by
    have hint : int32 size.toNat = size.toNat := by
      refine Int.bmod_eq_of_le ?_ ?_
      · omega
      · omega
    omega
  have hcount := hcounted.count g hlt (isPipe_iff.mpr (by simpa [setSlot] using hflag))
    (by simp [setSlot, hb])
  have hlive : (s.setSlot g { s.fileTable g with fdPos := UInt32.ofNat n.toNat }).refs
      (s.setSlot g { s.fileTable g with fdPos := UInt32.ofNat n.toNat }).live g = s.refs s.live g := rfl
  rw [hlive, hzero] at hcount
  simp only [setSlot, update_self] at hcount
  have : (UInt32.ofNat 0).toNat = 0 := rfl
  omega

/-- The lock of a pipe has been taken or released. -/
lemma PipeInv.setPipe (hset : s.setPipe g locked = some s') : s'.PipeInv s'.live := by
  simp only [FdState.setPipe] at hset
  split at hset
  · rename_i a ha
    cases hset
    refine ⟨h.only.setPage ha _, h.within, fun a' w hw => ?_⟩
    by_cases haa : a' = a
    · rw [haa] at hw
      simp only [update_self, Option.some.injEq] at hw
      subst hw
      cases locked <;> decide
    · simp only [update_of_ne haa] at hw
      exact h.words a' w hw
  · cases hset

lemma PipeInv.fdInode_eq_none (hg : ¬s.isPipe g = true) : (s.fileTable g).fdInode = none := by
  by_contra hne
  obtain ⟨b, hb⟩ := Option.ne_none_iff_exists'.mp hne
  exact hg (isPipe_iff.mpr (h.only.slots g b hb).2.1)

lemma PipeInv.sysRead {fd : Int}
    (hread : s.sysRead p fd pos locked = some s') : s'.PipeInv s'.live := by
  rw [FdState.sysRead] at hread
  split_ifs at hread
  · cases hread
    exact h
  · obtain ⟨g, -, hread⟩ := bind_eq_some_iff.mp hread
    split_ifs at hread with hpipe
    · exact h.setPipe hread
    · rw [h.fdInode_eq_none hpipe] at hread
      cases hread

lemma PipeInv.sysWrite {fd : Int}
    (hwrite : s.sysWrite p fd pos size locked = some s') : s'.PipeInv s'.live := by
  rw [FdState.sysWrite] at hwrite
  split_ifs at hwrite
  · cases hwrite
    exact h
  · obtain ⟨g, -, hwrite⟩ := bind_eq_some_iff.mp hwrite
    split_ifs at hwrite with hpipe
    · exact h.setPipe hwrite
    · rw [h.fdInode_eq_none hpipe] at hwrite
      cases hwrite
    · cases hwrite
      exact h

end FdState

/-! ### Runs -/

/-- The calls by which processes use pipes; no file is opened. -/
def FdAct.OnPipes : FdAct → Prop
  | .sysOpen .. => False
  | _ => True

/-- A process that makes a pipe has room for its two descriptors, and `sys_lseek` fails on a pipe. -/
def PipeSafe (s : FdState) : FdAct → Prop
  | .sysPipe p _ => 2 ≤ (s.freeFds p).card
  | .sysLseek p fd offset whence => ∀ g, s.fdLocal2global p fd = some g → s.isPipe g = true →
      ∀ o s', s.sysLseek p fd offset whence = some (o, s') → o = none
  | _ => True

/-- A call on pipes keeps the invariant if it is safe, and spoils the counts if it is not. -/
lemma FdState.PipeInv.step (h : s.PipeInv s.live) (ha : a.OnPipes) (hstep : fdSystem.step s a s') :
    (PipeSafe s a → s'.PipeInv s'.live) ∧ (¬PipeSafe s a → ¬s'.PipesCounted) := by
  obtain ⟨⟨hcaller, hguard⟩, hexec⟩ := hstep
  have hsafe : s'.PipeInv s'.live → PipeSafe s a →
      (PipeSafe s a → s'.PipeInv s'.live) ∧ (¬PipeSafe s a → ¬s'.PipesCounted) :=
    fun h' hs => ⟨fun _ => h', fun hns => absurd hs hns⟩
  cases a with
  | sysOpen => exact absurd ha id
  | sysClose p fd =>
    obtain ⟨⟨o, s1⟩, hclose, rfl⟩ := map_eq_some_iff.mp hexec
    exact hsafe (h.sysClose hcaller hclose) trivial
  | sysFork p child =>
    exact hsafe (h.sysFork hcaller hguard.2.1 hguard.2.2 hexec) trivial
  | sysExit p => exact hsafe (h.sysExit hcaller hexec) trivial
  | sysPipe p page =>
    obtain ⟨o, hpipe, rfl⟩ := map_eq_some_iff.mp hexec
    exact ⟨fun hroom => h.sysPipe hcaller hroom hpipe,
      fun hroom => h.not_counted_of_sysPipe hcaller hroom hpipe⟩
  | sysLseek p fd offset whence =>
    obtain ⟨⟨o, s1⟩, hseek, rfl⟩ := map_eq_some_iff.mp hexec
    cases o with
    | none =>
      obtain ⟨-, rfl⟩ | ⟨_, _, _, _, _, _, _, _, _, hsome, _⟩ := FdState.sysLseek_eq_some hseek
      · refine hsafe h fun g _ _ o s'' hseek' => ?_
        exact (Prod.mk.inj (some.inj (hseek'.symm.trans hseek))).1
      · cases hsome
    | some pos =>
      obtain ⟨⟨g, hg, hpipe⟩, hnot⟩ := h.not_counted_of_sysLseek hseek
      exact ⟨fun hs => absurd (hs g hg hpipe _ _ hseek) (by simp), fun _ => hnot⟩
  | sysRead p fd pos locked => exact hsafe (h.sysRead hexec) trivial
  | sysWrite p fd pos size locked => exact hsafe (h.sysWrite hexec) trivial

lemma FdState.pipeInv_of_init (h : fdSystem.init s) : s.PipeInv s.live := by
  obtain ⟨hslots, hfds, hprocs, -, -, -, hpipe, -⟩ := h
  have hrefs : ∀ g, s.refs s.live g = 0 := by
    refine fun g => Nat.eq_zero_of_not_pos fun hpos => ?_
    obtain ⟨x, hx, hg⟩ := refs_pos_iff.mp hpos
    rw [hfds x.1 x.2 (mem_live.mp hx).2] at hg
    cases hg
  refine ⟨⟨fun g => ?_, fun g b hb => ?_, fun a ha => absurd (hpipe a) ha, fun g g' a hg => ?_⟩,
    Finset.product_subset_product_left hprocs, fun a w hw => ?_⟩
  · simp [hrefs, hslots]
  · rw [hslots] at hb
    cases hb
  · rw [hslots] at hg
    cases hg
  · rw [hpipe] at hw
    cases hw

/-- As long as every process that makes a pipe has room for two descriptors and `sys_lseek` is not used
with success on a pipe, `fd_pos` of each pipe is the number of the descriptors that refer to it, and its
page is in use as long as that number is positive; and the first call that is not so ends it. -/
theorem pipes_counted_of_reachable {s : FdState}
    (h : fdSystem.Reachable (fun s a => a.OnPipes ∧ PipeSafe s a) s) :
    s.PipesCounted ∧
      ∀ a s', a.OnPipes → fdSystem.step s a s' → (s'.PipesCounted ↔ PipeSafe s a) := by
  have hinv : s.PipeInv s.live := h.invariant (fun s => s.PipeInv s.live)
    (fun _ => FdState.pipeInv_of_init) (fun _ _ _ hs hok hstep => (hs.step hok.1 hstep).1 hok.2)
  refine ⟨FdState.pipesCounted_of_pipesOnly hinv.only, fun a s' ha hstep => ?_⟩
  obtain ⟨hsafe, hunsafe⟩ := hinv.step ha hstep
  exact ⟨fun hcounted => by_contra fun hns => hunsafe hns hcounted,
    fun hs => FdState.pipesCounted_of_pipesOnly (hsafe hs).only⟩

/-- The init process makes a pipe and forks: four descriptors refer to it. -/
theorem pipes_counted_fork :
    ∃ s : FdState, (s.fileTable 3).fdPos = 4 ∧ s.refs s.live 3 = 4 ∧ s.PipesCounted := by
  have hrun : ((FdState.play (fun s a => match a with
        | .sysPipe p _ => decide (2 ≤ (s.freeFds p).card)
        | .sysFork .. => true
        | _ => false) [.sysPipe 1 100, .sysFork 1 2]).map
      fun s => ((s.fileTable 3).fdPos, s.refs s.live 3)) = some (4, 4) := by decide +kernel
  obtain ⟨s, hs, hrun⟩ := map_eq_some_iff.mp hrun
  obtain ⟨hpos, hrefs⟩ := Prod.mk.inj hrun
  refine ⟨s, hpos, hrefs, (pipes_counted_of_reachable (reachable_of_fdPlay (fun s a hok => ?_) hs)).1⟩
  cases a with
  | sysPipe p page =>
    have hroom : 2 ≤ (s.freeFds p).card := of_decide_eq_true hok
    exact ⟨trivial, hroom⟩
  | sysFork p child => exact ⟨trivial, trivial⟩
  | sysOpen | sysClose | sysExit | sysLseek | sysRead | sysWrite => cases hok

/-- A process with four descriptors makes a third pipe: one descriptor is installed, and the count
is 2. -/
theorem not_pipes_counted_of_full_table :
    ¬∀ s, fdSystem.Reachable (fun _ a => a.OnPipes) s → s.PipesCounted := by
  intro hall
  have hrun : ((FdState.play (fun _ a => match a with
        | .sysPipe .. => true
        | _ => false) [.sysPipe 1 100, .sysPipe 1 101, .sysPipe 1 102]).map
      fun s => (s.isPipe 5, (s.fileTable 5).fdInode.isSome, (s.fileTable 5).fdPos, s.refs s.live 5)) =
      some (true, true, 2, 1) := by decide +kernel
  obtain ⟨s, hs, hrun⟩ := map_eq_some_iff.mp hrun
  simp only [Prod.mk.injEq] at hrun
  obtain ⟨hpipe, hsome, hpos, hrefs⟩ := hrun
  have hcounted := hall s (reachable_of_fdPlay (fun s a hok => by
    cases a with
    | sysPipe p page => exact trivial
    | sysOpen | sysFork | sysClose | sysExit | sysLseek | sysRead | sysWrite => cases hok) hs)
  have hcount := hcounted.count 5 (by decide) hpipe (by simpa [Option.isSome_iff_ne_none] using hsome)
  rw [hpos, hrefs] at hcount
  exact absurd hcount (by decide)

end SimpleOs
