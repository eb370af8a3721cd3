import SimpleOs.Fs.Fd.Slots

/-!
# Descriptors stay valid

`file_close` frees the slot of a regular file, whoever else refers to it after a fork. As long as a
regular file is closed only through the last descriptor of its slot, every descriptor refers to the
file or pipe that it was opened on.
-/

namespace SimpleOs

open Base Function Option Finset

namespace FdState

/-- What the pointer in a slot must lead process `p` to. -/
def Denotes (s : FdState) (p : Nat) : FdPtr → Target → Prop
  | .inode a, .inode iNo => ∃ i, (s.cache p).inode a = some i ∧ i.iNo = iNo
  | .page a, .pipe a' => a = a' ∧ s.pipe a ≠ none
  | _, _ => False

/-- Every descriptor of a live process refers to a slot that is in use and that still holds the opening
the descriptor was made for. -/
def DescriptorsValid (s : FdState) : Prop :=
  ∀ p ∈ s.procs, ∀ fd ∈ Finset.Ico 3 8, ∀ g, s.fdTable p fd = some g →
    ∃ b, (s.fileTable g).fdInode = some b ∧ s.slotOpening g = s.opened p fd ∧
      s.Denotes p b (s.opened p fd).target

/-- The slots are right for the descriptors in `D`, which agree with them on what is open; and all
inodes are the kernel's. -/
structure FdInv (s : FdState) (D : Finset (Nat × Nat)) : Prop where
  slots : SlotsOk s.fileTable s.kernelInode s.pipe s.slotOpening (s.refs D)
  fds : ∀ x ∈ D, ∀ g, s.fdTable x.1 x.2 = some g → s.slotOpening g = s.opened x.1 x.2
  list : ∀ y ∈ s.openInodes, ∃ a, y = .kernel a
  within : D ⊆ pids ×ˢ Finset.Ico 3 8

variable {s s' : FdState} {D : Finset (Nat × Nat)} {x : Nat × Nat} {r : Nat → Nat} {p fd g : Nat}

lemma FdInv.valid (h : s.FdInv s.live) : s.DescriptorsValid := by
  intro p hp fd hfd g hg
  have hx : (p, fd) ∈ s.live := mem_live.mpr ⟨hp, hfd⟩
  obtain ⟨b, hb⟩ := Option.ne_none_iff_exists'.mp (h.slots.used g (refs_pos hx hg))
  have hopened := h.fds (p, fd) hx g hg
  refine ⟨b, hb, hopened, ?_⟩
  rw [← hopened]
  obtain ⟨-, hslot⟩ := h.slots.slot g b hb
  match b, hslot with
  | .page a, ⟨_, htarget, hpage, _⟩ =>
    rw [htarget]
    exact ⟨rfl, hpage⟩
  | .inode (.kernel a), ⟨_, i, hi, htarget⟩ =>
    rw [htarget]
    exact ⟨i, hi, rfl⟩

lemma FdInv.page_of_isPipe (h : s.FdInv D) (hr : 0 < s.refs D g) (hpipe : s.isPipe g = true) :
    ∃ a, (s.fileTable g).fdInode = some (.page a) := by
  obtain ⟨b, hb⟩ := Option.ne_none_iff_exists'.mp (h.slots.used g hr)
  obtain ⟨-, hslot⟩ := h.slots.slot g b hb
  match b, hslot with
  | .page a, _ => exact ⟨a, hb⟩
  | .inode (.kernel a), hslot => exact absurd (isPipe_iff.mp hpipe) hslot.1

lemma FdInv.inode_of_not_isPipe (h : s.FdInv D) (hb : (s.fileTable g).fdInode = some b)
    (hpipe : ¬s.isPipe g = true) :
    ∃ a i, (s.fileTable g).fdInode = some (.inode (.kernel a)) ∧ s.kernelInode a = some i := by
  obtain ⟨-, hslot⟩ := h.slots.slot g b hb
  match b, hslot with
  | .page a, hslot => exact absurd (isPipe_iff.mpr hslot.1) hpipe
  | .inode (.kernel a), ⟨_, i, hi, _⟩ => exact ⟨a, i, hb, hi⟩

lemma sum_refs_le (s : FdState) (D : Finset (Nat × Nat)) :
    ∑ g ∈ Finset.range maxFileOpen, s.refs D g ≤ D.card := by
  have hdisj : ((Finset.range maxFileOpen : Finset Nat) : Set Nat).PairwiseDisjoint
      fun g => D.filter fun x => s.fdTable x.1 x.2 = some g := by
    intro g1 _ g2 _ hne
    refine disjoint_filter.mpr fun x _ h1 h2 => hne ?_
    exact some.inj (h1.symm.trans h2)
  calc ∑ g ∈ Finset.range maxFileOpen, s.refs D g
      = ((Finset.range maxFileOpen).biUnion fun g => D.filter fun x => s.fdTable x.1 x.2 = some g).card :=
        (card_biUnion hdisj).symm
    _ ≤ D.card := card_le_card (Finset.biUnion_subset.mpr fun g _ => filter_subset _ _)

section

variable (h : s.FdInv D)
include h

lemma FdInv.count_le (hi : s.kernelInode a = some i) : i.iOpenCnts.toNat ≤ 5152 := by
  have hcount : i.iOpenCnts.toNat = slotShares s.fileTable (s.refs D) a := by
    rw [← h.slots.counts a, hi]
    rfl
  have hcard := card_le_of_subset h.within
  have hshares := slotShares_le s.fileTable (s.refs D) a
  have hsum := sum_refs_le s D
  have hmax : maxFileOpen = 32 := rfl
  omega

/-! ### One descriptor less -/

lemma FdInv.dropPipe (hx : x ∈ D) (hg : s.fdTable x.1 x.2 = some g)
    (hpipe : s.isPipe g = true) (hdrop : s.dropPipe g = some s') : s'.FdInv (D.erase x) := by
  have hr := refs_pos hx hg
  obtain ⟨a, ha⟩ := h.page_of_isPipe hr hpipe
  obtain ⟨-, -, -, -, hle, hge⟩ := h.slots.slot g _ ha
  have hsub := toNat_sub_one (hr.trans_le hle)
  have hsame := sameFds_dropPipe hdrop
  have hrefs : s'.refs (D.erase x) = update (s.refs D) g (s.refs D g - 1) := by
    rw [refs_congr (s := s) fun y _ => by rw [hsame.fdTable], refs_erase hx hg]
  have hwithin := (erase_subset x D).trans h.within
  simp only [FdState.dropPipe] at hdrop
  split_ifs at hdrop with hlast
  · simp only [ha, Option.some.injEq] at hdrop
    subst hdrop
    have hone : s.refs D g - 1 = 0 := by
      have hzero : ((s.fileTable g).fdPos - 1).toNat = 0 := by rw [hlast, UInt32.toNat_zero]
      omega
    refine ⟨?_, fun y hy g' hy' => h.fds y (mem_of_mem_erase hy) g' hy', h.list, hwithin⟩
    rw [hrefs, hone]
    exact h.slots.freePage ha rfl
  · cases hdrop
    refine ⟨?_, fun y hy g' hy' => h.fds y (mem_of_mem_erase hy) g' hy', h.list, hwithin⟩
    rw [hrefs]
    exact h.slots.setPos ha (by rw [hsub]; omega) (by rw [hsub]; omega)

/-- `file_close` through the only descriptor of a slot. -/
lemma FdInv.fileClose (hx : x ∈ D) (hg : s.fdTable x.1 x.2 = some g)
    (hpipe : ¬s.isPipe g = true) (honly : s.refs D g = 1) (hclose : s.fileClose p g = some s') :
    s'.FdInv (D.erase x) := by
  obtain ⟨b, hb⟩ := Option.ne_none_iff_exists'.mp (h.slots.used g (refs_pos hx hg))
  obtain ⟨a, i, ha, hi⟩ := h.inode_of_not_isPipe hb hpipe
  have hsame := sameFds_fileClose hclose
  have hrefs : s'.refs (D.erase x) = update (s.refs D) g 0 := by
    rw [refs_congr (s := s) fun y _ => by rw [hsame.fdTable], refs_erase hx hg, honly]
  have hpos : 1 ≤ i.iOpenCnts.toNat := by
    have hshare := one_le_slotShares (r := s.refs D) (h.slots.slot g _ ha).1 ha
    rwa [← h.slots.counts a, hi] at hshare
  obtain ⟨c, y, rfl, hkernel, hcount, hiNo, hlist⟩ := fileClose_kernel ha hi hpos hclose
  refine ⟨?_, fun y hy g' hy' => h.fds y (mem_of_mem_erase hy) g' hy', fun y hy => h.list y (hlist y hy),
    (erase_subset x D).trans h.within⟩
  rw [hrefs]
  show SlotsOk (update s.fileTable g _) (s.withCache p c).kernelInode s.pipe s.slotOpening _
  rw [hkernel]
  exact h.slots.close ha (by omega) rfl hiNo (by rwa [hi])

lemma FdInv.closeSlot (hx : x ∈ D) (hg : s.fdTable x.1 x.2 = some g)
    (honly : ¬s.isPipe g = true → s.refs D g = 1)
    (hclose : (if s.isPipe g then s.dropPipe g else s.fileClose p g) = some s') :
    s'.FdInv (D.erase x) := by
  by_cases hpipe : s.isPipe g = true
  · rw [if_pos hpipe] at hclose
    exact h.dropPipe hx hg hpipe hclose
  · rw [if_neg hpipe] at hclose
    exact h.fileClose hx hg hpipe (honly hpipe) hclose

lemma FdInv.setFd (hx : (p, fd) ∉ D) (o : Option Nat) : (s.setFd p fd o).FdInv D := by
  have hfds : ∀ y ∈ D, (s.setFd p fd o).fdTable y.1 y.2 = s.fdTable y.1 y.2 :=
    fun y hy => setFd_of_ne (fun heq => hx (heq ▸ hy)) o
  refine ⟨?_, fun y hy g hg => h.fds y hy g (by rw [← hg, hfds y hy]), h.list, h.within⟩
  rw [refs_congr hfds]
  exact h.slots

lemma FdInv.insert_of_none (hx : x ∈ pids ×ˢ Finset.Ico 3 8)
    (hnone : s.fdTable x.1 x.2 = none) : s.FdInv (insert x D) := by
  refine ⟨?_, fun y hy g hg => ?_, h.list, insert_subset hx h.within⟩
  · rw [refs_insert_of_none hnone]
    exact h.slots
  · obtain rfl | hy := mem_insert.mp hy
    · rw [hnone] at hg
      cases hg
    · exact h.fds y hy g hg

end

lemma FdInv.sysClose {fd : Int} (h : s.FdInv s.live) (hp : p ∈ s.procs)
    (honly : ∀ g, s.fdTable p fd.toNat = some g → ¬s.isPipe g = true → s.refs s.live g = 1)
    (hclose : s.sysClose p fd = some (o, s')) : s'.FdInv s'.live := by
  by_cases hfd : 2 < fd
  · obtain ⟨g, s1, hmem, hg, hs1, rfl⟩ := sysClose_eq_some hfd hclose
    have hx : (p, fd.toNat) ∈ s.live := mem_live.mpr ⟨hp, hmem⟩
    have hlive : (s1.setFd p fd.toNat none).live = s.live := by
      rw [live, procs_sysClose hclose]
      rfl
    have h1 := (h.closeSlot hx hg (honly g hg) hs1).setFd (Finset.notMem_erase _ _) none
    rw [hlive, ← insert_erase hx]
    exact h1.insert_of_none (h.within hx) (setFd_self s1 p fd.toNat none)
  · rw [FdState.sysClose, if_neg hfd] at hclose
    cases hclose
    exact h

/-! ### `sys_exit` -/

lemma isPipe_closeSlot (h : (if s.isPipe g then s.dropPipe g else s.fileClose p g) = some s')
    (g' : Nat) : s'.isPipe g' = s.isPipe g' := by
  have hset : ∀ file : File, file.fdFlag = (s.fileTable g).fdFlag →
      (s.setSlot g file).isPipe g' = s.isPipe g' := by
    intro file hfile
    by_cases hg : g' = g
    · simp [isPipe, setSlot, hg, hfile]
    · simp [isPipe, setSlot, hg]
  split_ifs at h
  · simp only [dropPipe] at h
    split_ifs at h
    · split at h
      · cases h
        exact hset { s.fileTable g with fdPos := 0, fdInode := none } rfl
      · cases h
    · cases h
      exact hset { s.fileTable g with fdPos := (s.fileTable g).fdPos - 1 } rfl
  · simp only [fileClose] at h
    split at h
    · obtain ⟨i, -, h⟩ := bind_eq_some_iff.mp h
      obtain ⟨c, -, rfl⟩ := map_eq_some_iff.mp h
      exact hset { s.fileTable g with fdInode := none } rfl
    · cases h

/-- No other descriptor refers to a file that `p` has open. -/
def Unshared (s : FdState) (D : Finset (Nat × Nat)) (p : Nat) : Prop :=
  ∀ fd, (p, fd) ∈ D → ∀ g, s.fdTable p fd = some g → ¬s.isPipe g = true → s.refs D g = 1

/-- A round of the loop in `sys_exit`. -/
lemma FdInv.releaseFd (h : s.FdInv D) (hun : s.Unshared D p) (hfd : fd ∈ Finset.Ico 3 8)
    (hx : (p, fd) ∈ D) (hrelease : s.releaseFd p fd = some s') :
    s'.FdInv (D.erase (p, fd)) ∧ s'.Unshared (D.erase (p, fd)) p := by
  have hsame := sameFdsBut_releaseFd hfd hrelease
  have hrefs : s'.refs (D.erase (p, fd)) = s.refs (D.erase (p, fd)) :=
    refs_congr fun y hy => hsame.fdTable y (ne_of_mem_erase hy)
  -- the other files of `p` are in other slots, or this one would be shared
  have hrest : (∀ g', s'.isPipe g' = s.isPipe g') → s'.Unshared (D.erase (p, fd)) p := by
    intro hflag fd' hfd' g' hg' hpipe'
    rw [hflag] at hpipe'
    have hne := ne_of_mem_erase hfd'
    have hmem := mem_of_mem_erase hfd'
    have hg'' : s.fdTable p fd' = some g' := (hsame.fdTable (p, fd') hne).symm.trans hg'
    have hone := hun fd' hmem g' hg'' hpipe'
    rw [hrefs]
    cases hg : s.fdTable p fd with
    | none => rw [refs_erase_of_none (x := (p, fd)) hg, hone]
    | some g =>
      rw [refs_erase hx hg]
      by_cases hgg : g' = g
      · have hpos : 0 < s.refs (D.erase (p, fd)) g := refs_pos hfd' (hgg ▸ hg'')
        rw [refs_erase hx hg, update_self, ← hgg, hone] at hpos
        exact absurd hpos (Nat.lt_irrefl 0)
      · rw [update_of_ne hgg, hone]
  obtain ⟨hnone, rfl⟩ | ⟨g, s1, hg, hs1, hs'⟩ := releaseFd_eq_some hfd hrelease
  · refine ⟨⟨?_, fun y hy => h.fds y (mem_of_mem_erase hy), h.list,
      (erase_subset _ D).trans h.within⟩, hrest fun _ => rfl⟩
    rw [refs_erase_of_none (x := (p, fd)) hnone]
    exact h.slots
  · have h1 := h.closeSlot hx hg (hun fd hx g hg) hs1
    obtain rfl | rfl := hs'
    · exact ⟨h1, hrest (isPipe_closeSlot hs1)⟩
    · have hflag := isPipe_closeSlot hs1
      exact ⟨h1.setFd (Finset.notMem_erase _ _) none, hrest hflag⟩

lemma FdInv.sysExit (h : s.FdInv s.live) (hun : s.Unshared s.live p) (hp : p ∈ s.procs)
    (hexit : s.sysExit p = some s') : s'.FdInv s'.live :=
  (sysExit_induction (fun s D => s.FdInv D ∧ s.Unshared D p)
    (fun _ _ _ h => ⟨⟨h.1.slots, h.1.fds, h.1.list, h.1.within⟩, h.2⟩)
    (fun _ _ _ _ h hfd hx hs => h.1.releaseFd h.2 hfd hx hs) hp ⟨h, hun⟩ hexit).1.1

/-! ### `sys_fork` -/

/-- A round of the loop in `sys_fork`. -/
lemma FdInv.shareFd (h : s.FdInv D) (hpid : child ∈ pids) (hp : (p, fd) ∈ D)
    (hchild : (child, fd) ∉ D) (hcopy : s.fdTable child fd = s.fdTable p fd)
    (hopened : s.opened child fd = s.opened p fd) (hshare : s.shareFd p fd = some s') :
    s'.FdInv (insert (child, fd) D) := by
  have hsame := sameFds_shareFd hshare
  have hrefs : s'.refs (insert (child, fd) D) = s.refs (insert (child, fd) D) :=
    refs_congr fun x _ => by rw [hsame.fdTable]
  have hpair := h.within hp
  rw [mem_product] at hpair
  have hx : (child, fd) ∈ pids ×ˢ Finset.Ico 3 8 := by
    rw [mem_product]
    exact ⟨hpid, hpair.2⟩
  cases hg : s.fdTable p fd with
  | none =>
    simp only [FdState.shareFd, hg, Option.some.injEq] at hshare
    subst hshare
    exact h.insert_of_none hx (hcopy.trans hg)
  | some g =>
    have hr := refs_pos hp hg
    have hfds : ∀ y ∈ insert (child, fd) D, ∀ g', s.fdTable y.1 y.2 = some g' →
        s.slotOpening g' = s.opened y.1 y.2 := by
      intro y hy g' hg'
      obtain rfl | hy := mem_insert.mp hy
      · obtain rfl := some.inj (hg.symm.trans (hcopy.symm.trans hg'))
        exact (h.fds (p, fd) hp g hg).trans hopened.symm
      · exact h.fds y hy g' hg'
    rw [refs_insert hchild (hcopy.trans hg)] at hrefs
    simp only [FdState.shareFd, hg] at hshare
    by_cases hpipe : s.isPipe g = true
    · obtain ⟨a, ha⟩ := h.page_of_isPipe hr hpipe
      obtain ⟨-, -, -, -, hle, hge⟩ := h.slots.slot g _ ha
      have hcard := (refs_le_card (s := s) (g := g)).trans (card_le_of_subset h.within)
      have hsucc := toNat_succ (n := (s.fileTable g).fdPos) (by omega)
      rw [if_pos hpipe] at hshare
      cases hshare
      refine ⟨?_, hfds, h.list, insert_subset hx h.within⟩
      rw [hrefs]
      exact h.slots.setPos ha (by rw [hsucc]; omega) (by rw [hsucc]; omega)
    · obtain ⟨b, hb⟩ := Option.ne_none_iff_exists'.mp (h.slots.used g hr)
      obtain ⟨a, i, ha, hi⟩ := h.inode_of_not_isPipe hb hpipe
      rw [if_neg hpipe] at hshare
      simp only [ha] at hshare
      obtain ⟨j, hj, rfl⟩ := map_eq_some_iff.mp hshare
      obtain rfl : i = j := some.inj (hi.symm.trans hj)
      refine ⟨?_, hfds, h.list, insert_subset hx h.within⟩
      rw [hrefs, kernelInode_withCache rfl]
      exact h.slots.shareInode ha hr hi rfl (toNat_succ (h.count_le hi))

lemma FdInv.sysFork (h : s.FdInv s.live) (hp : p ∈ s.procs) (hchild : child ∉ s.procs)
    (hpid : child ∈ pids) (hfork : s.sysFork p child = some s') : s'.FdInv s'.live := by
  have hne : p ≠ child := fun heq => hchild (heq ▸ hp)
  have hother : ∀ x ∈ s.live, x.1 ≠ child := fun x hx heq => hchild (heq ▸ (mem_live.mp hx).1)
  have hcopy : (s.copyProcess p child).FdInv s.live := by
    have hrefs : (s.copyProcess p child).refs s.live = s.refs s.live :=
      refs_congr fun x hx => by simp [copyProcess, hother x hx]
    refine ⟨hrefs ▸ h.slots, fun x hx g hg => ?_, h.list, h.within⟩
    have hg' : s.fdTable x.1 x.2 = some g := by simpa [copyProcess, hother x hx] using hg
    simpa [copyProcess, hother x hx] using h.fds x hx g hg'
  refine (sysFork_induction (fun s D => s.FdInv D ∧ ∀ fd, s.opened child fd = s.opened p fd)
    (fun _ _ _ h => ⟨⟨h.1.slots, h.1.fds, h.1.list, h.1.within⟩, h.2⟩)
    (fun s s' D fd h hp hc hcopy hs => ⟨h.1.shareFd hpid hp hc hcopy (h.2 fd) hs, ?_⟩) hp hchild
    ⟨hcopy, fun fd => by simp [copyProcess, hne]⟩ hfork).1.1
  rw [(sameFds_shareFd hs).opened]
  exact h.2

/-! ### `sys_open` and `sys_pipe` -/

/-- `pcb_fd_install`, on a slot that allows for one more descriptor. -/
lemma FdInv.pcbFdInstall (h : s.FdInv s.live) (hp : p ∈ s.procs)
    (hg : (s.fileTable g).fdInode = some b)
    (hroom : ∀ a, b = .page a → s.refs s.live g + 1 ≤ (s.fileTable g).fdPos.toNat)
    (hfirst : ∀ a, b = .inode a → s.refs s.live g = 0) :
    (s.pcbFdInstall p g).2.FdInv (s.pcbFdInstall p g).2.live := by
  have hinst := installed_pcbFdInstall s p g
  have hrefs := refs_pcbFdInstall hp g
  have hlive : (s.pcbFdInstall p g).2.live = s.live := by rw [live, hinst.procs]; rfl
  split_ifs at hrefs with hfree
  · rw [hrefs]
    exact h
  · refine ⟨?_, fun x hx g' hg' => ?_, hinst.openInodes ▸ h.list, hlive ▸ h.within⟩
    · rw [hlive, hrefs.1, hinst.fileTable, hinst.kernelInode, hinst.pipe, hinst.slotOpening]
      exact h.slots.install hg hroom hfirst
    · rw [hlive] at hx
      rw [hinst.slotOpening]
      obtain ⟨hfd, hopened⟩ | ⟨-, hfd, hopened⟩ := hinst.fds x
      · rw [hopened]
        exact h.fds x hx g' (hfd.symm.trans hg')
      · obtain rfl := some.inj (hfd.symm.trans hg')
        exact hopened.symm

lemma FdInv.refs_eq_zero (h : s.FdInv D) (hg : (s.fileTable g).fdInode = none) : s.refs D g = 0 :=
  Nat.eq_zero_of_not_pos fun hpos => h.slots.used g hpos hg

lemma FdInv.fds_record (h : s.FdInv D) (hg : (s.fileTable g).fdInode = none) (o : Opening) :
    ∀ x ∈ D, ∀ g', s.fdTable x.1 x.2 = some g' →
      update s.slotOpening g o g' = s.opened x.1 x.2 := by
  intro x hx g' hg'
  have hne : g' ≠ g := by
    rintro rfl
    exact (refs_pos hx hg').ne' (h.refs_eq_zero hg)
  rw [update_of_ne hne]
  exact h.fds x hx g' hg'

section

variable (h : s.FdInv s.live)
include h

lemma FdInv.sysPipe {o : Option Nat × Option Nat × FdState}
    (hp : p ∈ s.procs) (hpipe : s.sysPipe p page = some o) : o.2.2.FdInv o.2.2.live := by
  obtain ⟨g, s1, hlt, hfree, hpage, hs1, ho⟩ := sysPipe_eq_some hpipe
  have hslot : s1.fileTable g = ⟨2, pipeFlag, some (.page page)⟩ := by
    rw [hs1]
    exact update_self _ _ _
  have htwo : (s1.fileTable g).fdPos.toNat = 2 := by rw [hslot]; rfl
  have h1 : s1.FdInv s1.live := by
    rw [hs1]
    exact ⟨h.slots.makePipe hlt hfree hpage 1 s.serial, h.fds_record hfree _, h.list, h.within⟩
  have hp1 : p ∈ s1.procs := by rw [hs1]; exact hp
  have hzero : s1.refs s1.live g = 0 := by
    rw [hs1]
    exact h.refs_eq_zero hfree
  have hpage1 : (s1.fileTable g).fdInode = some (.page page) := by rw [hslot]
  have h2 := h1.pcbFdInstall hp1 hpage1 (fun _ _ => by omega) (fun _ hb => by cases hb)
  -- the second descriptor, if there is room for it, makes two
  have hinst := installed_pcbFdInstall s1 p g
  have hrefs := refs_pcbFdInstall hp1 g
  have hlive : (s1.pcbFdInstall p g).2.live = s1.live := by rw [live, hinst.procs]; rfl
  have hle : (s1.pcbFdInstall p g).2.refs s1.live g ≤ 1 := by
    split_ifs at hrefs with hnone
    · rw [hrefs]
      omega
    · rw [hrefs.1, update_self, hzero]
  rw [ho]
  refine h2.pcbFdInstall (hinst.procs ▸ hp1) (hinst.fileTable ▸ hpage1) (fun _ _ => ?_)
    (fun _ hb => by cases hb)
  rw [hlive, hinst.fileTable]
  omega

/-- A slot is filled with an inode of the kernel, whose count goes up. -/
lemma FdInv.fill (flag : UInt8) {a : Nat} {i : Inode} {c : InodeCache InodePtr}
    (hfree : s.getFreeSlotInGlobal = some g)
    (hinode : c.inode = update (s.cache p).inode (.kernel a) (some i))
    (hlist : ∀ y ∈ c.openInodes, ∃ a, y = .kernel a)
    (hiNo : ∀ i', s.kernelInode a = some i' → i.iNo = i'.iNo)
    (hcount : i.iOpenCnts.toNat = openCnts (s.kernelInode a) + 1) :
    (((s.withCache p c).setSlot g ⟨0, flag.toUInt32, some (.inode (.kernel a))⟩).record g
      (.inode i.iNo)).FdInv s.live := by
  obtain ⟨-, hlt, hnone⟩ := getFreeSlotInGlobal_eq_some hfree
  have hflag : flag.toUInt32 ≠ pipeFlag := by
    intro heq
    have hnat := congrArg UInt32.toNat heq
    have hbound := flag.toNat_lt
    rw [UInt8.toNat_toUInt32] at hnat
    have hpipe : pipeFlag.toNat = 65535 := rfl
    omega
  refine ⟨?_, h.fds_record hnone _, hlist, h.within⟩
  show SlotsOk (update s.fileTable g _) (s.withCache p c).kernelInode s.pipe
    (update s.slotOpening g _) (s.refs s.live)
  rw [kernelInode_withCache hinode]
  exact h.slots.fill hlt hnone rfl hflag hiNo hcount s.serial

lemma FdInv.install_fill {a : InodePtr} {flag : UInt8} {c : InodeCache InodePtr} {t : Target}
    (hp : p ∈ s.procs) (hfree : s.getFreeSlotInGlobal = some g)
    (h1 : (((s.withCache p c).setSlot g ⟨0, flag.toUInt32, some (.inode a)⟩).record g t).FdInv s.live) :
    ((((s.withCache p c).setSlot g ⟨0, flag.toUInt32, some (.inode a)⟩).record g t).pcbFdInstall p
      g).2.FdInv ((((s.withCache p c).setSlot g ⟨0, flag.toUInt32, some (.inode a)⟩).record g
        t).pcbFdInstall p g).2.live := by
  obtain ⟨-, -, hnone⟩ := getFreeSlotInGlobal_eq_some hfree
  have hzero := h.refs_eq_zero hnone
  exact FdInv.pcbFdInstall h1 hp (b := .inode a) (by simp [record, setSlot])
    (fun _ hb => by cases hb) (fun _ _ => hzero)

lemma FdInv.fileOpen
    (hp : p ∈ s.procs) (hopen : s.fileOpen p inodeNo flag new = some (o, s')) : s'.FdInv s'.live := by
  obtain ⟨-, rfl⟩ | ⟨g, b, c, i, hfree, hinode, hlist, hiNo, hcount, -, s1, rfl, hs'⟩ :=
    fileOpen_kernel h.list (fun _ _ => h.count_le) hopen
  · exact h
  have h1 := h.fill flag hfree hinode hlist hiNo hcount
  obtain rfl | rfl := hs'
  · exact h1
  · exact h.install_fill hp hfree h1

end

lemma FdInv.wipe (h : s.FdInv D) (hfree : s.getFreeSlotInGlobal = some g) :
    (s.setSlot g ⟨0, 0, none⟩).FdInv D := by
  obtain ⟨-, hlt, hnone⟩ := getFreeSlotInGlobal_eq_some hfree
  have hzero := h.refs_eq_zero hnone
  have hset := h.slots.set hlt ⟨0, 0, none⟩ s.kernelInode s.pipe (s.slotOpening g) 0
    (fun hn => absurd hn (Nat.lt_irrefl 0)) (fun b hb => by cases hb) (fun a ha => by cases ha)
    (fun _ _ _ => h.slots.pipe_ne_none) iNo_same
    (fun _ => by simp [slotShare, hnone])
  rw [update_eq_self, ← hzero, update_eq_self] at hset
  exact ⟨hset, h.fds, h.list, h.within⟩

/-- `file_create` in a kernel thread. -/
lemma FdInv.fileCreate (h : s.FdInv s.live) (hp : p ∈ s.procs) (hkernel : s.pgdir p = false)
    (hcreate : s.fileCreate p path flag fate new = some (o, s')) : s'.FdInv s'.live := by
  have hptr : s.newPtr p new = .kernel new := by simp [newPtr, hkernel]
  obtain rfl | ⟨n, s0, -, rfl, rfl | ⟨g, hfree, rfl | ⟨hnone, s1, c, hs1, hc, hlist, rfl⟩⟩⟩ :=
    fileCreate_eq_some hcreate
  · exact h
  · exact ⟨h.slots, h.fds, h.list, h.within⟩
  · have hwipe := h.wipe hfree
    exact ⟨hwipe.slots, hwipe.fds, hwipe.list, hwipe.within⟩
  · rw [hptr] at hnone hc hlist ⊢
    have hnone : s.kernelInode new = none := hnone
    have h1 : s1.FdInv s1.live := by
      rw [hs1]
      exact ⟨h.slots, h.fds, h.list, h.within⟩
    have hp1 : p ∈ s1.procs := by
      rw [hs1]
      exact hp
    have hfree1 : s1.getFreeSlotInGlobal = some g := by
      rw [hs1]
      exact hfree
    have hinode1 : s1.kernelInode = s.kernelInode := by
      rw [hs1]
      rfl
    have hcache : s1.cache p = s.cache p := by
      rw [hs1]
      rfl
    refine h1.install_fill hp1 hfree1 (h1.fill flag hfree1
      (i := { Inode.inodeInit (UInt32.ofNat n) with iOpenCnts := 1 }) ?_ ?_ ?_ ?_)
    · rw [hcache]
      exact hc
    · intro y hy
      rw [hlist] at hy
      obtain rfl | hy := List.mem_cons.mp hy
      · exact ⟨new, rfl⟩
      · exact h.list y hy
    · intro i' hi'
      rw [hinode1, hnone] at hi'
      cases hi'
    · rw [hinode1, hnone]
      rfl

/-- `sys_open`, which creates files for kernel threads only. -/
lemma FdInv.sysOpen (h : s.FdInv s.live) (hp : p ∈ s.procs)
    (hkernel : s.names path = .absent → flags &&& oCreat ≠ 0 → s.pgdir p = false)
    (hopen : s.sysOpen p path flags fate new = some (o, s')) : s'.FdInv s'.live := by
  rw [FdState.sysOpen] at hopen
  split at hopen
  · cases hopen
    exact h
  · rename_i habsent
    split_ifs at hopen with hcreat
    · cases hopen
      exact h
    · exact h.fileCreate hp (hkernel habsent hcreat) hopen
  · split_ifs at hopen with hcreat
    · exact h.fileOpen hp hopen
    · cases hopen
      exact h

/-! ### `sys_read` and `sys_write` -/

lemma FdInv.setPipe (h : s.FdInv s.live) (hset : s.setPipe g locked = some s') :
    s'.FdInv s'.live := by
  simp only [FdState.setPipe] at hset
  split at hset
  · rename_i a ha
    cases hset
    refine ⟨h.slots.setPages fun a' ha' => ?_, h.fds, h.list, h.within⟩
    by_cases haa : a' = a
    · simp [haa]
    · simpa [haa] using ha'
  · cases hset

lemma FdInv.kernel_of_inode (h : s.FdInv D)
    (hg : (s.fileTable g).fdInode = some (.inode a)) : ∃ b, a = .kernel b := by
  obtain ⟨-, hslot⟩ := h.slots.slot g _ hg
  match a, hslot with
  | .kernel b, _ => exact ⟨b, rfl⟩

lemma FdInv.sysRead {fd : Int} (h : s.FdInv s.live)
    (hread : s.sysRead p fd pos locked = some s') : s'.FdInv s'.live := by
  rw [FdState.sysRead] at hread
  split_ifs at hread with hfd
  · rwa [← some.inj hread]
  · obtain ⟨g, -, hread⟩ := bind_eq_some_iff.mp hread
    split_ifs at hread
    · exact h.setPipe hread
    · split at hread
      · rename_i a hg
        obtain ⟨i, hi, rfl⟩ := map_eq_some_iff.mp hread
        obtain ⟨b, rfl⟩ := h.kernel_of_inode hg
        have hslots := h.slots.touch hg hi rfl rfl pos
        rw [show some i = s.kernelInode b from hi.symm, update_eq_self] at hslots
        exact ⟨hslots, h.fds, h.list, h.within⟩
      · cases hread

lemma FdInv.sysWrite {fd : Int} (h : s.FdInv s.live)
    (hwrite : s.sysWrite p fd pos size locked = some s') : s'.FdInv s'.live := by
  rw [FdState.sysWrite] at hwrite
  split at hwrite
  · rwa [← some.inj hwrite]
  · obtain ⟨g, -, hwrite⟩ := bind_eq_some_iff.mp hwrite
    split_ifs at hwrite
    · exact h.setPipe hwrite
    · split at hwrite
      · rename_i a hg
        obtain ⟨i, hi, rfl⟩ := map_eq_some_iff.mp hwrite
        obtain ⟨b, rfl⟩ := h.kernel_of_inode hg
        have hslots := h.slots.touch (j := { i with iSize := size }) hg hi rfl rfl pos
        refine ⟨?_, h.fds, h.list, h.within⟩
        show SlotsOk (update s.fileTable g _)
          (s.withCache p ((s.cache p).set (.kernel b) (some { i with iSize := size }))).kernelInode _ _ _
        rw [kernelInode_withCache rfl]
        exact hslots
      · cases hwrite
    · rwa [← some.inj hwrite]

lemma fdInv_of_init (h : fdSystem.init s) : s.FdInv s.live := by
  obtain ⟨hslots, hfds, hprocs, hkernel, -, hlist, -, -⟩ := h
  have hnone : ∀ x ∈ s.live, s.fdTable x.1 x.2 = none :=
    fun x hx => hfds x.1 x.2 (mem_live.mp hx).2
  refine ⟨⟨fun g hpos => ?_, fun g b hb => ?_, fun g g' a hg => ?_, fun a => ?_⟩, fun x hx g hg => ?_,
    fun y hy => ?_, Finset.product_subset_product_left hprocs⟩
  · obtain ⟨x, hx, hg⟩ := refs_pos_iff.mp hpos
    rw [hnone x hx] at hg
    cases hg
  · rw [hslots] at hb
    cases hb
  · rw [hslots] at hg
    cases hg
  · rw [hkernel]
    simp [openCnts, slotShares, slotShare, hslots]
  · rw [hnone x hx] at hg
    cases hg
  · rw [hlist] at hy
    cases hy

end FdState

/-! ### Runs -/

/-- The calls on files and pipes without `sys_lseek`. -/
def FdAct.NoSeek : FdAct → Prop
  | .sysLseek .. => False
  | _ => True

/-- A regular file is closed only through the last descriptor of its slot. Files are created by kernel
threads: the inode that a user process creates is in its own heap, where no other process can follow
`open_inodes`. -/
def SharingSafe (s : FdState) : FdAct → Prop
  | .sysOpen p path flags _ _ => s.names path = .absent → flags &&& oCreat ≠ 0 → s.pgdir p = false
  | .sysClose p fd => ∀ g, s.fdTable p fd.toNat = some g → ¬s.isPipe g = true → s.refs s.live g = 1
  | .sysExit p => s.Unshared s.live p
  | _ => True

lemma FdState.FdInv.step (h : s.FdInv s.live) (ha : a.NoSeek)
    (hsafe : SharingSafe s a) (hstep : fdSystem.step s a s') : s'.FdInv s'.live := by
  obtain ⟨⟨hcaller, hguard⟩, hexec⟩ := hstep
  cases a with
  | sysOpen p path flags fate new =>
    obtain ⟨⟨o, s1⟩, hopen, rfl⟩ := map_eq_some_iff.mp hexec
    exact h.sysOpen hcaller hsafe hopen
  | sysClose p fd =>
    obtain ⟨⟨o, s1⟩, hclose, rfl⟩ := map_eq_some_iff.mp hexec
    exact h.sysClose hcaller hsafe hclose
  | sysFork p child => exact h.sysFork hcaller hguard.2.1 hguard.2.2 hexec
  | sysExit p => exact h.sysExit hsafe hcaller hexec
  | sysPipe p page =>
    obtain ⟨o, hpipe, rfl⟩ := map_eq_some_iff.mp hexec
    exact h.sysPipe hcaller hpipe
  | sysLseek => exact absurd ha id
  | sysRead p fd pos locked => exact h.sysRead hexec
  | sysWrite p fd pos size locked => exact h.sysWrite hexec

/-- As long as regular files are closed only through the last descriptor of their slot, every
descriptor of every process refers to the file or pipe that it was opened on. -/
theorem descriptors_valid_of_reachable {s : FdState}
    (h : fdSystem.Reachable (fun s a => a.NoSeek ∧ SharingSafe s a) s) : s.DescriptorsValid :=
  (h.invariant (fun s : FdState => s.FdInv s.live) (fun _ => FdState.fdInv_of_init)
    (fun _ _ _ hs hok hstep => hs.step hok.1 hok.2 hstep)).valid

/-- The init process opens `/f` and forks: parent and child share the slot. -/
theorem descriptors_valid_fork :
    ∃ s : FdState, s.fdTable 1 3 = some 3 ∧ s.fdTable 2 3 = some 3 ∧ s.DescriptorsValid := by
  have hrun : ((FdState.play (fun _ a => match a with
        | .sysOpen _ _ flags .. => flags &&& oCreat = 0
        | .sysFork .. => true
        | _ => false) [.sysOpen 1 [47, 102] oRdwr.toUInt8 .done 0, .sysFork 1 2]).map
      fun s => (s.fdTable 1 3, s.fdTable 2 3)) = some (some 3, some 3) := by decide +kernel
  obtain ⟨s, hs, hrun⟩ := map_eq_some_iff.mp hrun
  obtain ⟨hparent, hchild⟩ := Prod.mk.inj hrun
  refine ⟨s, hparent, hchild, descriptors_valid_of_reachable (reachable_of_fdPlay (fun s a hok => ?_) hs)⟩
  cases a with
  | sysOpen p path flags fate new => exact ⟨trivial, fun _ hcreat => absurd (of_decide_eq_true hok) hcreat⟩
  | sysFork p child => exact ⟨trivial, trivial⟩
  | sysPipe | sysClose | sysExit | sysLseek | sysRead | sysWrite => cases hok

/-- The init process opens `/f` and forks, and the child closes its descriptor: the slot is free, while
the parent's descriptor still refers to it. -/
theorem not_descriptors_valid_of_shared :
    ¬∀ s, fdSystem.Reachable (fun _ a => a.NoSeek) s → s.DescriptorsValid := by
  intro hall
  have hrun : ((FdState.play (fun _ a => match a with
        | .sysOpen .. | .sysFork .. | .sysClose .. => true
        | _ => false) [.sysOpen 1 [47, 102] oRdwr.toUInt8 .done 0, .sysFork 1 2, .sysClose 2 3]).map
      fun s => (decide (1 ∈ s.procs), s.fdTable 1 3, (s.fileTable 3).fdInode)) =
      some (true, some 3, none) := by decide +kernel
  obtain ⟨s, hs, hrun⟩ := map_eq_some_iff.mp hrun
  simp only [Prod.mk.injEq, decide_eq_true_eq] at hrun
  obtain ⟨hproc, hfd, hslot⟩ := hrun
  have hvalid := hall s (reachable_of_fdPlay (fun s a hok => by
    cases a with
    | sysOpen | sysFork | sysClose => exact trivial
    | sysPipe | sysExit | sysLseek | sysRead | sysWrite => cases hok) hs)
  obtain ⟨b, hb, -⟩ := hvalid 1 hproc 3 (by decide) 3 hfd
  rw [hslot] at hb
  cases hb

end SimpleOs
