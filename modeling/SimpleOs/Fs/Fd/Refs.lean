import SimpleOs.Fs.Fd.Basic

/-!
# Who refers to a slot

The number of descriptors in a set that refer to a slot of `file_table`, and how the system calls
change it one descriptor at a time.
-/

namespace SimpleOs

open Function Option Finset

namespace FdState

variable {s s' : FdState} {D : Finset (Nat × Nat)} {x : Nat × Nat} {p fd g g' : Nat}

/-! ### Free entries -/

lemma isPipe_iff : s.isPipe g = true ↔ (s.fileTable g).fdFlag = pipeFlag := decide_eq_true_iff

lemma getFreeSlotInGlobal_eq_some (h : s.getFreeSlotInGlobal = some g) :
    3 ≤ g ∧ g < maxFileOpen ∧ (s.fileTable g).fdInode = none := by
  have hmem := List.mem_of_find?_eq_some h
  have hfree := List.find?_some h
  rw [List.mem_range'_1] at hmem
  exact ⟨hmem.1, by simp only [maxFileOpen] at hmem ⊢; omega, by simpa using hfree⟩

lemma freeFd_eq_some (h : s.freeFd p = some fd) : fd ∈ Finset.Ico 3 8 ∧ s.fdTable p fd = none := by
  have hmem := List.mem_of_find?_eq_some h
  have hfree := List.find?_some h
  rw [List.mem_range'_1] at hmem
  exact ⟨mem_Ico.mpr (by simp only [maxFilesOpenPerProc] at hmem; omega), by simpa using hfree⟩

lemma freeFd_ne_none (hfd : fd ∈ Finset.Ico 3 8) (h : s.fdTable p fd = none) : s.freeFd p ≠ none := by
  intro hnone
  have hmem : fd ∈ List.range' 3 (maxFilesOpenPerProc - 3) := by tauto
  exact List.find?_eq_none.mp hnone fd hmem (by simpa using h)

lemma fdLocal2global_eq_some {fd : Int} (hfd : 2 < fd) (h : s.fdLocal2global p fd = some g) :
    fd.toNat ∈ Finset.Ico 3 8 ∧ s.fdTable p fd.toNat = some g := by
  rw [fdLocal2global, if_neg (by omega), if_neg (by omega), maxFilesOpenPerProc] at h
  obtain ⟨hlt, hg⟩ := ite_none_right_eq_some.mp h
  exact ⟨mem_Ico.mpr (by omega), hg⟩

/-! ### Counting -/

/-- How many descriptors in `D` refer to the slot. -/
def refs (s : FdState) (D : Finset (Nat × Nat)) (g : Nat) : Nat :=
  (D.filter fun x => s.fdTable x.1 x.2 = some g).card

/-- The descriptors of the processes that are alive. -/
def live (s : FdState) : Finset (Nat × Nat) := s.procs ×ˢ Finset.Ico 3 8

lemma mem_live : x ∈ s.live ↔ x.1 ∈ s.procs ∧ x.2 ∈ Finset.Ico 3 8 := mem_product

lemma refs_congr (h : ∀ x ∈ D, s'.fdTable x.1 x.2 = s.fdTable x.1 x.2) : s'.refs D = s.refs D := by
  funext g
  refine congrArg Finset.card (filter_congr fun x hx => ?_)
  rw [h x hx]

lemma refs_le_card : s.refs D g ≤ D.card := card_filter_le _ _

lemma refs_pos_iff : 0 < s.refs D g ↔ ∃ x ∈ D, s.fdTable x.1 x.2 = some g := by
  rw [refs, card_pos]
  simp only [Finset.Nonempty, mem_filter]

lemma refs_pos (hx : x ∈ D) (hg : s.fdTable x.1 x.2 = some g) : 0 < s.refs D g :=
  refs_pos_iff.mpr ⟨x, hx, hg⟩

lemma card_le_of_subset (hD : D ⊆ pids ×ˢ Finset.Ico 3 8) : D.card ≤ 5120 := by
  refine (card_le_card hD).trans ?_
  simp [pids]

lemma toNat_sub_one {n : UInt32} (h : 0 < n.toNat) : (n - 1).toNat = n.toNat - 1 := by
  have hle : (1 : UInt32) ≤ n := by
    exact h
  exact UInt32.toNat_sub_of_le _ _ hle

lemma toNat_succ {n : UInt32} (h : n.toNat ≤ 5152) : (n + 1).toNat = n.toNat + 1 := by
  rw [UInt32.toNat_add]
  exact Nat.mod_eq_of_lt (by simp only [UInt32.toNat_one]; omega)

lemma refs_insert (hx : x ∉ D) (hg : s.fdTable x.1 x.2 = some g) :
    s.refs (insert x D) = update (s.refs D) g (s.refs D g + 1) := by
  funext g'
  rw [refs, filter_insert, hg]
  by_cases h : g' = g
  · subst h
    rw [if_pos rfl, update_self, card_insert_of_notMem fun hmem => hx (mem_of_mem_filter _ hmem)]
    rfl
  · rw [if_neg fun heq => h (some.inj heq).symm, update_of_ne h]
    rfl

lemma refs_insert_of_none (hnone : s.fdTable x.1 x.2 = none) : s.refs (insert x D) = s.refs D := by
  funext g
  rw [refs, filter_insert, hnone]
  rfl

lemma refs_erase (hx : x ∈ D) (hg : s.fdTable x.1 x.2 = some g) :
    s.refs (D.erase x) = update (s.refs D) g (s.refs D g - 1) := by
  have h := refs_insert (Finset.notMem_erase x D) hg
  rw [insert_erase hx] at h
  rw [h]
  simp

lemma refs_erase_of_none (hnone : s.fdTable x.1 x.2 = none) : s.refs (D.erase x) = s.refs D := by
  by_cases hx : x ∈ D
  · rw [← refs_insert_of_none hnone, insert_erase hx]
  · rw [erase_eq_of_notMem hx]

/-! ### Setting entries -/

lemma setFd_self (s : FdState) (p fd : Nat) (o : Option Nat) : (s.setFd p fd o).fdTable p fd = o := by
  simp [setFd]

lemma setFd_of_ne (h : x ≠ (p, fd)) (o : Option Nat) :
    (s.setFd p fd o).fdTable x.1 x.2 = s.fdTable x.1 x.2 := by
  by_cases hp : x.1 = p
  · have hfd : x.2 ≠ fd := fun heq => h (Prod.ext hp heq)
    simp [setFd, hp, hfd]
  · simp [setFd, hp]

lemma refs_setFd (hx : (p, fd) ∈ D) (hnone : s.fdTable p fd = none) (g : Nat) :
    (s.setFd p fd (some g)).refs D = update (s.refs D) g (s.refs D g + 1) := by
  have hself : (s.setFd p fd (some g)).fdTable (p, fd).1 (p, fd).2 = some g := setFd_self s p fd _
  have hrest : (s.setFd p fd (some g)).refs (D.erase (p, fd)) = s.refs D := by
    rw [refs_congr fun x hx => setFd_of_ne (ne_of_mem_erase hx) _]
    exact refs_erase_of_none (x := (p, fd)) hnone
  have h := refs_insert (Finset.notMem_erase (p, fd) D) hself
  rwa [insert_erase hx, hrest] at h

lemma refs_setFd_none (hs : s.fdTable = s'.fdTable) :
    (s.setFd p fd none).refs D = s'.refs (D.erase (p, fd)) := by
  have hself : (s.setFd p fd none).fdTable (p, fd).1 (p, fd).2 = none := setFd_self s p fd _
  rw [← refs_erase_of_none hself]
  refine refs_congr fun x hx => ?_
  rw [setFd_of_ne (ne_of_mem_erase hx), hs]

/-- The entries of a process's table that are not in use. -/
def freeFds (s : FdState) (p : Nat) : Finset Nat := (Finset.Ico 3 8).filter fun fd => s.fdTable p fd = none

/-- `pcb_fd_install` changes the table and the record of the process only. -/
structure Installed (s s' : FdState) (p g : Nat) : Prop where
  fileTable : s'.fileTable = s.fileTable
  slotOpening : s'.slotOpening = s.slotOpening
  procs : s'.procs = s.procs
  pgdir : s'.pgdir = s.pgdir
  kernelInode : s'.kernelInode = s.kernelInode
  openInodes : s'.openInodes = s.openInodes
  pipe : s'.pipe = s.pipe
  names : s'.names = s.names
  inodeBitmap : s'.inodeBitmap = s.inodeBitmap
  disk : s'.disk = s.disk
  fds : ∀ x : Nat × Nat,
    (s'.fdTable x.1 x.2 = s.fdTable x.1 x.2 ∧ s'.opened x.1 x.2 = s.opened x.1 x.2) ∨ x.1 = p ∧ s'.fdTable x.1 x.2 = some g ∧ s'.opened x.1 x.2 = s.slotOpening g

lemma installed_pcbFdInstall (s : FdState) (p g : Nat) : s.Installed (s.pcbFdInstall p g).2 p g := by
  simp only [pcbFdInstall]
  split
  · exact ⟨rfl, rfl, rfl, rfl, rfl, rfl, rfl, rfl, rfl, rfl, fun _ => .inl ⟨rfl, rfl⟩⟩
  · rename_i fd _
    refine ⟨rfl, rfl, rfl, rfl, rfl, rfl, rfl, rfl, rfl, rfl, fun x => ?_⟩
    by_cases hx : x = (p, fd)
    · subst hx
      exact .inr ⟨rfl, setFd_self s p fd _, by simp⟩
    · refine .inl ⟨setFd_of_ne hx _, ?_⟩
      by_cases hp : x.1 = p
      · have hfd : x.2 ≠ fd := fun heq => hx (Prod.ext hp heq)
        simp [hp, hfd]
      · simp [hp]

/-- One more reference, if the process has room. -/
lemma refs_pcbFdInstall (hp : p ∈ s.procs) (g : Nat) :
    if s.freeFds p = ∅ then (s.pcbFdInstall p g).2 = s
    else (s.pcbFdInstall p g).2.refs s.live = update (s.refs s.live) g (s.refs s.live g + 1) ∧
      ((s.pcbFdInstall p g).2.freeFds p).card + 1 = (s.freeFds p).card := by
  simp only [pcbFdInstall]
  cases hfree : s.freeFd p with
  | none =>
    have hempty : s.freeFds p = ∅ := by
      refine filter_eq_empty_iff.mpr fun fd hfd hnone => ?_
      exact freeFd_ne_none hfd hnone hfree
    rw [if_pos hempty]
  | some fd =>
    obtain ⟨hfd, hnone⟩ := freeFd_eq_some hfree
    have hmem : fd ∈ s.freeFds p := mem_filter.mpr ⟨hfd, hnone⟩
    rw [if_neg (Finset.ne_empty_of_mem hmem)]
    refine ⟨refs_setFd (mem_live.mpr ⟨hp, hfd⟩) hnone g, ?_⟩
    have herase : (s.setFd p fd (some g)).freeFds p = (s.freeFds p).erase fd := by
      ext j
      simp only [freeFds, mem_filter, mem_erase, setFd, update_self]
      by_cases hj : j = fd
      · simp [hj]
      · simp [hj]
    show ((s.setFd p fd (some g)).freeFds p).card + 1 = _
    rw [herase, card_erase_add_one hmem]

lemma sysPipe_eq_some {o : Option Nat × Option Nat × FdState} (h : s.sysPipe p page = some o) :
    ∃ g s1, g < maxFileOpen ∧ (s.fileTable g).fdInode = none ∧ s.pipe page = none ∧
      s1 = { s.setSlot g ⟨2, pipeFlag, some (.page page)⟩ with
        pipe := update s.pipe page (some 1) }.record g (.pipe page) ∧
      o.2.2 = ((s1.pcbFdInstall p g).2.pcbFdInstall p g).2 := by
  simp only [sysPipe] at h
  split at h
  · cases h
  · rename_i g hg
    obtain ⟨-, hlt, hfree⟩ := getFreeSlotInGlobal_eq_some hg
    obtain ⟨hpage, heq⟩ := ite_none_right_eq_some.mp h
    exact ⟨g, _, hlt, hfree, hpage, rfl, by rw [← some.inj heq]⟩

lemma fileOpen_eq_some (h : s.fileOpen p inodeNo flag new = some (o, s')) :
    (s.getFreeSlotInGlobal = none ∧ s' = s) ∨ ∃ g a c i i', s.getFreeSlotInGlobal = some g ∧
      (s.cache p).inodeOpen (UInt32.ofNat inodeNo) (.kernel new) (s.disk inodeNo) = some (a, c) ∧
      c.inode a = some i ∧ (i' = i ∨ i' = { i with writeDeny := true }) ∧
      ∃ s1, s1 = ((s.withCache p (c.set a (some i'))).setSlot g
          ⟨0, flag.toUInt32, some (.inode a)⟩).record g (.inode i.iNo) ∧
        (s' = s1 ∨ s' = (s1.pcbFdInstall p g).2) := by
  simp only [fileOpen] at h
  split at h
  · rename_i hfree
    cases h
    exact .inl ⟨hfree, rfl⟩
  · rename_i g hfree
    obtain ⟨⟨a, c⟩, hopen, h⟩ := bind_eq_some_iff.mp h
    obtain ⟨i, hi, h⟩ := bind_eq_some_iff.mp h
    have hself : c.set a (some i) = c := by
      rw [InodeCache.set, ← hi, update_eq_self]
    refine .inr ⟨g, a, c, i, ?_⟩
    split_ifs at h with hwrite hdeny
    · cases h
      exact ⟨i, hfree, hopen, hi, .inl rfl, _, by rw [hself], .inl rfl⟩
    · have hs' := (Prod.ext_iff.mp (some.inj h)).2
      refine ⟨{ i with writeDeny := true }, hfree, hopen, hi, .inr rfl, _, rfl, .inr (hs'.symm.trans ?_)⟩
      simp [withCache, setSlot, record]
    · have hs' := (Prod.ext_iff.mp (some.inj h)).2
      exact ⟨i, hfree, hopen, hi, .inl rfl, _, by rw [hself], .inr hs'.symm⟩

lemma fileCreate_eq_some (h : s.fileCreate p path flag fate new = some (o, s')) :
    s' = s ∨ ∃ n s0, s.inodeBitmap.bitmapScan 1 = some n ∧
      s0 = { s with inodeBitmap := (s.inodeBitmap.bitmapSet n true).bitmapSet n false } ∧
      (s' = s0 ∨ ∃ g, s.getFreeSlotInGlobal = some g ∧
        (s' = s0.setSlot g ⟨0, 0, none⟩ ∨
          (s.cache p).inode (s.newPtr p new) = none ∧ ∃ s1 c,
            s1 = { s with
              inodeBitmap := s.inodeBitmap.bitmapSet n true
              names := update s.names path (.file n) }.inodeSync
                (Inode.inodeInit (UInt32.ofNat n)) ∧
            c.inode = update (s.cache p).inode (s.newPtr p new)
              (some { Inode.inodeInit (UInt32.ofNat n) with iOpenCnts := 1 }) ∧
            c.openInodes = s.newPtr p new :: s.openInodes ∧
            s' = ((((s1.withCache p c).setSlot g
              ⟨0, flag.toUInt32, some (.inode (s.newPtr p new))⟩).record g
                (.inode (UInt32.ofNat n))).pcbFdInstall p g).2)) := by
  have hstate {x : Option Nat × FdState} (h : some x = some (o, s')) : s' = x.2 :=
    (Prod.ext_iff.mp (some.inj h)).2.symm
  rw [fileCreate] at h
  split at h
  · exact .inl (hstate h)
  · split at h
    · exact .inl (hstate h)
    · rename_i n hscan
      refine .inr ⟨n, _, hscan, rfl, ?_⟩
      split at h
      · exact .inl (hstate h)
      · split at h
        · exact .inl (hstate h)
        · rename_i g hfree
          refine .inr ⟨g, hfree, ?_⟩
          split_ifs at h with hentry hnew
          · exact .inl (hstate h)
          · exact .inr ⟨hnew, _, _, rfl, rfl, rfl, hstate h⟩

lemma procs_fileCreate
    (h : s.fileCreate p path flag fate new = some (o, s')) : s'.procs = s.procs := by
  obtain rfl | ⟨n, s0, -, rfl, rfl | ⟨g, -, rfl | ⟨-, s1, c, rfl, -, -, rfl⟩⟩⟩ := fileCreate_eq_some h
  · rfl
  · rfl
  · rfl
  · exact (installed_pcbFdInstall _ p g).procs

lemma kernelInode_withCache (h : c.inode = update (s.cache p).inode (.kernel a) v) :
    (s.withCache p c).kernelInode = update s.kernelInode a v := by
  funext a'
  by_cases haa : a' = a
  · simp [withCache, h, haa]
  · simp [withCache, h, cache, haa]

/-! ### The loops of `sys_fork` and `sys_exit` -/

/-- The tables of the processes are the same. -/
structure SameFds (s s' : FdState) : Prop where
  fdTable : s'.fdTable = s.fdTable
  opened : s'.opened = s.opened
  procs : s'.procs = s.procs
  pgdir : s'.pgdir = s.pgdir

lemma SameFds.refl (s : FdState) : s.SameFds s := ⟨rfl, rfl, rfl, rfl⟩

lemma SameFds.trans {s1 s2 s3 : FdState} (h : s1.SameFds s2) (h' : s2.SameFds s3) : s1.SameFds s3 :=
  ⟨h'.fdTable.trans h.fdTable, h'.opened.trans h.opened, h'.procs.trans h.procs,
    h'.pgdir.trans h.pgdir⟩

lemma sameFds_shareFd (h : s.shareFd p fd = some s') : s.SameFds s' := by
  simp only [shareFd] at h
  split at h
  · cases h
    exact .refl s
  · split_ifs at h
    · cases h
      exact ⟨rfl, rfl, rfl, rfl⟩
    · split at h
      · obtain ⟨i, -, rfl⟩ := map_eq_some_iff.mp h
        exact ⟨rfl, rfl, rfl, rfl⟩
      · cases h

variable (inv : FdState → Finset (Nat × Nat) → Prop)

/-- The rule for the loop of `sys_fork`: what a round keeps, with the child's descriptor counted after
it, the loop keeps. -/
lemma shareFds_induction
    (hround : ∀ (s s' : FdState) (D : Finset (Nat × Nat)) (fd : Nat), inv s D → (p, fd) ∈ D →
      (child, fd) ∉ D → s.fdTable child fd = s.fdTable p fd → s.shareFd p fd = some s' →
      inv s' (insert (child, fd) D)) {n fd : Nat} (h : inv s D)
    (hparent : ∀ j ∈ Finset.Ico fd (fd + n), (p, j) ∈ D)
    (hchild : ∀ j ∈ Finset.Ico fd (fd + n), (child, j) ∉ D)
    (hcopy : ∀ j, s.fdTable child j = s.fdTable p j) (hloop : s.shareFds p n fd = some s') :
    inv s' (D ∪ {child} ×ˢ Finset.Ico fd (fd + n)) ∧ s.SameFds s' := by
  induction n generalizing s D fd with
  | zero =>
    obtain rfl := some.inj hloop
    simpa using ⟨h, SameFds.refl s⟩
  | succ n ih =>
    obtain ⟨s1, hs1, hloop⟩ := bind_eq_some_iff.mp hloop
    have hmem : fd ∈ Finset.Ico fd (fd + (n + 1)) := mem_Ico.mpr (by omega)
    have hsame := sameFds_shareFd hs1
    have h1 := hround s s1 D fd h (hparent fd hmem) (hchild fd hmem) (hcopy fd) hs1
    have hsub : ∀ j ∈ Finset.Ico (fd + 1) (fd + 1 + n), j ∈ Finset.Ico fd (fd + (n + 1)) ∧ j ≠ fd := by
      intro j hj
      simp only [mem_Ico] at hj ⊢
      omega
    have hrest := ih h1 (fun j hj => mem_insert_of_mem (hparent j (hsub j hj).1)) (fun j hj => by
        rw [mem_insert, not_or]
        exact ⟨fun heq => (hsub j hj).2 (Prod.mk.inj heq).2, hchild j (hsub j hj).1⟩)
      (by rw [hsame.fdTable]; exact hcopy) hloop
    have hset : insert (child, fd) D ∪ {child} ×ˢ Finset.Ico (fd + 1) (fd + 1 + n) =
        D ∪ {child} ×ˢ Finset.Ico fd (fd + (n + 1)) := by
      ext ⟨q, j⟩
      simp only [mem_union, mem_insert, mem_product, mem_singleton, mem_Ico, Prod.mk.injEq]
      grind
    rw [hset] at hrest
    exact ⟨hrest.1, hsame.trans hrest.2⟩

/-- The rule for `sys_fork`. -/
lemma sysFork_induction
    (hprocs : ∀ (s : FdState) (D : Finset (Nat × Nat)) (P : Finset Nat), inv s D →
      inv { s with procs := P } D)
    (hround : ∀ (s s' : FdState) (D : Finset (Nat × Nat)) (fd : Nat), inv s D → (p, fd) ∈ D →
      (child, fd) ∉ D → s.fdTable child fd = s.fdTable p fd → s.shareFd p fd = some s' →
      inv s' (insert (child, fd) D)) (hp : p ∈ s.procs) (hchild : child ∉ s.procs)
    (h : inv (s.copyProcess p child) s.live) (hfork : s.sysFork p child = some s') :
    inv s' s'.live ∧ s'.procs = insert child s.procs := by
  obtain ⟨s1, hloop, rfl⟩ := map_eq_some_iff.mp hfork
  have hne : p ≠ child := fun heq => hchild (heq ▸ hp)
  obtain ⟨h1, hsame⟩ := shareFds_induction inv hround h (fun j hj => mem_live.mpr ⟨hp, hj⟩)
    (fun j _ hmem => hchild (mem_live.mp hmem).1)
    (fun j => by simp [copyProcess, hne]) hloop
  have hprocs1 : s1.procs = s.procs := hsame.procs
  have hlive : s.live ∪ {child} ×ˢ Finset.Ico 3 (3 + 5) =
      ({ s1 with procs := insert child s1.procs } : FdState).live := by
    ext ⟨q, j⟩
    simp only [live, mem_union, mem_product, mem_singleton, mem_insert, hprocs1]
    tauto
  rw [hlive] at h1
  exact ⟨hprocs _ _ _ h1, by rw [hprocs1]⟩

lemma sameFds_dropPipe (h : s.dropPipe g = some s') : s.SameFds s' := by
  simp only [dropPipe] at h
  split_ifs at h
  · split at h
    · cases h
      exact ⟨rfl, rfl, rfl, rfl⟩
    · cases h
  · cases h
    exact ⟨rfl, rfl, rfl, rfl⟩

lemma sameFds_fileClose (h : s.fileClose p g = some s') : s.SameFds s' := by
  simp only [fileClose] at h
  split at h
  · obtain ⟨i, -, h⟩ := bind_eq_some_iff.mp h
    obtain ⟨c, -, rfl⟩ := map_eq_some_iff.mp h
    exact ⟨rfl, rfl, rfl, rfl⟩
  · cases h

lemma sameFds_closeSlot
    (h : (if s.isPipe g then s.dropPipe g else s.fileClose p g) = some s') : s.SameFds s' := by
  split_ifs at h
  · exact sameFds_dropPipe h
  · exact sameFds_fileClose h

/-- What a successful `sys_close` did. -/
lemma sysClose_eq_some {fd : Int} (hfd : 2 < fd) (h : s.sysClose p fd = some (r, s')) :
    ∃ g s1, fd.toNat ∈ Finset.Ico 3 8 ∧ s.fdTable p fd.toNat = some g ∧
      (if s.isPipe g then s.dropPipe g else s.fileClose p g) = some s1 ∧
      s' = s1.setFd p fd.toNat none := by
  rw [sysClose, if_pos hfd] at h
  obtain ⟨g, hg, h⟩ := bind_eq_some_iff.mp h
  obtain ⟨s1, hs1, h⟩ := map_eq_some_iff.mp h
  obtain ⟨hmem, hg⟩ := fdLocal2global_eq_some hfd hg
  exact ⟨g, s1, hmem, hg, hs1, (Prod.mk.inj h).2.symm⟩

lemma procs_sysClose {fd : Int} (h : s.sysClose p fd = some (r, s')) : s'.procs = s.procs := by
  by_cases hfd : 2 < fd
  · obtain ⟨g, s1, -, -, hs1, rfl⟩ := sysClose_eq_some hfd h
    exact (sameFds_closeSlot hs1).procs
  · rw [sysClose, if_neg hfd] at h
    cases h
    rfl

/-- The other descriptors are as before. -/
structure SameFdsBut (s s' : FdState) (p fd : Nat) : Prop where
  fdTable : ∀ x : Nat × Nat, x ≠ (p, fd) → s'.fdTable x.1 x.2 = s.fdTable x.1 x.2
  opened : s'.opened = s.opened
  procs : s'.procs = s.procs
  pgdir : s'.pgdir = s.pgdir

lemma SameFds.but (h : s.SameFds s') (p fd : Nat) : s.SameFdsBut s' p fd :=
  ⟨fun _ _ => by rw [h.fdTable], h.opened, h.procs, h.pgdir⟩

/-- A round of the loop in `sys_exit` closes the slot; it may leave the entry in the table. -/
lemma releaseFd_eq_some (hfd : fd ∈ Finset.Ico 3 8) (h : s.releaseFd p fd = some s') :
    (s.fdTable p fd = none ∧ s' = s) ∨ ∃ g s1, s.fdTable p fd = some g ∧
      (if s.isPipe g then s.dropPipe g else s.fileClose p g) = some s1 ∧
      (s' = s1 ∨ s' = s1.setFd p fd none) := by
  simp only [releaseFd] at h
  cases hg : s.fdTable p fd with
  | none =>
    simp only [hg, Option.some.injEq] at h
    exact .inl ⟨rfl, h.symm⟩
  | some g =>
    simp only [hg] at h
    by_cases hpipe : s.isPipe g = true
    · rw [if_pos hpipe] at h
      exact .inr ⟨g, s', rfl, by rw [if_pos hpipe, h], .inl rfl⟩
    · rw [if_neg hpipe] at h
      obtain ⟨⟨r, s1⟩, hclose, rfl⟩ := map_eq_some_iff.mp h
      have hlt : (2 : Int) < (fd : Int) := by
        have := (mem_Ico.mp hfd).1
        omega
      obtain ⟨g', s2, -, hg', hs2, heq⟩ := sysClose_eq_some hlt hclose
      obtain rfl : g = g' := some.inj (hg.symm.trans hg')
      exact .inr ⟨g, s2, rfl, hs2, .inr heq⟩

lemma sameFdsBut_releaseFd (hfd : fd ∈ Finset.Ico 3 8) (h : s.releaseFd p fd = some s') :
    s.SameFdsBut s' p fd := by
  obtain ⟨-, rfl⟩ | ⟨g, s1, -, hs1, rfl | rfl⟩ := releaseFd_eq_some hfd h
  · exact (SameFds.refl s').but p fd
  · exact (sameFds_closeSlot hs1).but p fd
  · have hsame := sameFds_closeSlot hs1
    exact ⟨fun x hx => (setFd_of_ne hx none).trans (by rw [hsame.fdTable]), hsame.opened, hsame.procs,
      hsame.pgdir⟩

/-- The rule for the loop of `sys_exit`: what a round keeps, with the descriptor not counted after it,
the loop keeps. -/
lemma releaseFds_induction
    (hround : ∀ (s s' : FdState) (D : Finset (Nat × Nat)) (fd : Nat), inv s D →
      fd ∈ Finset.Ico 3 8 → (p, fd) ∈ D → s.releaseFd p fd = some s' → inv s' (D.erase (p, fd)))
    (h : inv s D) (hmem : ∀ j ∈ Finset.Ico fd (fd + n), (p, j) ∈ D)
    (hrange : 3 ≤ fd ∧ fd + n ≤ 8) (hloop : s.releaseFds p n fd = some s') :
    inv s' (D \ {p} ×ˢ Finset.Ico fd (fd + n)) ∧ s'.procs = s.procs := by
  induction n generalizing s D fd with
  | zero =>
    cases hloop
    simpa using h
  | succ n ih =>
    obtain ⟨s1, hs1, hloop⟩ := bind_eq_some_iff.mp hloop
    have hfd : fd ∈ Finset.Ico 3 8 := mem_Ico.mpr (by omega)
    have hmem1 : fd ∈ Finset.Ico fd (fd + (n + 1)) := mem_Ico.mpr (by omega)
    have h1 := hround s s1 D fd h hfd (hmem fd hmem1) hs1
    have hrest := ih h1 (fun j hj => by
        simp only [mem_Ico] at hj
        exact mem_erase.mpr ⟨fun heq => by
          have := (Prod.mk.inj heq).2
          omega, hmem j (mem_Ico.mpr (by omega))⟩)
      (by omega) hloop
    have hset : D.erase (p, fd) \ {p} ×ˢ Finset.Ico (fd + 1) (fd + 1 + n) =
        D \ {p} ×ˢ Finset.Ico fd (fd + (n + 1)) := by
      ext ⟨q, j⟩
      simp only [mem_sdiff, mem_erase, ne_eq, Prod.mk.injEq, mem_product, mem_singleton, mem_Ico]
      grind
    rw [hset] at hrest
    exact ⟨hrest.1, hrest.2.trans (sameFdsBut_releaseFd hfd hs1).procs⟩

/-- The rule for `sys_exit`. -/
lemma sysExit_induction
    (hprocs : ∀ (s : FdState) (D : Finset (Nat × Nat)) (P : Finset Nat), inv s D →
      inv { s with procs := P } D)
    (hround : ∀ (s s' : FdState) (D : Finset (Nat × Nat)) (fd : Nat), inv s D →
      fd ∈ Finset.Ico 3 8 → (p, fd) ∈ D → s.releaseFd p fd = some s' → inv s' (D.erase (p, fd)))
    (hp : p ∈ s.procs) (h : inv s s.live) (hexit : s.sysExit p = some s') :
    inv s' s'.live ∧ s'.procs = s.procs.erase p := by
  obtain ⟨s1, hloop, rfl⟩ := map_eq_some_iff.mp hexit
  obtain ⟨h1, hprocs1⟩ := releaseFds_induction inv hround h (fun j hj => mem_live.mpr ⟨hp, hj⟩)
    (by omega) hloop
  have hlive : s.live \ {p} ×ˢ Finset.Ico 3 (3 + 5) =
      ({ s1 with procs := s1.procs.erase p } : FdState).live := by
    ext ⟨q, j⟩
    simp only [live, mem_sdiff, mem_product, mem_singleton, mem_erase, hprocs1]
    tauto
  rw [hlive] at h1
  exact ⟨hprocs _ _ _ h1, by rw [hprocs1]⟩

end FdState

end SimpleOs
