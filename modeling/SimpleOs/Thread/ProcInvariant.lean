import SimpleOs.Thread.Process

/-!
# The process tree

`ProcInv` ties the pids, the parent pids and the list of all tasks to the history: pids are unique
and taken in the bitmap, and every task but the first three has a parent that is in the list and
has not exited, the one the history says it belongs to.
-/

namespace SimpleOs

open Base Function Kernel

/-- Task `t` is one of the three that nobody forked. -/
def ProcState.IsRoot (s : ProcState) (t : Nat) : Prop :=
  (s.kernel.task t).parentPid = -1 ∧ s.history.parent (s.history.serial t) = none

/-- Task `p` is the parent of task `t`, by its pid and by the history, and it has not exited. -/
structure ProcState.IsParent (s : ProcState) (t p : Nat) : Prop where
  parentPid : (s.kernel.task t).parentPid = (s.kernel.task p).pid
  parent : s.history.parent (s.history.serial t) = some (s.history.serial p)
  older : s.history.serial p < s.history.serial t
  userProg : (s.kernel.task p).userProg = true
  childUserProg : (s.kernel.task t).userProg = true
  alive : s.history.exitArg (s.history.serial p) = none

/-- What holds of the processes in every state. -/
structure ProcInv (s : ProcState) : Prop where
  btmpBytesLen : s.kernel.pidBitmap.btmpBytesLen = 128
  pid_taken : ∀ t ∈ s.kernel.threadAllList, ∃ n : Nat, n < 1024 ∧
    (s.kernel.task t).pid = n + 1 ∧ s.kernel.pidBitmap.bitmapScanTest n = true
  pid_inj : ∀ t ∈ s.kernel.threadAllList, ∀ u ∈ s.kernel.threadAllList,
    (s.kernel.task t).pid = (s.kernel.task u).pid → t = u
  serial_lt : ∀ t ∈ s.kernel.threadAllList, s.history.serial t < s.history.next
  serial_inj : ∀ t ∈ s.kernel.threadAllList, ∀ u ∈ s.kernel.threadAllList,
    s.history.serial t = s.history.serial u → t = u
  init : ∃ i ∈ s.kernel.threadAllList, (s.kernel.task i).pid = 1 ∧ s.history.serial i = 0 ∧
    (s.kernel.task i).parentPid = -1 ∧ (s.kernel.task i).userProg = true ∧
    s.history.exitArg 0 = none
  parent : ∀ t ∈ s.kernel.threadAllList,
    s.IsRoot t ∨ ∃ p ∈ s.kernel.threadAllList, s.IsParent t p
  exiting : ∀ t ∈ s.kernel.threadAllList,
    (s.exiting t = true ↔ s.history.exitArg (s.history.serial t) ≠ none)
  exiting_parentPid : ∀ t ∈ s.kernel.threadAllList, s.exiting t = true →
    (s.kernel.task t).parentPid ≠ -1
  exitStatus : ∀ t ∈ s.kernel.threadAllList, ∀ status,
    s.history.exitArg (s.history.serial t) = some status →
      (s.kernel.task t).exitStatus = status.toInt8
  hanging : ∀ t ∈ s.kernel.threadAllList, s.kernel.status t = .hanging → s.exiting t = true
  idle : (s.kernel.task s.kernel.idleThread).userProg = false
  fresh : ∀ n, s.history.next ≤ n → s.history.exitArg n = none
  calls_old : ∀ c ∈ s.history.calls, c.child < s.history.next ∧
    ∀ t ∈ s.kernel.threadAllList, s.history.serial t ≠ c.child
  calls_nodup : (s.history.calls.map WaitCall.child).Nodup

namespace ProcInv

variable {s : ProcState} {k : Kernel} {t p : Nat}

variable (h : ProcInv s)
include h

section

variable (ht : t ∈ s.kernel.threadAllList)
include ht

/-- A pid is positive, so it is not the `-1` of a task without a parent. -/
lemma pid_ne : (s.kernel.task t).pid ≠ -1 := by
  obtain ⟨n, -, hn, -⟩ := h.pid_taken t ht
  omega

lemma isParent_of_ne
    (hne : (s.kernel.task t).parentPid ≠ -1) : ∃ p ∈ s.kernel.threadAllList, s.IsParent t p :=
  (h.parent t ht).resolve_left fun hroot => hne hroot.1

lemma isParent_of_parentPid (hp : p ∈ s.kernel.threadAllList)
    (hpid : (s.kernel.task t).parentPid = (s.kernel.task p).pid) : s.IsParent t p := by
  obtain ⟨p', hp', hparent⟩ := h.isParent_of_ne ht (hpid ▸ h.pid_ne hp)
  obtain rfl := h.pid_inj p' hp' p hp (hparent.parentPid.symm.trans hpid)
  exact hparent

lemma isParent_of_serial (hp : p ∈ s.kernel.threadAllList)
    (hserial : s.history.parent (s.history.serial t) = some (s.history.serial p)) :
    s.IsParent t p := by
  rcases h.parent t ht with hroot | ⟨p', hp', hparent⟩
  · simp [hroot.2] at hserial
  · obtain rfl := h.serial_inj p' hp' p hp (Option.some.inj (hparent.parent.symm.trans hserial))
    exact hparent

end

lemma pid2thread_eq (hp : p ∈ s.kernel.threadAllList) :
    s.kernel.pid2thread (s.kernel.task p).pid = some p := by
  cases hfind : s.kernel.pid2thread (s.kernel.task p).pid with
  | none => simpa using List.find?_eq_none.mp hfind p hp
  | some u =>
    have hu : u ∈ s.kernel.threadAllList := List.mem_of_find?_eq_some hfind
    have hpid : (s.kernel.task u).pid = (s.kernel.task p).pid := by
      simpa using List.find?_some hfind
    rw [h.pid_inj u hu p hp hpid]

lemma ne_idle (hne : (s.kernel.task t).userProg = true) : t ≠ s.kernel.idleThread := by
  rintro rfl
  simp [h.idle] at hne

/-- The invariant speaks of pids, parents and exit statuses, and of who is hanging. -/
lemma congr (hall : k.threadAllList = s.kernel.threadAllList)
    (hidle : k.idleThread = s.kernel.idleThread) (hbitmap : k.pidBitmap = s.kernel.pidBitmap)
    (hpid : ∀ t, (k.task t).pid = (s.kernel.task t).pid)
    (hparent : ∀ t, (k.task t).parentPid = (s.kernel.task t).parentPid)
    (hexit : ∀ t, (k.task t).exitStatus = (s.kernel.task t).exitStatus)
    (huser : ∀ t, (k.task t).userProg = (s.kernel.task t).userProg)
    (hhanging : ∀ t ∈ s.kernel.threadAllList, k.status t = .hanging → s.exiting t = true) :
    ProcInv { s with kernel := k } where
  btmpBytesLen := by simpa only [hbitmap] using h.btmpBytesLen
  pid_taken := by simpa only [hall, hbitmap, hpid] using h.pid_taken
  pid_inj := by simpa only [hall, hpid] using h.pid_inj
  serial_lt := by simpa only [hall] using h.serial_lt
  serial_inj := by simpa only [hall] using h.serial_inj
  init := by simpa only [hall, hpid, hparent, huser] using h.init
  parent t ht := by
    rw [hall] at ht
    rcases h.parent t ht with hroot | ⟨p, hp, hP⟩
    · exact .inl ⟨(hparent t).trans hroot.1, hroot.2⟩
    · refine .inr ⟨p, by simpa only [hall] using hp, ?_⟩
      exact ⟨by simpa only [hparent, hpid] using hP.parentPid, hP.parent, hP.older,
        (huser p).trans hP.userProg, (huser t).trans hP.childUserProg, hP.alive⟩
  exiting := by simpa only [hall] using h.exiting
  exiting_parentPid := by simpa only [hall, hparent] using h.exiting_parentPid
  exitStatus := by simpa only [hall, hexit] using h.exitStatus
  hanging := by simpa only [hall] using hhanging
  idle := by simpa only [hidle, huser] using h.idle
  fresh := h.fresh
  calls_old := by simpa only [hall] using h.calls_old
  calls_nodup := h.calls_nodup

lemma sameProcs (hk : s.kernel.SameProcs k) : ProcInv { s with kernel := k } :=
  h.congr hk.all hk.idleThread hk.pidBitmap hk.pid hk.parentPid hk.exitStatus hk.userProg
    fun t ht hst => h.hanging t ht ((hk.hanging t).mp hst)

/-- So does a change of a status, except that only an exiting process may hang. -/
lemma setStatus (m : Links Node) (hst : st = .hanging → s.exiting t = true) :
    ProcInv { s with kernel := (s.kernel.withLinks m).setStatus t st } := by
  have htask : ∀ u, ((s.kernel.withLinks m).setStatus t st).task u =
      if u = t then { s.kernel.task t with status := st } else s.kernel.task u :=
    task_setTask (s.kernel.withLinks m) t _
  refine h.congr rfl rfl rfl ?_ ?_ ?_ ?_ ?_
  iterate 4 · intro u; rw [htask]; split_ifs with hu <;> simp [hu]
  · intro u hu hst'
    rw [status_setStatus] at hst'
    split_ifs at hst' with hut
    · exact hut ▸ hst hst'
    · exact h.hanging u hu hst'

/-- A task that is nobody's parent leaves, and its pid is free again. -/
lemma withoutTask (hnodup : s.kernel.threadAllList.Nodup)
    (ht : t ∈ s.kernel.threadAllList) (hinit : (s.kernel.task t).pid ≠ 1)
    (hidle : t ≠ s.kernel.idleThread)
    (hchild : ∀ u ∈ s.kernel.threadAllList, ¬ s.IsParent u t) :
    ProcInv { s with kernel := s.kernel.withoutTask t } := by
  have hmem : ∀ u, u ∈ s.kernel.threadAllList.erase t ↔ u ≠ t ∧ u ∈ s.kernel.threadAllList :=
    fun u => hnodup.mem_erase_iff
  have htask : ∀ u, u ≠ t → (s.kernel.withoutTask t).task u = s.kernel.task u := fun u hu =>
    (task_setTask s.kernel t (fun p => { p with status := .died }) u).trans (if_neg hu)
  refine ⟨h.btmpBytesLen, ?_, ?_, ?_, ?_, ?_, ?_, ?_, ?_, ?_, ?_, ?_, h.fresh, ?_, h.calls_nodup⟩
  · intro u hu
    obtain ⟨hut, hu⟩ := (hmem u).mp hu
    obtain ⟨n, hn, hpid, hbit⟩ := h.pid_taken u hu
    obtain ⟨n', -, hpid', -⟩ := h.pid_taken t ht
    refine ⟨n, hn, by simpa only [htask u hut] using hpid, ?_⟩
    have hne : n ≠ ((s.kernel.task t).pid - 1).toNat := by
      intro heq
      exact hut (h.pid_inj u hu t ht (by omega))
    have hbitmap : (s.kernel.withoutTask t).pidBitmap =
        s.kernel.pidBitmap.bitmapSet ((s.kernel.task t).pid - 1).toNat false := rfl
    rw [hbitmap, Bitmap.bitmapScanTest_bitmapSet, if_neg hne]
    exact hbit
  · intro u hu v hv hpid
    obtain ⟨hut, hu⟩ := (hmem u).mp hu
    obtain ⟨hvt, hv⟩ := (hmem v).mp hv
    rw [htask u hut, htask v hvt] at hpid
    exact h.pid_inj u hu v hv hpid
  · intro u hu
    exact h.serial_lt u ((hmem u).mp hu).2
  · intro u hu v hv
    exact h.serial_inj u ((hmem u).mp hu).2 v ((hmem v).mp hv).2
  · obtain ⟨i, hi, hpid, hrest⟩ := h.init
    have hit : i ≠ t := by rintro rfl; exact hinit hpid
    exact ⟨i, (hmem i).mpr ⟨hit, hi⟩, by simpa only [htask i hit] using ⟨hpid, hrest⟩⟩
  · intro u hu'
    obtain ⟨hut, hu⟩ := (hmem u).mp hu'
    rcases h.parent u hu with hroot | ⟨p, hp, hP⟩
    · exact .inl ⟨by simpa only [htask u hut] using hroot.1, hroot.2⟩
    · have hpt : p ≠ t := fun heq => hchild u hu (heq ▸ hP)
      refine .inr ⟨p, (hmem p).mpr ⟨hpt, hp⟩, ?_⟩
      exact { hP with
        parentPid := by simpa only [htask u hut, htask p hpt] using hP.parentPid
        userProg := by simpa only [htask p hpt] using hP.userProg
        childUserProg := by simpa only [htask u hut] using hP.childUserProg }
  · intro u hu
    exact h.exiting u ((hmem u).mp hu).2
  · intro u hu hexiting
    obtain ⟨hut, hu⟩ := (hmem u).mp hu
    simpa only [htask u hut] using h.exiting_parentPid u hu hexiting
  · intro u hu status hstatus
    obtain ⟨hut, hu⟩ := (hmem u).mp hu
    simpa only [htask u hut] using h.exitStatus u hu status hstatus
  · intro u hu hst
    obtain ⟨hut, hu⟩ := (hmem u).mp hu
    exact h.hanging u hu (by simpa only [status, htask u hut] using hst)
  · have hidle' := htask _ hidle.symm
    exact (congrArg Task.userProg hidle').trans h.idle
  · intro c hc
    exact ⟨(h.calls_old c hc).1, fun u hu => (h.calls_old c hc).2 u ((hmem u).mp hu).2⟩

/-- A process that `sys_wait` has returned is entered in the history once it is gone. -/
lemma addCall (hlt : c.child < s.history.next)
    (hgone : ∀ t ∈ s.kernel.threadAllList, s.history.serial t ≠ c.child)
    (hnew : ∀ c' ∈ s.history.calls, c'.child ≠ c.child) :
    ProcInv { s with history := { s.history with calls := c :: s.history.calls } } := by
  refine { h with parent := fun u hu => ?_, calls_old := fun c' hc' => ?_, calls_nodup := ?_ }
  · exact (h.parent u hu).imp_right fun ⟨p, hp, hP⟩ => ⟨p, hp, { hP with }⟩
  · rcases List.mem_cons.mp hc' with rfl | hc'
    · exact ⟨hlt, hgone⟩
    · exact h.calls_old c' hc'
  · rw [List.map_cons, List.nodup_cons]
    refine ⟨fun hmem => ?_, h.calls_nodup⟩
    obtain ⟨c', hc', heq⟩ := List.mem_map.mp hmem
    exact hnew c' hc' heq

lemma takePid : ProcInv { s with kernel :=
      { s.kernel with pidBitmap := s.kernel.pidBitmap.bitmapSet n true } } := by
  refine { h with pid_taken := fun u hu => ?_, parent := fun u hu => ?_ }
  · obtain ⟨n', hn', hpid, hbit⟩ := h.pid_taken u hu
    refine ⟨n', hn', hpid, ?_⟩
    rw [Bitmap.bitmapScanTest_bitmapSet]
    split_ifs
    · rfl
    · exact hbit
  · exact (h.parent u hu).imp_right fun ⟨p, hp, hP⟩ => ⟨p, hp, { hP with }⟩

/-- The running process forks: the child has a new pid and belongs to it. -/
lemma recordFork (hscan : s.kernel.pidBitmap.bitmapScan 1 = some n)
    (hcur : s.kernel.cur ∈ s.kernel.threadAllList) (huser : ProcAct.InUser s)
    (ht : t ∉ s.kernel.threadAllList) (hidle : s.kernel.idleThread ∈ s.kernel.threadAllList)
    (hall : k.threadAllList = s.kernel.threadAllList ++ [t])
    (hidle' : k.idleThread = s.kernel.idleThread)
    (hbitmap : k.pidBitmap = s.kernel.pidBitmap.bitmapSet n true)
    (htask : ∀ u, k.task u =
      if u = t then childOf (s.kernel.task s.kernel.cur) (n + 1) else s.kernel.task u) :
    ProcInv (s.recordFork t k) := by
  obtain ⟨hn, hclear, -⟩ := Bitmap.bitmapScan_one_eq_some hscan
  have hne : ∀ u ∈ s.kernel.threadAllList, u ≠ t := by rintro u hu rfl; exact ht hu
  have hmem : ∀ u, u ∈ k.threadAllList ↔ u ∈ s.kernel.threadAllList ∨ u = t := by simp [hall]
  have hold : ∀ u ∈ s.kernel.threadAllList, k.task u = s.kernel.task u := fun u hu => by
    rw [htask, if_neg (hne u hu)]
  have hnew : k.task t = childOf (s.kernel.task s.kernel.cur) (n + 1) := by
    rw [htask, if_pos rfl]
  have hserial : ∀ u ∈ s.kernel.threadAllList,
      (s.recordFork t k).history.serial u = s.history.serial u := fun u hu =>
    update_of_ne (hne u hu) ..
  have hserial' : (s.recordFork t k).history.serial t = s.history.next := update_self ..
  have hpidNew : ∀ u ∈ s.kernel.threadAllList, (s.kernel.task u).pid ≠ (n : Int) + 1 := by
    intro u hu heq
    obtain ⟨n', -, hpid, hbit⟩ := h.pid_taken u hu
    obtain rfl : n' = n := by omega
    simp [hclear] at hbit
  have hparentOld : ∀ u ∈ s.kernel.threadAllList,
      (s.recordFork t k).history.parent (s.history.serial u) =
        s.history.parent (s.history.serial u) := fun u hu =>
    update_of_ne (Nat.ne_of_lt (h.serial_lt u hu)) ..
  refine ⟨?_, ?_, ?_, ?_, ?_, ?_, ?_, ?_, ?_, ?_, ?_, ?_, ?_, ?_, h.calls_nodup⟩
  · simpa [ProcState.recordFork, hbitmap] using h.btmpBytesLen
  · intro u hu
    rcases (hmem u).mp hu with hu | rfl
    · obtain ⟨n', hn', hpid, hbit⟩ := h.pid_taken u hu
      refine ⟨n', hn', (congrArg Task.pid (hold u hu)).trans hpid, ?_⟩
      simp [ProcState.recordFork, hbitmap, hbit]
    · refine ⟨n, by rw [h.btmpBytesLen] at hn; exact hn, congrArg Task.pid hnew, ?_⟩
      simp [ProcState.recordFork, hbitmap]
  · intro u hu' v hv' hpid
    simp only [ProcState.recordFork] at hpid
    rcases (hmem u).mp hu' with hu | hut <;> rcases (hmem v).mp hv' with hv | hvt
    · rw [hold u hu, hold v hv] at hpid
      exact h.pid_inj u hu v hv hpid
    · rw [hold u hu, hvt, hnew] at hpid
      exact absurd hpid (hpidNew u hu)
    · rw [hold v hv, hut, hnew] at hpid
      exact absurd hpid.symm (hpidNew v hv)
    · rw [hut, hvt]
  · intro u hu
    rcases (hmem u).mp hu with hu | rfl
    · rw [hserial u hu]
      exact Nat.lt_succ_of_lt (h.serial_lt u hu)
    · rw [hserial']
      exact Nat.lt_succ_self _
  · intro u hu' v hv' heq
    rcases (hmem u).mp hu' with hu | hut <;> rcases (hmem v).mp hv' with hv | hvt
    · rw [hserial u hu, hserial v hv] at heq
      exact h.serial_inj u hu v hv heq
    · rw [hserial u hu, hvt, hserial'] at heq
      exact absurd heq (Nat.ne_of_lt (h.serial_lt u hu))
    · rw [hserial v hv, hut, hserial'] at heq
      exact absurd heq.symm (Nat.ne_of_lt (h.serial_lt v hv))
    · rw [hut, hvt]
  · obtain ⟨i, hi, hrest⟩ := h.init
    refine ⟨i, (hmem i).mpr (.inl hi), ?_⟩
    rw [hserial i hi]
    simpa only [ProcState.recordFork, hold i hi] using hrest
  · intro u hu
    rcases (hmem u).mp hu with hu | rfl
    · rcases h.parent u hu with hroot | ⟨p, hp, hP⟩
      · refine .inl ⟨(congrArg Task.parentPid (hold u hu)).trans hroot.1, ?_⟩
        rw [hserial u hu, hparentOld u hu]
        exact hroot.2
      · refine .inr ⟨p, (hmem p).mpr (.inl hp), ?_, ?_, ?_, ?_, ?_, ?_⟩
        · simpa only [ProcState.recordFork, hold u hu, hold p hp] using hP.parentPid
        · rw [hserial u hu, hserial p hp, hparentOld u hu]
          exact hP.parent
        · rw [hserial u hu, hserial p hp]
          exact hP.older
        · simpa only [ProcState.recordFork, hold p hp] using hP.userProg
        · simpa only [ProcState.recordFork, hold u hu] using hP.childUserProg
        · rw [hserial p hp]
          exact hP.alive
    · -- the child: its parent runs in user mode, so it has not exited
      refine .inr ⟨s.kernel.cur, (hmem _).mpr (.inl hcur), ?_, ?_, ?_, ?_, ?_, ?_⟩
      · simp [ProcState.recordFork, hnew, hold _ hcur, childOf]
      · rw [hserial', hserial _ hcur]
        exact update_self ..
      · rw [hserial', hserial _ hcur]
        exact h.serial_lt _ hcur
      · simpa only [ProcState.recordFork, hold _ hcur] using huser.1
      · simpa only [ProcState.recordFork, hnew, childOf] using huser.1
      · rw [hserial _ hcur]
        by_contra halive
        simpa [huser.2] using (h.exiting _ hcur).mpr halive
  · intro u hu
    rcases (hmem u).mp hu with hu | rfl
    · simpa [ProcState.recordFork, hne u hu] using h.exiting u hu
    · simp [ProcState.recordFork, h.fresh]
  · intro u hu hexiting
    rcases (hmem u).mp hu with hu | rfl
    · have hexiting' : s.exiting u = true := by
        simpa [ProcState.recordFork, hne u hu] using hexiting
      simpa only [ProcState.recordFork, hold u hu] using h.exiting_parentPid u hu hexiting'
    · simp [ProcState.recordFork] at hexiting
  · intro u hu status hstatus
    rcases (hmem u).mp hu with hu | rfl
    · rw [hserial u hu] at hstatus
      simpa only [ProcState.recordFork, hold u hu] using h.exitStatus u hu status hstatus
    · simp [ProcState.recordFork, h.fresh] at hstatus
  · intro u hu hst
    rcases (hmem u).mp hu with hu | rfl
    · have hst' : s.kernel.status u = .hanging := by
        simpa only [ProcState.recordFork, status, hold u hu] using hst
      simpa [ProcState.recordFork, hne u hu] using h.hanging u hu hst'
    · simp [ProcState.recordFork, status, hnew, childOf] at hst
  · simpa only [ProcState.recordFork, hidle', hold _ hidle] using h.idle
  · intro m hm
    exact h.fresh m (Nat.le_of_succ_le hm)
  · intro c hc
    obtain ⟨hlt, hgone⟩ := h.calls_old c hc
    refine ⟨Nat.lt_succ_of_lt hlt, fun u hu => ?_⟩
    rcases (hmem u).mp hu with hu | rfl
    · rw [hserial u hu]
      exact hgone u hu
    · omega

/-- The running process enters `sys_exit`: init adopts its children. -/
lemma recordExit {status : Int32} (hcur : s.kernel.cur ∈ s.kernel.threadAllList)
    (hparent : (s.kernel.task s.kernel.cur).parentPid ≠ -1)
    (hall : k.threadAllList = s.kernel.threadAllList)
    (hidle : k.idleThread = s.kernel.idleThread) (hbitmap : k.pidBitmap = s.kernel.pidBitmap)
    (hpid : ∀ u, (k.task u).pid = (s.kernel.task u).pid)
    (huser : ∀ u, (k.task u).userProg = (s.kernel.task u).userProg)
    (hstatus : ∀ u, k.status u = s.kernel.status u)
    (hparentPid : ∀ u ∈ s.kernel.threadAllList, (k.task u).parentPid =
      if (s.kernel.task u).parentPid = (s.kernel.task s.kernel.cur).pid then 1
      else (s.kernel.task u).parentPid)
    (hexit : ∀ u, (k.task u).exitStatus =
      if u = s.kernel.cur then status.toInt8 else (s.kernel.task u).exitStatus) :
    ProcInv (s.recordExit status k) := by
  obtain ⟨i, hi, hipid, hiserial, hiparent, hiuser, hialive⟩ := h.init
  have hicur : i ≠ s.kernel.cur := by rintro rfl; exact hparent hiparent
  have hserial : ∀ u ∈ s.kernel.threadAllList, s.history.serial u = s.curSerial → u = s.kernel.cur :=
    fun u hu heq => h.serial_inj u hu _ hcur heq
  have hexitArg : ∀ u ∈ s.kernel.threadAllList, u ≠ s.kernel.cur →
      (s.recordExit status k).history.exitArg (s.history.serial u) =
        s.history.exitArg (s.history.serial u) := fun u hu hne =>
    update_of_ne (fun heq => hne (hserial u hu heq)) ..
  have hexitCur : (s.recordExit status k).history.exitArg s.curSerial = some status :=
    update_self ..
  have hne : ∀ u ∈ s.kernel.threadAllList, (s.kernel.task u).parentPid = -1 →
      (k.task u).parentPid = -1 := by
    intro u hu hroot
    rw [hparentPid u hu, if_neg (by rw [hroot]; exact (h.pid_ne hcur).symm)]
    exact hroot
  have hne' : ∀ u ∈ s.kernel.threadAllList, (s.kernel.task u).parentPid ≠ -1 →
      (k.task u).parentPid ≠ -1 := by
    intro u hu hroot
    rw [hparentPid u hu]
    split_ifs
    · decide
    · exact hroot
  have hmem : ∀ u, u ∈ (s.recordExit status k).kernel.threadAllList → u ∈ s.kernel.threadAllList :=
    fun u hu => hall ▸ hu
  refine ⟨?_, ?_, ?_, ?_, ?_, ?_, ?_, ?_, ?_, ?_, ?_, ?_, ?_, ?_, h.calls_nodup⟩
  · simpa only [ProcState.recordExit, hbitmap] using h.btmpBytesLen
  · simpa only [ProcState.recordExit, hall, hbitmap, hpid] using h.pid_taken
  · simpa only [ProcState.recordExit, hall, hpid] using h.pid_inj
  · simpa only [ProcState.recordExit, hall] using h.serial_lt
  · simpa only [ProcState.recordExit, hall] using h.serial_inj
  · refine ⟨i, by simpa only [ProcState.recordExit, hall] using hi, (hpid i).trans hipid, hiserial,
      hne i hi hiparent, (huser i).trans hiuser, ?_⟩
    rw [← hiserial, hexitArg i hi hicur, hiserial]
    exact hialive
  · intro u hu
    have hu := hmem u hu
    rcases h.parent u hu with hroot | ⟨p, hp, hP⟩
    · refine .inl ⟨hne u hu hroot.1, ?_⟩
      simp [ProcState.recordExit, hroot.2]
    · by_cases hpc : p = s.kernel.cur
      · -- a child of the exiting process: init is its parent from now on
        refine .inr ⟨i, by simpa only [ProcState.recordExit, hall] using hi, ?_, ?_, ?_,
          (huser i).trans hiuser, (huser u).trans hP.childUserProg, ?_⟩
        · have hpid' : (s.kernel.task u).parentPid = (s.kernel.task s.kernel.cur).pid :=
            hpc ▸ hP.parentPid
          exact (hparentPid u hu).trans ((if_pos hpid').trans ((hpid i).trans hipid).symm)
        · have hparent' : s.history.parent (s.history.serial u) = some s.curSerial :=
            hP.parent.trans (by rw [hpc]; rfl)
          simp [ProcState.recordExit, hparent', hiserial]
        · simpa only [ProcState.recordExit, hiserial] using Nat.zero_lt_of_lt hP.older
        · rw [show (s.recordExit status k).history.serial i = s.history.serial i from rfl,
            hexitArg i hi hicur, hiserial]
          exact hialive
      · refine .inr ⟨p, by simpa only [ProcState.recordExit, hall] using hp, ?_, ?_, hP.older,
          (huser p).trans hP.userProg, (huser u).trans hP.childUserProg, ?_⟩
        · have hpid' : (s.kernel.task u).parentPid ≠ (s.kernel.task s.kernel.cur).pid := by
            rw [hP.parentPid]
            exact fun heq => hpc (h.pid_inj p hp _ hcur heq)
          exact (hparentPid u hu).trans ((if_neg hpid').trans (hP.parentPid.trans (hpid p).symm))
        · have hparent' : s.history.parent (s.history.serial u) ≠ some s.curSerial := by
            rw [hP.parent]
            exact fun heq => hpc (hserial p hp (Option.some.inj heq))
          simpa [ProcState.recordExit, hparent'] using hP.parent
        · exact (hexitArg p hp hpc).trans hP.alive
  · intro u hu
    have hu := hmem u hu
    by_cases huc : u = s.kernel.cur
    · have hexitCur' : (s.recordExit status k).history.exitArg
          ((s.recordExit status k).history.serial u) = some status := by rw [huc]; exact hexitCur
      rw [hexitCur', huc]
      simp [ProcState.recordExit]
    · rw [show (s.recordExit status k).history.serial u = s.history.serial u from rfl,
        hexitArg u hu huc]
      simpa [ProcState.recordExit, huc] using h.exiting u hu
  · intro u hu hexiting
    have hu := hmem u hu
    by_cases huc : u = s.kernel.cur
    · exact hne' u hu (huc ▸ hparent)
    · exact hne' u hu (h.exiting_parentPid u hu
        (by simpa [ProcState.recordExit, huc] using hexiting))
  · intro u hu st hst
    have hu := hmem u hu
    by_cases huc : u = s.kernel.cur
    · have hexitCur' : (s.recordExit status k).history.exitArg
          ((s.recordExit status k).history.serial u) = some status := by rw [huc]; exact hexitCur
      obtain rfl : status = st := Option.some.inj (hexitCur'.symm.trans hst)
      exact (hexit u).trans (if_pos huc)
    · have hst' : s.history.exitArg (s.history.serial u) = some st :=
        (hexitArg u hu huc).symm.trans hst
      exact (hexit u).trans ((if_neg huc).trans (h.exitStatus u hu st hst'))
  · intro u hu hst
    have hold := h.hanging u (hmem u hu) ((hstatus u).symm.trans hst)
    by_cases huc : u = s.kernel.cur
    · simp [ProcState.recordExit, huc]
    · simpa [ProcState.recordExit, huc] using hold
  · simpa only [ProcState.recordExit, hidle, huser] using h.idle
  · intro n hn
    have hlt := h.serial_lt _ hcur
    have hnc : n ≠ s.curSerial := fun heq => absurd hn (by rw [heq]; exact Nat.not_le.mpr hlt)
    exact (update_of_ne hnc ..).trans (h.fresh n hn)
  · simpa only [ProcState.recordExit, hall] using h.calls_old

end ProcInv

end SimpleOs
