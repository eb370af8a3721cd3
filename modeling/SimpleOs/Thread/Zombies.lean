import SimpleOs.Base.Fallible
import SimpleOs.Thread.Protocol

/-!
# Zombies behind a sleeping parent

A process that exits wakes its parent, so a sleeping parent has no hanging child. The adoption of
a child that is hanging already wakes nobody: `init_adopt_a_child` re-points it to init and leaves
init asleep. As long as that does not happen, a process that sleeps in `sys_wait` has no hanging
child once every `sys_exit` that has begun is done.
-/

namespace SimpleOs

open Base Option ProcState

namespace ProcState

variable {s s' : ProcState}

/-- No `sys_exit` is part-way through. -/
def NoneExiting (s : ProcState) : Prop :=
  ∀ e ∈ s.kernel.threadAllList, s.exiting e = true → s.kernel.status e = .hanging

/-- No process that sleeps in `sys_wait` has a hanging child. -/
def NoZombie (s : ProcState) : Prop :=
  ∀ w ∈ s.kernel.threadAllList, s.kernel.status w = .waiting →
    ∀ t ∈ s.kernel.threadAllList, (s.kernel.task t).parentPid = (s.kernel.task w).pid →
      s.kernel.status t ≠ .hanging

/-- Init, if it is asleep in `sys_wait`, gets no hanging child by adoption, unless the process that
exits is its own child and will wake it. -/
def AdoptionWakes (s : ProcState) : ProcAct → Prop
  | .exitBegin _ => (s.kernel.task s.kernel.cur).parentPid = 1 ∨
      s.kernel.findHangingChild (s.kernel.task s.kernel.cur).pid = none ∨
      ∀ i ∈ s.kernel.threadAllList, (s.kernel.task i).pid = 1 → s.kernel.status i ≠ .waiting
  | _ => True

instance (s : ProcState) (a : ProcAct) : Decidable (s.AdoptionWakes a) := by
  cases a <;> unfold AdoptionWakes <;> infer_instance

/-- A sleeping process with a hanging child has a child that is about to wake it. -/
def WakePending (k : Kernel) (exiting : Nat → Bool) : Prop :=
  ∀ w ∈ k.threadAllList, k.status w = .waiting →
    ∀ t ∈ k.threadAllList, (k.task t).parentPid = (k.task w).pid → k.status t = .hanging →
      ∃ e ∈ k.threadAllList, exiting e = true ∧ k.status e ≠ .hanging ∧
        (k.task e).parentPid = (k.task w).pid

variable {k k' : Kernel} {exiting : Nat → Bool}

lemma WakePending.sameProcs (h : WakePending k exiting) (hk : k.SameProcs k') :
    WakePending k' exiting := by
  intro w hw hwait t ht hparent hhang
  rw [hk.all] at hw ht
  rw [hk.parentPid, hk.pid] at hparent
  obtain ⟨e, he, hexiting, hst, hparent'⟩ :=
    h w hw ((hk.waiting w).mp hwait) t ht hparent ((hk.hanging t).mp hhang)
  exact ⟨e, by rwa [hk.all], hexiting, fun hst' => hst ((hk.hanging e).mp hst'),
    by rwa [hk.parentPid, hk.pid]⟩

/-- A task that is not about to wake anybody can leave. -/
lemma WakePending.withoutTask (h : WakePending k exiting) (hnodup : k.threadAllList.Nodup)
    (hd : exiting d = true → k.status d = .hanging) : WakePending (k.withoutTask d) exiting := by
  have htask : ∀ u, u ≠ d → (k.withoutTask d).task u = k.task u := fun u hu =>
    (Kernel.task_setTask k d (fun p => { p with status := .died }) u).trans (if_neg hu)
  have hmem : ∀ u, u ∈ (k.withoutTask d).threadAllList ↔ u ≠ d ∧ u ∈ k.threadAllList :=
    fun u => hnodup.mem_erase_iff
  intro w hw hwait t ht hparent hhang
  obtain ⟨hwd, hw⟩ := (hmem w).mp hw
  obtain ⟨htd, ht⟩ := (hmem t).mp ht
  simp only [Kernel.status, htask w hwd, htask t htd] at hwait hhang hparent
  obtain ⟨e, he, hexiting, hst, hparent'⟩ := h w hw hwait t ht hparent hhang
  have hed : e ≠ d := by rintro rfl; exact hst (hd hexiting)
  refine ⟨e, (hmem e).mpr ⟨hed, he⟩, hexiting, ?_, ?_⟩
  · simpa only [Kernel.status, htask e hed] using hst
  · simpa only [htask e hed, htask w hwd] using hparent'

/-! ### The steps -/

section

variable (h : WakePending s.kernel s.exiting)
include h

lemma WakePending.sched (hok : s.Ok)
    (hs' : (ProcAct.sched a).exec s = some s') : WakePending s'.kernel s'.exiting := by
  simp only [ProcAct.exec] at hs'
  split_ifs at hs' with ha
  obtain ⟨k', hk', -, heffect⟩ := hok.inStep.plain ha
  obtain rfl : { s with kernel := k' } = s' := by simpa [hk'] using hs'
  rcases heffect with hsame | ⟨huser, -, hsame⟩
  · exact h.sameProcs hsame
  · refine (h.withoutTask hok.inStep.nodup fun hexiting => ?_).sameProcs hsame
    obtain ⟨p, -, hP, -⟩ := hok.pid2thread_parent hexiting
    rw [hP.childUserProg] at huser
    cases huser

lemma WakePending.fork (hok : s.Ok)
    (hs' : (ProcAct.fork t).exec s = some s') : WakePending s'.kernel s'.exiting := by
  simp only [ProcAct.exec] at hs'
  split_ifs at hs' with hguard
  obtain ⟨k', hk', rfl⟩ := map_eq_some_iff.mp hs'
  obtain ⟨n, hforked⟩ := hok.inStep.fork hguard.2 hk'
  have hne : ∀ u ∈ s.kernel.threadAllList, u ≠ t := by rintro u hu rfl; exact hguard.2 hu
  have hold : ∀ u ∈ s.kernel.threadAllList, k'.task u = s.kernel.task u := fun u hu => by
    rw [hforked.task, if_neg (hne u hu)]
  have hnew : k'.status t = .ready := by
    rw [Kernel.status, hforked.task, if_pos rfl]
    rfl
  -- the child is ready, so it neither waits nor hangs
  intro w hw hwait u hu hparent hhang
  simp only [recordFork, hforked.all, List.mem_append, List.mem_singleton] at hw hu
  rcases hw with hw | rfl
  · rcases hu with hu | rfl
    · simp only [recordFork, Kernel.status, hold w hw, hold u hu] at hwait hparent hhang
      obtain ⟨e, he, hexiting, hst, hparent'⟩ := h w hw hwait u hu hparent hhang
      refine ⟨e, ?_, ?_, ?_, ?_⟩
      · simp [recordFork, hforked.all, he]
      · simpa [recordFork, hne e he] using hexiting
      · simpa only [recordFork, Kernel.status, hold e he] using hst
      · simpa only [recordFork, hold e he, hold w hw] using hparent'
    · exact absurd (hnew.symm.trans hhang) (by simp)
  · exact absurd (hnew.symm.trans hwait) (by simp)

/-- The process that enters `sys_exit` is running; what it hands over to init is either not
hanging, or init is awake, or it is itself the child that will wake init. -/
lemma WakePending.exitBegin (hok : s.Ok) (hsafe : s.AdoptionWakes (.exitBegin status))
    (hs' : (ProcAct.exitBegin status).exec s = some s') : WakePending s'.kernel s'.exiting := by
  simp only [ProcAct.exec] at hs'
  split_ifs at hs' with hguard
  obtain ⟨k', hk', rfl⟩ := map_eq_some_iff.mp hs'
  obtain ⟨-, hall, -, -, -, -, -, htask⟩ := Kernel.exitBegin_eq hk'
  have hcur := hok.inStep.cur_mem
  have hst : ∀ u, k'.status u = s.kernel.status u := fun u => by simp only [Kernel.status, htask]
  have hpid : ∀ u, (k'.task u).pid = (s.kernel.task u).pid := fun u => by rw [htask]
  have hparentPid : ∀ u ∈ s.kernel.threadAllList, (k'.task u).parentPid =
      if (s.kernel.task u).parentPid = (s.kernel.task s.kernel.cur).pid then 1
      else (s.kernel.task u).parentPid := fun u hu => by rw [htask]; simp [hu]
  intro w hw hwait u hu hparent hhang
  simp only [recordExit, hall] at hw hu
  simp only [recordExit, hst] at hwait hhang
  simp only [recordExit, hpid, hparentPid u hu] at hparent
  have hwcur : w ≠ s.kernel.cur := by
    rintro rfl
    rw [hok.inStep.cur_status] at hwait
    cases hwait
  by_cases hadopted : (s.kernel.task u).parentPid = (s.kernel.task s.kernel.cur).pid
  · rw [if_pos hadopted] at hparent
    have hown : (s.kernel.task s.kernel.cur).parentPid ≠ (s.kernel.task s.kernel.cur).pid :=
      fun heq => Nat.lt_irrefl _ (hok.procs.isParent_of_parentPid hcur hcur heq).older
    rcases hsafe with hinit | hnone | hawake
    · refine ⟨s.kernel.cur, by simpa only [recordExit, hall] using hcur, ?_, ?_, ?_⟩
      · simp [recordExit]
      · rw [recordExit, hst, hok.inStep.cur_status]
        simp
      · rw [recordExit, hparentPid _ hcur, if_neg hown, hinit, hpid]
        exact hparent
    · simpa [hadopted, hhang] using List.find?_eq_none.mp hnone u hu
    · exact absurd hwait (hawake w hw hparent.symm)
  · rw [if_neg hadopted] at hparent
    obtain ⟨e, he, hexiting, hste, hparent'⟩ := h w hw hwait u hu hparent hhang
    have hecur : e ≠ s.kernel.cur := by
      rintro rfl
      simp [hguard.2] at hexiting
    have hekept : (s.kernel.task e).parentPid ≠ (s.kernel.task s.kernel.cur).pid := by omega
    refine ⟨e, by simpa only [recordExit, hall] using he, ?_, ?_, ?_⟩
    · simpa [recordExit, hecur] using hexiting
    · simpa only [recordExit, hst] using hste
    · rw [recordExit, hparentPid e he, if_neg hekept, hpid]
      exact hparent'

/-- The process that ends its `sys_exit` has woken its parent. -/
lemma WakePending.exitEnd (hok : s.Ok)
    (hs' : ProcAct.exitEnd.exec s = some s') : WakePending s'.kernel s'.exiting := by
  simp only [ProcAct.exec] at hs'
  split_ifs at hs' with hexiting
  obtain ⟨p, hp, hP, hfind⟩ := hok.pid2thread_parent hexiting
  obtain ⟨k', m, hk', -, hsame⟩ :=
    hok.inStep.exitEnd hfind (hok.procs.ne_idle hP.childUserProg)
  obtain rfl : { s with kernel := k' } = s' := by simpa [hk'] using hs'
  refine WakePending.sameProcs ?_ hsame
  -- only the statuses of the parent and of the process itself have changed
  have hst : ∀ u, ((s.kernel.wokenParent p m).setStatus s.kernel.cur .hanging).status u =
      if u = s.kernel.cur then .hanging
      else if u = p ∧ s.kernel.status p = .waiting then .ready else s.kernel.status u := by
    simp only [Kernel.wokenParent]
    split_ifs <;> simp_all
  have hall : ((s.kernel.wokenParent p m).setStatus s.kernel.cur .hanging).threadAllList =
      s.kernel.threadAllList := by
    simp only [Kernel.wokenParent, Kernel.setStatus_threadAllList]
    split_ifs <;> rfl
  have hfields : ∀ u,
      (((s.kernel.wokenParent p m).setStatus s.kernel.cur .hanging).task u).pid =
        (s.kernel.task u).pid ∧
      (((s.kernel.wokenParent p m).setStatus s.kernel.cur .hanging).task u).parentPid =
        (s.kernel.task u).parentPid := by
    intro u
    simp only [Kernel.wokenParent]
    split_ifs <;> simp only [Kernel.setStatus, Kernel.task_setTask, Kernel.withLinks_task] <;>
      split_ifs <;> simp_all
  intro w hw hwait t ht hparent hhang
  rw [hall] at hw ht
  rw [(hfields t).2, (hfields w).1] at hparent
  rw [hst] at hwait hhang
  split_ifs at hwait with hwcur hwp
  -- the parent of the process that ends is not waiting any more
  have hwne : (s.kernel.task s.kernel.cur).parentPid ≠ (s.kernel.task w).pid := by
    intro heq
    obtain rfl := hok.procs.pid_inj p hp w hw (hP.parentPid.symm.trans heq)
    exact hwp ⟨rfl, hwait⟩
  have htcur : t ≠ s.kernel.cur := by rintro rfl; exact hwne hparent
  have hhang' : s.kernel.status t = .hanging := by
    rw [if_neg htcur] at hhang
    split_ifs at hhang
    exact hhang
  obtain ⟨e, he, hexiting', hste, hparent'⟩ := h w hw hwait t ht hparent hhang'
  have hecur : e ≠ s.kernel.cur := by rintro rfl; exact hwne hparent'
  refine ⟨e, by rwa [hall], hexiting', ?_, by rwa [(hfields e).2, (hfields w).1]⟩
  rw [hst, if_neg hecur]
  split_ifs
  · simp
  · exact hste

lemma WakePending.wait (hok : s.Ok)
    (hs' : (ProcAct.wait r).exec s = some s') : WakePending s'.kernel s'.exiting := by
  simp only [ProcAct.exec] at hs'
  split_ifs at hs' with hguard
  obtain ⟨r', k', hround, -, hcases⟩ := hok.inStep.waitRound (hok.procs.ne_idle hguard.1)
  simp only [hround, bind_some] at hs'
  split_ifs at hs' with hr
  subst hr
  cases hs'
  rcases hcases with ⟨child, hfind, rfl, hsame⟩ | ⟨-, rfl, rfl⟩ | ⟨hnone, -, rfl, hsame⟩
  · simp only [recordWait, hfind]
    exact (h.withoutTask hok.inStep.nodup fun _ => (hok.findHangingChild hfind).2.1).sameProcs hsame
  · exact h
  · refine WakePending.sameProcs ?_ hsame
    -- the caller goes to sleep because it has no hanging child
    have hfields : ∀ u, ((s.kernel.setStatus s.kernel.cur .waiting).task u).pid =
        (s.kernel.task u).pid ∧ ((s.kernel.setStatus s.kernel.cur .waiting).task u).parentPid =
        (s.kernel.task u).parentPid := by
      intro u
      simp only [Kernel.setStatus, Kernel.task_setTask]
      split_ifs <;> simp_all
    intro w hw hwait t ht hparent hhang
    rw [(hfields t).2, (hfields w).1] at hparent
    rw [Kernel.status_setStatus] at hwait hhang
    split_ifs at hhang with htcur
    by_cases hwcur : w = s.kernel.cur
    · rw [hwcur] at hparent
      simpa [hparent, hhang] using List.find?_eq_none.mp hnone t ht
    · rw [if_neg hwcur] at hwait
      obtain ⟨e, he, hexiting, hste, hparent'⟩ := h w hw hwait t ht hparent hhang
      refine ⟨e, he, hexiting, ?_, by rwa [(hfields e).2, (hfields w).1]⟩
      rw [Kernel.status_setStatus]
      split_ifs
      · simp
      · exact hste

lemma WakePending.forkFail
    (hs' : ProcAct.forkFail.exec s = some s') : WakePending s'.kernel s'.exiting := by
  simp only [ProcAct.exec] at hs'
  split_ifs at hs' with hguard
  obtain ⟨k', hk', rfl⟩ := map_eq_some_iff.mp hs'
  simp only [Kernel.forkFail, Kernel.allocatePid, map_map] at hk'
  obtain ⟨n, -, rfl⟩ := map_eq_some_iff.mp hk'
  exact h

lemma WakePending.step (hok : s.Ok) (hsafe : s.AdoptionWakes a) (hs' : a.exec s = some s') :
    WakePending s'.kernel s'.exiting := by
  cases a with
  | sched a => exact h.sched hok hs'
  | fork t => exact h.fork hok hs'
  | forkFail => exact h.forkFail hs'
  | exitBegin status => exact h.exitBegin hok hsafe hs'
  | exitEnd => exact h.exitEnd hok hs'
  | wait r => exact h.wait hok hs'

end

lemma wakePending_of_reachable (h : procSystem.Reachable AdoptionWakes s) :
    WakePending s.kernel s.exiting := by
  have hboth : s.Ok ∧ WakePending s.kernel s.exiting := by
    refine h.invariant (fun s => s.Ok ∧ WakePending s.kernel s.exiting) (fun s hinit => ?_)
      fun s a s' hs hsafe hstep => ?_
    · have hok := ok_of_init hinit
      refine ⟨hok, fun w _ _ t ht _ hhang => ?_⟩
      -- nobody has entered `sys_exit` yet, so nobody hangs
      obtain ⟨-, -, -, -, -, -, -, -, hexiting, -⟩ := hinit
      have hfalse := hok.procs.hanging t ht hhang
      simp [hexiting] at hfalse
    · exact ⟨hs.1.step hstep, hs.2.step hs.1 hsafe hstep⟩
  exact hboth.2

end ProcState

/-- In every state reached by steps none of which hands a hanging child to a sleeping init, if no
`sys_exit` is part-way through, then no process that sleeps in `sys_wait` has a hanging child. -/
theorem noZombie_of_adoptionWakes {s : ProcState}
    (h : procSystem.Reachable ProcState.AdoptionWakes s) (hnone : s.NoneExiting) : s.NoZombie := by
  intro w hw hwait t ht hparent hhang
  obtain ⟨e, he, hexiting, hst, -⟩ :=
    wakePending_of_reachable h w hw hwait t ht hparent hhang
  exact hst (hnone e he hexiting)

instance (s : ProcState) : Decidable s.NoneExiting := by
  unfold ProcState.NoneExiting
  infer_instance

instance (s : ProcState) : Decidable s.NoZombie := by
  unfold ProcState.NoZombie
  infer_instance

/-- Init forks a process that exits while init sleeps. -/
def childExitsLate : List ProcAct :=
  [.sched (.exit 1 true), .fork 3, .wait .asleep, .sched (.block .blocked), .exitBegin 0, .exitEnd]

/-- After `childExitsLate` init has been woken. -/
theorem noZombie_childExitsLate :
    ∃ s, runFromBoot (fun s a => decide (s.AdoptionWakes a)) childExitsLate = some s ∧
      s.NoneExiting ∧ s.NoZombie := by
  have hrun : (runFromBoot (fun s a => decide (s.AdoptionWakes a)) childExitsLate).any
      (fun s => decide s.NoneExiting) = true := by decide +kernel
  obtain ⟨s, hs, htest⟩ := exists_of_any hrun
  have hnone : s.NoneExiting := of_decide_eq_true htest
  have hreach : procSystem.Reachable ProcState.AdoptionWakes s :=
    reachable_runFromBoot (fun _ _ ha => of_decide_eq_true ha) hs
  exact ⟨s, hs, hnone, noZombie_of_adoptionWakes hreach hnone⟩

/-- Three generations: init, asleep, has a child that has a child that has a child. The last two
exit, the youngest first. -/
def grandchildExits : List ProcAct :=
  [.sched (.exit 1 true), .fork 3, .wait .asleep, .sched (.block .blocked), .fork 4,
    .sched .yield, .fork 5, .sched .yield, .sched .yield, .exitBegin 0, .exitEnd, .exitBegin 0,
    .exitEnd]

/-- After `grandchildExits` the youngest process hangs with init as its parent, and init sleeps. -/
theorem not_forall_noZombie :
    ¬ ∀ s, procSystem.Reachable (fun _ _ => True) s → s.NoneExiting → s.NoZombie := by
  intro hall
  have hrun : (runFromBoot (fun _ _ => true) grandchildExits).any
      (fun s => decide (s.NoneExiting ∧ ¬ s.NoZombie)) = true := by decide +kernel
  obtain ⟨s, hs, htest⟩ := exists_of_any hrun
  have hzombie : s.NoneExiting ∧ ¬ s.NoZombie := of_decide_eq_true htest
  exact hzombie.2 (hall s (reachable_runFromBoot (by simp) hs) hzombie.1)

end SimpleOs
