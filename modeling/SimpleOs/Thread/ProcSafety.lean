import SimpleOs.Thread.ProcInvariant

/-!
# fork, exit and wait keep to the protocol

What each section of the system calls does to the kernel, and that it keeps the process tree in
order. From that: the parent of a process is always there to be woken, every child is returned to
its parent and only once, and `sys_wait` fails only for a process without children.
-/

namespace SimpleOs

open Base Option

/-! ### What the sections do -/

namespace Kernel

variable {k k' : Kernel} {t : Nat}

section

variable (h : k.InStep)
include h

/-- Scheduling leaves the process tree alone, but for the main thread, which can end. -/
lemma InStep.plain {a : SchedAct} (ha : a.Plain k) :
    ∃ k', a.exec k = some k' ∧ k'.InStep ∧ (k.SameProcs k' ∨
      (k.task k.cur).userProg = false ∧ k.cur ≠ k.idleThread ∧
        (k.withoutTask k.cur).SameProcs k') := by
  obtain ⟨q, hinv⟩ := h
  cases a with
  | timer =>
    obtain ⟨k', l, hk', hinv', hsame⟩ := hinv.intrTimerHandler
    exact ⟨k', hk', ⟨_, hinv'⟩, .inl hsame⟩
  | block stat =>
    obtain ⟨-, rfl⟩ := ha
    obtain ⟨k', l, hk', hinv', hsame⟩ := hinv.threadBlock .blocked (.inl rfl) fun _ => rfl
    exact ⟨k', hk', ⟨_, hinv'⟩, .inl (hinv.sameProcs_setBlocked.trans hsame)⟩
  | unblockParent t => exact ha.elim
  | yield =>
    obtain ⟨k', l, hk', hinv', hsame⟩ := hinv.threadYield
    exact ⟨k', hk', ⟨_, hinv'⟩, .inl hsame⟩
  | semaDown sema =>
    obtain ⟨k', l, hk', hinv', hsame⟩ := hinv.semaDown ha sema
    exact ⟨k', hk', ⟨_, hinv'⟩, .inl hsame⟩
  | semaUp sema =>
    obtain ⟨k', l, hk', hinv', hsame, hcur⟩ := hinv.semaUp sema
    exact ⟨k', hk', ⟨_, hcur ▸ hinv'⟩, .inl hsame⟩
  | ioqWait c =>
    obtain ⟨k', l, hk', hinv', hsame⟩ := hinv.ioqWait ha c
    exact ⟨k', hk', ⟨_, hinv'⟩, .inl hsame⟩
  | wakeup c =>
    obtain ⟨t, hc⟩ := Option.ne_none_iff_exists'.mp ha
    obtain ⟨k', l, hk', hinv', hsame, hcur⟩ := hinv.wakeup hc
    exact ⟨k', hk', ⟨_, hcur ▸ hinv'⟩, .inl hsame⟩
  | fork t pid => exact ha.elim
  | exit t needSchedule =>
    obtain ⟨rfl, rfl, hidle, huser⟩ := ha
    obtain ⟨k', l, hk', hinv', hsame⟩ :=
      hinv.threadExit ((hinv.running _).mp rfl).1 true ⟨rfl, hidle⟩
    exact ⟨k', hk', ⟨_, hinv'⟩, .inr ⟨huser, hidle, hsame⟩⟩

lemma InStep.cur_mem : k.cur ∈ k.threadAllList := by
  obtain ⟨q, hinv⟩ := h
  exact ((hinv.running _).mp rfl).1

lemma InStep.cur_status : k.status k.cur = .running := by
  obtain ⟨q, hinv⟩ := h
  exact ((hinv.running _).mp rfl).2

lemma InStep.nodup : k.threadAllList.Nodup := by
  obtain ⟨q, hinv⟩ := h
  exact hinv.nodup

lemma InStep.idle_mem : k.idleThread ∈ k.threadAllList := by
  obtain ⟨q, hinv⟩ := h
  exact hinv.idle_mem

/-- What `sys_fork` leaves when it succeeds. -/
structure Forked (k k' : Kernel) (t n : Nat) : Prop where
  scan : k.pidBitmap.bitmapScan 1 = some n
  inStep : k'.InStep
  all : k'.threadAllList = k.threadAllList ++ [t]
  idleThread : k'.idleThread = k.idleThread
  pidBitmap : k'.pidBitmap = k.pidBitmap.bitmapSet n true
  task : ∀ u, k'.task u = if u = t then childOf (k.task k.cur) (n + 1) else k.task u

lemma InStep.fork (ht : t ∉ k.threadAllList) (hk : k.fork t = some k') : ∃ n, k.Forked k' t n := by
  obtain ⟨q, hinv⟩ := h
  cases hscan : k.pidBitmap.bitmapScan 1 with
  | none => simp [Kernel.fork, allocatePid, hscan] at hk
  | some n =>
    have hinv' : ListInv { k with pidBitmap := k.pidBitmap.bitmapSet n true } q (some k.cur) :=
      hinv.congr rfl rfl rfl rfl fun _ => rfl
    obtain ⟨m, l, hm, hinv''⟩ := hinv'.sysFork ht ((n : Int) + 1)
    obtain rfl := some.inj ((by simpa [Kernel.fork, allocatePid, hscan] using hm :
      k.fork t = some _).symm.trans hk)
    exact ⟨n, hscan, ⟨_, hinv''⟩, rfl, rfl, rfl,
      task_setTask { k with pidBitmap := k.pidBitmap.bitmapSet n true } t fun _ =>
        childOf (k.task k.cur) (n + 1)⟩

/-- The kernel when the parent `p` of the running process has been woken, if it was waiting. -/
def wokenParent (k : Kernel) (p : Nat) (m : Links Node) : Kernel :=
  if k.status p = .waiting then (k.withLinks m).setStatus p .ready else k

/-- The end of `sys_exit`: the parent is woken and the process hangs. -/
lemma InStep.exitEnd
    (hp : k.pid2thread (k.task k.cur).parentPid = some p) (hidle : k.cur ≠ k.idleThread) :
    ∃ k' m, k.exitEnd = some k' ∧ k'.InStep ∧
      ((k.wokenParent p m).setStatus k.cur .hanging).SameProcs k' := by
  obtain ⟨q, hinv⟩ := h
  have hall : p ∈ k.threadAllList := List.mem_of_find?_eq_some hp
  by_cases hst : k.status p = .waiting
  · obtain ⟨m, hm, hinv1⟩ :=
      hinv.threadUnblock hall (.inr hst) (hinv.loose_of_status (by simp [hst]))
    obtain ⟨k', l, hk', hinv', hsame⟩ :=
      hinv1.threadBlock .hanging (.inr (.inr rfl)) fun heq => absurd heq hidle
    refine ⟨k', m, by simp [Kernel.exitEnd, hp, wakeParent, hst, hm, hk'], ⟨_, hinv'⟩, ?_⟩
    simpa [wokenParent, hst] using hsame
  · obtain ⟨k', l, hk', hinv', hsame⟩ :=
      hinv.threadBlock .hanging (.inr (.inr rfl)) fun heq => absurd heq hidle
    refine ⟨k', k.links, by simp [Kernel.exitEnd, hp, wakeParent, hst, hk'], ⟨_, hinv'⟩, ?_⟩
    simpa [wokenParent, hst] using hsame

/-- A round of `sys_wait` reaps a child, fails, or goes to sleep. -/
lemma InStep.waitRound (hidle : k.cur ≠ k.idleThread) :
    ∃ r k', k.waitRound = some (r, k') ∧ k'.InStep ∧
      ((∃ child, k.findHangingChild (k.task k.cur).pid = some child ∧
        r = .returned (k.task child).pid (k.task child).exitStatus.toInt32 ∧
        (k.withoutTask child).SameProcs k') ∨
      (k.findChild (k.task k.cur).pid = none ∧ r = .failed ∧ k' = k) ∨
      (k.findHangingChild (k.task k.cur).pid = none ∧ k.findChild (k.task k.cur).pid ≠ none ∧
        r = .asleep ∧ (k.setStatus k.cur .waiting).SameProcs k')) := by
  obtain ⟨q, hinv⟩ := h
  cases hhang : k.findHangingChild (k.task k.cur).pid with
  | some child =>
    have hall : child ∈ k.threadAllList := List.mem_of_find?_eq_some hhang
    have hst : k.status child = .hanging := (by simpa using List.find?_some hhang : _ ∧ _).2
    obtain ⟨k', l, hk', hinv', hsame⟩ := hinv.threadExit hall false (by simpa using hst)
    exact ⟨_, k', by simp [Kernel.waitRound, hhang, hk'], ⟨_, hinv'⟩, .inl ⟨child, rfl, rfl, hsame⟩⟩
  | none =>
    cases hchild : k.findChild (k.task k.cur).pid with
    | none =>
      exact ⟨.failed, k, by simp [Kernel.waitRound, hhang, hchild], ⟨q, hinv⟩,
        .inr (.inl ⟨rfl, rfl, rfl⟩)⟩
    | some child =>
      obtain ⟨k', l, hk', hinv', hsame⟩ :=
        hinv.threadBlock .waiting (.inr (.inl rfl)) fun heq => absurd heq hidle
      exact ⟨.asleep, k', by simp [Kernel.waitRound, hhang, hchild, hk'], ⟨_, hinv'⟩,
        .inr (.inr ⟨rfl, by simp, rfl, hsame⟩)⟩

end

/-- `exitBegin`, with the writes to the PCBs spelled out. -/
lemma exitBegin_eq {status : Int32} (hk : k.exitBegin status = some k') :
    (k.task k.cur).parentPid ≠ -1 ∧ k'.threadAllList = k.threadAllList ∧
      k'.idleThread = k.idleThread ∧ k'.pidBitmap = k.pidBitmap ∧ k'.cur = k.cur ∧
      k'.links = k.links ∧ k'.waiter = k.waiter ∧
      ∀ u, k'.task u = { k.task u with
        parentPid := if u ∈ k.threadAllList ∧ (k.task u).parentPid = (k.task k.cur).pid then 1
          else (k.task u).parentPid
        exitStatus := if u = k.cur then status.toInt8 else (k.task u).exitStatus } := by
  have hparent : ∀ u, ((k.setTask k.cur fun p => { p with exitStatus := status.toInt8 }).task
      u).parentPid = (k.task u).parentPid := by
    intro u
    rw [task_setTask]
    split_ifs with hu <;> simp [hu]
  have hpid : ((k.setTask k.cur fun p => { p with exitStatus := status.toInt8 }).task
      k.cur).pid = (k.task k.cur).pid := by simp [task_setTask]
  simp only [exitBegin, setTask_cur, hparent, hpid] at hk
  split_ifs at hk with hroot
  cases hk
  refine ⟨hroot, rfl, rfl, rfl, rfl, rfl, rfl, fun u => ?_⟩
  simp only [initAdopt, setTask_threadAllList, hparent]
  by_cases hadopt : u ∈ k.threadAllList ∧ (k.task u).parentPid = (k.task k.cur).pid
  · rw [task_setTask]
    split_ifs with hu <;> simp [hu]
  · rw [task_setTask]
    split_ifs with hu <;> simp [hu]

lemma InStep.exitBegin (h : k.InStep) {status : Int32} (hk : k.exitBegin status = some k') :
    k'.InStep := by
  obtain ⟨q, hinv⟩ := h
  obtain ⟨-, hall, hidle, -, hcur, hlinks, hwaiter, htask⟩ := exitBegin_eq hk
  refine ⟨q, hcur ▸ hinv.congr hlinks hall hidle hwaiter fun u => ?_⟩
  simp only [Kernel.status, htask]

end Kernel

/-! ### The invariant of the system -/

/-- The lists are in step and the process tree is in order. -/
structure ProcState.Ok (s : ProcState) : Prop where
  inStep : s.kernel.InStep
  procs : ProcInv s

namespace ProcState.Ok

variable {s s' : ProcState} {p child : Nat}

variable (h : s.Ok)
include h

lemma pid2thread_parent (hexiting : s.exiting s.kernel.cur = true) :
    ∃ p ∈ s.kernel.threadAllList, s.IsParent s.kernel.cur p ∧
      s.kernel.pid2thread (s.kernel.task s.kernel.cur).parentPid = some p := by
  have hcur := h.inStep.cur_mem
  obtain ⟨p, hp, hP⟩ :=
    h.procs.isParent_of_ne hcur (h.procs.exiting_parentPid _ hcur hexiting)
  exact ⟨p, hp, hP, hP.parentPid ▸ h.procs.pid2thread_eq hp⟩

/-- What `sys_wait` finds hanging is a child of the caller, and it is nobody's parent. -/
lemma findHangingChild
    (hfind : s.kernel.findHangingChild (s.kernel.task s.kernel.cur).pid = some child) :
    child ∈ s.kernel.threadAllList ∧ s.kernel.status child = .hanging ∧
      s.IsParent child s.kernel.cur ∧ ∀ u ∈ s.kernel.threadAllList, ¬ s.IsParent u child := by
  have hall : child ∈ s.kernel.threadAllList := List.mem_of_find?_eq_some hfind
  obtain ⟨hpid, hst⟩ : (s.kernel.task child).parentPid = (s.kernel.task s.kernel.cur).pid ∧
      s.kernel.status child = .hanging := by simpa using List.find?_some hfind
  refine ⟨hall, hst, h.procs.isParent_of_parentPid hall h.inStep.cur_mem hpid, fun u _ hP => ?_⟩
  exact (h.procs.exiting child hall).mp (h.procs.hanging child hall hst) hP.alive

/-- The number of the init process, whose parent pid is `-1`, is not that of a child. -/
lemma pid_ne_one (hall : child ∈ s.kernel.threadAllList) (hP : s.IsParent child p)
    (hp : p ∈ s.kernel.threadAllList) : (s.kernel.task child).pid ≠ 1 := by
  intro hpid
  obtain ⟨i, hi, hipid, -, hiparent, -⟩ := h.procs.init
  obtain rfl := h.procs.pid_inj child hall i hi (hpid.trans hipid.symm)
  exact h.procs.pid_ne hp (hP.parentPid.symm.trans hiparent)

lemma sched {a : SchedAct} (hs' : (ProcAct.sched a).exec s = some s') : s'.Ok := by
  simp only [ProcAct.exec] at hs'
  split_ifs at hs' with ha
  obtain ⟨k', hk', hstep, heffect⟩ := h.inStep.plain ha
  obtain rfl : { s with kernel := k' } = s' := by simpa [hk'] using hs'
  refine ⟨hstep, ?_⟩
  rcases heffect with hsame | ⟨huser, hidle, hsame⟩
  · exact h.procs.sameProcs hsame
  · -- a kernel thread ends: it is not init and has no children
    have hcur := h.inStep.cur_mem
    refine (h.procs.withoutTask h.inStep.nodup hcur ?_ hidle ?_).sameProcs hsame
    · intro hpid
      obtain ⟨i, hi, hipid, -, -, hiuser, -⟩ := h.procs.init
      rw [h.procs.pid_inj _ hcur i hi (hpid.trans hipid.symm), hiuser] at huser
      cases huser
    · intro u _ hP
      rw [hP.userProg] at huser
      cases huser

lemma fork (hs' : (ProcAct.fork t).exec s = some s') : s'.Ok := by
  simp only [ProcAct.exec] at hs'
  split_ifs at hs' with hguard
  obtain ⟨k', hk', rfl⟩ := map_eq_some_iff.mp hs'
  obtain ⟨n, hforked⟩ := h.inStep.fork hguard.2 hk'
  exact ⟨hforked.inStep, h.procs.recordFork hforked.scan h.inStep.cur_mem hguard.1 hguard.2
    h.inStep.idle_mem hforked.all hforked.idleThread hforked.pidBitmap hforked.task⟩

lemma forkFail (hs' : ProcAct.forkFail.exec s = some s') : s'.Ok := by
  simp only [ProcAct.exec] at hs'
  split_ifs at hs' with hguard
  obtain ⟨k', hk', rfl⟩ := map_eq_some_iff.mp hs'
  simp only [Kernel.forkFail, Kernel.allocatePid, map_map] at hk'
  obtain ⟨n, -, rfl⟩ := map_eq_some_iff.mp hk'
  obtain ⟨q, hinv⟩ := h.inStep
  exact ⟨⟨q, hinv.congr rfl rfl rfl rfl fun _ => rfl⟩, h.procs.takePid⟩

lemma exitBegin (hs' : (ProcAct.exitBegin status).exec s = some s') : s'.Ok := by
  simp only [ProcAct.exec] at hs'
  split_ifs at hs' with hguard
  obtain ⟨k', hk', rfl⟩ := map_eq_some_iff.mp hs'
  obtain ⟨hparent, hall, hidle, hbitmap, -, -, -, htask⟩ := Kernel.exitBegin_eq hk'
  refine ⟨h.inStep.exitBegin hk', h.procs.recordExit h.inStep.cur_mem hparent hall hidle hbitmap
    (fun u => by rw [htask]) (fun u => by rw [htask]) (fun u => by simp only [Kernel.status, htask])
    (fun u hu => ?_) (fun u => by rw [htask])⟩
  rw [htask]
  simp [hu]

lemma exitEnd (hs' : ProcAct.exitEnd.exec s = some s') : s'.Ok := by
  simp only [ProcAct.exec] at hs'
  split_ifs at hs' with hexiting
  obtain ⟨p, hp, hP, hfind⟩ := h.pid2thread_parent hexiting
  obtain ⟨k', m, hk', hstep, hsame⟩ :=
    h.inStep.exitEnd hfind (h.procs.ne_idle hP.childUserProg)
  obtain rfl : { s with kernel := k' } = s' := by simpa [hk'] using hs'
  have hwoken : ProcInv { s with kernel := s.kernel.wokenParent p m } := by
    simp only [Kernel.wokenParent]
    split_ifs
    · exact h.procs.setStatus m (by simp)
    · exact h.procs
  exact ⟨hstep, (hwoken.setStatus (s.kernel.wokenParent p m).links fun _ => hexiting).sameProcs hsame⟩

lemma wait (hs' : (ProcAct.wait r).exec s = some s') : s'.Ok := by
  simp only [ProcAct.exec] at hs'
  split_ifs at hs' with hguard
  obtain ⟨r', k', hround, hstep, hcases⟩ := h.inStep.waitRound (h.procs.ne_idle hguard.1)
  simp only [hround, bind_some] at hs'
  split_ifs at hs' with hr
  subst hr
  cases hs'
  rcases hcases with ⟨child, hfind, rfl, hsame⟩ | ⟨-, rfl, rfl⟩ | ⟨-, -, rfl, hsame⟩
  · obtain ⟨hall, -, hP, hnot⟩ := h.findHangingChild hfind
    have hprocs := (h.procs.withoutTask h.inStep.nodup hall
      (h.pid_ne_one hall hP h.inStep.cur_mem) (h.procs.ne_idle hP.childUserProg) hnot).sameProcs hsame
    simp only [ProcState.recordWait, hfind]
    refine ⟨hstep, hprocs.addCall (h.procs.serial_lt child hall) ?_ ?_⟩
    · intro u hu heq
      rw [show k'.threadAllList = s.kernel.threadAllList.erase child from hsame.all,
        h.inStep.nodup.mem_erase_iff] at hu
      exact hu.1 (h.procs.serial_inj u hu.2 child hall heq)
    · intro c hc heq
      exact (h.procs.calls_old c hc).2 child hall heq.symm
  · exact ⟨h.inStep, h.procs⟩
  · exact ⟨hstep, (h.procs.setStatus s.kernel.links (by simp)).sameProcs hsame⟩

lemma step {a : ProcAct} (hs' : a.exec s = some s') : s'.Ok := by
  cases a with
  | sched a => exact h.sched hs'
  | fork t => exact h.fork hs'
  | forkFail => exact h.forkFail hs'
  | exitBegin status => exact h.exitBegin hs'
  | exitEnd => exact h.exitEnd hs'
  | wait r => exact h.wait hs'

end ProcState.Ok

end SimpleOs
