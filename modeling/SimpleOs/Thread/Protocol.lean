import SimpleOs.Thread.ProcSafety

/-!
# The protocol of fork, exit and wait

The process tree is in order at the end of `thread_init`, so it is in every state that is reached.
-/

namespace SimpleOs

open Base Option Kernel

namespace ProcState

/-- The process tree is in order at the end of `thread_init`. -/
lemma ok_of_init (h : procSystem.init s) : s.Ok := by
  obtain ⟨init, main, idle, value, him, hii, hmi, hk, hexiting, hhistory⟩ := h
  obtain ⟨k, q, hk', hinv, hall, -, hidle, hbitmap, hinit, hmain, hidle'⟩ :=
    threadInit_eq him hii hmi value
  obtain rfl : k = s.kernel := some.inj (hk'.symm.trans hk)
  have hserial : s.history.serial init = 0 ∧ s.history.serial main = 1 ∧
      s.history.serial idle = 2 := by
    simp [hhistory, History.start, him.symm, hii.symm, hmi.symm]
  have hparent : ∀ n, s.history.parent n = none := by simp [hhistory, History.start]
  have hexitArg : ∀ n, s.history.exitArg n = none := by simp [hhistory, History.start]
  have hcases : ∀ t ∈ s.kernel.threadAllList, t = init ∨ t = main ∨ t = idle := by
    simp [hall]
  refine ⟨⟨q, hinv⟩, ?_, ?_, ?_, ?_, ?_, ?_, ?_, ?_, ?_, ?_, ?_, ?_, ?_, ?_, ?_⟩
  · rw [hbitmap]
    exact btmpBytesLen_pidsTaken 3
  · intro t ht
    simp only [hbitmap, bitmapScanTest_pidsTaken, decide_eq_true_eq]
    rcases hcases t ht with rfl | rfl | rfl
    · exact ⟨0, by decide, by simp [hinit], by decide⟩
    · exact ⟨1, by decide, by simp [hmain], by decide⟩
    · exact ⟨2, by decide, by simp [hidle'], by decide⟩
  · intro t ht u hu
    rcases hcases t ht with rfl | rfl | rfl <;> rcases hcases u hu with rfl | rfl | rfl <;>
      simp [hinit, hmain, hidle']
  · intro t ht
    have hnext : s.history.next = 3 := by rw [hhistory]; rfl
    rcases hcases t ht with rfl | rfl | rfl <;> simp [hnext, hserial]
  · intro t ht u hu
    rcases hcases t ht with rfl | rfl | rfl <;> rcases hcases u hu with rfl | rfl | rfl <;>
      simp [hserial]
  · exact ⟨init, by simp [hall], by simp [hinit], hserial.1, by simp [hinit], by simp [hinit],
      hexitArg 0⟩
  · intro t ht
    refine .inl ⟨?_, hparent _⟩
    rcases hcases t ht with rfl | rfl | rfl <;> simp [hinit, hmain, hidle']
  · simp [hexiting, hexitArg]
  · simp [hexiting]
  · simp [hexitArg]
  · intro t ht
    rcases hcases t ht with rfl | rfl | rfl <;> simp [status, hinit, hmain, hidle']
  · simp [hidle, hidle']
  · simp [hexitArg]
  · simp [hhistory, History.start]
  · simp [hhistory, History.start]

lemma ok_of_reachable {ok : ProcState → ProcAct → Prop} (h : procSystem.Reachable ok s) : s.Ok :=
  h.invariant Ok (fun _ => ok_of_init) fun _ _ _ hok _ hstep => hok.step hstep

/-! ### What sys_wait returns -/

/-- A child that `sys_wait` returns has exited and belongs to the caller; the status is the
argument of its `sys_exit`, cut to eight bits, and the child is gone. -/
lemma Ok.wait_returned (h : s.Ok) {pid : Int} {status : Int32}
    (hs' : (ProcAct.wait (.returned pid status)).exec s = some s') :
    ∃ child ∈ s.kernel.threadAllList,
      s.history.parent (s.history.serial child) = some s.curSerial ∧
      pid = (s.kernel.task child).pid ∧
      (∃ arg, s.history.exitArg (s.history.serial child) = some arg ∧
        status = arg.toInt8.toInt32) ∧
      child ∉ s'.kernel.threadAllList ∧
      s'.history.calls = ⟨s.history.serial child, s.curSerial, pid, status⟩ :: s.history.calls := by
  simp only [ProcAct.exec] at hs'
  split_ifs at hs' with hguard
  obtain ⟨r, k', hround, -, hcases⟩ := h.inStep.waitRound (h.procs.ne_idle hguard.1)
  simp only [hround, bind_some] at hs'
  split_ifs at hs' with hr
  cases hs'
  rcases hcases with ⟨child, hfind, hr', hsame⟩ | ⟨-, hr', -⟩ | ⟨-, -, hr', -⟩
  · obtain ⟨hall, hst, hP, -⟩ := h.findHangingChild hfind
    obtain ⟨rfl, rfl⟩ := WaitRound.returned.inj (hr.symm.trans hr')
    have hexited := (h.procs.exiting child hall).mp (h.procs.hanging child hall hst)
    obtain ⟨arg, harg⟩ := Option.ne_none_iff_exists'.mp hexited
    refine ⟨child, hall, hP.parent, rfl, ⟨arg, harg, ?_⟩, ?_, ?_⟩
    · rw [h.procs.exitStatus child hall arg harg]
    · simp only [recordWait, hfind]
      rw [show k'.threadAllList = s.kernel.threadAllList.erase child from hsame.all,
        h.inStep.nodup.mem_erase_iff]
      simp
    · simp only [recordWait, hfind]
  · exact absurd (hr.symm.trans hr') (by simp)
  · exact absurd (hr.symm.trans hr') (by simp)

/-- `sys_wait` returns `-1` exactly when the caller has no child. -/
lemma Ok.wait_failed_iff (h : s.Ok) (hguard : ProcAct.InUser s) :
    (∃ s', (ProcAct.wait .failed).exec s = some s') ↔
      ∀ t ∈ s.kernel.threadAllList, s.history.parent (s.history.serial t) ≠ some s.curSerial := by
  have hcur := h.inStep.cur_mem
  have hfind : s.kernel.findChild (s.kernel.task s.kernel.cur).pid = none ↔
      ∀ t ∈ s.kernel.threadAllList, s.history.parent (s.history.serial t) ≠ some s.curSerial := by
    simp only [findChild, List.find?_eq_none, decide_eq_true_eq]
    refine forall₂_congr fun t ht => not_congr ⟨fun hpid => ?_, fun hserial => ?_⟩
    · exact (h.procs.isParent_of_parentPid ht hcur hpid).parent
    · exact (h.procs.isParent_of_serial ht hcur hserial).parentPid
  rw [← hfind]
  obtain ⟨r, k', hround, -, hcases⟩ := h.inStep.waitRound (h.procs.ne_idle hguard.1)
  simp only [ProcAct.exec, if_pos hguard, hround, bind_some]
  rcases hcases with ⟨child, hhang, rfl, -⟩ | ⟨hnone, rfl, -⟩ | ⟨-, hsome, rfl, -⟩
  · -- a hanging child is a child
    have hchild : s.kernel.findChild (s.kernel.task s.kernel.cur).pid ≠ none := by
      obtain ⟨hall, -, hP, -⟩ := h.findHangingChild hhang
      intro hnone
      simpa [hP.parentPid] using List.find?_eq_none.mp hnone child hall
    simp [hchild]
  · simp [hnone]
  · simp [hsome]

end ProcState

/-- In every state that is reached by any interleaving of the system calls: a task with a parent
has it in the list of all tasks, `pid2thread` finds it and it has not exited; no process has been
returned by two calls of `sys_wait`; a call that returns a process returns one that has exited and
belongs to the caller, with its pid and the low eight bits of its exit status; and a call fails
exactly for a caller without children. -/
theorem protocol_of_reachable {s : ProcState}
    (h : procSystem.Reachable (fun _ _ => True) s) :
    (∀ t ∈ s.kernel.threadAllList, (s.kernel.task t).parentPid ≠ -1 →
      ∃ p ∈ s.kernel.threadAllList, s.kernel.pid2thread (s.kernel.task t).parentPid = some p ∧
        s.history.parent (s.history.serial t) = some (s.history.serial p) ∧
        s.history.exitArg (s.history.serial p) = none) ∧
    (s.history.calls.map WaitCall.child).Nodup ∧
    (∀ pid status s', (ProcAct.wait (.returned pid status)).exec s = some s' →
      ∃ child ∈ s.kernel.threadAllList,
        s.history.parent (s.history.serial child) = some s.curSerial ∧
        pid = (s.kernel.task child).pid ∧
        (∃ arg, s.history.exitArg (s.history.serial child) = some arg ∧
          status = arg.toInt8.toInt32) ∧
        child ∉ s'.kernel.threadAllList ∧
        s'.history.calls =
          ⟨s.history.serial child, s.curSerial, pid, status⟩ :: s.history.calls) ∧
    (ProcAct.InUser s → ((∃ s', (ProcAct.wait .failed).exec s = some s') ↔
      ∀ t ∈ s.kernel.threadAllList,
        s.history.parent (s.history.serial t) ≠ some s.curSerial)) := by
  have hok := ProcState.ok_of_reachable h
  refine ⟨fun t ht hne => ?_, hok.procs.calls_nodup, fun _ _ _ => hok.wait_returned,
    hok.wait_failed_iff⟩
  obtain ⟨p, hp, hP⟩ := hok.procs.isParent_of_ne ht hne
  exact ⟨p, hp, hP.parentPid ▸ hok.procs.pid2thread_eq hp, hP.parent, hP.alive⟩

/-! ### A run -/

namespace ProcState

/-- The processes at the end of `thread_init`, with PCBs 0, 1 and 2 for init, the main thread and
the idle thread. -/
def booted : Option ProcState :=
  (threadInit 0 1 2 fun _ => 1).map fun k => ⟨k, fun _ => false, .start 0 1⟩

/-- What a list of steps leads to. -/
def runFromBoot (test : ProcState → ProcAct → Bool) (as : List ProcAct) : Option ProcState :=
  booted.bind fun s => System.follow (fun s a => a.exec s) test s as

lemma reachable_runFromBoot {test : ProcState → ProcAct → Bool} {ok : ProcState → ProcAct → Prop}
    (htest : ∀ s a, test s a = true → ok s a) {as : List ProcAct}
    (h : runFromBoot test as = some s) : procSystem.Reachable ok s := by
  obtain ⟨s0, h0, hrun⟩ := bind_eq_some_iff.mp h
  refine System.Reachable.follow (fun _ _ _ hs => hs) htest (.init ?_) hrun
  obtain ⟨k, hk, rfl⟩ := map_eq_some_iff.mp h0
  exact ⟨0, 1, 2, fun _ => 1, by decide, by decide, by decide, hk, rfl, rfl⟩

end ProcState

/-- The main thread ends and init forks a process that exits with 300: it is hanging, and init
runs again. -/
def childExits : List ProcAct :=
  [.sched (.exit 1 true), .fork 3, .sched .yield, .sched (.block .blocked), .exitBegin 300, .exitEnd]

/-- After `childExits` init can wait for its child. -/
theorem protocol_childExits :
    ∃ s, ProcState.runFromBoot (fun _ _ => true) childExits = some s ∧
      (∀ t ∈ s.kernel.threadAllList, (s.kernel.task t).parentPid ≠ -1 →
        ∃ p ∈ s.kernel.threadAllList, s.kernel.pid2thread (s.kernel.task t).parentPid = some p ∧
          s.history.parent (s.history.serial t) = some (s.history.serial p) ∧
          s.history.exitArg (s.history.serial p) = none) ∧
      ∃ s', (ProcAct.wait (.returned 2 44)).exec s = some s' := by
  have hrun : (ProcState.runFromBoot (fun _ _ => true) childExits).isSome = true := by
    decide +kernel
  obtain ⟨s, hs⟩ := isSome_iff_exists.mp hrun
  have hwait : ((ProcState.runFromBoot (fun _ _ => true) childExits).bind fun s =>
      (ProcAct.wait (.returned 2 44)).exec s).isSome = true := by decide +kernel
  rw [hs, bind_some] at hwait
  have hreach : procSystem.Reachable (fun _ _ => True) s :=
    ProcState.reachable_runFromBoot (by simp) hs
  exact ⟨s, hs, (protocol_of_reachable hreach).1, isSome_iff_exists.mp hwait⟩

end SimpleOs
