import SimpleOs.Thread.SchedInvariant

/-!
# The scheduler never loses a task

Every function of the scheduler, entered where the code enters it, succeeds and keeps the lists in
step with the statuses. So in every state the system reaches one task runs, the ready list holds
exactly the ready tasks, and no tag is in two lists.
-/

namespace SimpleOs

open Base Function

variable {s s' : Kernel} {q : Queue → List Nat} {r : Option Nat} {t : Nat}

namespace Kernel

/-- What is left of the kernel when `thread_exit` is done with a task that is in no list. -/
def withoutTask (s : Kernel) (t : Nat) : Kernel :=
  { s.setStatus t .died with threadAllList := s.threadAllList.erase t }.releasePid (s.task t).pid

/-- The kernel when `sys_fork` has made a child. -/
def withChild (s : Kernel) (t : Nat) (pid : Int) (m : Links Node) : Kernel :=
  { (s.setTask t fun _ => childOf (s.task s.cur) pid).withLinks m with
      threadAllList := s.threadAllList ++ [t] }

variable (hholds : Holds s.links q)
include hholds

lemma append_eq (i : Queue) (ht : ∀ j, t ∉ q j) :
    ∃ m, s.append i t = some (s.withLinks m) ∧ Holds m (update q i (q i ++ [t])) := by
  obtain ⟨m, hm, hholds'⟩ := hholds.append (i := i) ht
  exact ⟨m, by simp [append, hm], hholds'⟩

lemma pop_eq (hq : q i = t :: l) :
    ∃ m, s.pop i = some (t, s.withLinks m) ∧ Holds m (update q i l) := by
  obtain ⟨m, hm, hholds'⟩ := hholds.pop hq
  exact ⟨m, by simp [pop, hm], hholds'⟩

lemma listEmpty_eq (i : Queue) : i.ends.listEmpty s.links = decide (q i = []) := by
  simpa using (hholds.lists i).listEmpty

/-- `thread_unblock` of a task whose tag is in no list. -/
lemma threadUnblock_eq (hlen : (q .ready).length ≤ s.threadAllList.length) (ht : ∀ j, t ∉ q j)
    (hst : s.status t ≠ .ready) :
    ∃ m, s.threadUnblock t = some ((s.withLinks m).setStatus t .ready) ∧
      Holds m (update q .ready (t :: q .ready)) := by
  obtain ⟨m, hm, hholds'⟩ := hholds.push (i := .ready) ht
  have hfind : s.elemFind .ready t = some false := by
    rw [elemFind, hholds.elemFind (Nat.succ_le_succ hlen)]
    simp [ht .ready]
  refine ⟨m, ?_, hholds'⟩
  simp [threadUnblock, hst, hfind, push, hm]

end Kernel

/-- What a section does to the waiters lists. -/
def SchedAct.queues (s : Kernel) (q : Queue → List Nat) : SchedAct → Queue → List Nat
  | semaDown k =>
    if s.value k = 0 then update q (.waiters k) (q (.waiters k) ++ [s.cur]) else q
  | semaUp k => update q (.waiters k) (q (.waiters k)).tail
  | _ => q

namespace ListInv

open Kernel

lemma length_ready_le (h : ListInv s q r) : (q .ready).length ≤ s.threadAllList.length :=
  (h.holds.nodup .ready).length_le_of_subset (h.queue_subset .ready)

/-- `thread_unblock` of a sleeping task that nothing else waits for. -/
lemma threadUnblock (h : ListInv s q r) (ht : t ∈ s.threadAllList)
    (hst : s.status t = .blocked ∨ s.status t = .waiting) (hloose : s.Loose q t) :
    ∃ m, s.threadUnblock t = some ((s.withLinks m).setStatus t .ready) ∧
      ListInv ((s.withLinks m).setStatus t .ready)
        (update q .ready (t :: q .ready)) r := by
  have hready : s.status t ≠ .ready := by rcases hst with hst | hst <;> simp [hst]
  have hr : r ≠ some t := by
    intro hr
    rw [((h.running t).mp hr).2] at hst
    simp at hst
  obtain ⟨m, hm, hholds⟩ :=
    threadUnblock_eq h.holds h.length_ready_le (h.notMem_queues hloose.1 hready) hready
  have hinv := h.makeReady ht hloose hholds fun u => List.mem_cons
  rw [if_neg hr] at hinv
  exact ⟨m, hm, hinv⟩

/-! ### schedule -/

lemma appendCur (h : ListInv s q (some s.cur)) :
    ∃ m, s.append .ready s.cur = some (s.withLinks m) ∧
      ListInv ((s.withLinks m).setStatus s.cur .ready) (update q .ready (q .ready ++ [s.cur])) none ∧
      s.status s.cur = .running := by
  obtain ⟨hall, hrun⟩ := (h.running s.cur).mp rfl
  have hloose : s.Loose q s.cur := h.loose_of_status (by simp [hrun])
  obtain ⟨m, hm, hholds⟩ :=
    append_eq h.holds .ready (h.notMem_queues hloose.1 (by simp [hrun]))
  have hinv := h.makeReady hall hloose hholds fun u => by
    rw [List.mem_append, List.mem_singleton, or_comm]
  rw [if_pos rfl] at hinv
  exact ⟨m, hm, hinv, hrun⟩

lemma enqueueCur (h : ListInv s q r) (hr : r = some s.cur ∨ r = none ∧ s.status s.cur ≠ .running) :
    ∃ s' l, s.enqueueCur = some s' ∧ ListInv s' (update q .ready l) none ∧
      s.SameProcs s' := by
  rcases hr with rfl | ⟨rfl, hcur⟩
  · obtain ⟨m, hm, hinv, hrun⟩ := h.appendCur
    refine ⟨(s.withLinks m).setTask s.cur fun p => { p with tricks := p.priority, status := .ready },
      _, by simp [Kernel.enqueueCur, hrun, hm], hinv.congr rfl rfl rfl rfl ?_, ?_⟩
    · simp [status_setTask]
    · exact sameProcs_setTask s m ⟨rfl, rfl, rfl, rfl⟩ (by simp [hrun]) (by simp)
  · exact ⟨s, q .ready, by simp [Kernel.enqueueCur, hcur], by rwa [update_eq_self], .refl s⟩

lemma wakeIdle (h : ListInv s q none) :
    ∃ s' l, s.wakeIdle = some s' ∧ ListInv s' (update q .ready l) none ∧ l ≠ [] ∧
      s.SameProcs s' := by
  by_cases hempty : q .ready = []
  · -- the idle thread is not ready, as nobody is, and it is not running
    have hidle : s.status s.idleThread = .blocked := by
      rcases h.idle_status with hst | hst | hst
      · exact absurd ((h.running _).mpr ⟨h.idle_mem, hst⟩) (by simp)
      · have hmem := (h.ready _).mpr ⟨h.idle_mem, hst⟩
        simp [hempty] at hmem
      · exact hst
    obtain ⟨m, hm, hinv⟩ := h.threadUnblock h.idle_mem (.inl hidle) h.loose_idle
    refine ⟨_, _, by simp [Kernel.wakeIdle, listEmpty_eq h.holds, hempty, hm], hinv, by simp, ?_⟩
    exact sameProcs_setTask s m ⟨rfl, rfl, rfl, rfl⟩ (by simp [hidle]) (by simp)
  · exact ⟨s, q .ready, by simp [Kernel.wakeIdle, listEmpty_eq h.holds, hempty],
      by rwa [update_eq_self], hempty, .refl s⟩

lemma switchToNext (h : ListInv s q none) (hne : q .ready ≠ []) :
    ∃ s' l, s.switchToNext = some s' ∧ ListInv s' (update q .ready l) (some s'.cur) ∧
      s.SameProcs s' := by
  obtain ⟨t, l, hq⟩ := List.exists_cons_of_ne_nil hne
  obtain ⟨m, hm, hholds⟩ := pop_eq h.holds hq
  have hready : s.status t = .ready := ((h.ready t).mp (by simp [hq])).2
  refine ⟨{ (s.withLinks m).setStatus t .running with cur := t }, l,
    by simp [Kernel.switchToNext, listEmpty_eq h.holds, hne, hm],
    (h.run hq hholds).congr rfl rfl rfl rfl fun _ => rfl, ?_⟩
  have hsame : s.SameProcs ((s.withLinks m).setStatus t .running) :=
    sameProcs_setTask s m ⟨rfl, rfl, rfl, rfl⟩ (by simp [hready]) (by simp)
  exact hsame.trans (.of_eq rfl rfl rfl rfl)

/-- `schedule` finds a task to run, whether the running task goes on or has just stopped. -/
lemma schedule (h : ListInv s q r) (hr : r = some s.cur ∨ r = none ∧ s.status s.cur ≠ .running) :
    ∃ s' l, s.schedule = some s' ∧ ListInv s' (update q .ready l) (some s'.cur) ∧
      s.SameProcs s' := by
  obtain ⟨s1, l1, h1, hinv1, hsame1⟩ := h.enqueueCur hr
  obtain ⟨s2, l2, h2, hinv2, hne, hsame2⟩ := hinv1.wakeIdle
  obtain ⟨s3, l3, h3, hinv3, hsame3⟩ := hinv2.switchToNext (by simpa using hne)
  refine ⟨s3, l3, by simp [Kernel.schedule, h1, h2, h3], ?_, (hsame1.trans hsame2).trans hsame3⟩
  simpa only [update_idem] using hinv3

/-! ### Blocking -/

section

variable (h : ListInv s q (some s.cur))
include h

/-- `thread_block`: the running task stops and another one runs. -/
lemma threadBlock (stat : TaskStatus) (hst : stat = .blocked ∨ stat = .waiting ∨ stat = .hanging)
    (hidle : s.cur = s.idleThread → stat = .blocked) :
    ∃ s' l, s.threadBlock stat = some s' ∧ ListInv s' (update q .ready l) (some s'.cur) ∧
      (s.setStatus s.cur stat).SameProcs s' := by
  refine (h.stop hst hidle).schedule (.inr ⟨rfl, ?_⟩)
  rcases hst with rfl | rfl | rfl <;> simp

lemma sameProcs_setBlocked : s.SameProcs (s.setStatus s.cur .blocked) := by
  have hrun := ((h.running s.cur).mp rfl).2
  exact sameProcs_setTask s s.links ⟨rfl, rfl, rfl, rfl⟩ (by simp [hrun]) (by simp)

lemma threadYield :
    ∃ s' l, s.threadYield = some s' ∧ ListInv s' (update q .ready l) (some s'.cur) ∧
      s.SameProcs s' := by
  obtain ⟨m, hm, hinv, hrun⟩ := h.appendCur
  obtain ⟨s', l, hs', hinv', hsame⟩ := hinv.schedule (.inr ⟨rfl, by simp⟩)
  rw [update_idem] at hinv'
  refine ⟨s', l, by simpa [Kernel.threadYield, hm] using hs', hinv', .trans ?_ hsame⟩
  exact sameProcs_setTask s m ⟨rfl, rfl, rfl, rfl⟩ (by simp [hrun]) (by simp)

/-! ### Semaphores and io queues -/

lemma semaDown (hidle : s.cur ≠ s.idleThread) (k : Nat) :
    ∃ s' l, s.semaDown k = some s' ∧
      ListInv s' (update ((SchedAct.semaDown k).queues s q) .ready l) (some s'.cur) ∧
      s.SameProcs s' := by
  simp only [SchedAct.queues]
  by_cases hk : s.value k = 0
  · obtain ⟨hall, hrun⟩ := (h.running s.cur).mp rfl
    have hloose : s.Loose q s.cur := h.loose_of_status (by simp [hrun])
    have hnot : ∀ j, s.cur ∉ q j := h.notMem_queues hloose.1 (by simp [hrun])
    obtain ⟨m, hm, hholds⟩ := append_eq h.holds (.waiters k) hnot
    have hfind : s.elemFind (.waiters k) s.cur = some false := by
      rw [h.elemFind, decide_eq_false (hnot _)]
    -- the task is linked in before its status is written; the other order gives the same state
    have hblocked : ListInv (s.setStatus s.cur .blocked) q none := h.stop (.inl rfl) fun _ => rfl
    have hinv := hblocked.enqueueWaiter hall (by simp) hidle hloose hholds
    obtain ⟨s', l, hs', hinv', hsame⟩ := hinv.schedule (.inr ⟨rfl, by simp⟩)
    have hlink : (s.setStatus s.cur .blocked).SameProcs ((s.setStatus s.cur .blocked).withLinks m) :=
      .of_eq rfl rfl rfl rfl
    rw [if_pos hk]
    refine ⟨s', l, ?_, hinv', (h.sameProcs_setBlocked.trans hlink).trans hsame⟩
    simp only [Kernel.semaDown, hk, if_true, hfind, hm, Option.bind_eq_bind, Option.bind_some,
      Bool.false_eq_true, if_false]
    exact hs'
  · rw [if_neg hk]
    refine ⟨{ s with value := update s.value k (s.value k - 1) }, q .ready,
      by simp only [Kernel.semaDown, if_neg hk], ?_, .of_eq rfl rfl rfl rfl⟩
    rw [update_eq_self]
    exact h.congr rfl rfl rfl rfl fun _ => rfl

end

lemma wakeWaiter (h : ListInv s q r) (k : Nat) :
    ∃ s' l, s.wakeWaiter k = some s' ∧
      ListInv s' (update ((SchedAct.semaUp k).queues s q) .ready l) r ∧
      s.SameProcs s' ∧ s'.cur = s.cur := by
  simp only [SchedAct.queues]
  cases hq : q (.waiters k) with
  | nil =>
    refine ⟨s, q .ready, by simp [Kernel.wakeWaiter, listEmpty_eq h.holds, hq], ?_, .refl s, rfl⟩
    rw [List.tail_nil, ← hq, update_eq_self, update_eq_self]
    exact h
  | cons t l =>
    obtain ⟨hall, hblocked, -⟩ := h.waiters k t (by simp [hq])
    obtain ⟨m, hm, hholds⟩ := pop_eq h.holds hq
    obtain ⟨hinv, hloose⟩ := h.dequeueWaiter hq hholds
    obtain ⟨m', hm', hinv'⟩ := hinv.threadUnblock hall (.inl hblocked) hloose
    refine ⟨_, _, by simp [Kernel.wakeWaiter, listEmpty_eq h.holds, hq, hm, hm'], hinv', ?_, rfl⟩
    exact sameProcs_setTask s m' ⟨rfl, rfl, rfl, rfl⟩ (by simp [hblocked]) (by simp)

lemma semaUp (h : ListInv s q r) (k : Nat) :
    ∃ s' l, s.semaUp k = some s' ∧
      ListInv s' (update ((SchedAct.semaUp k).queues s q) .ready l) r ∧
      s.SameProcs s' ∧ s'.cur = s.cur := by
  obtain ⟨s1, l, h1, hinv, hsame, hcur⟩ := h.wakeWaiter k
  exact ⟨{ s1 with value := update s1.value k (s1.value k + 1) }, l,
    by simp [Kernel.semaUp, h1], hinv.congr rfl rfl rfl rfl fun _ => rfl,
    hsame.trans (.of_eq rfl rfl rfl rfl), hcur⟩

lemma ioqWait (h : ListInv s q (some s.cur)) (hidle : s.cur ≠ s.idleThread) (c : Nat) :
    ∃ s' l, s.ioqWait c = some s' ∧ ListInv s' (update q .ready l) (some s'.cur) ∧
      s.SameProcs s' := by
  obtain ⟨hall, hrun⟩ := (h.running s.cur).mp rfl
  have hloose : s.Loose q s.cur := h.loose_of_status (by simp [hrun])
  have hblocked : ListInv (s.setStatus s.cur .blocked) q none := h.stop (.inl rfl) fun _ => rfl
  have hinv := hblocked.setWaiter hall (by simp) hidle hloose c
  obtain ⟨s', l, hs', hinv', hsame⟩ := hinv.schedule (.inr ⟨rfl, by simp [status, setStatus, setTask]⟩)
  have hlink : (s.setStatus s.cur .blocked).SameProcs
      { s.setStatus s.cur .blocked with waiter := update s.waiter c (some s.cur) } :=
    .of_eq rfl rfl rfl rfl
  exact ⟨s', l, hs', hinv', (h.sameProcs_setBlocked.trans hlink).trans hsame⟩

lemma wakeup (h : ListInv s q r) (hc : s.waiter c = some t) :
    ∃ s' l, s.wakeup c = some s' ∧ ListInv s' (update q .ready l) r ∧ s.SameProcs s' ∧
      s'.cur = s.cur := by
  obtain ⟨hall, hblocked, hidle, hnot⟩ := h.waiter c t hc
  obtain ⟨hinv, hloose⟩ := h.clearWaiter hc
  -- `thread_unblock` does not look at the io queue that still names the task
  have hready : s.status t ≠ .ready := by simp [hblocked]
  have hr : r ≠ some t := by
    intro hr
    simp [((h.running t).mp hr).2] at hblocked
  obtain ⟨m, hm, hholds⟩ :=
    threadUnblock_eq h.holds h.length_ready_le (h.notMem_queues hnot hready) hready
  have hinv' := hinv.makeReady hall hloose hholds fun u => List.mem_cons
  rw [if_neg hr] at hinv'
  refine ⟨{ (s.withLinks m).setStatus t .ready with waiter := update s.waiter c none }, _,
    by simp [Kernel.wakeup, hc, hm], hinv'.congr rfl rfl rfl rfl fun _ => rfl, ?_, rfl⟩
  have hsame : s.SameProcs ((s.withLinks m).setStatus t .ready) :=
    sameProcs_setTask s m ⟨rfl, rfl, rfl, rfl⟩ (by simp [hblocked]) (by simp)
  exact hsame.trans (.of_eq rfl rfl rfl rfl)

/-- The counters of the running task do not matter. -/
lemma setCounter (h : ListInv s q (some s.cur))
    (hf : ∀ p, (f p).pid = p.pid ∧ (f p).parentPid = p.parentPid ∧
      (f p).exitStatus = p.exitStatus ∧ (f p).userProg = p.userProg ∧ (f p).status = p.status) :
    ListInv (s.setTask s.cur f) q (some s.cur) ∧ s.SameProcs (s.setTask s.cur f) := by
  obtain ⟨hf1, hf2, hf3, hf4, hf5⟩ := hf (s.task s.cur)
  have hrun : (s.task s.cur).status = .running := ((h.running s.cur).mp rfl).2
  refine ⟨h.congr rfl rfl rfl rfl fun u => ?_, ?_⟩
  · rw [status_setTask, hf5]
    split_ifs with hu
    · rw [hu]; rfl
    · rfl
  · exact sameProcs_setTask s s.links ⟨hf1, hf2, hf3, hf4⟩ (by simp [status, hrun])
      (by simp [hf5, hrun])

lemma intrTimerHandler (h : ListInv s q (some s.cur)) :
    ∃ s' l, s.intrTimerHandler = some s' ∧ ListInv s' (update q .ready l) (some s'.cur) ∧
      s.SameProcs s' := by
  obtain ⟨h1, hsame1⟩ : ListInv s.countTick q (some s.countTick.cur) ∧ s.SameProcs s.countTick :=
    h.setCounter fun _ => ⟨rfl, rfl, rfl, rfl, rfl⟩
  simp only [Kernel.intrTimerHandler]
  by_cases htricks : (s.countTick.task s.countTick.cur).tricks = 0
  · rw [if_pos htricks]
    obtain ⟨s', l, hs', hinv, hsame⟩ := h1.schedule (.inl rfl)
    exact ⟨s', l, hs', hinv, hsame1.trans hsame⟩
  · rw [if_neg htricks]
    obtain ⟨h2, hsame2⟩ := h1.setCounter (f := fun p => { p with tricks := p.tricks - 1 })
      fun _ => ⟨rfl, rfl, rfl, rfl, rfl⟩
    exact ⟨_, q .ready, rfl, by rwa [update_eq_self], hsame1.trans hsame2⟩

/-! ### Tasks that end and tasks that start -/

/-- `thread_exit` of a task that is in no list. -/
lemma forgetTask (h : ListInv s q r) (hready : s.status t ≠ .ready)
    (hblocked : s.status t ≠ .blocked) (hidle : t ≠ s.idleThread) :
    s.forgetTask t = some (s.withoutTask t) ∧
      ListInv (s.withoutTask t) q (if r = some t then none else r) := by
  have hnot : t ∉ q .ready := fun hmem => hready ((h.ready t).mp hmem).2
  have hfind : (s.setStatus t .died).elemFind .ready t = some false :=
    (h.elemFind .ready).trans (by rw [decide_eq_false hnot])
  have hpid : ((s.setStatus t .died).task t).pid = (s.task t).pid := by
    simp [setStatus, task_setTask]
  constructor
  · simp [Kernel.forgetTask, hfind, withoutTask, hpid]
  · refine h.forget hready hidle (h.loose_of_status hblocked) rfl rfl rfl rfl fun u hu => ?_
    exact (status_setStatus s t .died u).trans (if_neg hu)

/-- `thread_exit`, of a task that is reaped and of the running task. -/
lemma threadExit (h : ListInv s q (some s.cur)) (ht : t ∈ s.threadAllList) (needSchedule : Bool)
    (hend : if needSchedule then t = s.cur ∧ t ≠ s.idleThread else s.status t = .hanging) :
    ∃ s' l, s.threadExit t needSchedule = some s' ∧
      ListInv s' (update q .ready l) (some s'.cur) ∧ (s.withoutTask t).SameProcs s' := by
  cases needSchedule with
  | false =>
    simp only [Bool.false_eq_true, if_false] at hend
    have hidle : t ≠ s.idleThread := by
      rintro rfl
      simpa [hend] using h.idle_status
    have hcur : some s.cur ≠ some t := by
      intro heq
      rw [((h.running t).mp heq).2] at hend
      cases hend
    obtain ⟨hs', hinv⟩ := h.forgetTask (by simp [hend]) (by simp [hend]) hidle
    rw [if_neg hcur] at hinv
    exact ⟨_, q .ready, by simp [Kernel.threadExit, hs'], by rwa [update_eq_self], .refl _⟩
  | true =>
    obtain ⟨rfl, hidle⟩ := hend
    have hrun := ((h.running s.cur).mp rfl).2
    obtain ⟨hs', hinv⟩ := h.forgetTask (by simp [hrun]) (by simp [hrun]) hidle
    rw [if_pos rfl] at hinv
    have hdied : (s.withoutTask s.cur).status s.cur ≠ .running := by
      have hst := status_setStatus s s.cur .died s.cur
      exact fun hrun' => absurd (hst.symm.trans hrun') (by simp)
    obtain ⟨s', l, hs, hinv', hsame⟩ := hinv.schedule (.inr ⟨rfl, hdied⟩)
    exact ⟨s', l, by simp [Kernel.threadExit, hs', hs], hinv', hsame⟩

/-- `sys_fork`: the child is ready and the parent goes on. -/
lemma sysFork (h : ListInv s q r) (ht : t ∉ s.threadAllList) (pid : Int) :
    ∃ m l, s.sysFork t pid = some (s.withChild t pid m) ∧
      ListInv (s.withChild t pid m) (update q .ready l) r := by
  have hnot : ∀ j, t ∉ q j := fun j hmem => ht (h.queue_subset j hmem)
  have hreset := h.holds.resetTag hnot
  obtain ⟨m, hm, hholds⟩ := append_eq
    (s := (s.setTask t fun _ => childOf (s.task s.cur) pid).withLinks
      ((s.links.setPrev (.tag t) none).setNext (.tag t) none)) hreset .ready hnot
  refine ⟨m, _, ?_, h.enter ht hholds rfl rfl rfl rfl fun u => ?_⟩
  · have hm' : ((s.setTask t fun _ => childOf (s.task s.cur) pid).withLinks
        (((s.setTask t fun _ => childOf (s.task s.cur) pid).links.setPrev (.tag t) none).setNext
          (.tag t) none)).append .ready t =
        some ((s.setTask t fun _ => childOf (s.task s.cur) pid).withLinks m) := hm
    simp only [Kernel.sysFork, enlist, hm', Option.bind_eq_bind, Option.bind_some]
    rfl
  · exact status_setTask s t (fun _ => childOf (s.task s.cur) pid) u

end ListInv

/-! ### The system -/

/-- Every section that the code enters runs to its end and leaves the lists in step. The waiters
lists change as `queues` says. -/
lemma ListInv.exec {a : SchedAct} (h : ListInv s q (some s.cur)) (ha : a.Enabled s) :
    ∃ s' l, a.exec s = some s' ∧
      ListInv s' (update (a.queues s q) .ready l) (some s'.cur) := by
  cases a with
  | timer =>
    obtain ⟨s', l, hs', hinv, -⟩ := h.intrTimerHandler
    exact ⟨s', l, hs', hinv⟩
  | block stat =>
    obtain ⟨s', l, hs', hinv, -⟩ := h.threadBlock stat ha.1 ha.2
    exact ⟨s', l, hs', hinv⟩
  | unblockParent t =>
    obtain ⟨m, hm, hinv⟩ := h.threadUnblock ha.1 (.inr ha.2) (h.loose_of_status (by simp [ha.2]))
    exact ⟨_, _, hm, hinv⟩
  | yield =>
    obtain ⟨s', l, hs', hinv, -⟩ := h.threadYield
    exact ⟨s', l, hs', hinv⟩
  | semaDown k =>
    obtain ⟨s', l, hs', hinv, -⟩ := h.semaDown ha k
    exact ⟨s', l, hs', hinv⟩
  | semaUp k =>
    obtain ⟨s', l, hs', hinv, -, hcur⟩ := h.semaUp k
    exact ⟨s', l, hs', hcur ▸ hinv⟩
  | ioqWait c =>
    obtain ⟨s', l, hs', hinv, -⟩ := h.ioqWait ha c
    exact ⟨s', l, hs', hinv⟩
  | wakeup c =>
    obtain ⟨t, hc⟩ := Option.ne_none_iff_exists'.mp ha
    obtain ⟨s', l, hs', hinv, -, hcur⟩ := h.wakeup hc
    exact ⟨s', l, hs', hcur ▸ hinv⟩
  | fork t pid =>
    obtain ⟨m, l, hs', hinv⟩ := h.sysFork ha pid
    exact ⟨_, l, hs', hinv⟩
  | exit t needSchedule =>
    obtain ⟨s', l, hs', hinv, -⟩ := h.threadExit ha.1 needSchedule ha.2
    exact ⟨s', l, hs', hinv⟩

end SimpleOs
