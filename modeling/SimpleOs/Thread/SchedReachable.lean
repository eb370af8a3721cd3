import SimpleOs.Thread.SchedSafety

/-!
# The states the scheduler reaches

`thread_init` sets up the lists, every section keeps them, so they are right in every state that
is reached.
-/

namespace SimpleOs

open Base Function Option Kernel

namespace Kernel

variable {s : Kernel} {q : Queue → List Nat} {t : Nat}

/-! ### Start-up -/

lemma holds_emptyLists : Holds emptyLists fun _ => [] := by
  refine ⟨fun i => ⟨?_, ?_⟩, by simp⟩
  · simp [ListEnds.nodes, Queue.ends, Links.Adj, emptyLists]
  · simp [ListEnds.nodes, Queue.ends]

/-- The pid bitmap with the first `n` pids taken. -/
def pidsTaken : Nat → Bitmap
  | 0 => ⟨128, Bytes.zero⟩
  | n + 1 => (pidsTaken n).bitmapSet n true

lemma bitmapScanTest_pidsTaken (n i : Nat) : (pidsTaken n).bitmapScanTest i = decide (i < n) := by
  induction n with
  | zero => simp [pidsTaken, Bitmap.bitmapScanTest, Bytes.zero]
  | succ n ih =>
    rw [pidsTaken, Bitmap.bitmapScanTest_bitmapSet, ih]
    split_ifs with hi
    · simp [hi]
    · rw [decide_eq_decide]
      omega

lemma btmpBytesLen_pidsTaken (n : Nat) : (pidsTaken n).btmpBytesLen = 128 := by
  induction n with
  | zero => rfl
  | succ n ih => exact ih

variable {n : Nat}

lemma allocatePid_eq (hs : s.pidBitmap = pidsTaken n) (hn : n < 1024) :
    s.allocatePid = some ((n : Int) + 1, { s with pidBitmap := pidsTaken (n + 1) }) := by
  have hclear : (pidsTaken n).bitmapScanTest n = false := by simp [bitmapScanTest_pidsTaken]
  obtain ⟨j, hj⟩ := Bitmap.exists_bitmapScan_one (by rw [btmpBytesLen_pidsTaken]; omega) hclear
  obtain ⟨-, hj', hbelow⟩ := Bitmap.bitmapScan_one_eq_some hj
  obtain rfl : j = n := by
    rw [bitmapScanTest_pidsTaken, decide_eq_false_iff_not] at hj'
    by_contra hne
    have hlt := hbelow n (by omega)
    simp [bitmapScanTest_pidsTaken] at hlt
  simp [allocatePid, hs, hj, pidsTaken]

/-- Task `t` has been given the PCB `p` and pid `n + 1`. -/
structure Started (s s' : Kernel) (t : Nat) (p : Task) (n : Nat) : Prop where
  task : s'.task = update s.task t p
  pidBitmap : s'.pidBitmap = pidsTaken (n + 1)
  cur : s'.cur = s.cur
  idleThread : s'.idleThread = s.idleThread
  waiter : s'.waiter = s.waiter

lemma initThread_eq (hs : s.pidBitmap = pidsTaken n) (hn : n < 1024) (t : Nat)
    (st : TaskStatus) (prio : UInt8) :
    ∃ s', s.initThread t st prio = some s' ∧ s'.links = s.links ∧
      s'.threadAllList = s.threadAllList ∧
      s.Started s' t ⟨(n : Int) + 1, st, prio, prio, 0, false, -1, 0⟩ n :=
  ⟨{ s with pidBitmap := pidsTaken (n + 1) }.setTask t fun _ =>
    ⟨(n : Int) + 1, st, prio, prio, 0, false, -1, 0⟩, by simp [initThread, allocatePid_eq hs hn],
    rfl, rfl, rfl, rfl, rfl, rfl, rfl⟩

lemma enlist_eq (hholds : Holds s.links q) (ht : ∀ j, t ∉ q j) :
    ∃ s', s.enlist t = some s' ∧ s'.threadAllList = s.threadAllList ++ [t] ∧
      Holds s'.links (update q .ready (q .ready ++ [t])) ∧ s'.task = s.task ∧
      s'.pidBitmap = s.pidBitmap ∧ s'.cur = s.cur ∧ s'.idleThread = s.idleThread ∧
      s'.waiter = s.waiter := by
  obtain ⟨m, hm, hholds'⟩ := append_eq hholds .ready ht
  exact ⟨{ s.withLinks m with threadAllList := s.threadAllList ++ [t] }, by simp [enlist, hm], rfl,
    hholds', rfl, rfl, rfl, rfl, rfl⟩

section

variable (hs : s.pidBitmap = pidsTaken n)
include hs

lemma processExecute_eq (hn : n < 1024) (hholds : Holds s.links q) (ht : ∀ j, t ∉ q j) :
    ∃ s', s.processExecute t = some s' ∧ s'.threadAllList = s.threadAllList ++ [t] ∧
      Holds s'.links (update q .ready (q .ready ++ [t])) ∧
      s.Started s' t ⟨(n : Int) + 1, .ready, 31, 31, 0, true, -1, 0⟩ n := by
  obtain ⟨s1, h1, hlinks, hall, hst⟩ := initThread_eq hs hn t .ready 31
  obtain ⟨s2, h2, hall', hholds', htask, hpid, hcur, hidle, hwaiter⟩ :=
    enlist_eq (s := s1.setTask t fun p => { p with userProg := true }) (hlinks ▸ hholds) ht
  refine ⟨s2, by simp [processExecute, h1, h2], hall'.trans (by simp [hall]), hholds', ?_,
    hpid.trans hst.pidBitmap, hcur.trans hst.cur, hidle.trans hst.idleThread,
    hwaiter.trans hst.waiter⟩
  simp [htask, setTask, hst.task]

lemma threadStart_eq (hn : n < 1024) (hholds : Holds s.links q) (ht : ∀ j, t ∉ q j) (prio : UInt8) :
    ∃ s', s.threadStart t prio = some s' ∧ s'.threadAllList = s.threadAllList ++ [t] ∧
      Holds s'.links (update q .ready (q .ready ++ [t])) ∧
      s.Started s' t ⟨(n : Int) + 1, .ready, prio, prio, 0, false, -1, 0⟩ n := by
  obtain ⟨s1, h1, hlinks, hall, hst⟩ := initThread_eq hs hn t .ready prio
  obtain ⟨s2, h2, hall', hholds', htask, hpid, hcur, hidle, hwaiter⟩ :=
    enlist_eq (s := s1) (hlinks ▸ hholds) ht
  exact ⟨s2, by simp [threadStart, h1, h2], hall'.trans (by simp [hall]), hholds',
    htask.trans hst.task, hpid.trans hst.pidBitmap, hcur.trans hst.cur,
    hidle.trans hst.idleThread, hwaiter.trans hst.waiter⟩

lemma makeMainThread_eq (hn : n < 1024) :
    ∃ s', s.makeMainThread = some s' ∧ s'.threadAllList = s.threadAllList ++ [s.cur] ∧
      s'.links = s.links ∧
      s.Started s' s.cur ⟨(n : Int) + 1, .running, 31, 31, 0, false, -1, 0⟩ n := by
  obtain ⟨s1, h1, hlinks, hall, hst⟩ := initThread_eq hs hn s.cur .running 31
  exact ⟨{ s1 with threadAllList := s1.threadAllList ++ [s1.cur] }, by simp [makeMainThread, h1],
    by simp [hall, hst.cur], hlinks, hst.task, hst.pidBitmap, hst.cur, hst.idleThread, hst.waiter⟩

end

/-- `thread_init` leaves the main thread running and the other two ready. -/
lemma threadInit_eq (him : init ≠ main) (hii : init ≠ idle)
    (hmi : main ≠ idle) (value : Nat → UInt8) :
    ∃ s q, threadInit init main idle value = some s ∧ ListInv s q (some s.cur) ∧
      s.threadAllList = [init, main, idle] ∧ s.cur = main ∧ s.idleThread = idle ∧
      s.pidBitmap = pidsTaken 3 ∧
      s.task init = ⟨1, .ready, 31, 31, 0, true, -1, 0⟩ ∧
      s.task main = ⟨2, .running, 31, 31, 0, false, -1, 0⟩ ∧
      s.task idle = ⟨3, .ready, 10, 10, 0, false, -1, 0⟩ := by
  obtain ⟨s1, h1, hall1, hholds1, st1⟩ := processExecute_eq (s := boot main idle value) (t := init) (n := 0)
    rfl (by decide) holds_emptyLists (by simp)
  obtain ⟨s2, h2, hall2, hlinks, st2⟩ := makeMainThread_eq st1.pidBitmap (by decide)
  have hidle : ∀ j, idle ∉ update (fun _ => []) Queue.ready ([] ++ [init]) j := by
    intro j
    by_cases hj : j = .ready
    · simp [hj, hii.symm]
    · simp [hj]
  obtain ⟨s3, h3, hall3, hholds3, st3⟩ := threadStart_eq (t := idle) st2.pidBitmap (by decide)
    (hlinks ▸ hholds1) hidle 10
  have hcur : s1.cur = main := st1.cur
  have hcur3 : s3.cur = main := by rw [st3.cur, st2.cur, hcur]
  have hall : s3.threadAllList = [init, main, idle] := by
    rw [hall3, hall2, hall1, hcur]
    rfl
  have hinit : s3.task init = ⟨1, .ready, 31, 31, 0, true, -1, 0⟩ := by
    simp [st3.task, st2.task, st1.task, hcur, him, hii]
  have hmain : s3.task main = ⟨2, .running, 31, 31, 0, false, -1, 0⟩ := by
    simp [st3.task, st2.task, hcur, hmi]
  have hidle3 : s3.task idle = ⟨3, .ready, 10, 10, 0, false, -1, 0⟩ := by simp [st3.task]
  have hidleThread : s3.idleThread = idle := by
    rw [st3.idleThread, st2.idleThread, st1.idleThread]
    rfl
  have hwaiter : ∀ c, s3.waiter c = none := by
    intro c
    rw [st3.waiter, st2.waiter, st1.waiter]
    rfl
  refine ⟨s3, _, by simp only [threadInit, h1, h2, h3, bind_eq_bind, bind_some],
    ⟨hholds3, ?_, ?_, ?_, ?_, ?_, ?_, ?_, ?_⟩, hall, hcur3, hidleThread, st3.pidBitmap, hinit, hmain, hidle3⟩
  · simp [hall, him, hii, hmi]
  · intro t
    rw [hall, hcur3]
    constructor
    · rintro ⟨⟩
      simp [status, hmain]
    · rintro ⟨ht, hrun⟩
      simp only [List.mem_cons, List.not_mem_nil, or_false] at ht
      rcases ht with rfl | rfl | rfl
      · simp [status, hinit] at hrun
      · rfl
      · simp [status, hidle3] at hrun
  · intro t
    simp only [update_self, List.nil_append, hall, List.mem_append, List.mem_cons, List.not_mem_nil, or_false]
    constructor
    · rintro (rfl | rfl)
      · simp [status, hinit]
      · simp [status, hidle3]
    · rintro ⟨rfl | rfl | rfl, hst⟩
      · simp
      · simp [status, hmain] at hst
      · simp
  · intro k t ht
    simp at ht
  · intro c t hc
    simp [hwaiter] at hc
  · intro c c' t hc
    simp [hwaiter] at hc
  · simp [hidleThread, hall]
  · simp [hidleThread, status, hidle3]

end Kernel

/-! ### Every state -/

/-- The lists are in step with the statuses, the running task being the one that executes. -/
def Kernel.InStep (s : Kernel) : Prop := ∃ q, ListInv s q (some s.cur)

/-- Moreover nobody waits for the semaphore `k`, as after `sema_init`. -/
def Kernel.FreshSema (s : Kernel) (k : Nat) : Prop :=
  ∃ q, ListInv s q (some s.cur) ∧ q (.waiters k) = []

/-- At the end of `thread_init` no task is blocked. -/
lemma freshSema_of_init (h : schedSystem.init s) (k : Nat) : s.FreshSema k := by
  obtain ⟨init, main, idle, value, him, hii, hmi, hs⟩ := h
  obtain ⟨s', q, hs', hinv, hall, -, -, -, hinit, hmain, hidle⟩ :=
    threadInit_eq him hii hmi value
  obtain rfl : s' = s := some.inj (hs'.symm.trans hs)
  refine ⟨q, hinv, List.eq_nil_iff_forall_not_mem.mpr fun t ht => ?_⟩
  obtain ⟨hmem, hblocked, -⟩ := hinv.waiters k t ht
  rw [hall] at hmem
  simp only [List.mem_cons, List.not_mem_nil, or_false] at hmem
  rcases hmem with rfl | rfl | rfl
  · simp [status, hinit] at hblocked
  · simp [status, hmain] at hblocked
  · simp [status, hidle] at hblocked

lemma inStep_of_reachable {ok : Kernel → SchedAct → Prop}
    (h : schedSystem.Reachable ok s) : s.InStep := by
  refine h.invariant Kernel.InStep ?_ ?_
  · rintro s ⟨init, main, idle, value, him, hii, hmi, hs⟩
    obtain ⟨s', q, hs', hinv, -⟩ := threadInit_eq him hii hmi value
    obtain rfl : s' = s := some.inj (hs'.symm.trans hs)
    exact ⟨q, hinv⟩
  · rintro s a s' ⟨q, hinv⟩ - ⟨henabled, hexec⟩
    obtain ⟨s'', l, hs'', hinv'⟩ := hinv.exec henabled
    obtain rfl : s'' = s' := some.inj (hs''.symm.trans hexec)
    exact ⟨_, hinv'⟩

/-- In every state the scheduler reaches, one task is running and it is not in the ready list; the
ready list holds the ready tasks, each once; no tag is in the ready list and in the waiters of a
semaphore; and every section that can be entered runs to its end, so that `schedule` always has a
task to pop. -/
theorem lists_of_reachable {s : Kernel} (h : schedSystem.Reachable (fun _ _ => True) s) :
    ∃ q : Queue → List Nat,
      (∀ i : Queue, i.ends.IsList s.links ((q i).map .tag)) ∧
      (∃! t, t ∈ s.threadAllList ∧ s.status t = .running) ∧
      (∀ t ∈ s.threadAllList, s.status t = .running → t ∉ q .ready) ∧
      (∀ t, t ∈ q .ready ↔ t ∈ s.threadAllList ∧ s.status t = .ready) ∧ (q .ready).Nodup ∧
      (∀ t k, t ∈ q .ready → t ∉ q (.waiters k)) ∧
      ∀ a : SchedAct, a.Enabled s → ∃ s', a.exec s = some s' := by
  obtain ⟨q, hinv⟩ := inStep_of_reachable h
  refine ⟨q, hinv.holds.lists, ⟨s.cur, (hinv.running s.cur).mp rfl, ?_⟩, ?_, hinv.ready,
    hinv.holds.nodup .ready, ?_, ?_⟩
  · intro t ht
    exact (some.inj ((hinv.running t).mpr ht)).symm
  · intro t _ hrun hmem
    rw [((hinv.ready t).mp hmem).2] at hrun
    cases hrun
  · intro t k hready hwait
    cases hinv.holds.disjoint _ _ t hready hwait
  · intro a ha
    obtain ⟨s', -, hs', -⟩ := hinv.exec ha
    exact ⟨s', hs'⟩

/-- The main thread, started with two others, goes to sleep on a semaphore whose value is zero. -/
theorem lists_of_semaDown :
    ∃ s s', threadInit 0 1 2 (fun _ => 0) = some s ∧ s.semaDown 7 = some s' ∧
      ∃ q : Queue → List Nat,
        (∀ i : Queue, i.ends.IsList s'.links ((q i).map .tag)) ∧
        (∃! t, t ∈ s'.threadAllList ∧ s'.status t = .running) ∧
        (∀ t ∈ s'.threadAllList, s'.status t = .running → t ∉ q .ready) ∧
        (∀ t, t ∈ q .ready ↔ t ∈ s'.threadAllList ∧ s'.status t = .ready) ∧ (q .ready).Nodup ∧
        (∀ t k, t ∈ q .ready → t ∉ q (.waiters k)) ∧
        ∀ a : SchedAct, a.Enabled s' → ∃ s'', a.exec s' = some s'' := by
  have him : 0 ≠ 1 := by decide
  have hii : 0 ≠ 2 := by decide
  have hmi : 1 ≠ 2 := by decide
  obtain ⟨s, q, hs, hinv, -, hcur, hidle, -⟩ := threadInit_eq him hii hmi fun _ => 0
  have henabled : (SchedAct.semaDown 7).Enabled s := by simp [SchedAct.Enabled, hcur, hidle]
  obtain ⟨s', -, hs', -⟩ := hinv.exec henabled
  refine ⟨s, s', hs, hs', lists_of_reachable ?_⟩
  exact .step (.init ⟨0, 1, 2, fun _ => 0, him, hii, hmi, hs⟩) trivial ⟨henabled, hs'⟩

end SimpleOs
