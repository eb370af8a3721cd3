import SimpleOs.Device.Ioqueue

/-!
# Who waits in an I/O queue

The test of the loops in `ioq_getchar` and `ioq_putchar`, the lock, in which a task may sleep, and
`ioq_wait` are three steps. The fields `consumer` and `producer` name a task only while the queue is
empty, or full, as long as nothing happens to the queue between the first and the last of them.
-/

namespace SimpleOs

open Base Function

/-- A task sleeps as the consumer only while the queue is empty, and as the producer only while it is
full. -/
structure IoqState.WaitsForCause (s : IoqState) (f : IoqFields) : Prop where
  consumer : s.kernel.waiter f.consumer ≠ none → s.ioq.ioqEmpty = true
  producer : s.kernel.waiter f.producer ≠ none → s.ioq.ioqFull = true

/-- A task that has come to `ioq_wait`, perhaps after it slept in `lock_acquire`, would still find the
queue empty, or full. -/
def StillWaits (s : IoqState) : IoqAct → Prop
  | .next => ∀ c, s.pc s.kernel.cur = .ioqWait c → c.mustWait s.ioq = true
  | _ => True

section

variable {f : IoqFields} {s s' : IoqState} {a : IoqAct}

lemma IoqState.SameBytes.mustWait (h : s.SameBytes s') (c : IoqCall) :
    c.mustWait s'.ioq = c.mustWait s.ioq := by
  have hhead : s'.ioq.head = s.ioq.head := congrArg RingBuffer.head h.ring
  have htail : s'.ioq.tail = s.ioq.tail := congrArg RingBuffer.tail h.ring
  cases c with
  | ioqGetchar => simp only [IoqCall.mustWait, Ioqueue.ioqEmpty, hhead, htail]
  | ioqPutchar b => simp only [IoqCall.mustWait, Ioqueue.ioqFull, hhead, htail]

lemma IoqState.waitsForCause_iff :
    s.WaitsForCause f ↔
      ∀ c : IoqCall, s.kernel.waiter (c.field f) ≠ none → c.mustWait s.ioq = true := by
  refine ⟨fun h c => ?_, fun h => ⟨h .ioqGetchar, h (.ioqPutchar 0)⟩⟩
  cases c with
  | ioqGetchar => exact h.consumer
  | ioqPutchar b => exact h.producer

lemma IoqCall.mustWait_of_field_eq {c d : IoqCall} (h : c.field f = d.field f) (q : Ioqueue) :
    c.mustWait q = d.mustWait q := by
  cases c with
  | ioqGetchar =>
    cases d with
    | ioqGetchar => rfl
    | ioqPutchar b => exact absurd h.symm f.ne
  | ioqPutchar b =>
    cases d with
    | ioqGetchar => exact absurd h f.ne
    | ioqPutchar b' => rfl

lemma IoqState.WaitsForCause.waiter_eq_none {c : IoqCall} (h : s.WaitsForCause f)
    (hwait : c.mustWait s.ioq = false) : s.kernel.waiter (c.field f) = none := by
  by_contra hne
  rw [IoqState.waitsForCause_iff.mp h c hne] at hwait
  cases hwait

/-- A call of `ioq_putchar` or of `ioq_getchar` that comes to its end leaves nobody waiting. -/
lemma IoqState.waitsForCause_of_none {c d : IoqCall} (hfields : ∀ e : IoqCall,
      e.field f = c.field f ∨ e.field f = d.field f) (hnone : s.kernel.waiter (c.field f) = none)
    (hwaiter : s'.kernel.waiter = update s.kernel.waiter (d.field f) none) :
    s'.WaitsForCause f := by
  refine IoqState.waitsForCause_iff.mpr fun e hsome => absurd ?_ hsome
  by_cases he : e.field f = d.field f
  · rw [hwaiter, he, update_self]
  · rw [hwaiter, update_of_ne he, (hfields e).resolve_right he, hnone]

/-- A step keeps the property if and only if a task that registers still has to wait. -/
lemma IoqState.WaitsForCause.step_iff (h : s.WaitsForCause f) (hstep : (ioqSystem f).step s a s') :
    s'.WaitsForCause f ↔ StillWaits s a := by
  cases effect_of_step hstep with
  | quiet _ hsame hwaiter hpc =>
    have hstill : StillWaits s a := by
      cases a with
      | next => exact fun c hc => absurd hc (hpc c rfl)
      | call | pipeRead | pipeWrite | sched | reorder => trivial
    refine iff_of_true (IoqState.waitsForCause_iff.mpr fun c hsome => ?_) hstill
    rw [hwaiter] at hsome
    rw [hsame.mustWait]
    exact IoqState.waitsForCause_iff.mp h c hsome
  | wait c hsame hpc hwaiter =>
    constructor
    · intro h' d hd
      obtain rfl : c = d := by
        rw [hpc] at hd
        exact IoqPc.ioqWait.inj hd
      rw [← hsame.mustWait]
      refine IoqState.waitsForCause_iff.mp h' c ?_
      simp [hwaiter]
    · intro hstill
      refine IoqState.waitsForCause_iff.mpr fun d hsome => ?_
      rw [hsame.mustWait]
      by_cases hd : d.field f = c.field f
      · rw [IoqCall.mustWait_of_field_eq hd]
        exact hstill c hpc
      · rw [hwaiter, update_of_ne hd] at hsome
        exact IoqState.waitsForCause_iff.mp h d hsome
  | put b hpc hroom _ _ _ hwaiter =>
    -- the queue was not full, so no producer slept; the consumer has been woken
    have hfields : ∀ e : IoqCall, e.field f = (IoqCall.ioqPutchar b).field f ∨
        e.field f = IoqCall.ioqGetchar.field f := by
      intro e
      cases e with
      | ioqGetchar => exact .inr rfl
      | ioqPutchar b' => exact .inl rfl
    refine iff_of_true (IoqState.waitsForCause_of_none hfields ?_ hwaiter) (fun c hc => ?_)
    · exact h.waiter_eq_none (c := .ioqPutchar b) hroom
    · rw [hpc] at hc
      cases hc
  | get hpc hsome _ _ _ hwaiter =>
    -- the queue was not empty, so no consumer slept; the producer has been woken
    have hfields : ∀ e : IoqCall, e.field f = IoqCall.ioqGetchar.field f ∨
        e.field f = (IoqCall.ioqPutchar 0).field f := by
      intro e
      cases e with
      | ioqGetchar => exact .inl rfl
      | ioqPutchar b => exact .inr rfl
    refine iff_of_true (IoqState.waitsForCause_of_none hfields ?_ hwaiter) (fun c hc => ?_)
    · exact h.waiter_eq_none (c := .ioqGetchar) hsome
    · rw [hpc] at hc
      cases hc

end

/-- As long as every task that comes to `ioq_wait` still has to wait, a task sleeps as the consumer
only while the queue is empty and as the producer only while it is full; and the first task that comes
there without having to wait any more puts an end to that. -/
theorem waits_for_cause_of_reachable {f : IoqFields} {s : IoqState}
    (h : (ioqSystem f).Reachable StillWaits s) :
    s.WaitsForCause f ∧
      ∀ a s', (ioqSystem f).step s a s' → (s'.WaitsForCause f ↔ StillWaits s a) := by
  have hwaits : s.WaitsForCause f := by
    refine h.invariant (fun s => s.WaitsForCause f) ?_ ?_
    · rintro s ⟨-, -, hproducer, hconsumer, -⟩
      exact ⟨fun hne => absurd hconsumer hne, fun hne => absurd hproducer hne⟩
    · intro s a s' hs hok hstep
      exact (hs.step_iff hstep).mpr hok
  exact ⟨hwaits, fun a s' hstep => hwaits.step_iff hstep⟩

/-- The main thread sleeps as the consumer of an empty queue. -/
theorem waits_for_cause_main :
    ∃ s : IoqState, s.kernel.waiter kbdFields.consumer = some 1 ∧ s.WaitsForCause kbdFields := by
  have hrun : ((IoqState.play (fun s _ => match s.pc s.kernel.cur with
        | .ioqWait c => c.mustWait s.ioq
        | _ => true)
      [.call .ioqGetchar, .next, .next]).map fun s => s.kernel.waiter 1) = some (some 1) := by
    decide +kernel
  obtain ⟨s, hs, hwaiter⟩ := Option.map_eq_some_iff.mp hrun
  refine ⟨s, hwaiter, (waits_for_cause_of_reachable (reachable_of_play (fun s a hok => ?_) hs)).1⟩
  cases a with
  | next =>
    intro c hc
    simpa only [hc] using hok
  | call | pipeRead | pipeWrite | sched | reorder => trivial

/-- The main thread sleeps as the consumer, with the lock, and the init process sleeps for the lock.
Two keys are typed; the main thread is woken, takes the first byte and yields. Now the init process
gets the lock and goes to sleep as the consumer, with a byte in the queue. -/
theorem not_waits_for_cause_of_overtaken :
    ¬∀ s, (ioqSystem kbdFields).Reachable (fun _ _ => True) s → s.WaitsForCause kbdFields := by
  intro hall
  have hrun : ((IoqState.play (fun _ _ => true)
      [.call .ioqGetchar, .next, .next, .call .ioqGetchar, .next,
        .call (.ioqPutchar 65), .next, .call (.ioqPutchar 66), .next, .sched (.block .blocked),
        .next, .next, .sched .yield, .next, .next]).map
      fun s => (s.kernel.waiter 1, s.ioq.ioqEmpty)) = some (some 0, false) := by decide +kernel
  obtain ⟨s, hs, hrun⟩ := Option.map_eq_some_iff.mp hrun
  obtain ⟨hwaiter, hempty⟩ := Prod.mk.inj hrun
  have hwaits := hall s (reachable_of_play (fun _ _ _ => trivial) hs)
  have htrue := hwaits.consumer (by rw [kbdFields, hwaiter]; simp)
  rw [hempty] at htrue
  cases htrue

end SimpleOs
