import SimpleOs.Base.RingBuffer
import SimpleOs.Thread.SchedFrame
import SimpleOs.Thread.SchedReachable

/-!
# I/O queues

`device/ioqueue.c`, and `pipe_read` and `pipe_write` of `shell/pipe.c`, which are built on it. The
functions run with the interrupts off, so a task that is in one of them is left only where it blocks:
in `sema_down` inside `lock_acquire`, and in `ioq_wait`.
-/

namespace SimpleOs

open Base Function Option

def bufsize : Nat := 64

/-- `next_pos`. -/
def nextPos (pos : Nat) : Nat := (pos + 1) % bufsize

/-- `struct ioqueue`. The semaphore of its lock and the fields `producer` and `consumer` are the
scheduler's. -/
structure Ioqueue where
  holder : Option Nat
  holderRepeatNr : UInt32
  buf : Nat → UInt8
  head : Nat
  tail : Nat

namespace Ioqueue

/-- `ioqueue_init`, over what the buffer held before. -/
def ioqueueInit (buf : Nat → UInt8) : Ioqueue := ⟨none, 0, buf, 0, 0⟩

/-- `ioq_full`. -/
def ioqFull (q : Ioqueue) : Bool := nextPos q.head == q.tail

/-- `ioq_empty`. -/
def ioqEmpty (q : Ioqueue) : Bool := q.head == q.tail

/-- `ioq_length`. -/
def ioqLength (q : Ioqueue) : Nat :=
  if q.tail ≤ q.head then q.head - q.tail else bufsize - (q.tail - q.head)

end Ioqueue

/-- A call of `ioq_getchar` or of `ioq_putchar`. -/
inductive IoqCall where
  | ioqGetchar
  | ioqPutchar (byte : UInt8)
deriving DecidableEq

/-- Where a task is in `ioq_getchar` or `ioq_putchar`: at the test of the loop, asleep or woken in the
`sema_down` of `lock_acquire`, at `ioq_wait`, or asleep or woken in it, with `lock_release` to come. -/
inductive IoqPc where
  | outside
  | test (c : IoqCall)
  | semaDown (c : IoqCall)
  | ioqWait (c : IoqCall)
  | lockRelease (c : IoqCall)
deriving DecidableEq

/-- The numbers under which the scheduler has the semaphore and the two fields of the queue. -/
structure IoqFields where
  sema : Nat
  producer : Nat
  consumer : Nat
  ne : producer ≠ consumer

namespace IoqCall

/-- The test of the loop: a reader waits while the queue is empty, a writer while it is full. -/
def mustWait (q : Ioqueue) : IoqCall → Bool
  | ioqGetchar => q.ioqEmpty
  | ioqPutchar _ => q.ioqFull

/-- The field that a call waits in. -/
def field (f : IoqFields) : IoqCall → Nat
  | ioqGetchar => f.consumer
  | ioqPutchar _ => f.producer

end IoqCall

/-- A queue and the tasks that use it. `pending` are the calls that a `pipe_read` or a `pipe_write`
of a task has still to make; `written` and `read` are the bytes that all calls have put into the queue
and have returned. -/
structure IoqState where
  kernel : Kernel
  ioq : Ioqueue
  pc : Nat → IoqPc
  pending : Nat → List IoqCall
  written : List UInt8
  read : List UInt8

namespace IoqState

/-- The running task goes on at another place. -/
def goto (s : IoqState) (pc : IoqPc) : IoqState :=
  { s with pc := update s.pc s.kernel.cur pc }

/-- `wakeup`, if somebody waits in the field. -/
def wakeupIfAny (s : IoqState) (c : Nat) : Option IoqState :=
  if s.kernel.waiter c ≠ none then (s.kernel.wakeup c).map fun kernel => { s with kernel := kernel }
  else some s

/-- What `ioq_getchar` and `ioq_putchar` do behind their loop. -/
def finish (s : IoqState) (f : IoqFields) : IoqCall → Option IoqState
  | .ioqGetchar =>
    { s with
      ioq := { s.ioq with tail := nextPos s.ioq.tail }
      read := s.read ++ [s.ioq.buf s.ioq.tail] }.wakeupIfAny f.producer
  | .ioqPutchar byte =>
    { s with
      ioq := { s.ioq with
        buf := update s.ioq.buf s.ioq.head byte
        head := nextPos s.ioq.head }
      written := s.written ++ [byte] }.wakeupIfAny f.consumer

/-- A round of `sema_down`, and the rest of `lock_acquire` when it gets the unit. -/
def downLock (s : IoqState) (f : IoqFields) (c : IoqCall) : Option IoqState :=
  (s.kernel.semaDown f.sema).map fun kernel =>
    if s.kernel.value f.sema = 0 then { s.goto (.semaDown c) with kernel := kernel }
    else { s.goto (.ioqWait c) with
      kernel := kernel
      ioq := { s.ioq with holder := some s.kernel.cur, holderRepeatNr := 1 } }

/-- `lock_acquire`. -/
def lockAcquire (s : IoqState) (f : IoqFields) (c : IoqCall) : Option IoqState :=
  if s.ioq.holder ≠ some s.kernel.cur then s.downLock f c
  else some
    ({ s with ioq := { s.ioq with holderRepeatNr := s.ioq.holderRepeatNr + 1 } }.goto (.ioqWait c))

/-- `lock_release`. -/
def lockRelease (s : IoqState) (f : IoqFields) : Option IoqState :=
  if 1 < s.ioq.holderRepeatNr then
    some { s with ioq := { s.ioq with holderRepeatNr := s.ioq.holderRepeatNr - 1 } }
  else
    (s.kernel.semaUp f.sema).map fun kernel =>
      { s with kernel := kernel, ioq := { s.ioq with holder := none, holderRepeatNr := 0 } }

/-- The running task goes on: it makes its next pending call, or takes the next step of the one it is
in. -/
def next (s : IoqState) (f : IoqFields) : Option IoqState :=
  match s.pc s.kernel.cur with
  | .outside =>
    match s.pending s.kernel.cur with
    | [] => none
    | c :: cs => some ({ s with pending := update s.pending s.kernel.cur cs }.goto (.test c))
  | .test c => if c.mustWait s.ioq then s.lockAcquire f c else (s.goto .outside).finish f c
  | .semaDown c => s.downLock f c
  | .ioqWait c =>
    (s.kernel.ioqWait (c.field f)).map fun kernel => { s.goto (.lockRelease c) with kernel := kernel }
  | .lockRelease c => (s.goto (.test c)).lockRelease f

/-- `pipe_read`: no more bytes are asked for than there are. -/
def pipeRead (s : IoqState) (count : Nat) : IoqState :=
  let size := if count < s.ioq.ioqLength then count else s.ioq.ioqLength
  { s with pending := update s.pending s.kernel.cur (List.replicate size .ioqGetchar) }

/-- `pipe_write`: no more bytes are written than there are slots, one more than there is room for. -/
def pipeWrite (s : IoqState) (buffer : List UInt8) : IoqState :=
  let ioqLeft := bufsize - s.ioq.ioqLength
  let size := if buffer.length < ioqLeft then buffer.length else ioqLeft
  { s with pending := update s.pending s.kernel.cur ((buffer.take size).map .ioqPutchar) }

end IoqState

/-- The running task makes a call, or goes on in one; another section of the scheduler runs; or the
tasks in its lists change places, so that they go on in any order. -/
inductive IoqAct where
  | call (c : IoqCall)
  | pipeRead (count : Nat)
  | pipeWrite (buffer : List UInt8)
  | next
  | sched (a : SchedAct)
  | reorder (links : Links Node)

namespace IoqAct

/-- A section of the scheduler that is not about the queue. -/
def Elsewhere (f : IoqFields) (a : SchedAct) : Prop :=
  a ≠ .semaDown f.sema ∧ a ≠ .semaUp f.sema ∧ (∀ c : IoqCall, a ≠ .ioqWait (c.field f)) ∧
    ∀ c : IoqCall, a ≠ .wakeup (c.field f)

/-- When a step can be taken. In the idle thread only the handler of an interrupt makes a call, and
it puts a byte only into a queue that is not full. A task that is in a call runs with the interrupts
off; it does not end there. -/
def Enabled (f : IoqFields) (s : IoqState) : IoqAct → Prop
  | call c => s.pc s.kernel.cur = .outside ∧ s.pending s.kernel.cur = [] ∧
      (s.kernel.cur = s.kernel.idleThread → c ≠ .ioqGetchar ∧ c.mustWait s.ioq = false)
  | pipeRead _ => s.pc s.kernel.cur = .outside ∧ s.pending s.kernel.cur = [] ∧
      s.kernel.cur ≠ s.kernel.idleThread
  | pipeWrite _ => s.pc s.kernel.cur = .outside ∧ s.pending s.kernel.cur = [] ∧
      s.kernel.cur ≠ s.kernel.idleThread
  | next => True
  | sched a => s.pc s.kernel.cur = .outside ∧ a.Enabled s.kernel ∧ Elsewhere f a ∧
      ∀ t b, a = .exit t b → s.pc t = .outside ∧ s.pending t = []
  | reorder links => (s.kernel.withLinks links).InStep

/-- What a step does. -/
def exec (f : IoqFields) (s : IoqState) : IoqAct → Option IoqState
  | call c => some (s.goto (.test c))
  | pipeRead count => some (s.pipeRead count)
  | pipeWrite buffer => some (s.pipeWrite buffer)
  | next => s.next f
  | sched a => (a.exec s.kernel).map fun kernel => { s with kernel := kernel }
  | reorder links => some { s with kernel := s.kernel.withLinks links }

end IoqAct

/-- A queue from `ioqueue_init` on. -/
def ioqSystem (f : IoqFields) : System IoqState IoqAct where
  init s := s.kernel.FreshSema f.sema ∧ s.kernel.value f.sema = 1 ∧
    s.kernel.waiter f.producer = none ∧ s.kernel.waiter f.consumer = none ∧
    (∃ buf, s.ioq = Ioqueue.ioqueueInit buf) ∧ s.pc = (fun _ => .outside) ∧ s.pending = (fun _ => []) ∧
    s.written = [] ∧ s.read = []
  step s a s' := a.Enabled f s ∧ a.exec f s = some s'

/-! ### What a step does -/

/-- The slots and the two positions. -/
def Ioqueue.ring (q : Ioqueue) : RingBuffer UInt8 := ⟨q.buf, q.head, q.tail⟩

/-- A step that leaves the bytes alone. -/
structure IoqState.SameBytes (s s' : IoqState) : Prop where
  ring : s'.ioq.ring = s.ioq.ring
  written : s'.written = s.written
  read : s'.read = s.read

/-- The steps by what they do to the queue and to the fields `producer` and `consumer`: nothing; a
task puts itself into a field; `ioq_putchar` and `ioq_getchar` come to their end. -/
inductive IoqState.Effect (f : IoqFields) (s s' : IoqState) : IoqAct → Prop
  | quiet (a : IoqAct) : s.SameBytes s' →
      (∀ c : IoqCall, s'.kernel.waiter (c.field f) = s.kernel.waiter (c.field f)) →
      (∀ c, a = .next → s.pc s.kernel.cur ≠ .ioqWait c) → Effect f s s' a
  | wait (c : IoqCall) : s.SameBytes s' → s.pc s.kernel.cur = .ioqWait c →
      s'.kernel.waiter = update s.kernel.waiter (c.field f) (some s.kernel.cur) →
      Effect f s s' .next
  | put (b : UInt8) : s.pc s.kernel.cur = .test (.ioqPutchar b) → s.ioq.ioqFull = false →
      s'.ioq.ring = s.ioq.ring.push bufsize b → s'.written = s.written ++ [b] → s'.read = s.read →
      s'.kernel.waiter = update s.kernel.waiter f.consumer none → Effect f s s' .next
  | get : s.pc s.kernel.cur = .test .ioqGetchar → s.ioq.ioqEmpty = false →
      s'.ioq.ring = s.ioq.ring.pop bufsize → s'.written = s.written →
      s'.read = s.read ++ [s.ioq.buf s.ioq.tail] →
      s'.kernel.waiter = update s.kernel.waiter f.producer none → Effect f s s' .next

namespace IoqState

variable {s s' : IoqState} {c : IoqCall}

lemma wakeupIfAny_spec (h : s.wakeupIfAny w = some s') :
    s'.ioq = s.ioq ∧ s'.written = s.written ∧ s'.read = s.read ∧
      s'.kernel.waiter = update s.kernel.waiter w none := by
  simp only [wakeupIfAny] at h
  split_ifs at h with hsome
  · obtain ⟨kernel, hexec, rfl⟩ := map_eq_some_iff.mp h
    exact ⟨rfl, rfl, rfl, (Kernel.wakeup_spec hexec).2.1⟩
  · cases h
    have hnone : s.kernel.waiter w = none := not_not.mp hsome
    exact ⟨rfl, rfl, rfl, (update_eq_self_iff.mpr hnone.symm).symm⟩

lemma effect_finish (hpc : s.pc s.kernel.cur = .test c) (hwait : c.mustWait s.ioq = false)
    (h : (s.goto .outside).finish f c = some s') : Effect f s s' .next := by
  cases c with
  | ioqGetchar =>
    obtain ⟨hioq, hwritten, hread, hwaiter⟩ := wakeupIfAny_spec h
    exact .get hpc hwait (by rw [hioq]; rfl) hwritten hread hwaiter
  | ioqPutchar byte =>
    obtain ⟨hioq, hwritten, hread, hwaiter⟩ := wakeupIfAny_spec h
    exact .put byte hpc hwait (by rw [hioq]; rfl) hwritten hread hwaiter

lemma sameBytes_downLock (h : s.downLock f c = some s') :
    s.SameBytes s' ∧ s'.kernel.waiter = s.kernel.waiter := by
  obtain ⟨kernel, hexec, hs'⟩ := map_eq_some_iff.mp h
  have hwaiter : kernel.waiter = s.kernel.waiter :=
    (SchedAct.exec_frame (a := .semaDown f.sema) hexec).2.1
  split_ifs at hs'
  · subst hs'
    exact ⟨⟨rfl, rfl, rfl⟩, hwaiter⟩
  · subst hs'
    exact ⟨⟨rfl, rfl, rfl⟩, hwaiter⟩

lemma sameBytes_lockAcquire (h : s.lockAcquire f c = some s') :
    s.SameBytes s' ∧ s'.kernel.waiter = s.kernel.waiter := by
  simp only [lockAcquire] at h
  split_ifs at h
  · exact sameBytes_downLock h
  · cases h
    exact ⟨⟨rfl, rfl, rfl⟩, rfl⟩

lemma sameBytes_lockRelease (h : s.lockRelease f = some s') :
    s.SameBytes s' ∧ s'.kernel.waiter = s.kernel.waiter := by
  simp only [lockRelease] at h
  split_ifs at h
  · cases h
    exact ⟨⟨rfl, rfl, rfl⟩, rfl⟩
  · obtain ⟨kernel, hexec, rfl⟩ := map_eq_some_iff.mp h
    exact ⟨⟨rfl, rfl, rfl⟩, (Kernel.semaUp_spec hexec).2.1⟩

/-- The running task goes on. -/
lemma effect_next (h : s.next f = some s') : Effect f s s' .next := by
  simp only [next] at h
  cases hpc : s.pc s.kernel.cur with
  | outside =>
    simp only [hpc] at h
    cases hpending : s.pending s.kernel.cur with
    | nil => simp [hpending] at h
    | cons c cs =>
      simp only [hpending, Option.some.injEq] at h
      subst h
      exact .quiet _ ⟨rfl, rfl, rfl⟩ (fun _ => rfl) (by simp [hpc])
  | test c =>
    simp only [hpc] at h
    split_ifs at h with hwait
    · obtain ⟨hsame, hwaiter⟩ := sameBytes_lockAcquire h
      exact .quiet _ hsame (fun _ => by rw [hwaiter]) (by simp [hpc])
    · exact effect_finish hpc (Bool.not_eq_true _ ▸ hwait) h
  | semaDown c =>
    simp only [hpc] at h
    obtain ⟨hsame, hwaiter⟩ := sameBytes_downLock h
    exact .quiet _ hsame (fun _ => by rw [hwaiter]) (by simp [hpc])
  | ioqWait c =>
    simp only [hpc] at h
    obtain ⟨kernel, hexec, rfl⟩ := map_eq_some_iff.mp h
    exact .wait c ⟨rfl, rfl, rfl⟩ hpc (Kernel.ioqWait_spec hexec).2.1
  | lockRelease c =>
    simp only [hpc] at h
    obtain ⟨⟨hring, hwritten, hread⟩, hwaiter⟩ := sameBytes_lockRelease h
    exact .quiet _ ⟨hring, hwritten, hread⟩ (fun _ => by rw [hwaiter]; rfl) (by simp [hpc])

lemma effect_sched (helse : IoqAct.Elsewhere f a)
    (h : (IoqAct.sched a).exec f s = some s') : Effect f s s' (.sched a) := by
  obtain ⟨kernel, hexec, rfl⟩ := map_eq_some_iff.mp h
  refine .quiet _ ⟨rfl, rfl, rfl⟩ (fun c => ?_) (fun _ ha => by cases ha)
  rw [(SchedAct.exec_frame hexec).2.1]
  cases a with
  | ioqWait j => exact update_of_ne (fun heq => helse.2.2.1 c (by rw [heq])) _ _
  | wakeup j => exact update_of_ne (fun heq => helse.2.2.2 c (by rw [heq])) _ _
  | timer | block | unblockParent | yield | semaDown | semaUp | fork | exit => rfl

end IoqState

lemma effect_of_step (h : (ioqSystem f).step s a s') : s.Effect f s' a := by
  obtain ⟨henabled, hexec⟩ := h
  cases a with
  | call c =>
    cases hexec
    exact .quiet _ ⟨rfl, rfl, rfl⟩ (fun _ => rfl) (fun _ ha => by cases ha)
  | pipeRead count =>
    cases hexec
    exact .quiet _ ⟨rfl, rfl, rfl⟩ (fun _ => rfl) (fun _ ha => by cases ha)
  | pipeWrite buffer =>
    cases hexec
    exact .quiet _ ⟨rfl, rfl, rfl⟩ (fun _ => rfl) (fun _ ha => by cases ha)
  | next => exact IoqState.effect_next hexec
  | sched a => exact IoqState.effect_sched henabled.2.2.1 hexec
  | reorder links =>
    cases hexec
    exact .quiet _ ⟨rfl, rfl, rfl⟩ (fun _ => rfl) (fun _ ha => by cases ha)

/-! ### Scripts -/

/-- The steps of tasks that call `ioq_getchar` and `ioq_putchar`, yield and block themselves. -/
def IoqAct.scripted (f : IoqFields) (s : IoqState) : IoqAct → Option IoqState
  | .call c =>
    if s.pc s.kernel.cur = .outside ∧ s.pending s.kernel.cur = [] ∧
        (s.kernel.cur = s.kernel.idleThread → c ≠ .ioqGetchar ∧ c.mustWait s.ioq = false) then
      (IoqAct.call c).exec f s
    else
      none
  | .next => s.next f
  | .sched (.block .blocked) =>
    if s.pc s.kernel.cur = .outside then (IoqAct.sched (.block .blocked)).exec f s else none
  | .sched .yield =>
    if s.pc s.kernel.cur = .outside then (IoqAct.sched .yield).exec f s else none
  | _ => none

lemma IoqAct.step_of_scripted (s : IoqState) (a : IoqAct) (s' : IoqState)
    (h : a.scripted f s = some s') : (ioqSystem f).step s a s' := by
  unfold scripted at h
  split at h
  · obtain ⟨hguard, hexec⟩ := ite_none_right_eq_some.mp h
    exact ⟨hguard, hexec⟩
  · exact ⟨trivial, h⟩
  · obtain ⟨hguard, hexec⟩ := ite_none_right_eq_some.mp h
    exact ⟨⟨hguard, ⟨.inl rfl, fun _ => rfl⟩, by simp [Elsewhere], by simp⟩, hexec⟩
  · obtain ⟨hguard, hexec⟩ := ite_none_right_eq_some.mp h
    exact ⟨⟨hguard, trivial, by simp [Elsewhere], by simp⟩, hexec⟩
  · cases h

/-- The queue of the keyboard, say. -/
def kbdFields : IoqFields := ⟨7, 0, 1, by decide⟩

/-- The queue after `ioqueue_init` in a kernel. -/
def IoqState.fresh (kernel : Kernel) : IoqState :=
  ⟨kernel, .ioqueueInit fun _ => 0, fun _ => .outside, fun _ => [], [], []⟩

/-- Follow a script from the end of `thread_init` on. -/
def IoqState.play (test : IoqState → IoqAct → Bool) (script : List IoqAct) : Option IoqState :=
  (Kernel.threadInit 0 1 2 fun _ => 1).bind fun kernel =>
    System.follow (IoqAct.scripted kbdFields) test (.fresh kernel) script

lemma reachable_of_play {ok : IoqState → IoqAct → Prop} (htest : ∀ s a, test s a = true → ok s a)
    (h : IoqState.play test script = some s) : (ioqSystem kbdFields).Reachable ok s := by
  have hstart : ((Kernel.threadInit 0 1 2 fun _ => 1).map fun kernel =>
      (kernel.value 7, kernel.waiter 0, kernel.waiter 1)) = some (1, none, none) := by decide +kernel
  obtain ⟨kernel, hkernel, hrun⟩ := bind_eq_some_iff.mp h
  rw [hkernel] at hstart
  simp only [map_some, Option.some.injEq, Prod.mk.injEq] at hstart
  obtain ⟨hvalue, hproducer, hconsumer⟩ := hstart
  have hinit : (ioqSystem kbdFields).Reachable ok (.fresh kernel) :=
    .init ⟨freshSema_of_init ⟨0, 1, 2, fun _ => 1, by decide, by decide, by decide, hkernel⟩ 7, hvalue,
      hproducer, hconsumer, ⟨_, rfl⟩, rfl, rfl, rfl, rfl⟩
  exact hinit.follow IoqAct.step_of_scripted htest hrun

/-! ### A bounded queue -/

/-- The bytes from `tail` up to `head` as a queue. -/
def IoqState.fifo (s : IoqState) : Fifo UInt8 := ⟨s.ioq.ring.contents bufsize, s.written, s.read⟩

namespace Ioqueue

variable {q : Ioqueue}

lemma ioqEmpty_iff (h : q.ring.Wf bufsize) :
    q.ioqEmpty = true ↔ (q.ring.contents bufsize).length = 0 := by
  rw [RingBuffer.length_contents, h.count_eq_zero_iff]
  exact beq_iff_eq

lemma ioqFull_iff (h : q.ring.Wf bufsize) :
    q.ioqFull = true ↔ (q.ring.contents bufsize).length = bufsize - 1 := by
  rw [RingBuffer.length_contents, h.count_eq_pred_iff]
  exact beq_iff_eq

lemma ioqLength_eq : q.ioqLength = (q.ring.contents bufsize).length := by
  rw [RingBuffer.length_contents]
  show (if q.tail ≤ q.head then _ else _) = if q.tail ≤ q.head then _ else _
  split_ifs
  · rfl
  · show bufsize - (q.tail - q.head) = q.head + bufsize - q.tail
    omega

end Ioqueue

/-- A step of the queue is a step of a bounded queue, or leaves it as it is. -/
lemma IoqState.Effect.fifo {s s' : IoqState} (h : s.Effect f s' a) (hwf : s.ioq.ring.Wf bufsize) :
    s'.ioq.ring.Wf bufsize ∧
      (s'.fifo = s.fifo ∨ ∃ l, (fifoSystem UInt8 (bufsize - 1)).step s.fifo l s'.fifo) := by
  have hsame : s.SameBytes s' → s'.ioq.ring.Wf bufsize ∧ s'.fifo = s.fifo := by
    rintro ⟨hring, hwritten, hread⟩
    exact ⟨hring ▸ hwf, by rw [IoqState.fifo, hring, hwritten, hread]; rfl⟩
  cases h with
  | quiet _ hbytes => exact ⟨(hsame hbytes).1, .inl (hsame hbytes).2⟩
  | wait c hbytes => exact ⟨(hsame hbytes).1, .inl (hsame hbytes).2⟩
  | put b _ hroom hring hwritten hread _ =>
    have hne : (s.ioq.ring.head + 1) % bufsize ≠ s.ioq.ring.tail := beq_eq_false_iff_ne.mp hroom
    refine ⟨hring ▸ hwf.push b, .inr ⟨.put b, ?_, ?_⟩⟩
    · have hlt := hwf.count_lt
      have hfull := mt hwf.count_eq_pred_iff.mp hne
      show (s.ioq.ring.contents bufsize).length < bufsize - 1
      rw [RingBuffer.length_contents]
      omega
    · rw [IoqState.fifo, hring, hwritten, hread, hwf.contents_push b hne]
      rfl
  | get _ hsome hring hwritten hread _ =>
    have hne : s.ioq.ring.head ≠ s.ioq.ring.tail := beq_eq_false_iff_ne.mp hsome
    refine ⟨hring ▸ hwf.pop, .inr ⟨.get (s.ioq.buf s.ioq.tail), ?_, hwritten, hread⟩⟩
    show s.ioq.ring.contents bufsize = _ :: s'.ioq.ring.contents bufsize
    rw [hring]
    exact hwf.contents_eq_cons hne

lemma wf_of_reachable {ok : IoqState → IoqAct → Prop} {s : IoqState}
    (h : (ioqSystem f).Reachable ok s) :
    s.ioq.ring.Wf bufsize ∧ (fifoSystem UInt8 (bufsize - 1)).Reachable (fun _ _ => True) s.fifo := by
  refine h.invariant (fun s => s.ioq.ring.Wf bufsize ∧
    (fifoSystem UInt8 (bufsize - 1)).Reachable (fun _ _ => True) s.fifo) ?_ ?_
  · rintro s ⟨-, -, -, -, ⟨buf, hioq⟩, -, -, hwritten, hread⟩
    have hring : s.ioq.ring = ⟨buf, 0, 0⟩ := by rw [hioq]; rfl
    refine ⟨hring ▸ ⟨Nat.succ_pos 63, Nat.succ_pos 63⟩, .init ?_⟩
    rw [IoqState.fifo, hring, hwritten, hread]
    rfl
  · rintro s a s' ⟨hwf, hfifo⟩ - hstep
    obtain ⟨hwf', heq | ⟨l, hl⟩⟩ := (effect_of_step hstep).fifo hwf
    · exact ⟨hwf', heq ▸ hfifo⟩
    · exact ⟨hwf', hfifo.step trivial hl⟩

/-- In every run the positions stay in the buffer, and the bytes between them are a queue of capacity
63: each step puts a byte at its end, takes one from its front or leaves it alone. `ioq_length` is its
length, and `ioq_empty` and `ioq_full` say when it has no bytes and when it has 63. The bytes returned
and the bytes in the queue are the bytes accepted, in their order. -/
theorem ioq_fifo_of_reachable {f : IoqFields} {s : IoqState}
    (h : (ioqSystem f).Reachable (fun _ _ => True) s) :
    s.ioq.head < bufsize ∧ s.ioq.tail < bufsize ∧
      (fifoSystem UInt8 (bufsize - 1)).Reachable (fun _ _ => True) s.fifo ∧
      (∀ a s', (ioqSystem f).step s a s' →
        s'.fifo = s.fifo ∨ ∃ l, (fifoSystem UInt8 (bufsize - 1)).step s.fifo l s'.fifo) ∧
      s.ioq.ioqLength = s.fifo.contents.length ∧
      (s.ioq.ioqEmpty = true ↔ s.fifo.contents.length = 0) ∧
      (s.ioq.ioqFull = true ↔ s.fifo.contents.length = bufsize - 1) ∧
      s.written = s.read ++ s.fifo.contents ∧ s.read <+: s.written := by
  obtain ⟨hwf, hfifo⟩ := wf_of_reachable h
  obtain ⟨hwritten, -⟩ := Fifo.written_eq_of_reachable hfifo
  exact ⟨hwf.head, hwf.tail, hfifo, fun a s' hstep => ((effect_of_step hstep).fifo hwf).2,
    Ioqueue.ioqLength_eq, Ioqueue.ioqEmpty_iff hwf, Ioqueue.ioqFull_iff hwf, hwritten,
    ⟨s.fifo.contents, hwritten.symm⟩⟩

/-- Two keys are typed and the first one is read. -/
theorem ioq_fifo_two_keys :
    ∃ s : IoqState, s.read = [65] ∧ s.written = s.read ++ s.fifo.contents ∧
      s.fifo.contents.length = 1 := by
  have hrun : ((IoqState.play (fun _ _ => true)
      [.call (.ioqPutchar 65), .next, .call (.ioqPutchar 66), .next, .call .ioqGetchar, .next]).map
      fun s => (s.read, s.ioq.ioqLength)) = some ([65], 1) := by decide +kernel
  obtain ⟨s, hs, hrun⟩ := map_eq_some_iff.mp hrun
  obtain ⟨hread, hlength⟩ := Prod.mk.inj hrun
  obtain ⟨-, -, -, -, hlen, -, -, hwritten, -⟩ :=
    ioq_fifo_of_reachable (reachable_of_play (fun _ _ _ => trivial) hs)
  exact ⟨s, hread, hwritten, hlen.symm.trans hlength⟩

end SimpleOs
