import SimpleOs.Base.Transition
import SimpleOs.Lib.Bitmap
import SimpleOs.Lib.List

/-!
# The scheduler

`thread/thread.c`, `thread/sync.c`, the waiting of `device/ioqueue.c`, the handler of
`device/timer.c` and what `sys_fork` does to the task lists. A task is named by the address of its
PCB. Its `general_tag` is one node, linked into the ready list or into the waiters list of a
semaphore, so all these lists share one pointer store. `all_list_tag` is never in another list
than `thread_all_list`, which is modelled as a list of tasks.

Each function is one interrupts-off section: it runs from where the section starts to where it
ends or to where it gives the processor away. `none` is a null pointer that is followed, a `PANIC`
or a pop from an empty list.
-/

namespace SimpleOs

open Base Function

/-- `enum task_status`. -/
inductive TaskStatus where
  | running
  | ready
  | blocked
  | waiting
  | hanging
  | died
  deriving DecidableEq

/-- `struct task_struct`, as far as tasks are scheduled, forked and waited for. `userProg` says
that `pgdir` is not null. -/
structure Task where
  pid : Int
  status : TaskStatus
  priority : UInt8
  tricks : UInt8
  elapsedTricks : UInt32
  userProg : Bool
  parentPid : Int
  exitStatus : Int8

/-- The lists a `general_tag` can be in: `thread_ready_list` and the waiters of each semaphore. -/
inductive Queue where
  | ready
  | waiters (sema : Nat)
  deriving DecidableEq

/-- The nodes: the tag of each task and the sentinels of each list. -/
inductive Node where
  | tag (task : Nat)
  | head (queue : Queue)
  | tail (queue : Queue)
  deriving DecidableEq

/-- The `struct list` of a queue. -/
def Queue.ends (q : Queue) : ListEnds Node := ⟨.head q, .tail q⟩

/-- What the scheduler works on. `waiter` are the `producer` and `consumer` fields of the
io queues, `cur` is the task whose kernel stack is in use. -/
structure Kernel where
  links : Links Node
  threadAllList : List Nat
  task : Nat → Task
  cur : Nat
  idleThread : Nat
  value : Nat → UInt8
  waiter : Nat → Option Nat
  pidBitmap : Bitmap

namespace Kernel

/-- The status of a task. -/
def status (s : Kernel) (t : Nat) : TaskStatus := (s.task t).status

/-- Write the pointers of the lists. -/
@[simps -fullyApplied] def withLinks (s : Kernel) (m : Links Node) : Kernel := { s with links := m }

/-- Write the PCB of a task. -/
@[simps -fullyApplied links threadAllList cur idleThread value waiter pidBitmap]
def setTask (s : Kernel) (t : Nat) (f : Task → Task) : Kernel :=
  { s with task := update s.task t (f (s.task t)) }

/-- Write the status of a task. -/
@[simps! -fullyApplied links threadAllList cur idleThread value waiter pidBitmap]
def setStatus (s : Kernel) (t : Nat) (st : TaskStatus) : Kernel :=
  s.setTask t fun p => { p with status := st }

section Fields

variable (s : Kernel) (t : Nat) (f : Task → Task) (st : TaskStatus) (m : Links Node)

@[simp] lemma status_withLinks : (s.withLinks m).status = s.status := rfl

lemma task_setTask (u : Nat) : (s.setTask t f).task u = if u = t then f (s.task t) else s.task u := by
  simp [setTask, update_apply]

lemma status_setTask (u : Nat) :
    (s.setTask t f).status u = if u = t then (f (s.task t)).status else s.status u := by
  rw [status, task_setTask]
  split_ifs <;> rfl

@[simp] lemma status_setStatus (u : Nat) :
    (s.setStatus t st).status u = if u = t then st else s.status u := by
  rw [setStatus, status_setTask]

end Fields

/-- `elem_find` of a task's tag; no list is longer than the list of all tasks. -/
def elemFind (s : Kernel) (q : Queue) (t : Nat) : Option Bool :=
  q.ends.elemFind s.links (s.threadAllList.length + 1) (.tag t)

/-- `list_append` of a task's tag. -/
def append (s : Kernel) (q : Queue) (t : Nat) : Option Kernel :=
  (q.ends.listAppend s.links (.tag t)).map s.withLinks

/-- `list_push` of a task's tag. -/
def push (s : Kernel) (q : Queue) (t : Nat) : Option Kernel :=
  (q.ends.listPush s.links (.tag t)).map s.withLinks

/-- `list_pop`, and the task whose tag was popped. -/
def pop (s : Kernel) (q : Queue) : Option (Nat × Kernel) :=
  (q.ends.listPop s.links).bind fun (x, m) =>
    match x with
    | .tag t => some (t, s.withLinks m)
    | _ => none

/-! ### thread.c -/

/-- `thread_unblock`. -/
def threadUnblock (s : Kernel) (t : Nat) : Option Kernel :=
  if s.status t ≠ .ready then do
    let found ← s.elemFind .ready t
    if found then none
    else
      let s ← s.push .ready t
      return s.setStatus t .ready
  else some s

/-- `schedule`, first part: a task that is still running goes to the end of the ready list. -/
def enqueueCur (s : Kernel) : Option Kernel :=
  if s.status s.cur = .running then do
    let s ← s.append .ready s.cur
    return s.setTask s.cur fun p => { p with tricks := p.priority, status := .ready }
  else some s

/-- `schedule`, second part: with nobody ready the idle thread is unblocked. -/
def wakeIdle (s : Kernel) : Option Kernel :=
  if Queue.ready.ends.listEmpty s.links then s.threadUnblock s.idleThread else some s

/-- `schedule`, third part: the first ready task runs. There is no result if there is none, where
the source would unlink the tail of the list. -/
def switchToNext (s : Kernel) : Option Kernel :=
  if Queue.ready.ends.listEmpty s.links then none
  else do
    let (next, s) ← s.pop .ready
    return { s.setStatus next .running with cur := next }

/-- `schedule`. -/
def schedule (s : Kernel) : Option Kernel := do
  let s ← s.enqueueCur
  let s ← s.wakeIdle
  s.switchToNext

/-- `thread_block`. -/
def threadBlock (s : Kernel) (stat : TaskStatus) : Option Kernel :=
  (s.setStatus s.cur stat).schedule

/-- `thread_yield`. -/
def threadYield (s : Kernel) : Option Kernel := do
  let s ← s.append .ready s.cur
  (s.setStatus s.cur .ready).schedule

/-- `release_pid`. The pid lock is only ever held inside one interrupts-off section, so taking it
never blocks. -/
def releasePid (s : Kernel) (pid : Int) : Kernel :=
  { s with pidBitmap := s.pidBitmap.bitmapSet (pid - 1).toNat false }

/-- `allocate_pid`. With no pid left the source sets bit `-1`, half a gigabyte behind the bitmap,
where nothing is mapped. -/
def allocatePid (s : Kernel) : Option (Int × Kernel) :=
  (s.pidBitmap.bitmapScan 1).map fun (bitIdx : Nat) =>
    ((bitIdx : Int) + 1, { s with pidBitmap := s.pidBitmap.bitmapSet bitIdx true })

/-- `thread_exit`, up to the call of `schedule`. -/
def forgetTask (s : Kernel) (t : Nat) : Option Kernel := do
  let s := s.setStatus t .died
  let found ← s.elemFind .ready t
  let s ← if found then (s.links.remove (.tag t)).map s.withLinks else some s
  let s := { s with threadAllList := s.threadAllList.erase t }
  return s.releasePid (s.task t).pid

/-- `thread_exit`. -/
def threadExit (s : Kernel) (t : Nat) (needSchedule : Bool) : Option Kernel := do
  let s ← s.forgetTask t
  if needSchedule then s.schedule else some s

/-! ### sync.c, ioqueue.c and timer.c -/

/-- `sema_down`: one round of its loop, ended by the decrement or by blocking. A task that is
woken makes another round. -/
def semaDown (s : Kernel) (k : Nat) : Option Kernel :=
  if s.value k = 0 then do
    let found ← s.elemFind (.waiters k) s.cur
    if found then none
    else
      let s ← s.append (.waiters k) s.cur
      s.threadBlock .blocked
  else some { s with value := update s.value k (s.value k - 1) }

/-- The first task that waits for a semaphore is unblocked. -/
def wakeWaiter (s : Kernel) (k : Nat) : Option Kernel :=
  if (Queue.waiters k).ends.listEmpty s.links then some s
  else do
    let (t, s) ← s.pop (.waiters k)
    s.threadUnblock t

/-- `sema_up`. -/
def semaUp (s : Kernel) (k : Nat) : Option Kernel := do
  let s ← s.wakeWaiter k
  return { s with value := update s.value k (s.value k + 1) }

/-- `ioq_wait` on one of the fields `producer` and `consumer`. -/
def ioqWait (s : Kernel) (c : Nat) : Option Kernel :=
  { s with waiter := update s.waiter c (some s.cur) }.threadBlock .blocked

/-- `wakeup`. -/
def wakeup (s : Kernel) (c : Nat) : Option Kernel := do
  let t ← s.waiter c
  let s ← s.threadUnblock t
  return { s with waiter := update s.waiter c none }

/-- `intr_timer_handler`, first part: the tick is counted. -/
def countTick (s : Kernel) : Kernel :=
  s.setTask s.cur fun p => { p with elapsedTricks := p.elapsedTricks + 1 }

/-- `intr_timer_handler`. -/
def intrTimerHandler (s : Kernel) : Option Kernel :=
  let s := s.countTick
  if (s.task s.cur).tricks = 0 then s.schedule
  else some (s.setTask s.cur fun p => { p with tricks := p.tricks - 1 })

/-! ### New tasks -/

/-- A task that is made is put at the end of the ready list and of the list of all tasks. -/
def enlist (s : Kernel) (t : Nat) : Option Kernel := do
  let s ← s.append .ready t
  return { s with threadAllList := s.threadAllList ++ [t] }

/-- The PCB `copy_pcb_vaddrbitmap_stack0` makes from the one of the parent. -/
def childOf (p : Task) (pid : Int) : Task :=
  { p with pid := pid, elapsedTricks := 0, status := .ready, tricks := p.priority,
           parentPid := p.pid }

/-- `sys_fork`, once `copy_process` has succeeded, for a child with the PCB `t`. -/
def sysFork (s : Kernel) (t : Nat) (pid : Int) : Option Kernel :=
  let s := s.setTask t fun _ => childOf (s.task s.cur) pid
  let s := s.withLinks ((s.links.setPrev (.tag t) none).setNext (.tag t) none)
  s.enlist t

/-- `init_thread`. -/
def initThread (s : Kernel) (t : Nat) (status : TaskStatus) (prio : UInt8) : Option Kernel := do
  let (pid, s) ← s.allocatePid
  return s.setTask t fun _ =>
    { pid := pid, status := status, priority := prio, tricks := prio, elapsedTricks := 0,
      userProg := false, parentPid := -1, exitStatus := 0 }

/-- `process_execute`, which the init process is started with. -/
def processExecute (s : Kernel) (t : Nat) : Option Kernel := do
  let s ← s.initThread t .ready 31
  (s.setTask t fun p => { p with userProg := true }).enlist t

/-- `make_main_thread`: the code that is running becomes a task. -/
def makeMainThread (s : Kernel) : Option Kernel := do
  let s ← s.initThread s.cur .running 31
  return { s with threadAllList := s.threadAllList ++ [s.cur] }

/-- `thread_start`. -/
def threadStart (s : Kernel) (t : Nat) (prio : UInt8) : Option Kernel := do
  let s ← s.initThread t .ready prio
  s.enlist t

/-- Every list as `list_init` leaves it. -/
def emptyLists : Links Node where
  prev
    | .tail q => some (.head q)
    | _ => none
  next
    | .head q => some (.tail q)
    | _ => none

/-- The kernel before `thread_init`, on the stack of the main thread. `value` are the values the
semaphores are initialised with. -/
def boot (main idle : Nat) (value : Nat → UInt8) : Kernel where
  links := emptyLists
  threadAllList := []
  task := fun _ => ⟨0, .died, 0, 0, 0, false, -1, 0⟩
  cur := main
  idleThread := idle
  value := value
  waiter := fun _ => none
  pidBitmap := ⟨128, Bytes.zero⟩

/-- `thread_init`, for the PCBs of the init process, of the main thread and of the idle thread. -/
def threadInit (init main idle : Nat) (value : Nat → UInt8) : Option Kernel := do
  let s ← (boot main idle value).processExecute init
  let s ← s.makeMainThread
  s.threadStart idle 10

end Kernel

/-! ### The transition system -/

/-- The interrupts-off sections that change the lists. `block` is `thread_block` as called by
`idle`, `sys_wait` and `sys_exit`, `unblockParent` the wake-up in `sys_exit`. -/
inductive SchedAct where
  | timer
  | block (stat : TaskStatus)
  | unblockParent (t : Nat)
  | yield
  | semaDown (k : Nat)
  | semaUp (k : Nat)
  | ioqWait (c : Nat)
  | wakeup (c : Nat)
  | fork (t : Nat) (pid : Int)
  | exit (t : Nat) (needSchedule : Bool)

namespace SchedAct

/-- What a section does. -/
def exec (s : Kernel) : SchedAct → Option Kernel
  | timer => s.intrTimerHandler
  | block stat => s.threadBlock stat
  | unblockParent t => s.threadUnblock t
  | yield => s.threadYield
  | semaDown k => s.semaDown k
  | semaUp k => s.semaUp k
  | ioqWait c => s.ioqWait c
  | wakeup c => s.wakeup c
  | fork t pid => s.sysFork t pid
  | exit t needSchedule => s.threadExit t needSchedule

/-- Where the code enters a section. The idle thread does nothing but block itself and take
interrupts; a parent is woken if it is `TASK_WAITING`; a waiter is woken if there is one; a PCB is
taken from free memory; a task ends when its parent reaps it, or as the running one. -/
def Enabled (s : Kernel) : SchedAct → Prop
  | timer => True
  | block stat => (stat = .blocked ∨ stat = .waiting ∨ stat = .hanging) ∧
      (s.cur = s.idleThread → stat = .blocked)
  | unblockParent t => t ∈ s.threadAllList ∧ s.status t = .waiting
  | yield => True
  | semaDown _ => s.cur ≠ s.idleThread
  | semaUp _ => True
  | ioqWait _ => s.cur ≠ s.idleThread
  | wakeup c => s.waiter c ≠ none
  | fork t _ => t ∉ s.threadAllList
  | exit t needSchedule => t ∈ s.threadAllList ∧
      if needSchedule then t = s.cur ∧ t ≠ s.idleThread else s.status t = .hanging

end SchedAct

/-- The scheduler from the end of `thread_init` on. -/
def schedSystem : System Kernel SchedAct where
  init s := ∃ init main idle value, init ≠ main ∧ init ≠ idle ∧ main ≠ idle ∧
    Kernel.threadInit init main idle value = some s
  step s a s' := a.Enabled s ∧ a.exec s = some s'

end SimpleOs
