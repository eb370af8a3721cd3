import SimpleOs.Thread.SchedReachable

/-!
# Processes: fork, exit and wait

`sys_fork` of `userprog/fork.c`, `sys_exit` and `sys_wait` of `userprog/wait_exit.c`, over the
kernel of the scheduler. System calls run with interrupts off, so a call is interrupted only where
it gives the processor away: `sys_exit` can sleep while it releases the resources of the process,
between the adoption of the children and the wake-up of the parent, and a round of the loop of
`sys_wait` ends in sleep. A history says which process is which: processes are numbered in the
order they are made, pids and PCB addresses being used again.
-/

namespace SimpleOs

open Base Function

/-! ### The system calls -/

/-- What one round of `sys_wait` comes to: the value it returns and what it stores in `*status`,
`-1`, or sleep. -/
inductive WaitRound where
  | returned (pid : Int) (status : Int32)
  | failed
  | asleep
  deriving DecidableEq

namespace Kernel

variable (k : Kernel)

/-- `pid2thread`. -/
def pid2thread (pid : Int) : Option Nat :=
  k.threadAllList.find? fun t => (k.task t).pid = pid

/-- `list_traversal` with `find_child`. -/
def findChild (ppid : Int) : Option Nat :=
  k.threadAllList.find? fun t => (k.task t).parentPid = ppid

/-- `list_traversal` with `find_hanging_child`. -/
def findHangingChild (ppid : Int) : Option Nat :=
  k.threadAllList.find? fun t => (k.task t).parentPid = ppid ∧ k.status t = .hanging

/-- `list_traversal` with `init_adopt_a_child`. -/
def initAdopt (pid : Int) : Kernel :=
  { k with task := fun t =>
      if t ∈ k.threadAllList ∧ (k.task t).parentPid = pid then { k.task t with parentPid := 1 }
      else k.task t }

/-- A successful `sys_fork` with the child's PCB at `t`. -/
def fork (t : Nat) : Option Kernel := do
  let (pid, k) ← k.allocatePid
  k.sysFork t pid

/-- A `sys_fork` that runs out of memory after it has taken a pid, which it does not give back. -/
def forkFail : Option Kernel := k.allocatePid.map Prod.snd

/-- `sys_exit` up to the release of the resources. A task without a parent panics. -/
def exitBegin (status : Int32) : Option Kernel :=
  let k := k.setTask k.cur fun p => { p with exitStatus := status.toInt8 }
  if (k.task k.cur).parentPid = -1 then none else some (k.initAdopt (k.task k.cur).pid)

/-- A parent that waits for a child is woken. -/
def wakeParent (parent : Nat) : Option Kernel :=
  if k.status parent = .waiting then k.threadUnblock parent else some k

/-- `sys_exit` from the release of the resources on; `pid2thread` must not return null. -/
def exitEnd : Option Kernel := do
  let parent ← k.pid2thread (k.task k.cur).parentPid
  let k ← k.wakeParent parent
  k.threadBlock .hanging

/-- `sys_wait`: one round of its loop. -/
def waitRound : Option (WaitRound × Kernel) :=
  match k.findHangingChild (k.task k.cur).pid with
  | some child => (k.threadExit child false).map fun k' =>
      (.returned (k.task child).pid (k.task child).exitStatus.toInt32, k')
  | none =>
    match k.findChild (k.task k.cur).pid with
    | none => some (.failed, k)
    | some _ => (k.threadBlock .waiting).map fun k' => (.asleep, k')

end Kernel

/-! ### Processes and their history -/

/-- A `sys_wait` that returned a child, by the numbers of the two processes. -/
structure WaitCall where
  child : Nat
  caller : Nat
  pid : Int
  status : Int32

/-- What has happened so far. `serial` numbers the processes: `serial t` is the one whose PCB is
at `t`. `parent` is the process a process belongs to: the one that forked it, or init (number 0)
once that one has exited. `exitArg` are the arguments of `sys_exit`, and `calls` the children that
`sys_wait` has returned. -/
structure History where
  serial : Nat → Nat
  next : Nat
  parent : Nat → Option Nat
  exitArg : Nat → Option Int32
  calls : List WaitCall

/-- The kernel, the processes that are inside `sys_exit`, and the history. -/
structure ProcState where
  kernel : Kernel
  exiting : Nat → Bool
  history : History

namespace ProcState

variable (s : ProcState)

/-- The number of the process that is running. -/
def curSerial : Nat := s.history.serial s.kernel.cur

/-- The running process has forked a child. -/
def recordFork (t : Nat) (k : Kernel) : ProcState where
  kernel := k
  exiting := update s.exiting t false
  history := { s.history with
    serial := update s.history.serial t s.history.next
    next := s.history.next + 1
    parent := update s.history.parent s.history.next (some s.curSerial) }

/-- The running process has entered `sys_exit`: its children belong to init now. -/
def recordExit (status : Int32) (k : Kernel) : ProcState where
  kernel := k
  exiting := update s.exiting s.kernel.cur true
  history := { s.history with
    parent := fun n => if s.history.parent n = some s.curSerial then some 0 else s.history.parent n
    exitArg := update s.history.exitArg s.curSerial (some status) }

/-- The running process has come to the end of a round of `sys_wait`. -/
def recordWait (r : WaitRound) (k : Kernel) : ProcState :=
  match r, s.kernel.findHangingChild (s.kernel.task s.kernel.cur).pid with
  | .returned pid status, some child =>
    { s with kernel := k, history := { s.history with
        calls := ⟨s.history.serial child, s.curSerial, pid, status⟩ :: s.history.calls } }
  | _, _ => { s with kernel := k }

end ProcState

/-! ### The transition system -/

/-- The sections of the system calls, and what else the scheduler does meanwhile. -/
inductive ProcAct where
  | sched (a : SchedAct)
  | fork (t : Nat)
  | forkFail
  | exitBegin (status : Int32)
  | exitEnd
  | wait (r : WaitRound)

/-- The scheduling that is not part of `sys_fork`, `sys_exit` or `sys_wait`: interrupts, sleeping
on semaphores and io queues, the idle thread, and the end of the main thread. -/
def SchedAct.Plain (k : Kernel) : SchedAct → Prop
  | .timer => True
  | .block stat => k.cur = k.idleThread ∧ stat = .blocked
  | .unblockParent _ => False
  | .yield => True
  | .semaDown _ => k.cur ≠ k.idleThread
  | .semaUp _ => True
  | .ioqWait _ => k.cur ≠ k.idleThread
  | .wakeup c => k.waiter c ≠ none
  | .fork _ _ => False
  | .exit t needSchedule => needSchedule = true ∧ t = k.cur ∧ t ≠ k.idleThread ∧
      (k.task t).userProg = false

instance (k : Kernel) (a : SchedAct) : Decidable (a.Plain k) := by
  cases a <;> unfold SchedAct.Plain <;> infer_instance

namespace ProcAct

/-- A user process that is not inside `sys_exit` is running. -/
def InUser (s : ProcState) : Prop :=
  (s.kernel.task s.kernel.cur).userProg = true ∧ s.exiting s.kernel.cur = false

instance (s : ProcState) : Decidable (InUser s) := by unfold InUser; infer_instance

/-- What a section does, where it can be entered. -/
def exec (s : ProcState) : ProcAct → Option ProcState
  | sched a =>
    if a.Plain s.kernel then (a.exec s.kernel).map fun k => { s with kernel := k } else none
  | fork t =>
    if InUser s ∧ t ∉ s.kernel.threadAllList then (s.kernel.fork t).map (s.recordFork t) else none
  | forkFail =>
    if InUser s then s.kernel.forkFail.map fun k => { s with kernel := k } else none
  | exitBegin status =>
    if InUser s then (s.kernel.exitBegin status).map (s.recordExit status) else none
  | exitEnd =>
    if s.exiting s.kernel.cur then s.kernel.exitEnd.map fun k => { s with kernel := k } else none
  | wait r =>
    if InUser s then s.kernel.waitRound.bind fun (r', k) =>
      if r' = r then some (s.recordWait r k) else none
    else none

end ProcAct

/-- The history at the end of `thread_init`. -/
def History.start (init main : Nat) : History where
  serial t := if t = init then 0 else if t = main then 1 else 2
  next := 3
  parent _ := none
  exitArg _ := none
  calls := []

/-- The processes from the end of `thread_init` on. -/
def procSystem : System ProcState ProcAct where
  init s := ∃ init main idle value, init ≠ main ∧ init ≠ idle ∧ main ≠ idle ∧
    Kernel.threadInit init main idle value = some s.kernel ∧
    s.exiting = (fun _ => false) ∧ s.history = .start init main
  step s a s' := a.exec s = some s'

end SimpleOs
