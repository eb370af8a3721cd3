import Mathlib
import SimpleOs.Base.Transition
import SimpleOs.Fs.File.Basic
import SimpleOs.Fs.InodeCache

/-!
# File descriptors

The table of open files `file_table`, which all processes share, the `fd_table` of each process, and
the system calls that change them: `sys_open`, `sys_close`, `sys_lseek`, `sys_read` and `sys_write` of
`fs/fs.c`, `file_create`, `file_open` and `file_close` of `fs/file.c`, `sys_pipe` of `shell/pipe.c`,
and what `sys_fork` and `sys_exit` do with descriptors.

A fork shares the slots of `file_table`. How often a regular file is open is counted in its inode, how
often a pipe is open in the `fd_pos` of its slot.
-/

namespace SimpleOs

open Base Function

def maxFileOpen : Nat := 32

def maxFilesOpenPerProc : Nat := 8

def oWronly : UInt32 := 1

def oRdwr : UInt32 := 2

def oCreat : UInt8 := 4

def pipeFlag : UInt32 := 0xFFFF

/-- The pids `allocate_pid` can give. -/
@[irreducible] def pids : Finset Nat := Finset.Icc 1 1024

/-- The memory of the kernel, which all tasks have in common, or the heap of the process that looks. -/
inductive InodePtr where
  | kernel (a : Nat)
  | user (a : Nat)
deriving DecidableEq

/-- What `fd_inode` points to: an inode, or the page of a pipe. -/
inductive FdPtr where
  | inode (a : InodePtr)
  | page (a : Nat)
deriving DecidableEq

/-- `struct file`. -/
structure File where
  fdPos : UInt32
  fdFlag : UInt32
  fdInode : Option FdPtr

/-- What `search_file` makes of a path: a regular file; nothing, in a directory that exists; or one of
the cases in which `sys_open` gives up. -/
inductive Lookup where
  | file (inodeNo : Nat)
  | absent
  | refused
deriving DecidableEq

/-- What is open: the inode with some number, or a pipe. -/
inductive Target where
  | inode (iNo : UInt32)
  | pipe (page : Nat)
deriving DecidableEq

/-- One opening of a file or of a pipe. -/
structure Opening where
  serial : Nat
  target : Target

/-- The state of the descriptors. `pipe` are the pages that are the buffers of pipes, each with the
word that stands in it where an inode has `i_size`. `slotOpening` and `opened` record which opening a
slot holds and which one a descriptor was made for or inherited. -/
structure FdState where
  fileTable : Nat → File
  fdTable : Nat → Nat → Option Nat
  procs : Finset Nat
  pgdir : Nat → Bool
  kernelInode : Nat → Option Inode
  userInode : Nat → Nat → Option Inode
  openInodes : List InodePtr
  pipe : Nat → Option UInt32
  names : List UInt8 → Lookup
  inodeBitmap : Bitmap
  disk : Nat → Inode
  slotOpening : Nat → Opening
  opened : Nat → Nat → Opening
  serial : Nat

namespace FdState

/-! ### Tables -/

variable (s : FdState)

def setSlot (g : Nat) (file : File) : FdState :=
  { s with fileTable := update s.fileTable g file }

def setFd (p fd : Nat) (g : Option Nat) : FdState :=
  { s with fdTable := update s.fdTable p (update (s.fdTable p) fd g) }

/-- The inodes as the process `p` sees them. -/
def cache (p : Nat) : InodeCache InodePtr where
  inode
    | .kernel a => s.kernelInode a
    | .user a => s.userInode p a
  openInodes := s.openInodes

/-- The process `p` has changed inodes. -/
def withCache (p : Nat) (c : InodeCache InodePtr) : FdState :=
  { s with
    kernelInode := fun a => c.inode (.kernel a)
    userInode := update s.userInode p fun a => c.inode (.user a)
    openInodes := c.openInodes }

/-- `get_free_slot_in_global`. -/
def getFreeSlotInGlobal : Option Nat :=
  (List.range' 3 (maxFileOpen - 3)).find? fun g => (s.fileTable g).fdInode = none

/-- The first entry of the process's own table that is not in use. -/
def freeFd (p : Nat) : Option Nat :=
  (List.range' 3 (maxFilesOpenPerProc - 3)).find? fun fd => s.fdTable p fd = none

/-- `pcb_fd_install`. -/
def pcbFdInstall (p g : Nat) : Option Nat × FdState :=
  match s.freeFd p with
  | none => (none, s)
  | some fd =>
    (some fd, { s.setFd p fd (some g) with
      opened := update s.opened p (update (s.opened p) fd (s.slotOpening g)) })

/-- `fd_local2global`. The entries 0, 1 and 2 keep the values `init_thread` gives them. It fails where
the code reads outside of `fd_table` or takes `-1` for an index. -/
def fdLocal2global (p : Nat) (fd : Int) : Option Nat :=
  if fd < 0 then none
  else if fd < 3 then some fd.toNat
  else if fd.toNat < maxFilesOpenPerProc then s.fdTable p fd.toNat
  else none

/-- `is_pipe`, on the slot of a descriptor. -/
def isPipe (g : Nat) : Bool := (s.fileTable g).fdFlag = pipeFlag

/-- A file or pipe has just been put into the slot. -/
def record (g : Nat) (target : Target) : FdState :=
  { s with
    slotOpening := update s.slotOpening g ⟨s.serial, target⟩
    serial := s.serial + 1 }

/-- `inode_sync`, which finds the place on disk from the low eight bits of the number. -/
def inodeSync (i : Inode) : FdState :=
  { s with disk := update s.disk (i.iNo.toNat % 256) i.pureInode }

/-! ### `sys_open` -/

/-- `flag & O_WRONLY || flag & O_RDWR`. -/
def wantsWrite (flag : UInt32) : Bool := flag &&& oWronly ≠ 0 || flag &&& oRdwr ≠ 0

/-- `file_open`, with the memory for an inode that is not open yet. A file that is open for writing
already is refused, but the slot stays in use. -/
def fileOpen (p inodeNo : Nat) (flag : UInt8) (new : Nat) :
    Option (Option Nat × FdState) :=
  match s.getFreeSlotInGlobal with
  | none => some (none, s)
  | some g =>
    ((s.cache p).inodeOpen (UInt32.ofNat inodeNo) (.kernel new) (s.disk inodeNo)).bind
      fun (a, c) => (c.inode a).bind fun i =>
        let s := ((s.withCache p c).setSlot g ⟨0, flag.toUInt32, some (.inode a)⟩).record g (.inode i.iNo)
        if wantsWrite flag.toUInt32 then
          if i.writeDeny then some (none, s)
          else some ((s.withCache p (c.set a (some { i with writeDeny := true }))).pcbFdInstall p g)
        else some (s.pcbFdInstall p g)

/-- Where `file_create` fails, if it does: no memory for the buffer, no memory for the inode, or no
room in the directory. -/
inductive CreateFate where
  | noBuffer
  | noInode
  | noEntry
  | done
deriving DecidableEq

/-- The memory that `sys_malloc` takes for the inode of a new file is the calling process's own. -/
def newPtr (p new : Nat) : InodePtr := if s.pgdir p then .user new else .kernel new

/-- `file_create`. -/
def fileCreate (p : Nat) (path : List UInt8) (flag : UInt8) (fate : CreateFate)
    (new : Nat) : Option (Option Nat × FdState) :=
  if fate = .noBuffer then some (none, s)
  else
    match s.inodeBitmap.bitmapScan 1 with
    | none => some (none, s)
    | some inodeNo =>
      let bitmap := s.inodeBitmap.bitmapSet inodeNo true
      let rollback := { s with inodeBitmap := bitmap.bitmapSet inodeNo false }
      if fate = .noInode then some (none, rollback)
      else
        match s.getFreeSlotInGlobal with
        | none => some (none, rollback)
        | some g =>
          if fate = .noEntry then some (none, rollback.setSlot g ⟨0, 0, none⟩)
          else if (s.cache p).inode (s.newPtr p new) = none then
            let c := (s.cache p).set (s.newPtr p new)
              (some { Inode.inodeInit (UInt32.ofNat inodeNo) with iOpenCnts := 1 })
            let s := { s with
              inodeBitmap := bitmap
              names := update s.names path (.file inodeNo) }.inodeSync
              (Inode.inodeInit (UInt32.ofNat inodeNo))
            let s := s.withCache p { c with openInodes := s.newPtr p new :: s.openInodes }
            let s := s.setSlot g ⟨0, flag.toUInt32, some (.inode (s.newPtr p new))⟩
            some ((s.record g (.inode (UInt32.ofNat inodeNo))).pcbFdInstall p g)
          else none

/-- `sys_open`. -/
def sysOpen (p : Nat) (path : List UInt8) (flags : UInt8) (fate : CreateFate)
    (new : Nat) : Option (Option Nat × FdState) :=
  match s.names path with
  | .refused => some (none, s)
  | .absent => if flags &&& oCreat = 0 then some (none, s) else s.fileCreate p path flags fate new
  | .file inodeNo => if flags &&& oCreat = 0 then s.fileOpen p inodeNo flags new else some (none, s)

/-! ### `sys_close`, `sys_fork` and `sys_exit` -/

/-- One descriptor less for a pipe. The last one frees its page. -/
def dropPipe (g : Nat) : Option FdState :=
  let file := s.fileTable g
  if file.fdPos - 1 = 0 then
    match file.fdInode with
    | some (.page a) =>
      some { s.setSlot g { file with fdPos := 0, fdInode := none } with
        pipe := update s.pipe a none }
    | _ => none
  else some (s.setSlot g { file with fdPos := file.fdPos - 1 })

/-- `file_close`. -/
def fileClose (p g : Nat) : Option FdState :=
  match (s.fileTable g).fdInode with
  | some (.inode a) =>
    ((s.cache p).inode a).bind fun i =>
      (((s.cache p).set a (some { i with writeDeny := false })).inodeClose a).map fun c =>
        (s.withCache p c).setSlot g { s.fileTable g with fdInode := none }
  | _ => none

/-- `sys_close`. -/
def sysClose (p : Nat) (fd : Int) : Option (Option Nat × FdState) :=
  if 2 < fd then
    (s.fdLocal2global p fd).bind fun g =>
      (if s.isPipe g then s.dropPipe g else s.fileClose p g).map fun s =>
        (some 0, s.setFd p fd.toNat none)
  else some (none, s)

/-- A round of `update_inode_open_cnts`, for the parent `p`. -/
def shareFd (p fd : Nat) : Option FdState :=
  match s.fdTable p fd with
  | none => some s
  | some g =>
    if s.isPipe g then some (s.setSlot g { s.fileTable g with fdPos := (s.fileTable g).fdPos + 1 })
    else
      match (s.fileTable g).fdInode with
      | some (.inode a) =>
        ((s.cache p).inode a).map fun i =>
          s.withCache p ((s.cache p).set a (some { i with iOpenCnts := i.iOpenCnts + 1 }))
      | _ => none

/-- The rounds of `update_inode_open_cnts` from `fd` on. -/
def shareFds (s : FdState) (p : Nat) : (n fd : Nat) → Option FdState
  | 0, _ => some s
  | n + 1, fd => (s.shareFd p fd).bind fun s => s.shareFds p n (fd + 1)

/-- The child gets a copy of the parent's memory and of its table. -/
def copyProcess (p child : Nat) : FdState :=
  { s with
    fdTable := update s.fdTable child (s.fdTable p)
    opened := update s.opened child (s.opened p)
    userInode := update s.userInode child (s.userInode p)
    pgdir := update s.pgdir child true }

/-- `sys_fork` of process `p`, when there is memory for the child and a pid. -/
def sysFork (p child : Nat) : Option FdState :=
  ((s.copyProcess p child).shareFds p 5 3).map fun s => { s with procs := insert child s.procs }

/-- A round of the loop over the descriptors in `release_prog_resource`. For a pipe it does what
`sys_close` does, but leaves the entry of the table. -/
def releaseFd (p fd : Nat) : Option FdState :=
  match s.fdTable p fd with
  | none => some s
  | some g => if s.isPipe g then s.dropPipe g else (s.sysClose p fd).map Prod.snd

/-- The rounds from `fd` on. -/
def releaseFds (s : FdState) (p : Nat) : (n fd : Nat) → Option FdState
  | 0, _ => some s
  | n + 1, fd => (s.releaseFd p fd).bind fun s => s.releaseFds p n (fd + 1)

/-- `sys_exit`. -/
def sysExit (p : Nat) : Option FdState :=
  (s.releaseFds p 5 3).map fun s => { s with procs := s.procs.erase p }

/-! ### `sys_pipe`, `sys_lseek`, `sys_read` and `sys_write` -/

/-- `sys_pipe`, with the page that `get_kernel_pages` gives. It fails when there is no free slot, where
the code goes on with the index `-1`. `ioqueue_init` leaves the value 1 of the lock's semaphore where
an inode has `i_size`. -/
def sysPipe (p page : Nat) : Option (Option Nat × Option Nat × FdState) :=
  match s.getFreeSlotInGlobal with
  | none => none
  | some g =>
    if s.pipe page = none then
      let s := { s.setSlot g ⟨2, pipeFlag, some (.page page)⟩ with
        pipe := update s.pipe page (some 1) }.record g (.pipe page)
      let first := s.pcbFdInstall p g
      let second := first.2.pcbFdInstall p g
      some (first.1, second.1, second.2)
    else none

/-- The word `i_size` behind a pointer. -/
def sizeWord (p : Nat) : FdPtr → Option UInt32
  | .inode a => ((s.cache p).inode a).map (·.iSize)
  | .page a => s.pipe a

/-- `sys_lseek`. -/
def sysLseek (p : Nat) (fd offset : Int) (whence : Whence) :
    Option (Option UInt32 × FdState) :=
  if fd < 0 then some (none, s)
  else
    (s.fdLocal2global p fd).bind fun g =>
      (s.fileTable g).fdInode.bind fun a => (s.sizeWord p a).map fun size =>
        let fileSize := int32 size.toNat
        let newPos := match whence with
          | .seekSet => offset
          | .seekCur => int32 (int32 (s.fileTable g).fdPos.toNat + offset)
          | .seekEnd => int32 (fileSize + offset)
        if newPos < 0 ∨ newPos > fileSize - 1 then (none, s)
        else (some (UInt32.ofNat newPos.toNat),
          s.setSlot g { s.fileTable g with fdPos := UInt32.ofNat newPos.toNat })

/-- The value of the semaphore in the page of a pipe, after tasks have waited in it. -/
def setPipe (g : Nat) (locked : Bool) : Option FdState :=
  match (s.fileTable g).fdInode with
  | some (.page a) => some { s with pipe := update s.pipe a (some (if locked then 0 else 1)) }
  | _ => none

/-- `sys_read` on a descriptor of a file or pipe, as far as it changes the tables: `file_read` moves
the position, `pipe_read` may leave the lock of the pipe taken. -/
def sysRead (p : Nat) (fd : Int) (pos : UInt32) (locked : Bool) : Option FdState :=
  if fd < 3 then some s
  else
    (s.fdLocal2global p fd).bind fun g =>
      if s.isPipe g then s.setPipe g locked
      else
        match (s.fileTable g).fdInode with
        | some (.inode a) =>
          ((s.cache p).inode a).map fun _ => s.setSlot g { s.fileTable g with fdPos := pos }
        | _ => none

/-- `sys_write` likewise; `file_write` also makes the file longer, in memory and on disk. -/
def sysWrite (p : Nat) (fd : Int) (pos size : UInt32) (locked : Bool) :
    Option FdState :=
  if fd < 3 then some s
  else
    (s.fdLocal2global p fd).bind fun g =>
      if s.isPipe g then s.setPipe g locked
      else if wantsWrite (s.fileTable g).fdFlag then
        match (s.fileTable g).fdInode with
        | some (.inode a) =>
          ((s.cache p).inode a).map fun i =>
            ((s.withCache p ((s.cache p).set a (some { i with iSize := size }))).inodeSync
              { i with iSize := size }).setSlot g { s.fileTable g with fdPos := pos }
        | _ => none
      else some s

end FdState

/-! ### The transition system -/

/-- The system calls on descriptors, by the process that makes them. -/
inductive FdAct where
  | sysOpen (p : Nat) (path : List UInt8) (flags : UInt8) (fate : FdState.CreateFate) (new : Nat)
  | sysClose (p : Nat) (fd : Int)
  | sysFork (p child : Nat)
  | sysExit (p : Nat)
  | sysPipe (p page : Nat)
  | sysLseek (p : Nat) (fd offset : Int) (whence : Whence)
  | sysRead (p : Nat) (fd : Int) (pos : UInt32) (locked : Bool)
  | sysWrite (p : Nat) (fd : Int) (pos size : UInt32) (locked : Bool)

namespace FdAct

/-- The process that makes the call. -/
def caller : FdAct → Nat
  | sysOpen p .. | sysClose p _ | sysFork p _ | sysExit p | sysPipe p _ | sysLseek p .. | sysRead p ..
  | sysWrite p .. => p

/-- The caller is alive. Only user processes fork and exit; a child has a pid of its own. -/
def Enabled (s : FdState) (a : FdAct) : Prop :=
  a.caller ∈ s.procs ∧
    match a with
    | sysFork p child => s.pgdir p = true ∧ child ∉ s.procs ∧ child ∈ pids
    | sysExit p => s.pgdir p = true
    | _ => True

/-- What a call does. -/
def exec (s : FdState) : FdAct → Option FdState
  | sysOpen p path flags fate new => (s.sysOpen p path flags fate new).map Prod.snd
  | sysClose p fd => (s.sysClose p fd).map Prod.snd
  | sysFork p child => s.sysFork p child
  | sysExit p => s.sysExit p
  | sysPipe p page => (s.sysPipe p page).map fun r => r.2.2
  | sysLseek p fd offset whence => (s.sysLseek p fd offset whence).map Prod.snd
  | sysRead p fd pos locked => s.sysRead p fd pos locked
  | sysWrite p fd pos size locked => s.sysWrite p fd pos size locked

end FdAct

/-- Processes and kernel threads from the time when the file system has been mounted and nothing is
open. The number of every file is taken in the bitmap. -/
def fdSystem : System FdState FdAct where
  init s := (∀ g, (s.fileTable g).fdInode = none) ∧ (∀ p, ∀ fd ∈ Finset.Ico 3 8, s.fdTable p fd = none) ∧
    s.procs ⊆ pids ∧ (∀ a, s.kernelInode a = none) ∧ (∀ p a, s.userInode p a = none) ∧
    s.openInodes = [] ∧ (∀ a, s.pipe a = none) ∧
    s.inodeBitmap.btmpBytesLen = 512 ∧
    ∀ path n, s.names path = .file n → n < 4096 ∧ s.inodeBitmap.bitmapScanTest n = true
  step s a s' := a.Enabled s ∧ a.exec s = some s'

/-! ### Scripts -/

instance (s : FdState) (a : FdAct) : Decidable (a.Enabled s) := by
  unfold FdAct.Enabled
  cases a <;> infer_instance

/-- The init process, a partition with one file `/f`, and nothing open. -/
def FdState.mounted : FdState where
  fileTable := fun _ => ⟨0, 0, none⟩
  fdTable := fun _ _ => none
  procs := {1}
  pgdir := fun _ => true
  kernelInode := fun _ => none
  userInode := fun _ _ => none
  openInodes := []
  pipe := fun _ => none
  names := fun path => if path = [47, 102] then .file 1 else .absent
  inodeBitmap := ⟨512, fun k => if k = 0 then 3 else 0⟩
  disk := fun n => Inode.inodeInit (UInt32.ofNat n)
  slotOpening := fun _ => ⟨0, .pipe 0⟩
  opened := fun _ _ => ⟨0, .pipe 0⟩
  serial := 0

/-- Follow a script of system calls from there. -/
def FdState.play (test : FdState → FdAct → Bool) (script : List FdAct) : Option FdState :=
  System.follow (fun s a => if a.Enabled s then a.exec s else none) test .mounted script

lemma init_mounted : fdSystem.init FdState.mounted := by
  refine ⟨fun _ => rfl, fun _ _ _ => rfl, ?_, fun _ => rfl, fun _ _ => rfl, rfl, fun _ => rfl, rfl, ?_⟩
  · simp [FdState.mounted, pids]
  · intro path n hn
    simp only [FdState.mounted] at hn
    split_ifs at hn
    obtain rfl := Lookup.file.inj hn
    exact ⟨by decide, by decide +kernel⟩

lemma reachable_of_fdPlay {ok : FdState → FdAct → Prop} (htest : ∀ s a, test s a = true → ok s a)
    (h : FdState.play test script = some s) : fdSystem.Reachable ok s := by
  refine (System.Reachable.init init_mounted).follow (fun s a s' hs => ?_) htest h
  obtain ⟨henabled, hexec⟩ := Option.ite_none_right_eq_some.mp hs
  exact ⟨henabled, hexec⟩

end SimpleOs
