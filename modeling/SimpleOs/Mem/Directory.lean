import SimpleOs.Mem.Fork

/-!
# Page directories

A page directory is the contents of a page frame. The kernel reaches the entries of the directory in
use through its last entry, which points to the directory itself: `pde_ptr` and `pte_ptr` of
`kernel/memory.c` walk through that entry, and so does `create_page_dir` when it copies the kernel's
quarter into the directory of a new process. The page tables of the user's part are contents of
frames as well; those of the kernel's part are the ones `loader.s` makes, and all directories are to
share them.
-/

namespace SimpleOs

open Base

/-! ### Entries -/

/-- The present bit of an entry of a page directory or a page table. -/
def entryPresent (e : UInt32) : Bool := e.toNat % 2 == 1

/-- The address of the frame in an entry, which is the entry without its low twelve bits. -/
def entryFrame (e : UInt32) : Nat := e.toNat / pgSize * pgSize

/-- The entry for a frame, with `PG_US_U`, `PG_RW_W` and `PG_P_1`: 4, 2 and 1, all three clear in the
address of a frame. -/
def mkEntry (frame : Nat) : UInt32 := .ofNat (frame + 7)

/-- `PAGE_DIR_TABLE_POS`, the directory `loader.s` makes. -/
def bootDir : Nat := 0x100000

/-- Entry `i` of the kernel's quarter, as `loader.s` makes it. -/
def loaderEntry (i : Nat) : UInt32 := mkEntry (bootDir + 0x1000 + (i - 768) * pgSize)

/-- The number of pages the bits of `userprog_vaddr` take. -/
def vaddrBitmapPages : Nat := divRoundUp userBitmapLen pgSize

namespace Memory

variable (m : Memory)

/-- Entry `i` of the directory or the table in a frame. -/
def entry (frame i : Nat) : UInt32 := m.phys.u32 (frame + 4 * i)

/-- Write an entry. -/
def setEntry (frame i : Nat) (e : UInt32) : Memory :=
  { m with phys := m.phys.setU32 (frame + 4 * i) e }

/-- What the last entry of a directory points to, which the processor takes for the page table of
the addresses from `0xffc00000` on. -/
def selfTable (cr3 : Nat) : Nat := entryFrame (m.entry cr3 1023)

/-- The directory that is seen at `0xfffff000`. -/
def seenDir (cr3 : Nat) : Nat := entryFrame (m.entry (m.selfTable cr3) 1023)

/-- The page table that is seen at `0xffc00000 + i * 4096`. -/
def seenTable (cr3 i : Nat) : Nat := entryFrame (m.entry (m.selfTable cr3) i)

/-- The kernel's quarter of a directory: its entries are those of `loader.s`, and the last one points
to the directory itself. -/
def KernelHalf (dir : Nat) : Prop :=
  (∀ i < 1023, 768 ≤ i → m.entry dir i = loaderEntry i) ∧ m.entry dir 1023 = mkEntry dir

instance (m : Memory) (dir : Nat) : Decidable (m.KernelHalf dir) :=
  @instDecidableAnd _ _ (Nat.decidableBallLT 1023 fun i _ => 768 ≤ i → m.entry dir i = loaderEntry i)
    (instDecidableEqUInt32 _ _)

/-- `create_page_dir`. -/
def createPageDir (cr3 : Nat) : Option Nat × Memory :=
  match m.getKernelPages 1 with
  | (none, m) => (none, m)
  | (some pageDir, m) =>
    let m := m.store (pageDir + 0x300 * 4) (fun r => m.phys (m.seenDir cr3 + 0x300 * 4 + r)) 1024
    (some pageDir, m.setWord (pageDir + 1023 * 4) (m.addrV2p pageDir + 7))

/-- The inner loop of `release_prog_resource`: the frames in the first `n` entries of a page table. -/
def releaseEntries (m : Memory) (table : Nat) : (n : Nat) → Memory
  | 0 => m
  | n + 1 =>
    let m := releaseEntries m table n
    if entryPresent (m.entry table n) then m.pfree (entryFrame (m.entry table n)) else m

/-- The outer loop of `release_prog_resource`, over the first `n` entries of the directory. The
entries are read at the address of the directory, the tables through the directory in use. -/
def releaseTables (m : Memory) (cr3 pgdir : Nat) : (n : Nat) → Memory
  | 0 => m
  | n + 1 =>
    let m := releaseTables m cr3 pgdir n
    let pde := m.view.u32 (pgdir * pgSize + 4 * n)
    if entryPresent pde then (m.releaseEntries (m.seenTable cr3 n) 1024).pfree (entryFrame pde) else m

end Memory

namespace PageDir

/-! ### States -/

/-- A run of kernel pages that `malloc_page` has handed out. -/
structure Block where
  page : Nat
  cnt : Nat
deriving DecidableEq

/-- A process: the kernel pages of its PCB, of its page directory and of the bits of
`userprog_vaddr`, and whether it is `TASK_HANGING`. -/
structure UserTask where
  pcb : Nat
  pgdir : Nat
  bits : Nat
  hanging : Bool
deriving DecidableEq

/-- `copy_body_stack3` between two of its steps: the child, the page of `buf_page`, the bit of the
parent's bitmap it has come to, and whether the directory of the child is in use. -/
structure Forking where
  child : UserTask
  bufPage : Nat
  next : Nat
  inChild : Bool

/-- The memory; the page table entry of the kernel's first page, apart from the others; the
directory in use; the process that runs, or `none` for a kernel thread; the processes; the kernel
pages that are in the hands of callers of `malloc_page`; and the fork that is under way. -/
structure State where
  mem : Memory
  firstPte : Pte
  cr3 : Nat
  cur : Option UserTask
  procs : List UserTask
  held : List Block
  forking : Option Forking

namespace State

variable (s : State)

/-- The frame of the directory of a process. -/
def dir (t : UserTask) : Nat := (s.mem.pte t.pgdir).frame

/-- All page directories. -/
def directories : List Nat := bootDir :: s.procs.map s.dir

/-- The page table entry of a kernel page. -/
def kernelPte (page : Nat) : Pte :=
  if page = kernelPage then s.firstPte else s.mem.pte page

/-- The number of the directory entry whose table `loader.s` puts in a frame. -/
def kernelTable (frame : Nat) : Option Nat :=
  if 0x101000 ≤ frame ∧ frame < 0x200000 then some (768 + (frame - 0x101000) / pgSize) else none

/-- Entry `j` of the page table in a frame. -/
def pteAt (frame j : Nat) : Pte :=
  match kernelTable frame with
  | some i => s.kernelPte (1024 * i + j)
  | none => ⟨entryFrame (s.mem.entry frame j), entryPresent (s.mem.entry frame j)⟩

/-- Write an entry of a kernel page table. -/
def setKernelPte (page : Nat) (e : Pte) : State :=
  if page = kernelPage then { s with firstPte := e }
  else { s with mem := { s.mem with pte := Function.update s.mem.pte page e } }

/-- Let entry `j` of the page table in a frame point to a page frame. -/
def setPteAt (frame j pagePhyaddr : Nat) : State :=
  match kernelTable frame with
  | some i => s.setKernelPte (1024 * i + j) ⟨pagePhyaddr, true⟩
  | none => { s with mem := s.mem.setEntry frame j (mkEntry pagePhyaddr) }

/-- Clear the present bit of entry `j` of the page table in a frame. -/
def clearPteAt (frame j : Nat) : State :=
  match kernelTable frame with
  | some i => s.setKernelPte (1024 * i + j) ⟨(s.kernelPte (1024 * i + j)).frame, false⟩
  | none =>
    let e := s.mem.entry frame j
    { s with mem := s.mem.setEntry frame j (.ofNat (e.toNat - e.toNat % 2)) }

/-- The way of the processor from a virtual address to a physical one, through a directory. -/
def translate (dir vaddr : Nat) : Option Nat :=
  let pde := s.mem.entry dir (vaddr / 0x400000)
  if entryPresent pde then
    let pte := s.pteAt (entryFrame pde) (vaddr / pgSize % 1024)
    if pte.present then some (pte.frame + vaddr % pgSize) else none
  else none

/-! ### Pages of the user -/

/-- The new page table of `page_table_add`. When the kernel pool is empty `palloc` returns 0, and
the table is put there. -/
def addTable (pdeIdx : Nat) : State :=
  let got := (s.mem.palloc .kernel).getD (0, s.mem)
  let m := got.2.setEntry (s.mem.seenDir s.cr3) pdeIdx (mkEntry got.1)
  { s with mem := m.setFrame (m.seenTable s.cr3 pdeIdx) fun _ => 0 }

/-- `page_table_add`, in the directory in use. -/
def pageTableAdd (page frame : Nat) : State :=
  let s := if entryPresent (s.mem.entry (s.mem.seenDir s.cr3) (page / 1024)) then s
    else s.addTable (page / 1024)
  s.setPteAt (s.mem.seenTable s.cr3 (page / 1024)) (page % 1024) frame

/-- The loop of `malloc_page`. -/
def mapPages : (cnt : Nat) → State → (page : Nat) → Bool × State
  | 0, s, _ => (true, s)
  | cnt + 1, s, page =>
    match s.mem.palloc .user with
    | none => (false, s)
    | some (frame, m) => mapPages cnt ({ s with mem := m }.pageTableAdd page frame) (page + 1)

/-- `userprog_vaddr.vaddr_bitmap` of a process. -/
def vaddrBitmap (t : UserTask) : Bitmap :=
  ⟨userBitmapLen, fun k => s.mem.view (t.bits * pgSize + k)⟩

/-- `bitmap_set` on that bitmap. The byte is where the arithmetic puts it, in the bitmap or behind
it; a page that is not mapped faults. -/
def bitmapSet (s : State) (t : UserTask) (bitIdx : Nat) (v : Bool) : Option State :=
  let vaddr := t.bits * pgSize + bitIdx / 8
  if (s.mem.pte (vaddr / pgSize)).present then
    let byte := ((s.vaddrBitmap t).bitmapSet bitIdx v).bits (bitIdx / 8)
    some { s with mem := s.mem.store vaddr (fun _ => byte) 1 }
  else none

/-- `cnt` bits in a row, as `vaddr_get` and `vaddr_remove` set and clear them. -/
def setRun (s : State) (t : UserTask) (start : Nat) (v : Bool) : (cnt : Nat) → Option State
  | 0 => some s
  | cnt + 1 => (setRun s t start v cnt).bind fun s => s.bitmapSet t (start + cnt) v

/-- `malloc_page(PF_USER, pg_cnt)`. -/
def mallocUser (t : UserTask) (pgCnt : Nat) : Option (Option Nat × State) :=
  match (s.vaddrBitmap t).bitmapScan pgCnt with
  | none => some (none, s)
  | some start =>
    (s.setRun t start true pgCnt).map fun s =>
      match mapPages pgCnt s (firstUserPage + start) with
      | (true, s) => (some (firstUserPage + start), s)
      | (false, s) => (none, s)

/-- One round of the loop of `mfree_page`: `pfree` and `page_table_pte_remove`. Where there is no
page table its entries cannot be read. -/
def unmapPage (page : Nat) : Option State :=
  if entryPresent (s.mem.entry (s.mem.selfTable s.cr3) (page / 1024)) then
    let table := s.mem.seenTable s.cr3 (page / 1024)
    let frame := (s.pteAt table (page % 1024)).frame
    some ({ s with mem := s.mem.pfree frame }.clearPteAt table (page % 1024))
  else none

/-- The loop of `mfree_page`. -/
def unmapPages : (cnt : Nat) → State → (page : Nat) → Option State
  | 0, s, _ => some s
  | cnt + 1, s, page => (s.unmapPage page).bind fun s => unmapPages cnt s (page + 1)

/-- `mfree_page(PF_USER, vaddr, pg_cnt)`. -/
def mfreeUser (t : UserTask) (page pgCnt : Nat) : Option State :=
  (unmapPages pgCnt s page).bind fun s => s.setRun t (page - firstUserPage) false pgCnt

/-- `get_a_page(PF_USER, vaddr)`. The bit is computed with 32 bits. -/
def getAPage (t : UserTask) (vaddr : Nat) : Option State :=
  (s.bitmapSet t ((vaddr + 2 ^ 32 - userVaddrStart) % 2 ^ 32 / pgSize) true).map fun s =>
    match s.mem.palloc .user with
    | none => s
    | some (frame, m) => { s with mem := m }.pageTableAdd (vaddr / pgSize) frame

/-! ### Processes -/

/-- `process_execute`. Without pages for the PCB and the bitmap it writes to address 0; without a
directory the new task is one of the kernel's. -/
def processExecute : Option State :=
  match s.mem.getKernelPages 1 with
  | (none, _) => none
  | (some pcb, m) =>
  match m.getKernelPages vaddrBitmapPages with
  | (none, _) => none
  | (some bits, m) =>
  match (m.memset bits 0 userBitmapLen).createPageDir s.cr3 with
  | (none, m) => some { s with mem := m }
  | (some pgdir, m) =>
    some { s with
      mem := m
      procs := ⟨pcb / pgSize, pgdir / pgSize, bits / pgSize, false⟩ :: s.procs }

/-- `sys_fork` up to `copy_body_stack3`. Where it returns -1 the pages it has got stay taken. -/
def forkBegin (parent : UserTask) : State :=
  match s.mem.getKernelPages 1 with
  | (none, m) => { s with mem := m }
  | (some pcb, m) =>
  match m.getKernelPages 1 with
  | (none, m) => { s with mem := m }
  | (some bufPage, m) =>
  let m := m.store pcb (fun r => m.view (parent.pcb * pgSize + r)) pgSize
  match m.getKernelPages vaddrBitmapPages with
  | (none, m) => { s with mem := m }
  | (some bits, m) =>
  let m := m.store bits (fun r => m.view (parent.bits * pgSize + r)) (vaddrBitmapPages * pgSize)
  match m.createPageDir s.cr3 with
  | (none, m) => { s with mem := m }
  | (some pgdir, m) =>
    let child : UserTask := ⟨pcb / pgSize, pgdir / pgSize, bits / pgSize, false⟩
    { s with
      mem := m
      procs := child :: s.procs
      held := ⟨bufPage / pgSize, 1⟩ :: s.held
      forking := some ⟨child, bufPage / pgSize, 0, false⟩ }

/-- One bit of the parent's bitmap: steps a and b of `copy_body_stack3`, which bring the page to the
kernel and the directory of the child in use. -/
def forkRead (parent : UserTask) (f : Forking) : Option State :=
  if (s.vaddrBitmap parent).bitmapScanTest f.next then
    (s.translate s.cr3 ((firstUserPage + f.next) * pgSize)).map fun a =>
      { s with
        mem := s.mem.store (f.bufPage * pgSize) (fun r => s.mem.phys (a + r)) pgSize
        cr3 := s.dir f.child
        forking := some { f with inChild := true } }
  else some { s with forking := some { f with next := f.next + 1 } }

/-- Steps c to e: a page for the child, its bytes, and the directory of the parent again. A page that
could not be had faults. -/
def forkWrite (parent : UserTask) (f : Forking) : Option State :=
  (s.mem.palloc .user).bind fun (frame, m) =>
    let s := { s with mem := m }.pageTableAdd (firstUserPage + f.next) frame
    (s.translate s.cr3 ((firstUserPage + f.next) * pgSize)).map fun a =>
      { s with
        mem := s.mem.setFrame a fun r => s.mem.view (f.bufPage * pgSize + r)
        cr3 := s.dir parent
        forking := some { f with next := f.next + 1, inChild := false } }

/-- The end of `sys_fork`. -/
def forkEnd (f : Forking) : State :=
  { s with
    mem := s.mem.mfreePage (f.bufPage * pgSize) 1
    held := s.held.erase ⟨f.bufPage, 1⟩
    forking := none }

/-- `sys_exit` with `release_prog_resource`, which rounds the number of pages of the bitmap down. -/
def sysExit (t : UserTask) : State :=
  { s with
    mem := (s.mem.releaseTables s.cr3 t.pgdir 768).mfreePage (t.bits * pgSize) (userBitmapLen / pgSize)
    procs := { t with hanging := true } :: s.procs.erase t
    cur := some { t with hanging := true } }

/-- `thread_exit` of a process that has exited, called by `sys_wait`. -/
def threadExit (t : UserTask) : State :=
  { s with
    mem := (s.mem.mfreePage (t.pgdir * pgSize) 1).mfreePage (t.pcb * pgSize) 1
    procs := s.procs.erase t }

/-- `schedule`, with `page_dir_activate`. -/
def schedule (next : Option UserTask) : State :=
  { s with
    cur := next
    cr3 := match next with
      | none => bootDir
      | some t => s.dir t }

end State

/-! ### The system -/

/-- What can happen next. -/
inductive Act where
  | mallocKernel (pgCnt : Nat)
  | mfreeKernel (b : Block)
  | processExecute
  | mallocUser (pgCnt : Nat)
  | mfreeUser (page pgCnt : Nat)
  | getAPage (vaddr : Nat)
  | forkBegin
  | forkRead
  | forkWrite
  | forkEnd
  | sysExit
  | threadExit (t : UserTask)
  | schedule (next : Option UserTask)

namespace State

variable (s : State)

/-- The process that runs and has not exited. -/
def running : Option UserTask := s.cur.filter fun t => !t.hanging

/-- The calls between which the tasks can be switched. -/
def call : Act → Option State
  | .mallocKernel pgCnt =>
    match s.mem.mallocPage pgCnt with
    | (none, m) => some { s with mem := m }
    | (some vaddr, m) => some { s with mem := m, held := ⟨vaddr / pgSize, pgCnt⟩ :: s.held }
  | .mfreeKernel b =>
    if b ∈ s.held then
      some { s with mem := s.mem.mfreePage (b.page * pgSize) b.cnt, held := s.held.erase b }
    else none
  | .processExecute => s.processExecute
  | .mallocUser pgCnt => s.running.bind fun t => (s.mallocUser t pgCnt).map Prod.snd
  | .mfreeUser page pgCnt =>
    if firstUserPage ≤ page ∧ page + pgCnt ≤ kernelPage + 1 then
      s.running.bind fun t => s.mfreeUser t page pgCnt
    else none
  | .getAPage vaddr =>
    if vaddr < 0xc0000000 then s.running.bind fun t => s.getAPage t vaddr else none
  | .forkBegin => s.running.map s.forkBegin
  | .sysExit => s.running.map s.sysExit
  | .threadExit t => if t ∈ s.procs ∧ t.hanging ∧ s.cur ≠ some t then some (s.threadExit t) else none
  | .schedule none => some (s.schedule none)
  | .schedule (some t) => if t ∈ s.procs ∧ !t.hanging then some (s.schedule (some t)) else none
  | _ => none

/-- The steps of a fork that is under way; the interrupts are off. -/
def forkStep (parent : UserTask) (f : Forking) : Act → Option State
  | .forkRead => if f.next < 8 * userBitmapLen ∧ !f.inChild then s.forkRead parent f else none
  | .forkWrite => if f.inChild then s.forkWrite parent f else none
  | .forkEnd => if f.next = 8 * userBitmapLen ∧ !f.inChild then some (s.forkEnd f) else none
  | _ => none

/-- One step. The kernel's own memory is where the page tables of `loader.s` say as long as the
directory in use has its kernel's quarter; nothing is said about a machine where it has not. -/
def exec (a : Act) : Option State :=
  if s.mem.KernelHalf s.cr3 then
    match s.forking with
    | none => s.call a
    | some f => s.running.bind fun parent => s.forkStep parent f a
  else none

end State

/-- The state after `mem_init`: the boot directory and the page tables are as `loader.s` leaves them,
and there is no process. -/
def Booted (s : State) : Prop :=
  ∃ allMem pte phys vaddrBits, LoaderPages pte ∧
    s = ⟨memPoolInit allMem pte phys vaddrBits, ⟨0, true⟩, bootDir, none, [], [], none⟩ ∧
    s.mem.KernelHalf bootDir

/-- The memory, all processes and all calls. -/
def system : System State Act where
  init := Booted
  step s a s' := s.exec a = some s'

end PageDir

end SimpleOs
