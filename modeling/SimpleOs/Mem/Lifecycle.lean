import SimpleOs.Mem.Paging
import SimpleOs.Thread.Sched

/-!
# The pages of a process

What `sys_fork` takes, and what the child's `sys_exit` and the parent's `sys_wait` give back: the
functions of `fork.c`, `process.c`, `wait_exit.c` and `thread.c`, as far as they take or return
page frames, kernel addresses and pids. What is copied into the pages is left out. The address
bitmap of a process takes 23 pages, and 22 of them are given back.
-/

namespace SimpleOs

open Base Function Option Memory

/-- `USER_VADDR_START`. -/
def userVaddrStart : Nat := 0x8048000

/-- `USER_STACK3_VADDR`. -/
def userStack3Vaddr : Nat := 0xc0000000 - 0x1000

/-- The length of the address bitmap that `create_user_vaddr_bitmap` makes. -/
def userBitmapLen : Nat := (0xc0000000 - userVaddrStart) / pgSize / 8

/-- The user's part of a page directory: the page table of each of its entries, and the frame each
page is mapped to, by page number. -/
structure AddrSpace where
  pde : Nat → Option Nat
  pte : Nat → Option Nat

/-- The addresses of a user process in `struct task_struct`: of its PCB, its page directory and
its address bitmap; with what the page directory and the bitmap hold. -/
structure UserProg where
  pcb : Nat
  pgdir : Nat
  bits : Nat
  pid : Int
  vaddrBitmap : Bitmap
  space : AddrSpace
  -- the length is set by create_user_vaddr_bitmap and copied by fork
  len_eq : vaddrBitmap.btmpBytesLen = userBitmapLen

/-- The memory and the tasks, of which the pids matter here. -/
structure Machine where
  mem : Memory
  tasks : Kernel

/-! ### Taking pages -/

/-- `page_table_add` of a user's page. A page table that no frame is left for would be put in
frame 0, over the interrupt vectors of the BIOS. -/
def AddrSpace.pageTableAdd (sp : AddrSpace) (m : Memory) (page frame : Nat) :
    Option (AddrSpace × Memory) :=
  match sp.pde (page / 1024) with
  | some _ => some ({ sp with pte := update sp.pte page (some frame) }, m)
  | none =>
    m.kernelPool.palloc.map fun (table, pool) =>
      ({ pde := update sp.pde (page / 1024) (some table)
         -- the new table is cleared
         pte := fun p =>
           if p = page then some frame else if p / 1024 = page / 1024 then none else sp.pte p },
       { m with kernelPool := pool })

/-- `get_a_page_without_opvaddrbitmap` of a user's page. Its callers do not look whether it failed:
they write to the page, which then faults. -/
def AddrSpace.getAPage (sp : AddrSpace) (m : Memory) (page : Nat) : Option (AddrSpace × Memory) :=
  m.userPool.palloc.bind fun (frame, pool) => sp.pageTableAdd { m with userPool := pool } page frame

/-- The first `n` rounds of `copy_body_stack3`: the child gets a page for each one the parent
has. -/
def copyBodyStack3 (vaddrBitmap : Bitmap) (sp : AddrSpace) (m : Memory) :
    (n : Nat) → Option (AddrSpace × Memory)
  | 0 => some (sp, m)
  | n + 1 =>
    (copyBodyStack3 vaddrBitmap sp m n).bind fun (sp, m) =>
      if vaddrBitmap.bitmapScanTest n then sp.getAPage m (n + userVaddrStart / pgSize)
      else some (sp, m)

/-- The page directory `create_page_dir` makes maps nothing below the kernel. -/
def AddrSpace.empty : AddrSpace := ⟨fun _ => none, fun _ => none⟩

namespace Machine

/-- `get_kernel_pages`. -/
def getKernelPages (s : Machine) (pgCnt : Nat) : Option Nat × Machine :=
  ((s.mem.getKernelPages pgCnt).1, { s with mem := (s.mem.getKernelPages pgCnt).2 })

/-- `process_execute`, with `create_user_vaddr_bitmap` and `create_page_dir`. None of them looks
whether there was memory. -/
def processExecute (s : Machine) : Option (UserProg × Machine) :=
  match s.getKernelPages 1 with
  | (none, _) => none
  | (some pcb, s) =>
  s.tasks.allocatePid.bind fun (pid, tasks) =>
  match { s with tasks := tasks }.getKernelPages (divRoundUp userBitmapLen pgSize) with
  | (none, _) => none
  | (some bits, s) =>
  match s.getKernelPages 1 with
  | (none, _) => none
  | (some pgdir, s) => some (⟨pcb, pgdir, bits, pid, ⟨userBitmapLen, Bytes.zero⟩, .empty, rfl⟩, s)

/-- `start_process`: the process gets the page of its stack. -/
def startProcess (s : Machine) (p : UserProg) : Option (UserProg × Machine) :=
  (p.space.getAPage s.mem (userStack3Vaddr / pgSize)).map fun (space, mem) =>
    ({ p with
        vaddrBitmap := p.vaddrBitmap.bitmapSet ((userStack3Vaddr - userVaddrStart) / pgSize) true
        space := space
        len_eq := p.len_eq },
     { s with mem := mem })

/-- `sys_fork`, with `copy_process`, `copy_pcb_vaddrbitmap_stack0` and `create_page_dir`. The
inner `none` is the result -1; the pages that have been taken are then lost. -/
def sysFork (s : Machine) (parent : UserProg) : Option (Option UserProg × Machine) :=
  match s.getKernelPages 1 with
  | (none, s) => some (none, s)
  | (some pcb, s) =>
  match s.getKernelPages 1 with
  | (none, s) => some (none, s)
  | (some bufPage, s) =>
  s.tasks.allocatePid.bind fun (pid, tasks) =>
  match { s with tasks := tasks }.getKernelPages (divRoundUp userBitmapLen pgSize) with
  | (none, s) => some (none, s)
  | (some bits, s) =>
  match s.getKernelPages 1 with
  | (none, s) => some (none, s)
  | (some pgdir, s) =>
  (copyBodyStack3 parent.vaddrBitmap .empty s.mem (8 * parent.vaddrBitmap.btmpBytesLen)).map
    fun (space, mem) =>
      (some { parent with pcb := pcb, pgdir := pgdir, bits := bits, pid := pid, space := space },
       { s with mem := mem.mfreePage bufPage 1 })

end Machine

/-! ### Giving them back -/

/-- The first `n` rounds of the inner loop of `release_prog_resource`, over a page table. -/
def releaseTable (sp : AddrSpace) (pdeIdx : Nat) (m : Memory) : (n : Nat) → Memory
  | 0 => m
  | n + 1 =>
    match sp.pte (pdeIdx * 1024 + n) with
    | some frame => (releaseTable sp pdeIdx m n).pfree frame
    | none => releaseTable sp pdeIdx m n

/-- The first `n` rounds of its outer loop, over the page directory. -/
def releaseTables (sp : AddrSpace) (m : Memory) : (n : Nat) → Memory
  | 0 => m
  | n + 1 =>
    match sp.pde n with
    | some table => (releaseTable sp n (releaseTables sp m n) 1024).pfree table
    | none => releaseTables sp m n

namespace Machine

/-- `release_prog_resource`, and so `sys_exit`. The descriptors the child inherited are shared:
closing them frees nothing. -/
def sysExit (s : Machine) (child : UserProg) : Machine :=
  let m := releaseTables child.space s.mem 768
  { s with mem := m.mfreePage child.bits (child.vaddrBitmap.btmpBytesLen / pgSize) }

/-- `sys_wait` reaping a child: `thread_exit` of it. -/
def sysWait (s : Machine) (child : UserProg) : Machine :=
  { mem := (s.mem.mfreePage child.pgdir 1).mfreePage child.pcb 1
    tasks := s.tasks.releasePid child.pid }

end Machine

/-! ### The frames are not all given back -/

/-- The page tables of the user's part. -/
def AddrSpace.tables (sp : AddrSpace) (n : Nat) : Nat :=
  ((Finset.range n).filter fun i => (sp.pde i).isSome).card

/-- A user's pages are in frames of the user pool. -/
def AddrSpace.UserFrames (sp : AddrSpace) (m : Memory) : Prop :=
  ∀ page frame, sp.pte page = some frame → m.userPool.phyAddrStart ≤ frame

variable {m m' : Memory} {sp sp' : AddrSpace}

@[simp] lemma phyAddrStart_pfree (m : Memory) (a : Nat) :
    (m.pfree a).userPool.phyAddrStart = m.userPool.phyAddrStart := by
  simp only [pfree]
  split_ifs <;> rfl

@[simp] lemma phyAddrStart_mfreePage (m : Memory) (vaddr cnt : Nat) :
    (m.mfreePage vaddr cnt).userPool.phyAddrStart = m.userPool.phyAddrStart :=
  unmapPages_rel (R := fun m m' => m'.userPool.phyAddrStart = m.userPool.phyAddrStart)
    (fun _ => rfl) (fun _ _ _ h h' => h'.trans h) (fun _ _ => phyAddrStart_pfree _ _) cnt m vaddr

lemma palloc_spec {p p' : Pool} (h : p.palloc = some (frame, p')) :
    p.phyAddrStart ≤ frame ∧ p'.phyAddrStart = p.phyAddrStart := by
  obtain ⟨i, -, heq⟩ := map_eq_some_iff.mp h
  cases heq
  exact ⟨Nat.le_add_left _ _, rfl⟩

lemma AddrSpace.tables_update (hi : i < n) (hnone : sp.pde i = none)
    (hpde : sp'.pde = update sp.pde i (some table)) : sp'.tables n = sp.tables n + 1 := by
  have hfilter : (Finset.range n).filter (fun j => (sp'.pde j).isSome) =
      insert i ((Finset.range n).filter fun j => (sp.pde j).isSome) := by
    ext j
    by_cases hj : j = i
    · simp [hj, hi, hpde]
    · simp [hj, hpde]
  rw [tables, hfilter, Finset.card_insert_of_notMem]
  · rfl
  · simp [hnone]

/-- A kernel frame is taken for each new page table, and for nothing else. -/
lemma AddrSpace.getAPage_spec (h : sp.getAPage m page = some (sp', m'))
    (hpage : page / 1024 < 768) (hframes : sp.UserFrames m) :
    m'.kernelTaken + sp.tables 768 = m.kernelTaken + sp'.tables 768 ∧ sp'.UserFrames m' := by
  obtain ⟨⟨frame, pool⟩, hpalloc, hadd⟩ := bind_eq_some_iff.mp h
  obtain ⟨hle, hstart⟩ := palloc_spec hpalloc
  simp only [AddrSpace.pageTableAdd] at hadd
  split at hadd
  · cases hadd
    refine ⟨rfl, fun p f hf => ?_⟩
    simp only [hstart]
    by_cases hp : p = page
    · simp only [hp, update_self, Option.some.injEq] at hf
      omega
    · simp only [update_of_ne hp] at hf
      exact hframes p f hf
  · next hnone =>
    obtain ⟨⟨table, kernelPool⟩, htable, heq⟩ := map_eq_some_iff.mp hadd
    obtain ⟨hsp, rfl⟩ := Prod.mk.inj heq
    refine ⟨?_, fun p f hf => ?_⟩
    · have htaken := taken_palloc htable
      have htables : sp'.tables 768 = sp.tables 768 + 1 :=
        AddrSpace.tables_update hpage hnone (by rw [← hsp])
      simp only [kernelTaken] at htaken ⊢
      omega
    · simp only [hstart]
      simp only [← hsp] at hf
      split_ifs at hf with hp hq
      · cases hf
        exact hle
      · exact hframes p f hf

@[simp] lemma AddrSpace.tables_empty (n : Nat) : AddrSpace.empty.tables n = 0 := by
  simp [AddrSpace.tables, AddrSpace.empty]

lemma copyBodyStack3_spec (hn : n ≤ 8 * userBitmapLen)
    (h : copyBodyStack3 b sp m n = some (sp', m')) (hframes : sp.UserFrames m) :
    m'.kernelTaken + sp.tables 768 = m.kernelTaken + sp'.tables 768 ∧ sp'.UserFrames m' := by
  induction n generalizing sp' m' with
  | zero =>
    cases h
    exact ⟨rfl, hframes⟩
  | succ n ih =>
    obtain ⟨⟨sp1, m1⟩, hrest, hstep⟩ := bind_eq_some_iff.mp h
    obtain ⟨htaken, hframes1⟩ := ih (by omega) hrest
    split_ifs at hstep
    · have hpage : (n + userVaddrStart / pgSize) / 1024 < 768 := by
        simp only [userBitmapLen, userVaddrStart, pgSize] at hn ⊢
        omega
      obtain ⟨htaken', hframes'⟩ := AddrSpace.getAPage_spec hstep hpage hframes1
      exact ⟨by omega, hframes'⟩
    · cases hstep
      exact ⟨htaken, hframes1⟩

/-- The pages of a process go back to the user pool. -/
lemma releaseTable_spec (pdeIdx n : Nat) (hframes : sp.UserFrames m) :
    (releaseTable sp pdeIdx m n).kernelTaken = m.kernelTaken ∧
      (releaseTable sp pdeIdx m n).userPool.phyAddrStart = m.userPool.phyAddrStart := by
  induction n with
  | zero => exact ⟨rfl, rfl⟩
  | succ n ih =>
    simp only [releaseTable]
    split
    · next frame hframe =>
      refine ⟨?_, (phyAddrStart_pfree _ _).trans ih.2⟩
      have hle := ih.2.trans_le (hframes _ _ hframe)
      simpa only [kernelTaken, Memory.pfree, if_pos hle] using ih.1
    · exact ih

/-- At most one kernel frame is given back for each page table. -/
lemma releaseTables_spec (n : Nat) (hframes : sp.UserFrames m) :
    m.kernelTaken ≤ (releaseTables sp m n).kernelTaken + sp.tables n ∧
      (releaseTables sp m n).userPool.phyAddrStart = m.userPool.phyAddrStart := by
  induction n with
  | zero => exact ⟨Nat.le_add_right _ _, rfl⟩
  | succ n ih =>
    have htables : sp.tables (n + 1) = sp.tables n + if (sp.pde n).isSome then 1 else 0 := by
      simp only [AddrSpace.tables, Finset.range_add_one, Finset.filter_insert]
      split_ifs with hsome
      · rw [Finset.card_insert_of_notMem (by simp)]
      · rfl
    simp only [releaseTables]
    split
    · next table htable =>
      have hframes' : sp.UserFrames (releaseTables sp m n) := fun p f hf =>
        ih.2.trans_le (hframes p f hf)
      obtain ⟨hsame, hstart⟩ := releaseTable_spec n 1024 hframes'
      have hfree := kernelTaken_pfree (releaseTable sp n (releaseTables sp m n) 1024) table
      refine ⟨?_, by rw [phyAddrStart_pfree, hstart, ih.2]⟩
      simp only [htable, isSome_some, if_true] at htables
      omega
    · omega

namespace Machine

variable {s s' : Machine}

lemma kernelTaken_getKernelPages (h : s.getKernelPages cnt = (some vaddr, s')) :
    s'.mem.kernelTaken = s.mem.kernelTaken + cnt := by
  simp only [getKernelPages, Prod.mk.injEq] at h
  obtain ⟨hvaddr, rfl⟩ := h
  exact kernelTaken_getKernelPages (Prod.ext hvaddr rfl)

/-- The frames a fork that succeeds takes: the PCB, the page directory, 23 pages for the address
bitmap, and the page tables. -/
lemma kernelTaken_sysFork (h : s.sysFork parent = some (some child, s')) :
    s.mem.kernelTaken + 25 + child.space.tables 768 ≤ s'.mem.kernelTaken ∧
      child.space.UserFrames s'.mem := by
  simp only [sysFork] at h
  split at h
  · cases h
  · next pcb s1 hpcb =>
    split at h
    · cases h
    · next buf s2 hbuf =>
      obtain ⟨⟨pid, tasks⟩, hpid, h⟩ := bind_eq_some_iff.mp h
      split at h
      · cases h
      · next bits s3 hbits =>
        split at h
        · cases h
        · next pgdir s4 hpgdir =>
          obtain ⟨⟨space, mem⟩, hcopy, heq⟩ := map_eq_some_iff.mp h
          obtain ⟨hchild, rfl⟩ := Prod.mk.inj heq
          cases hchild
          have h1 := kernelTaken_getKernelPages hpcb
          have h2 := kernelTaken_getKernelPages hbuf
          have h3 := kernelTaken_getKernelPages hbits
          have h4 := kernelTaken_getKernelPages hpgdir
          have hpages : divRoundUp userBitmapLen pgSize = 23 := by decide
          obtain ⟨hcopied, hframes⟩ := copyBodyStack3_spec (by rw [parent.len_eq]) hcopy
            fun page frame hnone => by cases hnone
          have hfree := kernelTaken_mfreePage mem buf 1
          rw [AddrSpace.tables_empty] at hcopied
          refine ⟨?_, fun page frame hframe => ?_⟩
          · dsimp only at h3 ⊢
            omega
          · rw [phyAddrStart_mfreePage]
            exact hframes page frame hframe

lemma kernelTaken_sysExit (hframes : child.space.UserFrames s.mem) :
    s.mem.kernelTaken ≤ (s.sysExit child).mem.kernelTaken + child.space.tables 768 + 22 := by
  have htables := (releaseTables_spec 768 hframes).1
  have hbits := kernelTaken_mfreePage (releaseTables child.space s.mem 768) child.bits 22
  have hpages : child.vaddrBitmap.btmpBytesLen / pgSize = 22 := by
    rw [child.len_eq]
    decide
  simp only [sysExit, hpages]
  omega

lemma kernelTaken_sysWait (s : Machine) (child : UserProg) :
    s.mem.kernelTaken ≤ (s.sysWait child).mem.kernelTaken + 2 := by
  have hpgdir := kernelTaken_mfreePage s.mem child.pgdir 1
  have hpcb := kernelTaken_mfreePage (s.mem.mfreePage child.pgdir 1) child.pcb 1
  simp only [sysWait]
  omega

/-- The four bitmaps are what they were. -/
def Conserved (s s' : Machine) : Prop :=
  s'.mem.kernelPool.poolBitmap.SameBits s.mem.kernelPool.poolBitmap ∧
    s'.mem.userPool.poolBitmap.SameBits s.mem.userPool.poolBitmap ∧
    s'.mem.kernelVaddr.SameBits s.mem.kernelVaddr ∧
    s'.tasks.pidBitmap.SameBits s.tasks.pidBitmap

lemma kernelTaken_lifecycle (hfork : s.sysFork parent = some (some child, s')) :
    s.mem.kernelTaken < ((s'.sysExit child).sysWait child).mem.kernelTaken := by
  obtain ⟨htaken, hframes⟩ := kernelTaken_sysFork hfork
  have hexit := kernelTaken_sysExit hframes
  have hwait := (s'.sysExit child).kernelTaken_sysWait child
  omega

lemma not_conserved_of_lt (h : s.mem.kernelTaken < s'.mem.kernelTaken) : ¬ s.Conserved s' := by
  intro hsame
  exact absurd (Bitmap.taken_congr hsame.1) (Nat.ne_of_gt h)

/-- Every process costs a kernel frame that is never given back: whatever the state and whoever
the parent, after the fork, the child's exit and the parent's wait more frames are taken than
before. -/
theorem not_conserved_of_lifecycle (s s' : Machine) (parent child : UserProg)
    (hfork : s.sysFork parent = some (some child, s')) :
    s.mem.kernelTaken < ((s'.sysExit child).sysWait child).mem.kernelTaken ∧
      ¬ s.Conserved ((s'.sysExit child).sysWait child) :=
  ⟨kernelTaken_lifecycle hfork, not_conserved_of_lt (kernelTaken_lifecycle hfork)⟩

/-! ### A fork of the init process -/

lemma copyBodyStack3_of_last (sp : AddrSpace) (m : Memory)
    (hclear : ∀ i < n, b.bitmapScanTest i = false) (hset : b.bitmapScanTest n = true) :
    copyBodyStack3 b sp m (n + 1) = sp.getAPage m (n + userVaddrStart / pgSize) := by
  have hbelow : ∀ k ≤ n, copyBodyStack3 b sp m k = some (sp, m) := by
    intro k hk
    induction k with
    | zero => rfl
    | succ k ih => simp [copyBodyStack3, ih (by omega), hclear k (by omega)]
  simp [copyBodyStack3, hbelow n le_rfl, hset]

/-- A machine with 32 MB, when the init process has been started. -/
def initStarted : Option (UserProg × Machine) :=
  (processExecute ⟨memPoolInit 0x2000000 (fun _ => ⟨0, false⟩) Bytes.zero Bytes.zero,
    .boot 0 1 fun _ => 1⟩).bind fun (p, s) => s.startProcess p

lemma isSome_initStarted : initStarted.isSome = true := by decide +kernel

/-- The init process. -/
def initProg : UserProg := (initStarted.get isSome_initStarted).1

/-- The machine it runs on. -/
def initMachine : Machine := (initStarted.get isSome_initStarted).2

lemma exists_sysFork_initProg :
    ∃ child s', initMachine.sysFork initProg = some (some child, s') := by
  have hcopy (sp : AddrSpace) (m : Memory) :
      copyBodyStack3 initProg.vaddrBitmap sp m (8 * initProg.vaddrBitmap.btmpBytesLen) =
        sp.getAPage m (753591 + userVaddrStart / pgSize) := by
    -- the stack is the only page: the code of the init process is the kernel's
    have hbits : initProg.vaddrBitmap = Bitmap.bitmapSet ⟨userBitmapLen, Bytes.zero⟩ 753591 true := rfl
    refine copyBodyStack3_of_last sp m (fun i hi => ?_) (by simp [hbits])
    rw [hbits, Bitmap.bitmapScanTest_bitmapSet, if_neg (Nat.ne_of_lt hi)]
    simp [Bitmap.bitmapScanTest, Bytes.zero]
  have hsome : ((initMachine.sysFork initProg).bind Prod.fst).isSome = true := by
    simp only [sysFork, hcopy]
    decide +kernel
  obtain ⟨child, hchild⟩ := isSome_iff_exists.mp hsome
  obtain ⟨⟨c, s'⟩, hfork, hc⟩ := bind_eq_some_iff.mp hchild
  exact ⟨child, s', hfork.trans (by rw [← hc])⟩

theorem not_conserved_initProg :
    ∃ child s', initMachine.sysFork initProg = some (some child, s') ∧
      initMachine.mem.kernelTaken < ((s'.sysExit child).sysWait child).mem.kernelTaken ∧
      ¬ initMachine.Conserved ((s'.sysExit child).sysWait child) := by
  obtain ⟨child, s', hfork⟩ := exists_sysFork_initProg
  exact ⟨child, s', hfork, not_conserved_of_lifecycle initMachine s' initProg child hfork⟩

/-- The first fork of the init process, after start-up, already loses a frame. -/
theorem not_forall_conserved :
    ¬ ∀ (s s' : Machine) (parent child : UserProg), initStarted = some (parent, s) →
      s.sysFork parent = some (some child, s') →
      s.Conserved ((s'.sysExit child).sysWait child) := by
  intro hall
  obtain ⟨child, s', hfork⟩ := exists_sysFork_initProg
  have hstarted : initStarted = some (initProg, initMachine) := (Option.some_get isSome_initStarted).symm
  exact not_conserved_of_lt (kernelTaken_lifecycle hfork) (hall _ _ _ _ hstarted hfork)

end Machine

end SimpleOs
