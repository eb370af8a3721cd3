import SimpleOs.Mem.UserSpace
import SimpleOs.Mem.Virtual

/-!
# Fork and the contents of the pages

`sys_fork` with the bytes it copies: the page of the PCB, the address bitmap, and each user page of
the parent, which goes through a page of the kernel while the page directories are switched back and
forth. The bitmaps are read from the memory, and a user address is looked up in the directory that
`cr3` points to.
-/

namespace SimpleOs

open Base

/-- The addresses of a process in `struct task_struct`: of its PCB, its page directory and the bits
of `userprog_vaddr`. -/
structure Proc where
  pcb : Nat
  pgdir : Nat
  bits : Nat
  pid : Int

/-- The memory, the tasks, the user's part of each page directory by its physical address, and the
directory in use. -/
structure Cpu where
  mem : Memory
  tasks : Kernel
  dirs : Nat → AddrSpace
  cr3 : Nat

/-- Write all bytes of a page frame. -/
def Memory.setFrame (m : Memory) (frame : Nat) (data : Nat → UInt8) : Memory :=
  { m with phys := fun a =>
      if frame ≤ a ∧ a < frame + pgSize then data (a - frame) else m.phys a }

namespace Cpu

variable (s : Cpu)

/-- `userprog_vaddr.vaddr_bitmap` of a process, as it is in the memory. -/
def vaddrBitmap (p : Proc) : Bitmap := ⟨userBitmapLen, fun k => s.mem.view (p.bits + k)⟩

/-- The user's part of the address space of a process. -/
def spaceOf (p : Proc) : AddrSpace := s.dirs (s.mem.addrV2p p.pgdir)

/-- `page_dir_activate`. -/
def pageDirActivate (p : Proc) : Cpu := { s with cr3 := s.mem.addrV2p p.pgdir }

/-- The bytes of a user page; a page that is not mapped faults. -/
def readPage (page : Nat) : Option (Nat → UInt8) :=
  ((s.dirs s.cr3).pte page).map fun frame r => s.mem.phys (frame + r)

/-- Write a user page; a page that is not mapped faults. -/
def writePage (page : Nat) (data : Nat → UInt8) : Option Cpu :=
  ((s.dirs s.cr3).pte page).map fun frame => { s with mem := s.mem.setFrame frame data }

/-- `get_a_page_without_opvaddrbitmap`, in the directory in use. -/
def getAPage (s : Cpu) (page : Nat) : Option Cpu :=
  ((s.dirs s.cr3).getAPage s.mem page).map fun (space, mem) =>
    { s with mem := mem, dirs := Function.update s.dirs s.cr3 space }

/-- `memcpy` from one place of the kernel to another. -/
def memcpy (dst src size : Nat) : Cpu :=
  { s with mem := s.mem.store dst (fun r => s.mem.view (src + r)) size }

/-- Steps a to e of `copy_body_stack3`: one page. -/
def copyPage (parent child : Proc) (bufPage page : Nat) : Option Cpu :=
  (s.readPage page).bind fun data =>
  let s := { s with mem := s.mem.store bufPage data pgSize }
  ((s.pageDirActivate child).getAPage page).bind fun s =>
  (s.writePage page fun r => s.mem.view (bufPage + r)).map fun s => s.pageDirActivate parent

/-- The first `n` rounds of `copy_body_stack3`, over the bits of the parent's bitmap. -/
def copyBodyStack3 (s : Cpu) (parent child : Proc) (bufPage : Nat) : (n : Nat) → Option Cpu
  | 0 => some s
  | n + 1 =>
    (copyBodyStack3 s parent child bufPage n).bind fun s =>
      if (s.vaddrBitmap parent).bitmapScanTest n then
        s.copyPage parent child bufPage (firstUserPage + n)
      else some s

/-- `get_kernel_pages`. -/
def getKernelPages (s : Cpu) (pgCnt : Nat) : Option Nat × Cpu :=
  ((s.mem.getKernelPages pgCnt).1, { s with mem := (s.mem.getKernelPages pgCnt).2 })

/-- `create_page_dir`: a directory that maps nothing below the kernel. -/
def createPageDir : Option Nat × Cpu :=
  match s.getKernelPages 1 with
  | (none, s) => (none, s)
  | (some pageDir, s) =>
    (some pageDir, { s with dirs := Function.update s.dirs (s.mem.addrV2p pageDir) .empty })

/-- `copy_pcb_vaddrbitmap_stack0`; the result is what the child's PCB holds. -/
def copyPcbVaddrbitmapStack0 (parent : Proc) (pcb : Nat) : Option (Option Proc × Cpu) :=
  let s := s.memcpy pcb parent.pcb pgSize
  s.tasks.allocatePid.map fun (pid, tasks) =>
  match { s with tasks := tasks }.getKernelPages (divRoundUp userBitmapLen pgSize) with
  | (none, s) => (none, s)
  | (some bits, s) =>
    (some { parent with pcb := pcb, bits := bits, pid := pid },
      s.memcpy bits parent.bits (divRoundUp userBitmapLen pgSize * pgSize))

/-- `sys_fork`, with `copy_process`. The inner `none` is the result -1. -/
def sysFork (parent : Proc) : Option (Option Proc × Cpu) :=
  match s.getKernelPages 1 with
  | (none, s) => some (none, s)
  | (some pcb, s) =>
  match s.getKernelPages 1 with
  | (none, s) => some (none, s)
  | (some bufPage, s) =>
  (s.copyPcbVaddrbitmapStack0 parent pcb).bind fun (child, s) =>
  match child with
  | none => some (none, s)
  | some child =>
  match s.createPageDir with
  | (none, s) => some (none, s)
  | (some pgdir, s) =>
    let child := { child with pgdir := pgdir }
    (s.copyBodyStack3 parent child bufPage (8 * userBitmapLen)).map fun s =>
      (some child, { s with mem := s.mem.mfreePage bufPage 1 })

end Cpu

/-! ### The kernel does not touch the pages of the users -/

namespace Memory

variable {m m' m₁ m₂ m₃ : Memory} {P : Set Nat} {V : Bytes}

/-- The pools are where they were, the user pool and the bytes in it are as they were. -/
structure KeepsUser (m m' : Memory) : Prop where
  layout : SameLayout m m'
  userPool : m'.userPool = m.userPool
  phys : ∀ a, m.userPool.phyAddrStart ≤ a → m'.phys a = m.phys a

lemma KeepsUser.trans (h : KeepsUser m₁ m₂) (h' : KeepsUser m₂ m₃) : KeepsUser m₁ m₃ where
  layout := h.layout.trans h'.layout
  userPool := h'.userPool.trans h.userPool
  phys := fun a ha => (h'.phys a (by rw [h.userPool]; exact ha)).trans (h.phys a ha)

section

variable (h : KeepsUser m m')
include h

lemma KeepsUser.taken (j : Nat) : m'.taken .user j = m.taken .user j := by
  simp only [Memory.taken, pool, h.userPool]

lemma KeepsUser.frames : m'.frames .user = m.frames .user := by
  simp only [Memory.frames, pool, h.userPool]

lemma KeepsUser.frameAt (j : Nat) : m'.frameAt .user j = m.frameAt .user j := by
  simp only [Memory.frameAt, pool, h.userPool]

lemma KeepsUser.layout_of (hl : m.Layout) : m'.Layout := by
  refine hl.congr ?_ ?_ ?_ <;> rintro (_ | _)
  · exact h.layout.kernelStart
  · exact h.layout.userStart
  · exact h.layout.size
  · exact congrArg Pool.poolSize h.userPool
  · exact congrArg (8 * ·) h.layout.kernelLen
  · exact h.frames

end

lemma Owns.addrV2p_lt (h : m.Owns P) (hu : Usable P u) : m.addrV2p u < m.userPool.phyAddrStart := by
  have hhigh := h.pools.high
  have hlow := h.pools.low
  rcases hu with hu | hu
  · obtain ⟨i, hlt, -, hpte⟩ := h.frame _ hu
    rw [addrV2p, translate, hpte]
    simp only [pgSize] at hhigh ⊢
    omega
  · rw [addrV2p, translate, h.low _ hu.1 hu.2]
    simp only [pgSize] at hu ⊢
    omega

lemma storeBytes_of_ne (pte : Nat → Pte) (data : Nat → UInt8) (phys : Bytes)
    (hne : ∀ i < n, translate pte (v + i) ≠ a) : storeBytes pte data v n phys a = phys a := by
  induction n with
  | zero => rfl
  | succ n ih =>
    rw [storeBytes, Function.update_of_ne (hne n (by omega)).symm]
    exact ih fun i hi => hne i (by omega)

lemma Owns.keepsUser_store (h : m.Owns P) (data : Nat → UInt8)
    (hin : ∀ i < n, Usable P (v + i)) : KeepsUser m (m.store v data n) := by
  refine ⟨⟨rfl, rfl, rfl, rfl, rfl⟩, rfl, fun a ha => storeBytes_of_ne _ _ _ fun i hi heq => ?_⟩
  have hlt := h.addrV2p_lt (hin i hi)
  rw [addrV2p] at hlt
  omega

lemma userPool_mallocPage (m : Memory) (cnt : Nat) :
    (m.mallocPage cnt).2.userPool = m.userPool :=
  mallocPage_rel (R := fun m m' => m'.userPool = m.userPool) (fun _ => rfl)
    (fun _ _ _ h h' => h'.trans h) (fun _ _ _ _ _ => rfl) (fun _ _ => rfl) m cnt

/-- `get_kernel_pages`: new pages for the kernel, all else as it was. -/
lemma Owns.getKernelPages (h : m.Owns P) (hcnt : 0 < cnt)
    (hget : m.getKernelPages cnt = (some v, m')) :
    ∃ q, v = q * pgSize ∧ 0xc0100 ≤ q ∧ (∀ p ∈ Set.Ico q (q + cnt), p ∉ P) ∧
      m'.Owns (P ∪ Set.Ico q (q + cnt)) ∧ KeepsUser m m' ∧
      (∀ p ∈ P, m'.pte p = m.pte p) ∧ ∀ u, u / pgSize ∈ P → m'.view u = m.view u := by
  simp only [Memory.getKernelPages] at hget
  split at hget
  · cases hget
  · next v' m₁ hmalloc =>
    obtain ⟨hv, rfl⟩ := Prod.mk.inj hget
    obtain rfl := Option.some.inj hv
    obtain ⟨-, hkeep, hsome⟩ := h.mallocPage hcnt hmalloc
    obtain ⟨q, rfl, hnew, howns⟩ := hsome v' rfl
    have hq : 0xc0100 ≤ q := (howns.heap q (.inr ⟨le_rfl, by omega⟩)).1
    have hin : ∀ i < cnt * pgSize, Usable (P ∪ Set.Ico q (q + cnt)) (q * pgSize + i) := by
      intro i hi
      refine .inl (.inr ?_)
      simp only [pgSize] at hi ⊢
      simp only [Set.mem_Ico]
      omega
    have hset := howns.sees.memset 0 hin
    have huser : KeepsUser m m₁ := by
      refine ⟨hkeep.layout, ?_, fun a _ => by rw [hkeep.phys]⟩
      have hpool := userPool_mallocPage m cnt
      rw [hmalloc] at hpool
      exact hpool
    refine ⟨q, rfl, hq, hnew, hset.owns, huser.trans (howns.keepsUser_store _ hin), ?_, ?_⟩
    · exact fun p hp => hkeep.pte p (.inl hp)
    · intro u hu
      have hview := hset.view u (.inl (.inl hu))
      have hout : ¬(q * pgSize ≤ u ∧ u < q * pgSize + cnt * pgSize) := by
        intro hr
        refine hnew (u / pgSize) ?_ hu
        simp only [pgSize] at hr ⊢
        simp only [Set.mem_Ico]
        omega
      rw [hview, Bytes.fill, if_neg hout]
      simp only [Memory.view, addrV2p, translate, hkeep.phys, hkeep.pte _ (.inl hu)]

lemma Owns.store (h : m.Owns P) (data : Nat → UInt8) (hin : ∀ i < n, Usable P (v + i)) :
    (m.store v data n).Owns P ∧ KeepsUser m (m.store v data n) ∧
      ∀ u, Usable P u →
        (m.store v data n).view u = if v ≤ u ∧ u < v + n then data (u - v) else m.view u := by
  have hsees : (m.store v data n).Sees P fun u => if v ≤ u ∧ u < v + n then data (u - v) else m.view u :=
    h.sees.store hin fun u => rfl
  exact ⟨hsees.owns, h.keepsUser_store data hin, hsees.view⟩

end Memory

end SimpleOs
