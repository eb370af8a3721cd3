import Mathlib
import SimpleOs.Lib.Bitmap

/-!
# Pages

`kernel/memory.c`: the two pools of page frames, the virtual addresses of the kernel heap and the
page table entries that map the one to the other. The page tables of the kernel's part of the
address space are there from the start; `loader.s` makes them.
-/

namespace SimpleOs

open Base Finset

/-- `PG_SIZE`. -/
def pgSize : Nat := 4096

/-- `K_HEAP_START`. -/
def kHeapStart : Nat := 0xc0100000

/-- `struct pool`, without its lock. -/
structure Pool where
  poolBitmap : Bitmap
  phyAddrStart : Nat
  poolSize : Nat

/-- A page table entry: the address of a page frame and the present bit. -/
structure Pte where
  frame : Nat
  present : Bool

/-- `kernel_pool`, `user_pool`, the bitmap of `kernel_vaddr`, the page table entries of the kernel
by page number, and the bytes of the physical memory. -/
structure Memory where
  kernelPool : Pool
  userPool : Pool
  kernelVaddr : Bitmap
  pte : Nat → Pte
  phys : Bytes

/-- `mem_pool_init`, over the page tables of `loader.s`, the bytes of the memory and, among them,
those the bitmap of `kernel_vaddr` is made in. The first 2 MB are in use. -/
def memPoolInit (allMem : Nat) (pte : Nat → Pte) (phys vaddrBits : Bytes) : Memory :=
  let usedMem := pgSize * 256 + 0x100000
  -- free_mem is 32 bits wide, all_free_pages 16
  let allFreePages := (allMem + 2 ^ 32 - usedMem) % 2 ^ 32 / pgSize % 2 ^ 16
  let kernelFreePages := allFreePages / 2
  let userFreePages := allFreePages - kernelFreePages
  { kernelPool := ⟨⟨kernelFreePages / 8, Bytes.zero⟩, usedMem, kernelFreePages * pgSize⟩
    userPool := ⟨⟨userFreePages / 8, Bytes.zero⟩, usedMem + kernelFreePages * pgSize,
      userFreePages * pgSize⟩
    kernelVaddr := Bitmap.bitmapInit ⟨kernelFreePages / 8, vaddrBits⟩
    pte := pte
    phys := phys }

/-! ### Frames -/

/-- `palloc`: the address of a page frame that was free. -/
def Pool.palloc (p : Pool) : Option (Nat × Pool) :=
  (p.poolBitmap.bitmapScan 1).map fun (bitIdx : Nat) =>
    (bitIdx * pgSize + p.phyAddrStart, { p with poolBitmap := p.poolBitmap.bitmapSet bitIdx true })

/-- The bit a frame has in its pool; the difference is a 32-bit one. -/
def Pool.bitIdx (p : Pool) (pgPhyAddr : Nat) : Nat :=
  (pgPhyAddr + 2 ^ 32 - p.phyAddrStart) % 2 ^ 32 / pgSize

/-- Clear the bit of a frame. -/
def Pool.release (p : Pool) (pgPhyAddr : Nat) : Pool :=
  { p with poolBitmap := p.poolBitmap.bitmapSet (p.bitIdx pgPhyAddr) false }

namespace Memory

/-- `pfree`, and `free_a_phy_page` which is the same function. -/
def pfree (m : Memory) (pgPhyAddr : Nat) : Memory :=
  if m.userPool.phyAddrStart ≤ pgPhyAddr then
    { m with userPool := m.userPool.release pgPhyAddr }
  else { m with kernelPool := m.kernelPool.release pgPhyAddr }

/-! ### Bytes behind the page tables -/

/-- The physical address a page table maps a virtual one to. -/
def translate (pte : Nat → Pte) (vaddr : Nat) : Nat := (pte (vaddr / pgSize)).frame + vaddr % pgSize

/-- `addr_v2p`. -/
def addrV2p (m : Memory) (vaddr : Nat) : Nat := translate m.pte vaddr

/-- The bytes of the kernel's part of the address space. -/
def view (m : Memory) : Bytes := fun vaddr => m.phys (m.addrV2p vaddr)

/-- Write `n` bytes through a page table, from the virtual address `vaddr` on. -/
def storeBytes (pte : Nat → Pte) (data : Nat → UInt8) (vaddr : Nat) : (n : Nat) → Bytes → Bytes
  | 0, phys => phys
  | n + 1, phys =>
    Function.update (storeBytes pte data vaddr n phys) (translate pte (vaddr + n)) (data n)

/-- Write `n` bytes at a virtual address. -/
def store (m : Memory) (vaddr : Nat) (data : Nat → UInt8) (n : Nat) : Memory :=
  { m with phys := storeBytes m.pte data vaddr n m.phys }

/-- `memset`. -/
def memset (m : Memory) (vaddr : Nat) (value : UInt8) (size : Nat) : Memory :=
  m.store vaddr (fun _ => value) size

/-! ### Kernel pages -/

/-- Set or clear `cnt` bits in a row, as `vaddr_get` and `vaddr_remove` do. -/
def setRun (b : Bitmap) (start : Nat) (v : Bool) : (cnt : Nat) → Bitmap
  | 0 => b
  | cnt + 1 => (setRun b start v cnt).bitmapSet (start + cnt) v

@[simp] lemma btmpBytesLen_setRun (b : Bitmap) (start cnt : Nat) (v : Bool) :
    (setRun b start v cnt).btmpBytesLen = b.btmpBytesLen := by
  induction cnt with
  | zero => rfl
  | succ cnt ih => exact ih

/-- `vaddr_get` for the kernel. -/
def vaddrGet (m : Memory) (pgCnt : Nat) : Option (Nat × Memory) :=
  (m.kernelVaddr.bitmapScan pgCnt).map fun (start : Nat) =>
    (kHeapStart + start * pgSize, { m with kernelVaddr := setRun m.kernelVaddr start true pgCnt })

/-- `page_table_add` of a page of the kernel. -/
def pageTableAdd (m : Memory) (vaddr pagePhyaddr : Nat) : Memory :=
  { m with pte := Function.update m.pte (vaddr / pgSize) ⟨pagePhyaddr, true⟩ }

/-- The loop of `malloc_page`: map `cnt` pages from `vaddr` on, until the frames run out. -/
def mapPages : (cnt : Nat) → Memory → (vaddr : Nat) → Bool × Memory
  | 0, m, _ => (true, m)
  | cnt + 1, m, vaddr =>
    match m.kernelPool.palloc with
    | none => (false, m)
    | some (frame, pool) =>
      mapPages cnt ({ m with kernelPool := pool }.pageTableAdd vaddr frame) (vaddr + pgSize)

/-- `malloc_page` for the kernel. When the frames run out half-way, what has been taken stays
taken. -/
def mallocPage (m : Memory) (pgCnt : Nat) : Option Nat × Memory :=
  match m.vaddrGet pgCnt with
  | none => (none, m)
  | some (vaddr, m) =>
    match mapPages pgCnt m vaddr with
    | (true, m) => (some vaddr, m)
    | (false, m) => (none, m)

/-- `get_kernel_pages`. -/
def getKernelPages (m : Memory) (pgCnt : Nat) : Option Nat × Memory :=
  match m.mallocPage pgCnt with
  | (none, m) => (none, m)
  | (some vaddr, m) => (some vaddr, m.memset vaddr 0 (pgCnt * pgSize))

/-- `page_table_pte_remove`: the present bit is cleared. -/
def pageTablePteRemove (m : Memory) (vaddr : Nat) : Memory :=
  { m with pte := Function.update m.pte (vaddr / pgSize) ⟨(m.pte (vaddr / pgSize)).frame, false⟩ }

/-- The loop of `mfree_page`. -/
def unmapPages : (cnt : Nat) → Memory → (vaddr : Nat) → Memory
  | 0, m, _ => m
  | cnt + 1, m, vaddr =>
    unmapPages cnt ((m.pfree (m.addrV2p vaddr)).pageTablePteRemove vaddr) (vaddr + pgSize)

/-- `vaddr_remove` for the kernel. -/
def vaddrRemove (m : Memory) (vaddr pgCnt : Nat) : Memory :=
  { m with kernelVaddr := setRun m.kernelVaddr ((vaddr - kHeapStart) / pgSize) false pgCnt }

/-- `mfree_page` for the kernel. -/
def mfreePage (m : Memory) (vaddr pgCnt : Nat) : Memory :=
  (unmapPages pgCnt m vaddr).vaddrRemove vaddr pgCnt

/-! ### Rounds of the loops -/

/-- How `malloc_page` ends: it finds no addresses, or maps the pages that it has found. -/
lemma mallocPage_cases {r : Option Nat} (h : m.mallocPage cnt = (r, m')) :
    (r = none ∧ m' = m) ∨ ∃ start ok, m.kernelVaddr.bitmapScan cnt = some start ∧
      mapPages cnt { m with kernelVaddr := setRun m.kernelVaddr start true cnt }
        ((0xc0100 + start) * pgSize) = (ok, m') ∧
      r = if ok then some ((0xc0100 + start) * pgSize) else none := by
  simp only [mallocPage] at h
  split at h
  · cases h
    exact .inl ⟨rfl, rfl⟩
  · next v m₁ hget =>
    obtain ⟨start, hscan, heq⟩ := Option.map_eq_some_iff.mp hget
    cases heq
    have hv : kHeapStart + start * pgSize = (0xc0100 + start) * pgSize := by
      simp only [kHeapStart, pgSize]
      omega
    rw [hv] at h
    refine .inr ⟨start, ?_⟩
    split at h
    · next m₂ hmap =>
      cases h
      exact ⟨true, hscan, hmap, rfl⟩
    · next m₂ hmap =>
      cases h
      exact ⟨false, hscan, hmap, rfl⟩

section

variable {R : Memory → Memory → Prop} (hrefl : ∀ m, R m m)
  (htrans : ∀ m₁ m₂ m₃, R m₁ m₂ → R m₂ m₃ → R m₁ m₃)
include hrefl htrans

/-- What is so of every round of the loop of `malloc_page` is so of the call. -/
lemma mallocPage_rel (hround : ∀ m v frame pool, m.kernelPool.palloc = some (frame, pool) →
      R m ({ m with kernelPool := pool }.pageTableAdd v frame))
    (hvaddr : ∀ m b, R m { m with kernelVaddr := b }) (m : Memory) (cnt : Nat) :
    R m (m.mallocPage cnt).2 := by
  have hloop : ∀ n m v, R m (mapPages n m v).2 := by
    intro n
    induction n with
    | zero => exact fun m _ => hrefl m
    | succ n ih =>
      intro m v
      simp only [mapPages]
      split
      · exact hrefl m
      · next frame pool hpalloc => exact htrans _ _ _ (hround m v frame pool hpalloc) (ih _ _)
  obtain ⟨r, m', hmalloc⟩ : ∃ r m', m.mallocPage cnt = (r, m') := ⟨_, _, rfl⟩
  rw [hmalloc]
  obtain ⟨-, rfl⟩ | ⟨start, ok, -, hmap, -⟩ := mallocPage_cases hmalloc
  · exact hrefl m'
  · have hrel := htrans _ _ _ (hvaddr m (setRun m.kernelVaddr start true cnt))
      (hloop cnt _ ((0xc0100 + start) * pgSize))
    rwa [hmap] at hrel

/-- What is so of every round of the loop of `mfree_page` is so of the loop. -/
lemma unmapPages_rel (hround : ∀ m v, R m ((m.pfree (m.addrV2p v)).pageTablePteRemove v)) (cnt : Nat)
    (m : Memory) (v : Nat) : R m (unmapPages cnt m v) := by
  induction cnt generalizing m v with
  | zero => exact hrefl m
  | succ cnt ih => exact htrans _ _ _ (hround m v) (ih _ _)

end

end Memory

/-! ### How many frames are taken -/

namespace Bitmap

/-- The number of set bits. -/
def taken (b : Bitmap) : Nat :=
  ((Finset.range (8 * b.btmpBytesLen)).filter fun i => b.bitmapScanTest i).card

/-- A clear bit that is set counts. -/
lemma taken_bitmapSet_true {b : Bitmap} (hi : i < 8 * b.btmpBytesLen)
    (hclear : b.bitmapScanTest i = false) : (b.bitmapSet i true).taken = b.taken + 1 := by
  have hfilter : (Finset.range (8 * b.btmpBytesLen)).filter
      (fun j => (b.bitmapSet i true).bitmapScanTest j) =
      insert i ((Finset.range (8 * b.btmpBytesLen)).filter fun j => b.bitmapScanTest j) := by
    ext j
    by_cases hj : j = i
    · simp [hj, hi]
    · simp [hj]
  rw [taken, btmpBytesLen_bitmapSet, hfilter, card_insert_of_notMem]
  · rfl
  · simp [hclear]

lemma taken_le_bitmapSet_false (b : Bitmap) (i : Nat) : b.taken ≤ (b.bitmapSet i false).taken + 1 := by
  have hsub : (Finset.range (8 * b.btmpBytesLen)).filter (fun j => b.bitmapScanTest j) ⊆
      insert i ((Finset.range (8 * b.btmpBytesLen)).filter
        fun j => (b.bitmapSet i false).bitmapScanTest j) := by
    intro j hj
    simp only [bitmapScanTest_bitmapSet, mem_filter, mem_range, mem_insert] at hj ⊢
    by_cases hji : j = i
    · exact .inl hji
    · exact .inr ⟨hj.1, by simpa [hji] using hj.2⟩
  exact (card_le_card hsub).trans (card_insert_le _ _)

/-- Two bitmaps of one length with the same bits. -/
def SameBits (b' b : Bitmap) : Prop :=
  b'.btmpBytesLen = b.btmpBytesLen ∧
    ∀ i < 8 * b.btmpBytesLen, b'.bitmapScanTest i = b.bitmapScanTest i

lemma taken_congr {b b' : Bitmap} (h : b'.SameBits b) : b'.taken = b.taken := by
  rw [taken, h.1]
  congr 1
  refine filter_congr fun i hi => ?_
  rw [h.2 i (mem_range.mp hi)]

end Bitmap

namespace Memory

variable {m m' : Memory}

/-- The kernel frames that are taken. -/
def kernelTaken (m : Memory) : Nat := m.kernelPool.poolBitmap.taken

lemma taken_palloc {p p' : Pool} (h : p.palloc = some (frame, p')) :
    p'.poolBitmap.taken = p.poolBitmap.taken + 1 := by
  obtain ⟨i, hi, heq⟩ := Option.map_eq_some_iff.mp h
  cases heq
  obtain ⟨hlt, hclear, -⟩ := Bitmap.bitmapScan_one_eq_some hi
  exact Bitmap.taken_bitmapSet_true hlt hclear

lemma kernelTaken_pfree (m : Memory) (a : Nat) : m.kernelTaken ≤ (m.pfree a).kernelTaken + 1 := by
  simp only [pfree]
  split_ifs
  · exact Nat.le_succ _
  · exact Bitmap.taken_le_bitmapSet_false _ _

lemma kernelTaken_mapPages (h : mapPages cnt m vaddr = (true, m')) :
    m'.kernelTaken = m.kernelTaken + cnt := by
  induction cnt generalizing m vaddr with
  | zero =>
    cases h
    rfl
  | succ cnt ih =>
    simp only [mapPages] at h
    split at h
    · cases h
    · next frame pool hpalloc =>
      have htaken := taken_palloc hpalloc
      have hrest := ih h
      simp only [kernelTaken, pageTableAdd] at hrest htaken ⊢
      omega

lemma kernelTaken_mallocPage (h : m.mallocPage cnt = (some vaddr, m')) :
    m'.kernelTaken = m.kernelTaken + cnt := by
  obtain ⟨hnone, -⟩ | ⟨start, ok, -, hmap, hr⟩ := mallocPage_cases h
  · cases hnone
  · cases ok with
    | false => cases hr
    | true =>
      have htaken := kernelTaken_mapPages hmap
      exact htaken

lemma kernelTaken_getKernelPages (h : m.getKernelPages cnt = (some vaddr, m')) :
    m'.kernelTaken = m.kernelTaken + cnt := by
  simp only [getKernelPages] at h
  split at h
  · cases h
  · next v m₁ hmalloc =>
    cases h
    have htaken := kernelTaken_mallocPage hmalloc
    exact htaken

lemma kernelTaken_unmapPages (cnt : Nat) (m : Memory) (vaddr : Nat) :
    m.kernelTaken ≤ (unmapPages cnt m vaddr).kernelTaken + cnt := by
  induction cnt generalizing m vaddr with
  | zero => exact Nat.le_refl _
  | succ cnt ih =>
    have hone := kernelTaken_pfree m (m.addrV2p vaddr)
    have hrest := ih ((m.pfree (m.addrV2p vaddr)).pageTablePteRemove vaddr) (vaddr + pgSize)
    simp only [unmapPages]
    simp only [kernelTaken, pageTablePteRemove] at hone hrest ⊢
    omega

lemma kernelTaken_mfreePage (m : Memory) (vaddr cnt : Nat) :
    m.kernelTaken ≤ (m.mfreePage vaddr cnt).kernelTaken + cnt :=
  kernelTaken_unmapPages cnt m vaddr

end Memory

end SimpleOs
