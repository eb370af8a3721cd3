import SimpleOs.Mem.UserSpace
import SimpleOs.Mem.Virtual

/-!
# When there are no pages left

`malloc_page` and `get_a_page` mark the addresses first and take the frames afterwards. When the
frames run out they return NULL and give nothing back, and `get_a_page` does not even release the
lock of the pool.
-/

namespace SimpleOs

open Base

/-- A task that asks for pages: the memory as it sees it, whether it has a page directory of its own,
and how often it holds the lock of each pool. -/
structure PageCaller where
  space : UserSpace
  hasPgdir : Bool
  depth : PoolFlags → Nat

/-- A call of one of the two functions. -/
inductive PageCall where
  | mallocPage (pf : PoolFlags) (pgCnt : Nat)
  | getAPage (pf : PoolFlags) (vaddr : Nat)

namespace PageCaller

variable {c c' : PageCaller} {pf : PoolFlags} {pgCnt vaddr start : Nat}

/-- The caller with another memory. -/
def withMem (c : PageCaller) (mem : Memory) : PageCaller :=
  { c with space := { c.space with mem := mem } }

/-- The bitmap of the addresses that a flag stands for. -/
def vaddrBitmap (c : PageCaller) : PoolFlags → Bitmap
  | .kernel => c.space.mem.kernelVaddr
  | .user => c.space.vaddrBitmap

/-- `malloc_page`. -/
def mallocPage (c : PageCaller) (pf : PoolFlags) (pgCnt : Nat) : Option Nat × PageCaller :=
  match pf with
  | .kernel => ((c.space.mem.mallocPage pgCnt).1, c.withMem (c.space.mem.mallocPage pgCnt).2)
  | .user => ((c.space.mallocPage pgCnt).1, { c with space := (c.space.mallocPage pgCnt).2 })

/-- The first branches of `get_a_page`: the bit of the address is set, its number computed with 32
bits. A process has to ask for a user page and a kernel thread for a kernel page; otherwise the
kernel stops. -/
def markVaddr (c : PageCaller) (pf : PoolFlags) (vaddr : Nat) : Option PageCaller :=
  match pf, c.hasPgdir with
  | .user, true =>
    let bitIdx := (vaddr + 2 ^ 32 - userVaddrStart) % 2 ^ 32 / pgSize
    some { c with space := { c.space with vaddrBitmap := c.space.vaddrBitmap.bitmapSet bitIdx true } }
  | .kernel, false =>
    let bitIdx := (vaddr + 2 ^ 32 - kHeapStart) % 2 ^ 32 / pgSize
    let mem := c.space.mem
    some (c.withMem { mem with kernelVaddr := mem.kernelVaddr.bitmapSet bitIdx true })
  | _, _ => none

/-- `page_table_add`. -/
def pageTableAdd (c : PageCaller) (pf : PoolFlags) (vaddr frame : Nat) : PageCaller :=
  match pf with
  | .kernel => c.withMem (c.space.mem.pageTableAdd vaddr frame)
  | .user => { c with space := c.space.pageTableAdd (vaddr / pgSize) frame }

/-- `get_a_page`. -/
def getAPage (c : PageCaller) (pf : PoolFlags) (vaddr : Nat) : Option (Option Nat × PageCaller) :=
  let c := { c with depth := Function.update c.depth pf (c.depth pf + 1) }
  (c.markVaddr pf vaddr).map fun c =>
    match c.space.mem.palloc pf with
    | none => (none, c)
    | some (frame, mem) =>
      let c := (c.withMem mem).pageTableAdd pf vaddr frame
      (some vaddr, { c with depth := Function.update c.depth pf (c.depth pf - 1) })

/-- The result of a call and the state after it. -/
def exec (c : PageCaller) : PageCall → Option (Option Nat × PageCaller)
  | .mallocPage pf pgCnt => some (c.mallocPage pf pgCnt)
  | .getAPage pf vaddr => c.getAPage pf vaddr

/-- The bitmaps, the page tables and the locks are as they were. -/
structure Untouched (c c' : PageCaller) : Prop where
  vaddrBitmap : ∀ pf, c'.vaddrBitmap pf = c.vaddrBitmap pf
  frames : ∀ pf, (c'.space.mem.pool pf).poolBitmap = (c.space.mem.pool pf).poolBitmap
  kernelPte : c'.space.mem.pte = c.space.mem.pte
  pde : c'.space.pde = c.space.pde
  table : c'.space.table = c.space.table
  depth : c'.depth = c.depth

/-- A call that returns NULL has done nothing. -/
def FailsAtomically (c : PageCaller) (call : PageCall) : Prop :=
  ∀ c', c.exec call = some (none, c') → c.Untouched c'

/-- There are no addresses for the pages, or there are frames for all of them. -/
def Enough (c : PageCaller) : PageCall → Prop
  | .mallocPage pf pgCnt =>
    (c.vaddrBitmap pf).bitmapScan pgCnt = none ∨ pgCnt ≤ c.space.mem.freeFrames pf
  | .getAPage pf _ => c.hasPgdir ≠ (pf == .user) ∨ 0 < c.space.mem.freeFrames pf

end PageCaller

/-! ### How far the frames go -/

namespace Memory

variable {m : Memory}

lemma palloc_cases (m : Memory) (pf : PoolFlags) :
    (m.palloc pf = none ∧ m.freeFrames pf = 0) ∨
      ∃ frame i, m.palloc pf = some (frame, m.mark pf i true) ∧
        (m.mark pf i true).freeFrames pf + 1 = m.freeFrames pf := by
  cases hp : m.palloc pf with
  | none => exact .inl ⟨rfl, Nat.eq_zero_of_not_pos fun hpos => palloc_ne_none hpos hp⟩
  | some r =>
    obtain ⟨frame, m'⟩ := r
    obtain ⟨i, hi, hfree, -, rfl⟩ := palloc_eq_some hp
    exact .inr ⟨frame, i, rfl, freeFrames_mark_true hi hfree⟩

/-- The loop of `malloc_page` ends when the frames suffice, and marks no address. -/
lemma mapPages_spec (cnt : Nat) (m : Memory) (vaddr : Nat) :
    ((mapPages cnt m vaddr).1 = true ↔ cnt ≤ m.freeFrames .kernel) ∧
      (mapPages cnt m vaddr).2.kernelVaddr = m.kernelVaddr := by
  induction cnt generalizing m vaddr with
  | zero => simp [mapPages]
  | succ cnt ih =>
    have hpalloc : m.palloc .kernel = m.kernelPool.palloc.map fun r => (r.1, m.setPool .kernel r.2) := rfl
    rcases m.palloc_cases .kernel with ⟨hnone, hzero⟩ | ⟨frame, i, hsome, hcount⟩
    · rw [hpalloc, Option.map_eq_none_iff] at hnone
      simp [mapPages, hnone, hzero]
    · rw [hpalloc, Option.map_eq_some_iff] at hsome
      obtain ⟨⟨f, pool⟩, hpool, heq⟩ := hsome
      have hmem : ({ m with kernelPool := pool } : Memory) = m.mark .kernel i true := (Prod.mk.inj heq).2
      simp only [mapPages, hpool, hmem]
      obtain ⟨hiff, hvaddr⟩ := ih ((m.mark .kernel i true).pageTableAdd vaddr f) (vaddr + pgSize)
      have hfree : ((m.mark .kernel i true).pageTableAdd vaddr f).freeFrames .kernel =
        (m.mark .kernel i true).freeFrames .kernel := rfl
      refine ⟨hiff.trans ?_, hvaddr⟩
      omega

end Memory

namespace UserSpace

lemma pageTableAdd_spec (u : UserSpace) (page frame : Nat) :
    (u.pageTableAdd page frame).mem.freeFrames .user = u.mem.freeFrames .user ∧
      (u.pageTableAdd page frame).vaddrBitmap = u.vaddrBitmap := by
  rw [pageTableAdd]
  split_ifs
  · exact ⟨rfl, rfl⟩
  · refine ⟨?_, rfl⟩
    simp only [setPte, addTable]
    rcases u.mem.palloc_cases .kernel with ⟨hnone, -⟩ | ⟨f, i, hsome, -⟩
    · rw [hnone, Option.getD_none]
    · rw [hsome, Option.getD_some, Memory.freeFrames_mark_of_ne (by simp)]

lemma mapPages_spec (cnt : Nat) (u : UserSpace) (page : Nat) :
    ((mapPages cnt u page).1 = true ↔ cnt ≤ u.mem.freeFrames .user) ∧
      (mapPages cnt u page).2.vaddrBitmap = u.vaddrBitmap := by
  induction cnt generalizing u page with
  | zero => simp [mapPages]
  | succ cnt ih =>
    rcases u.mem.palloc_cases .user with ⟨hnone, hzero⟩ | ⟨frame, i, hsome, hcount⟩
    · simp [mapPages, hnone, hzero]
    · simp only [mapPages, hsome]
      obtain ⟨hfree, hvaddr⟩ := pageTableAdd_spec { u with mem := u.mem.mark .user i true } page frame
      obtain ⟨hiff, hvaddr'⟩ := ih ({ u with mem := u.mem.mark .user i true }.pageTableAdd page frame)
        (page + 1)
      refine ⟨hiff.trans ?_, hvaddr'.trans hvaddr⟩
      rw [hfree]
      dsimp only
      omega

end UserSpace

namespace PageCaller

variable {c c' : PageCaller} {pf : PoolFlags} {pgCnt vaddr start : Nat}

/-! ### `malloc_page` -/

lemma mallocPage_of_scan_none (h : (c.vaddrBitmap pf).bitmapScan pgCnt = none) :
    c.mallocPage pf pgCnt = (none, c) := by
  cases pf with
  | kernel =>
    have hget : c.space.mem.vaddrGet pgCnt = none := congrArg (Option.map _) h
    simp [mallocPage, Memory.mallocPage, hget, withMem]
  | user =>
    have hscan : c.space.vaddrBitmap.bitmapScan pgCnt = none := h
    simp [mallocPage, UserSpace.mallocPage, hscan]

/-- With addresses `malloc_page` returns NULL when the frames do not suffice; the addresses are marked
in any case. -/
lemma mallocPage_of_scan_some (h : (c.vaddrBitmap pf).bitmapScan pgCnt = some start) :
    ((c.mallocPage pf pgCnt).1 = none ↔ ¬ pgCnt ≤ c.space.mem.freeFrames pf) ∧
      (c.mallocPage pf pgCnt).2.vaddrBitmap pf = Memory.setRun (c.vaddrBitmap pf) start true pgCnt := by
  cases pf with
  | kernel =>
    set m := { c.space.mem with kernelVaddr := Memory.setRun c.space.mem.kernelVaddr start true pgCnt }
    have hget : c.space.mem.vaddrGet pgCnt = some (kHeapStart + start * pgSize, m) :=
      congrArg (Option.map _) h
    obtain ⟨hiff, hvaddr⟩ := Memory.mapPages_spec pgCnt m (kHeapStart + start * pgSize)
    have hfree : m.freeFrames .kernel = c.space.mem.freeFrames .kernel := rfl
    rw [← hfree, ← hiff]
    simp only [mallocPage, Memory.mallocPage, hget, vaddrBitmap, withMem]
    split
    · next heq => simpa [heq] using hvaddr
    · next heq => simpa [heq] using hvaddr
  | user =>
    have hscan : c.space.vaddrBitmap.bitmapScan pgCnt = some start := h
    set u := { c.space with vaddrBitmap := Memory.setRun c.space.vaddrBitmap start true pgCnt } with hu
    obtain ⟨hiff, hvaddr⟩ := UserSpace.mapPages_spec pgCnt u (firstUserPage + start)
    rw [← hiff]
    simp only [mallocPage, UserSpace.mallocPage, hscan, vaddrBitmap, ← hu]
    split
    · next heq => simpa [heq] using hvaddr
    · next heq => simpa [heq] using hvaddr

lemma mallocPage_failsAtomically_iff :
    c.FailsAtomically (.mallocPage pf pgCnt) ↔ c.Enough (.mallocPage pf pgCnt) := by
  cases hscan : (c.vaddrBitmap pf).bitmapScan pgCnt with
  | none =>
    refine iff_of_true (fun c' h => ?_) (.inl hscan)
    rw [exec, mallocPage_of_scan_none hscan] at h
    cases h
    exact ⟨fun _ => rfl, fun _ => rfl, rfl, rfl, rfl, rfl⟩
  | some start =>
    obtain ⟨hnone, hbits⟩ := mallocPage_of_scan_some hscan
    have henough : c.Enough (.mallocPage pf pgCnt) ↔ pgCnt ≤ c.space.mem.freeFrames pf := by
      simp [Enough, hscan]
    rw [henough]
    constructor
    · intro h
      by_contra hfew
      -- the first of the addresses was not marked before
      have hsame := (h (c.mallocPage pf pgCnt).2 (by rw [exec, ← hnone.mpr hfew])).vaddrBitmap pf
      have hclear := (Bitmap.bitmapScan_eq_some hscan (by omega)).2 start le_rfl (by omega)
      rw [← hsame, hbits, Memory.bitmapScanTest_setRun, if_pos ⟨le_rfl, by omega⟩] at hclear
      cases hclear
    · intro hmany c' h
      rw [exec, Option.some.injEq] at h
      exact absurd hmany (hnone.mp (by rw [h]))

/-! ### `get_a_page` -/

lemma markVaddr_eq (c : PageCaller) (pf : PoolFlags) (vaddr : Nat) :
    (c.markVaddr pf vaddr = none ∧ c.hasPgdir ≠ (pf == .user)) ∨
      ∃ c', c.markVaddr pf vaddr = some c' ∧ c.hasPgdir = (pf == .user) ∧ c'.depth = c.depth ∧
        ∀ pf, c'.space.mem.pool pf = c.space.mem.pool pf := by
  obtain ⟨space, hasPgdir, depth⟩ := c
  cases pf <;> cases hasPgdir
  · exact .inr ⟨_, rfl, rfl, rfl, fun pf => by cases pf <;> rfl⟩
  · exact .inl ⟨rfl, by simp⟩
  · exact .inl ⟨rfl, by simp⟩
  · exact .inr ⟨_, rfl, rfl, rfl, fun pf => rfl⟩

lemma getAPage_failsAtomically_iff :
    c.FailsAtomically (.getAPage pf vaddr) ↔ c.Enough (.getAPage pf vaddr) := by
  set c1 := { c with depth := Function.update c.depth pf (c.depth pf + 1) } with hc1
  rcases c1.markVaddr_eq pf vaddr with ⟨hmark, hpanic⟩ | ⟨c2, hmark, hpgdir, hdepth, hpool⟩
  · refine iff_of_true (fun c' h => ?_) (.inl hpanic)
    simp [exec, getAPage, ← hc1, hmark] at h
  · have hfree : c2.space.mem.freeFrames pf = c.space.mem.freeFrames pf := by
      simp only [Memory.freeFrames, Memory.frames, Memory.taken, hpool]
      rfl
    have hexec : c.exec (.getAPage pf vaddr) = _ := congrArg (Option.map _) hmark
    rw [Option.map_some] at hexec
    rcases c2.space.mem.palloc_cases pf with ⟨hnone, hzero⟩ | ⟨frame, i, hsome, hcount⟩
    · refine iff_of_false (fun h => ?_) ?_
      · rw [hnone] at hexec
        -- the lock is held once more
        have hsame := congrFun (h _ hexec).depth pf
        rw [hdepth] at hsame
        simp [hc1] at hsame
      · rintro (hpanic | hpos)
        · exact hpanic hpgdir
        · omega
    · refine iff_of_true (fun c' h => ?_) (.inr (by omega))
      rw [hexec, hsome] at h
      simp at h

/-- A call that returns NULL has done nothing if and only if there are no addresses for the pages or
frames for all of them; a call of `get_a_page` that returns NULL has always done something. -/
theorem failsAtomically_iff (call : PageCall) : c.FailsAtomically call ↔ c.Enough call := by
  cases call with
  | mallocPage pf pgCnt => exact mallocPage_failsAtomically_iff
  | getAPage pf vaddr => exact getAPage_failsAtomically_iff

/-- A process when one frame of the kernel and none of the user is left. -/
def almostOut : PageCaller where
  space :=
    { mem :=
        { kernelPool := ⟨⟨1, fun _ => 0x7f⟩, 0x200000, 8 * pgSize⟩
          userPool := ⟨⟨1, fun _ => 0xff⟩, 0x208000, 8 * pgSize⟩
          kernelVaddr := ⟨1, Bytes.zero⟩
          pte := fun _ => ⟨0, false⟩
          phys := Bytes.zero }
      pde := fun _ => ⟨0, false⟩
      table := fun _ _ => ⟨0, false⟩
      vaddrBitmap := ⟨1, Bytes.zero⟩ }
  hasPgdir := true
  depth := fun _ => 0

/-- Two kernel pages cannot be had, nor the page of the user's stack, and both calls leave traces. -/
theorem not_failsAtomically_almostOut : ¬ almostOut.FailsAtomically (.mallocPage .kernel 2) ∧
    ¬ almostOut.FailsAtomically (.getAPage .user 0xbffff000) := by
  refine ⟨mallocPage_failsAtomically_iff.not.mpr ?_, getAPage_failsAtomically_iff.not.mpr ?_⟩
  · rintro (h | h)
    · exact absurd h (by decide)
    · exact absurd h (by decide)
  · rintro (h | h)
    · exact absurd rfl h
    · exact absurd h (by decide)

end PageCaller

end SimpleOs
