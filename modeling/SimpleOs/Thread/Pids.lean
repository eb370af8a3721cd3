import SimpleOs.Lib.BitmapScan
import SimpleOs.Thread.Sched

/-!
# Process numbers

`allocate_pid` and `release_pid` of `thread/thread.c` with the types of the source: a scan that
fails returns `-1`, which is then used as an index like any other.
-/

namespace SimpleOs

open Base Bitmap

/-- `struct pid_pool`, less its lock. -/
structure PidPool where
  pidBitmap : Bitmap
  pidStart : UInt32

namespace PidPool

/-- `pid_pool_init`, with the memory the bits are in. -/
def pidPoolInit (memory : Bytes) : PidPool := ⟨bitmapInit ⟨128, memory⟩, 1⟩

variable (p : PidPool)

/-- The index `allocate_pid` passes to `bitmap_set`. -/
def allocateIdx : UInt32 := (p.pidBitmap.bitmapScanInt 1).toUInt32

/-- `allocate_pid`. The sum is a `uint32_t`, the result a 16-bit `pid_t`. -/
def allocatePid : Int16 × PidPool :=
  ((p.allocateIdx + p.pidStart).toUInt16.toInt16,
    { p with pidBitmap := p.pidBitmap.bitmapSet p.allocateIdx.toNat true })

/-- The index `release_pid` passes to `bitmap_set`. -/
def releaseIdx (pid : Int16) : UInt32 := pid.toInt32.toUInt32 - p.pidStart

/-- `release_pid`. -/
def releasePid (pid : Int16) : PidPool :=
  { p with pidBitmap := p.pidBitmap.bitmapSet (p.releaseIdx pid).toNat false }

end PidPool

/-- The pid pool and the pids of the tasks that are alive. -/
structure PidState where
  pool : PidPool
  live : List Int16

/-- What happens to the pid pool. A fork that runs out of memory behind `fork_pid` has taken a pid
and leaves no task. -/
inductive PidStep where
  | initThread
  | forkPid
  | forkFails
  | threadExit (i : Nat)

namespace PidState

/-- A task is created with the pid that is handed out. -/
def create (s : PidState) : PidState :=
  ⟨s.pool.allocatePid.2, s.live ++ [s.pool.allocatePid.1]⟩

/-- One step; `thread_exit` is for a task that is alive. -/
def exec (s : PidState) : PidStep → Option PidState
  | .initThread => some s.create
  | .forkPid => some s.create
  | .forkFails => some { s with pool := s.pool.allocatePid.2 }
  | .threadExit i => s.live[i]?.map fun pid => ⟨s.pool.releasePid pid, s.live.eraseIdx i⟩

/-- The index of the bitmap update of a step. -/
def updated (s : PidState) : PidStep → Option UInt32
  | .threadExit i => s.live[i]?.map s.pool.releaseIdx
  | _ => some s.pool.allocateIdx

/-- Some pid is free. -/
def HasFree (s : PidState) : Prop := ∃ n < 1024, s.pool.pidBitmap.bitmapScanTest n = false

/-- All tasks that are alive have distinct pids in `1..1024`. -/
def PidsUnique (s : PidState) : Prop :=
  s.live.Nodup ∧ ∀ pid ∈ s.live, 1 ≤ pid.toInt ∧ pid.toInt ≤ 1024

/-- A step leaves the pids unique, updates a bit of the bitmap, and creates no task when no pid is
free. -/
structure StepRight (s : PidState) (a : PidStep) (s' : PidState) : Prop where
  unique : s'.PidsUnique
  update : ∀ i, s.updated a = some i → i.toNat < 1024
  fails : ¬ s.HasFree → (∀ i, a ≠ .threadExit i) → s' = s

/-- A step that takes a pid is taken when one is free. -/
def StepOk (s : PidState) (a : PidStep) : Prop := (∃ i, a = .threadExit i) ∨ s.HasFree

/-- The pid pool from `pid_pool_init` on. -/
def pidSystem : System PidState PidStep where
  init s := ∃ memory, s = ⟨.pidPoolInit memory, []⟩
  step s a s' := s.exec a = some s'

/-- Every live task's pid has its bit set, and no two tasks share one. -/
structure Inv (s : PidState) : Prop where
  len : s.pool.pidBitmap.btmpBytesLen = 128
  start : s.pool.pidStart = 1
  nodup : s.live.Nodup
  taken : ∀ pid ∈ s.live, ∃ n : Nat, n < 1024 ∧ pid.toInt = (n : Int) + 1 ∧
    s.pool.pidBitmap.bitmapScanTest n = true

lemma Inv.pidsUnique {s : PidState} (h : s.Inv) : s.PidsUnique := by
  refine ⟨h.nodup, fun pid hpid => ?_⟩
  obtain ⟨n, hn, heq, -⟩ := h.taken pid hpid
  omega

lemma inv_init (memory : Bytes) : Inv ⟨.pidPoolInit memory, []⟩ :=
  ⟨rfl, rfl, List.nodup_nil, by simp⟩

/-! ### Indices and pids -/

lemma toInt_pid (hn : n < 1024) :
    (UInt32.ofNat n + 1).toUInt16.toInt16.toInt = (n : Int) + 1 := by
  have h : (UInt32.ofNat n + 1).toUInt16.toInt16.toInt = ((n : Int) + 1).bmod (2 ^ 16) := by simp
  rw [h]
  exact Int.bmod_eq_of_le (by omega) (by omega)

lemma releaseIdx_eq {p : PidPool} (hstart : p.pidStart = 1) {pid : Int16} {n : Nat} (hn : n < 1024)
    (h : pid.toInt = (n : Int) + 1) : p.releaseIdx pid = UInt32.ofNat n := by
  have hpid : pid.toInt32 = (UInt32.ofNat (n + 1)).toInt32 := by
    rw [← Int32.toInt_inj, toInt_index, Nat.mod_eq_of_lt (by omega), if_pos (by omega)]
    simpa using h
  rw [PidPool.releaseIdx, hstart, hpid, UInt32.toUInt32_toInt32]
  simp

lemma allocateIdx_of_free {s : PidState} (h : s.Inv) (hfree : s.HasFree) :
    ∃ n < 1024, s.pool.allocateIdx = UInt32.ofNat n ∧ s.pool.pidBitmap.FirstClear n := by
  obtain ⟨m, hm, hclear⟩ := hfree
  rcases s.pool.pidBitmap.bitmapScanInt_cases (show 0 < (1 : UInt32).toNat by decide) with
    ⟨hfull, -⟩ | ⟨n, hfirst, ⟨-, hr⟩ | ⟨htwo, -⟩⟩
  · rw [hfull m (by rw [h.len]; omega)] at hclear
    cases hclear
  · refine ⟨n, by have := hfirst.1; rw [h.len] at this; omega, ?_, hfirst⟩
    simp [PidPool.allocateIdx, hr]
  · exact absurd htwo (by decide)

/-- With no pid free, the index is `0xffffffff`. -/
lemma allocateIdx_of_full {s : PidState} (h : s.Inv) (hfull : ¬ s.HasFree) :
    s.pool.allocateIdx = 0xffffffff := by
  rcases s.pool.pidBitmap.bitmapScanInt_cases (show 0 < (1 : UInt32).toNat by decide) with
    ⟨-, hr⟩ | ⟨n, hfirst, -⟩
  · rw [PidPool.allocateIdx, hr]
    decide
  · exact absurd ⟨n, by have := hfirst.1; rw [h.len] at this; omega, hfirst.2.1⟩ hfull

/-! ### Steps -/

variable {s s' : PidState}

section

variable (h : s.Inv)
include h

lemma inv_allocate : Inv { s with pool := s.pool.allocatePid.2 } := by
  refine ⟨h.len, h.start, h.nodup, fun pid hpid => ?_⟩
  obtain ⟨n, hn, heq, hset⟩ := h.taken pid hpid
  refine ⟨n, hn, heq, ?_⟩
  simp only [PidPool.allocatePid, bitmapScanTest_bitmapSet]
  split_ifs
  · rfl
  · exact hset

/-- A created task gets a pid no other task has. -/
lemma inv_create (hfree : s.HasFree) : s.create.Inv := by
  obtain ⟨n, hn, hidx, -, hclear, -⟩ := allocateIdx_of_free h hfree
  have halloc := inv_allocate h
  have hpid : s.pool.allocatePid.1.toInt = (n : Int) + 1 := by
    simp only [PidPool.allocatePid, hidx, h.start]
    exact toInt_pid hn
  have hnew : s.pool.allocatePid.1 ∉ s.live := by
    intro hmem
    obtain ⟨m, -, heq, hset⟩ := h.taken _ hmem
    obtain rfl : m = n := by omega
    rw [hclear] at hset
    cases hset
  refine ⟨halloc.len, halloc.start, ?_, fun pid hmem => ?_⟩
  · rw [create, ← List.concat_eq_append]
    exact h.nodup.concat hnew
  · rcases List.mem_append.mp hmem with hold | hlast
    · exact halloc.taken pid hold
    · rw [List.mem_singleton.mp hlast]
      refine ⟨n, hn, hpid, ?_⟩
      simp only [create, PidPool.allocatePid, hidx, UInt32.toNat_ofNat',
        bitmapScanTest_bitmapSet, Nat.mod_eq_of_lt (show n < 2 ^ 32 by omega), if_true]

/-- A task that ends gives back its own pid only. -/
lemma inv_threadExit (hi : s.live[i]? = some pid) :
    Inv ⟨s.pool.releasePid pid, s.live.eraseIdx i⟩ := by
  obtain ⟨n, hn, heq, -⟩ := h.taken pid (List.mem_of_getElem? hi)
  have hidx := releaseIdx_eq h.start hn heq
  obtain ⟨hlt, hget⟩ := List.getElem?_eq_some_iff.mp hi
  have herase : s.live.eraseIdx i = s.live.erase pid := by
    rw [← hget, h.nodup.erase_getElem]
  rw [herase]
  refine ⟨h.len, h.start, h.nodup.erase pid, fun q hq => ?_⟩
  obtain ⟨hqne, hqmem⟩ := h.nodup.mem_erase_iff.mp hq
  obtain ⟨m, hm, hqm, hset⟩ := h.taken q hqmem
  refine ⟨m, hm, hqm, ?_⟩
  -- the other task has another pid
  have hne : m ≠ n := by
    rintro rfl
    exact hqne (Int16.toInt_inj.mp (hqm.trans heq.symm))
  simp only [PidPool.releasePid, hidx, UInt32.toNat_ofNat', bitmapScanTest_bitmapSet,
    Nat.mod_eq_of_lt (show n < 2 ^ 32 by omega)]
  rw [if_neg hne, hset]

lemma inv_exec (hok : s.StepOk a) (hs : s.exec a = some s') : s'.Inv := by
  have hfree : (∀ i, a ≠ .threadExit i) → s.HasFree := fun hne =>
    hok.resolve_left fun ⟨i, hi⟩ => hne i hi
  cases a with
  | initThread => cases hs; exact inv_create h (hfree (by simp))
  | forkPid => cases hs; exact inv_create h (hfree (by simp))
  | forkFails => cases hs; exact inv_allocate h
  | threadExit i =>
    obtain ⟨pid, hi, rfl⟩ := Option.map_eq_some_iff.mp hs
    exact inv_threadExit h hi

lemma update_lt (hok : s.StepOk a) (hi : s.updated a = some i) : i.toNat < 1024 := by
  have halloc : s.HasFree → s.pool.allocateIdx.toNat < 1024 := by
    intro hfree
    obtain ⟨n, hn, hidx, -⟩ := allocateIdx_of_free h hfree
    rw [hidx, UInt32.toNat_ofNat', Nat.mod_eq_of_lt (by omega)]
    exact hn
  cases a with
  | threadExit j =>
    obtain ⟨pid, hj, rfl⟩ := Option.map_eq_some_iff.mp hi
    obtain ⟨n, hn, heq, -⟩ := h.taken pid (List.mem_of_getElem? hj)
    rw [releaseIdx_eq h.start hn heq, UInt32.toNat_ofNat', Nat.mod_eq_of_lt (by omega)]
    exact hn
  | initThread => cases hi; exact halloc (hok.resolve_left (by simp))
  | forkPid => cases hi; exact halloc (hok.resolve_left (by simp))
  | forkFails => cases hi; exact halloc (hok.resolve_left (by simp))

/-- A step is right exactly when it takes no pid or one is free. -/
lemma stepRight_iff (hs : s.exec a = some s') : s.StepRight a s' ↔ s.StepOk a := by
  constructor
  · intro hright
    by_contra hnot
    rw [StepOk, not_or] at hnot
    obtain ⟨hne, hfull⟩ := hnot
    have hupdate : s.updated a = some s.pool.allocateIdx := by
      cases a with
      | threadExit i => exact absurd ⟨i, rfl⟩ hne
      | _ => rfl
    have hlt := hright.update _ hupdate
    rw [allocateIdx_of_full h hfull] at hlt
    exact absurd hlt (by decide)
  · intro hok
    refine ⟨(inv_exec h hok hs).pidsUnique, fun i hi => ?_, fun hfull hne => ?_⟩
    · exact update_lt h hok hi
    · exact absurd (hok.resolve_left fun ⟨i, hi⟩ => hne i hi) hfull

end

lemma inv_of_reachable (h : pidSystem.Reachable StepOk s) : s.Inv := by
  refine h.invariant Inv ?_ fun s a s' hinv hok hs => inv_exec hinv hok hs
  rintro s ⟨memory, rfl⟩
  exact inv_init memory

/-- In every run that takes a pid only when one is free the pids are unique, and a further step is
right exactly when it does the same. -/
theorem pidsUnique_of_reachable (h : pidSystem.Reachable StepOk s) :
    s.PidsUnique ∧ ∀ a s', s.exec a = some s' → (s.StepRight a s' ↔ s.StepOk a) :=
  ⟨(inv_of_reachable h).pidsUnique, fun _ _ hs => stepRight_iff (inv_of_reachable h) hs⟩

lemma hasFree_start : HasFree ⟨.pidPoolInit Bytes.zero, []⟩ := ⟨0, by decide, by decide⟩

/-- The pool with the first task. -/
theorem pidsUnique_first :
    pidSystem.Reachable StepOk (create ⟨.pidPoolInit Bytes.zero, []⟩) ∧
      (create ⟨.pidPoolInit Bytes.zero, []⟩).PidsUnique := by
  have hreach : pidSystem.Reachable StepOk (create ⟨.pidPoolInit Bytes.zero, []⟩) :=
    .step (l := .initThread) (.init ⟨Bytes.zero, rfl⟩) (.inr hasFree_start) rfl
  exact ⟨hreach, (pidsUnique_of_reachable hreach).1⟩

/-! ### No pid is free -/

/-- Created one after the other, `n` tasks take the first `n` pids. -/
lemma exists_taken (hn : n ≤ 1024) :
    ∃ s, pidSystem.Reachable (fun _ _ => True) s ∧ s.Inv ∧
      ∀ i < 1024, s.pool.pidBitmap.bitmapScanTest i = decide (i < n) := by
  induction n with
  | zero =>
    refine ⟨⟨.pidPoolInit Bytes.zero, []⟩, .init ⟨_, rfl⟩, inv_init _, fun i hi => ?_⟩
    have hzero : Bytes.fill Bytes.zero 0 0 128 (i / 8) = 0 := by
      simp [Bytes.fill, Bytes.zero]
    simp [PidPool.pidPoolInit, bitmapInit, bitmapScanTest, hzero]
  | succ n ih =>
    obtain ⟨s, hreach, hinv, hbits⟩ := ih (by omega)
    have hclear : s.pool.pidBitmap.bitmapScanTest n = false := by simp [hbits n (by omega)]
    have hfree : s.HasFree := ⟨n, by omega, hclear⟩
    obtain ⟨m, hm, hidx, -, hm', hbelow⟩ := allocateIdx_of_free hinv hfree
    -- the lowest clear bit is that of index `n`
    obtain rfl : m = n := by
      rw [hbits m hm, decide_eq_false_iff_not] at hm'
      by_contra hne
      have hset := hbelow n (by omega)
      rw [hclear] at hset
      cases hset
    refine ⟨s.create, hreach.step (l := .initThread) trivial rfl, inv_create hinv hfree,
      fun i hi => ?_⟩
    simp only [create, PidPool.allocatePid, hidx, UInt32.toNat_ofNat',
      bitmapScanTest_bitmapSet, Nat.mod_eq_of_lt (show m < 2 ^ 32 by omega), hbits i hi]
    split_ifs with him
    · simp [him]
    · rw [decide_eq_decide]
      omega

/-- The task created with all pids taken gets one all the same. -/
theorem not_forall_pidsUnique :
    ¬ ∀ s, pidSystem.Reachable (fun _ _ => True) s →
      s.PidsUnique ∧ ∀ a s', s.exec a = some s' → s.StepRight a s' := by
  intro h
  obtain ⟨s, hreach, hinv, hbits⟩ := exists_taken (Nat.le_refl 1024)
  have hfull : ¬ s.HasFree := by
    rintro ⟨n, hn, hclear⟩
    simp [hbits n hn, hn] at hclear
  have hok := (stepRight_iff hinv (a := .initThread) rfl).mp ((h s hreach).2 .initThread _ rfl)
  rcases hok with ⟨i, hi⟩ | hfree
  · cases hi
  · exact hfull hfree

/-- While a pid is free, `allocate_pid` of the scheduler's model gives the pid of the 16-bit one. -/
theorem allocatePid_of_reachable (k : Kernel) (h : pidSystem.Reachable StepOk s) (hfree : s.HasFree)
    (hk : k.pidBitmap = s.pool.pidBitmap) :
    k.allocatePid = some (s.pool.allocatePid.1.toInt,
      { k with pidBitmap := s.pool.allocatePid.2.pidBitmap }) := by
  have hinv := inv_of_reachable h
  obtain ⟨n, hn, hidx, hfirst⟩ := allocateIdx_of_free hinv hfree
  obtain ⟨m, hm⟩ := exists_bitmapScan_one hfirst.1 hfirst.2.1
  have hscan : s.pool.pidBitmap.bitmapScan 1 = some n := by
    have hm' : s.pool.pidBitmap.FirstClear m := bitmapScan_one_eq_some hm
    rw [hm, hm'.isLeast.unique hfirst.isLeast]
  simp only [Kernel.allocatePid, hk, hscan, Option.map_some, PidPool.allocatePid, hidx, hinv.start,
    toInt_pid hn, UInt32.toNat_ofNat', Nat.mod_eq_of_lt (show n < 2 ^ 32 by omega)]

/-- The first pid is 1. -/
theorem allocatePid_first :
    (Kernel.allocatePid { Kernel.boot 0 1 fun _ => 0 with
      pidBitmap := (PidPool.pidPoolInit Bytes.zero).pidBitmap }).map Prod.fst = some 1 := by
  rw [allocatePid_of_reachable _ (.init ⟨Bytes.zero, rfl⟩) hasFree_start rfl]
  decide

end PidState

end SimpleOs
