import SimpleOs.Thread.SchedFrame
import SimpleOs.Thread.SchedReachable

/-!
# Locks

`lock_acquire` and `lock_release` of `thread/sync.c`, instruction by instruction: a task can be
pre-empted between any two accesses to the lock, and only `sema_down` and `sema_up` run with the
interrupts off. A task that already holds the lock counts its calls in `holder_repeat_nr`, which has
32 bits.
-/

namespace SimpleOs

open Base Function Option

/-- Where a task is in `lock_acquire` or `lock_release`. `holder_repeat_nr++` and `--` read the
counter and write it back. -/
inductive LockPc where
  | outside
  | testHolder
  | semaDown
  | setHolder
  | setRepeat
  | incLoad
  | incStore (nr : UInt32)
  | testRepeat
  | decLoad
  | decStore (nr : UInt32)
  | clearHolder
  | clearRepeat
  | semaUp
deriving DecidableEq

/-- `struct lock`, its semaphore being one of the scheduler's; where each task is; and how many of
its calls of `lock_acquire` have returned and not been matched by a call of `lock_release`. -/
structure LockState where
  kernel : Kernel
  holder : Option Nat
  holderRepeatNr : UInt32
  pc : Nat → LockPc
  depth : Nat → Nat

namespace LockState

/-- The running task goes on at another place. -/
def goto (s : LockState) (pc : LockPc) : LockState :=
  { s with pc := update s.pc s.kernel.cur pc }

/-- `lock_acquire` returns. -/
def acquired (s : LockState) : LockState :=
  { s with depth := update s.depth s.kernel.cur (s.depth s.kernel.cur + 1) }.goto .outside

/-- The next instruction of the running task, in a lock with semaphore `k`. A task that has been
woken in `sema_down` makes another round of its loop. -/
def next (s : LockState) (k : Nat) : Option LockState :=
  match s.pc s.kernel.cur with
  | .outside => none
  | .testHolder => some (s.goto (if s.holder ≠ some s.kernel.cur then .semaDown else .incLoad))
  | .semaDown =>
    (s.kernel.semaDown k).map fun kernel =>
      { (if s.kernel.value k = 0 then s else s.goto .setHolder) with kernel := kernel }
  | .setHolder => some ({ s with holder := some s.kernel.cur }.goto .setRepeat)
  | .setRepeat => some { s with holderRepeatNr := 1 }.acquired
  | .incLoad => some (s.goto (.incStore s.holderRepeatNr))
  | .incStore nr => some { s with holderRepeatNr := nr + 1 }.acquired
  | .testRepeat => some (s.goto (if 1 < s.holderRepeatNr then .decLoad else .clearHolder))
  | .decLoad => some (s.goto (.decStore s.holderRepeatNr))
  | .decStore nr => some ({ s with holderRepeatNr := nr - 1 }.goto .outside)
  | .clearHolder => some ({ s with holder := none }.goto .clearRepeat)
  | .clearRepeat => some ({ s with holderRepeatNr := 0 }.goto .semaUp)
  | .semaUp => (s.kernel.semaUp k).map fun kernel => { s.goto .outside with kernel := kernel }

end LockState

/-- The running task calls `lock_acquire` or `lock_release`, or goes on in one of them; or another
section of the scheduler runs. -/
inductive LockAct where
  | acquire
  | release
  | next
  | sched (a : SchedAct)

/-- Tasks that use one lock, with semaphore `k`, from `lock_init` on. A task releases the lock when it holds it; it does
not end in the middle of the code of the lock or while it holds it. The timer may interrupt
anywhere. -/
def lockSystem (k : Nat) : System LockState LockAct where
  init s := s.kernel.FreshSema k ∧ s.kernel.value k = 1 ∧ s.holder = none ∧
    s.holderRepeatNr = 0 ∧ s.pc = (fun _ => .outside) ∧ s.depth = fun _ => 0
  step s l s' :=
    match l with
    | .acquire => s.pc s.kernel.cur = .outside ∧ s.kernel.cur ≠ s.kernel.idleThread ∧
        s' = s.goto .testHolder
    | .release => s.pc s.kernel.cur = .outside ∧ 0 < s.depth s.kernel.cur ∧
        s' = { s with
          depth := update s.depth s.kernel.cur (s.depth s.kernel.cur - 1) }.goto .testRepeat
    | .next => s.next k = some s'
    | .sched a => a.Enabled s.kernel ∧ a ≠ .semaDown k ∧ a ≠ .semaUp k ∧
        (a = .timer ∨ s.pc s.kernel.cur = .outside) ∧
        (∀ t b, a = .exit t b → s.pc t = .outside ∧ s.depth t = 0) ∧
        ∃ kernel, a.exec s.kernel = some kernel ∧ s' = { s with kernel := kernel }

/-- The counter does not overflow: no task calls `lock_acquire` when it has done so 2³² - 1 times
without a release. -/
def NestingFits (s : LockState) : LockAct → Prop
  | .acquire => s.depth s.kernel.cur + 1 < 2 ^ 32
  | _ => True

namespace LockState

/-- The calls of `lock_acquire` that have returned, less the calls of `lock_release` that have. -/
def nesting (s : LockState) (t : Nat) : Nat :=
  match s.pc t with
  | .testRepeat | .decLoad | .decStore _ => s.depth t + 1
  | _ => s.depth t

/-- One task at most is between its outermost calls; it is the holder, and the counter is its nesting
depth. The semaphore is 0 or 1. -/
structure Exclusive (s : LockState) (k : Nat) : Prop where
  unique : ∀ t u, 0 < s.depth t → 0 < s.depth u → t = u
  holder : ∀ t, 0 < s.depth t → s.holder = some t ∧ s.holderRepeatNr.toNat = s.nesting t
  value : s.kernel.value k = 0 ∨ s.kernel.value k = 1

/-- What holds of the task `t` that has the unit of the semaphore, by where it is. -/
def OwnerOk (s : LockState) (t : Nat) : Prop :=
  match s.pc t with
  | .outside => 0 < s.depth t ∧ s.holder = some t ∧ s.holderRepeatNr.toNat = s.depth t
  | .testHolder | .incLoad => 0 < s.depth t ∧ s.holder = some t ∧
      s.holderRepeatNr.toNat = s.depth t ∧ s.depth t + 1 < 2 ^ 32
  | .incStore nr => 0 < s.depth t ∧ s.holder = some t ∧ s.holderRepeatNr.toNat = s.depth t ∧
      s.depth t + 1 < 2 ^ 32 ∧ nr = s.holderRepeatNr
  | .semaDown => False
  | .setHolder => s.depth t = 0 ∧ s.holder = none
  | .setRepeat => s.depth t = 0 ∧ s.holder = some t
  | .testRepeat => s.holder = some t ∧ s.holderRepeatNr.toNat = s.depth t + 1
  | .decLoad => 0 < s.depth t ∧ s.holder = some t ∧ s.holderRepeatNr.toNat = s.depth t + 1
  | .decStore nr => 0 < s.depth t ∧ s.holder = some t ∧ s.holderRepeatNr.toNat = s.depth t + 1 ∧
      nr = s.holderRepeatNr
  | .clearHolder => s.depth t = 0 ∧ s.holder = some t
  | .clearRepeat | .semaUp => s.depth t = 0 ∧ s.holder = none

/-- A task without the unit has not got past `sema_down`. -/
def OtherOk (s : LockState) (t : Nat) : Prop :=
  s.depth t = 0 ∧ (s.pc t = .outside ∨ s.pc t = .testHolder ∨ s.pc t = .semaDown)

/-- The task `o` has the unit of the semaphore, or nobody has. -/
structure Inv (s : LockState) (k : Nat) (o : Option Nat) : Prop where
  value : s.kernel.value k = if o = none then 1 else 0
  free : o = none → s.holder = none
  owner : ∀ t, o = some t → s.OwnerOk t
  others : ∀ t, o ≠ some t → s.OtherOk t

variable {s s' : LockState} {k t : Nat} {o : Option Nat}

lemma OwnerOk.holder (h : s.OwnerOk t) : s.holder = some t ∨ s.holder = none := by
  simp only [OwnerOk] at h
  split at h <;> simp_all

lemma Inv.holder (h : s.Inv k o) : s.holder = o ∨ s.holder = none := by
  cases o with
  | none => exact .inr (h.free rfl)
  | some t => exact (h.owner t rfl).holder

lemma Inv.exclusive (h : s.Inv k o) : s.Exclusive k := by
  have hown : ∀ t, 0 < s.depth t → o = some t := by
    intro t ht
    by_contra hne
    exact absurd (h.others t hne).1 ht.ne'
  refine ⟨fun t u ht hu => some.inj ((hown t ht).symm.trans (hown u hu)), fun t ht => ?_, ?_⟩
  · have hok := h.owner t (hown t ht)
    simp only [OwnerOk] at hok
    simp only [nesting]
    split at hok <;> simp_all
  · rw [h.value]
    split_ifs
    · exact .inr rfl
    · exact .inl rfl

/-! ### Steps -/

/-- Nothing but the running task's own place and depth has changed. -/
def OthersKept (s s' : LockState) (t : Nat) : Prop :=
  ∀ u, u ≠ t → s'.pc u = s.pc u ∧ s'.depth u = s.depth u

lemma OtherOk.kept (h : s.OtherOk t) (hkept : OthersKept s s' u) (hne : t ≠ u) : s'.OtherOk t := by
  obtain ⟨hpc, hdepth⟩ := hkept t hne
  simpa only [OtherOk, hpc, hdepth] using h

lemma OwnerOk.kept (h : s.OwnerOk t) (hkept : OthersKept s s' u) (hne : t ≠ u)
    (hholder : s'.holder = s.holder) (hnr : s'.holderRepeatNr = s.holderRepeatNr) : s'.OwnerOk t := by
  obtain ⟨hpc, hdepth⟩ := hkept t hne
  simpa only [OwnerOk, hpc, hdepth, hholder, hnr] using h

lemma Inv.of_owner (h : s.Inv k (some t)) (hkept : OthersKept s s' t)
    (hvalue : s'.kernel.value k = s.kernel.value k) (hok : s'.OwnerOk t) : s'.Inv k (some t) where
  value := hvalue.trans h.value
  free := fun hnone => by cases hnone
  owner := fun u hu => some.inj hu ▸ hok
  others := fun u hu => (h.others u hu).kept hkept fun heq => hu (by rw [heq])

lemma Inv.of_other (h : s.Inv k o) (ho : o ≠ some t) (hkept : OthersKept s s' t)
    (hvalue : s'.kernel.value k = s.kernel.value k) (hholder : s'.holder = s.holder)
    (hnr : s'.holderRepeatNr = s.holderRepeatNr) (hok : s'.OtherOk t) : s'.Inv k o where
  value := hvalue.trans h.value
  free := fun hnone => hholder.trans (h.free hnone)
  owner := fun u hu =>
    (h.owner u hu).kept hkept (fun heq => ho (by rw [← heq]; exact hu)) hholder hnr
  others := fun u hu => by
    by_cases hut : u = t
    · exact hut ▸ hok
    · exact (h.others u hu).kept hkept hut

lemma othersKept_goto (s : LockState) (pc : LockPc) : OthersKept s (s.goto pc) s.kernel.cur :=
  fun _ hu => ⟨update_of_ne hu _ _, rfl⟩

lemma othersKept_acquired (s : LockState) : OthersKept s s.acquired s.kernel.cur :=
  fun _ hu => ⟨update_of_ne hu _ _, update_of_ne hu _ _⟩

@[simp] lemma pc_goto_self (s : LockState) (pc : LockPc) : (s.goto pc).pc s.kernel.cur = pc :=
  update_self _ _ _

@[simp] lemma pc_acquired_self (s : LockState) : s.acquired.pc s.kernel.cur = .outside :=
  update_self _ _ _

@[simp] lemma depth_acquired_self (s : LockState) :
    s.acquired.depth s.kernel.cur = s.depth s.kernel.cur + 1 :=
  update_self _ _ _

section

variable (h : s.Inv k o)
include h

lemma Inv.acquire (hpc : s.pc s.kernel.cur = .outside)
    (hfits : s.depth s.kernel.cur + 1 < 2 ^ 32) : (s.goto .testHolder).Inv k o := by
  by_cases ho : o = some s.kernel.cur
  · subst ho
    have hok := h.owner _ rfl
    simp only [OwnerOk, hpc] at hok
    refine h.of_owner (othersKept_goto s _) rfl ?_
    simp only [OwnerOk, pc_goto_self]
    exact ⟨hok.1, hok.2.1, hok.2.2, hfits⟩
  · refine h.of_other ho (othersKept_goto s _) rfl rfl rfl ?_
    exact ⟨(h.others _ ho).1, .inr (.inl (pc_goto_self s _))⟩

lemma Inv.release (hpc : s.pc s.kernel.cur = .outside) (hdepth : 0 < s.depth s.kernel.cur) :
    ({ s with depth := update s.depth s.kernel.cur (s.depth s.kernel.cur - 1) }.goto
      .testRepeat).Inv k o := by
  have ho : o = some s.kernel.cur := by
    by_contra hne
    exact absurd (h.others _ hne).1 hdepth.ne'
  subst ho
  have hok := h.owner _ rfl
  simp only [OwnerOk, hpc] at hok
  refine h.of_owner (fun u hu => ⟨update_of_ne hu _ _, update_of_ne hu _ _⟩) rfl ?_
  have hpc' : ({ s with depth := update s.depth s.kernel.cur (s.depth s.kernel.cur - 1) }.goto
      .testRepeat).pc s.kernel.cur = .testRepeat := update_self _ _ _
  have hdepth' : ({ s with depth := update s.depth s.kernel.cur (s.depth s.kernel.cur - 1) }.goto
      .testRepeat).depth s.kernel.cur = s.depth s.kernel.cur - 1 := update_self _ _ _
  simp only [OwnerOk, hpc', hdepth']
  exact ⟨hok.2.1, by show s.holderRepeatNr.toNat = _; omega⟩

lemma Inv.sched {a : SchedAct} {kernel : Kernel} (hdown : a ≠ .semaDown k)
    (hup : a ≠ .semaUp k) (hexec : a.exec s.kernel = some kernel) :
    { s with kernel := kernel }.Inv k o := by
  have hvalue : kernel.value k = s.kernel.value k := by
    rw [(SchedAct.exec_frame hexec).1]
    exact (SchedAct.queues_waiters (q := fun _ => []) hdown hup).2
  exact ⟨hvalue.trans h.value, h.free, h.owner, h.others⟩

lemma Inv.semaDown {kernel : Kernel} (hpc : s.pc s.kernel.cur = .semaDown)
    (hexec : s.kernel.semaDown k = some kernel) :
    ∃ o', { (if s.kernel.value k = 0 then s else s.goto .setHolder) with kernel := kernel }.Inv k o' := by
  have ho : o ≠ some s.kernel.cur := by
    rintro rfl
    have hok := h.owner _ rfl
    simp only [OwnerOk, hpc] at hok
  split_ifs with hzero
  · -- it sleeps, or will
    have hvalue := (Kernel.quietBut_semaDown hzero hexec).value
    exact ⟨o, hvalue ▸ h.value, h.free, h.owner, h.others⟩
  · -- the unit is there, so nobody had it
    have hnone : o = none := by
      have hvalue := h.value
      by_contra hne
      rw [if_neg hne] at hvalue
      exact hzero hvalue
    subst hnone
    have hone : s.kernel.value k = 1 := h.value
    obtain rfl := some.inj ((Kernel.semaDown_of_ne_zero hzero).symm.trans hexec)
    have hdepth := (h.others s.kernel.cur ho).1
    refine ⟨some s.kernel.cur, ?_, fun hnone => (by cases hnone), fun u hu => ?_, fun u hu => ?_⟩
    · show update s.kernel.value k (s.kernel.value k - 1) k = 0
      rw [update_self, hone]
      rfl
    · cases hu
      have hpc' : (s.goto .setHolder).pc s.kernel.cur = .setHolder := pc_goto_self s _
      simp only [OwnerOk, hpc']
      exact ⟨hdepth, h.free rfl⟩
    · have hne : u ≠ s.kernel.cur := fun heq => hu (by rw [heq])
      exact (h.others u (by simp)).kept (othersKept_goto s .setHolder) hne

/-- `sema_up` at the end of `lock_release`. -/
lemma Inv.semaUp {kernel : Kernel} (hpc : s.pc s.kernel.cur = .semaUp)
    (hexec : s.kernel.semaUp k = some kernel) :
    { s.goto .outside with kernel := kernel }.Inv k none := by
  have ho : o = some s.kernel.cur := by
    by_contra hne
    have hpc' := (h.others _ hne).2
    simp [hpc] at hpc'
  subst ho
  have hok := h.owner _ rfl
  simp only [OwnerOk, hpc] at hok
  have hvalue := (Kernel.semaUp_spec hexec).1
  refine ⟨?_, fun _ => hok.2, fun u hu => (by cases hu), fun u _ => ?_⟩
  · rw [hvalue, update_self, h.value]
    rfl
  · by_cases hu : u = s.kernel.cur
    · subst hu
      exact ⟨hok.1, .inl (pc_goto_self s .outside)⟩
    · exact (h.others u (by simpa using Ne.symm hu)).kept (othersKept_goto s .outside) hu

/-- A task past `sema_down` has the unit. -/
lemma Inv.eq_owner (houtside : s.pc t ≠ .outside) (htest : s.pc t ≠ .testHolder)
    (hdown : s.pc t ≠ .semaDown) : o = some t := by
  by_contra hne
  obtain hpc | hpc | hpc := (h.others t hne).2
  · exact houtside hpc
  · exact htest hpc
  · exact hdown hpc

/-- The test of `lock_acquire` is right: the lock names the running task when it has the unit. -/
lemma Inv.testHolder (hpc : s.pc s.kernel.cur = .testHolder) :
    (s.goto (if s.holder ≠ some s.kernel.cur then .semaDown else .incLoad)).Inv k o := by
  by_cases ho : o = some s.kernel.cur
  · subst ho
    have hok := h.owner _ rfl
    simp only [OwnerOk, hpc] at hok
    rw [if_neg (by simp [hok.2.1])]
    refine h.of_owner (othersKept_goto s _) rfl ?_
    simp only [OwnerOk, pc_goto_self]
    exact hok
  · have hholder : s.holder ≠ some s.kernel.cur := by
      intro heq
      obtain hown | hnone := h.holder
      · exact ho (hown.symm.trans heq)
      · rw [hnone] at heq
        cases heq
    rw [if_pos hholder]
    refine h.of_other ho (othersKept_goto s _) rfl rfl rfl ?_
    exact ⟨(h.others _ ho).1, .inr (.inr (pc_goto_self s _))⟩

end

/-- An instruction of the owner that is neither the test of `lock_acquire` nor on the semaphore. -/
lemma OwnerOk.next (h : s.OwnerOk s.kernel.cur) (houtside : s.pc s.kernel.cur ≠ .outside)
    (htest : s.pc s.kernel.cur ≠ .testHolder) (hup : s.pc s.kernel.cur ≠ .semaUp)
    (hnext : s.next k = some s') :
    s'.OwnerOk s.kernel.cur ∧ OthersKept s s' s.kernel.cur ∧ s'.kernel = s.kernel := by
  simp only [LockState.next] at hnext
  simp only [OwnerOk] at h
  -- one case per place in the two functions, with what the instruction does there
  cases hpc : s.pc s.kernel.cur with (simp only [hpc, Option.some.injEq] at h hnext; try subst hnext)
  | outside => exact absurd hpc houtside
  | testHolder => exact absurd hpc htest
  | semaUp => exact absurd hpc hup
  | setHolder =>
    refine ⟨?_, othersKept_goto _ _, rfl⟩
    simp only [OwnerOk, goto, update_self]
    exact ⟨h.1, trivial⟩
  | setRepeat =>
    refine ⟨?_, othersKept_acquired _, rfl⟩
    simp only [OwnerOk, acquired, goto, update_self, h.1]
    exact ⟨Nat.one_pos, h.2, rfl⟩
  | incLoad =>
    refine ⟨?_, othersKept_goto _ _, rfl⟩
    simp only [OwnerOk, goto, update_self]
    exact ⟨h.1, h.2.1, h.2.2.1, h.2.2.2, trivial⟩
  | incStore nr =>
    obtain ⟨-, hholder, hnr, hfits, rfl⟩ := h
    refine ⟨?_, othersKept_acquired _, rfl⟩
    simp only [OwnerOk, acquired, goto, update_self]
    refine ⟨Nat.succ_pos _, hholder, ?_⟩
    -- here the counter would wrap
    rw [UInt32.toNat_add, hnr]
    exact Nat.mod_eq_of_lt hfits
  | testRepeat =>
    refine ⟨?_, othersKept_goto _ _, rfl⟩
    have hiff : 1 < s.holderRepeatNr ↔ 0 < s.depth s.kernel.cur := by
      rw [UInt32.lt_iff_toNat_lt, h.2]
      exact Nat.succ_lt_succ_iff
    by_cases hdepth : 0 < s.depth s.kernel.cur
    · rw [if_pos (hiff.2 hdepth)]
      simp only [OwnerOk, goto, update_self]
      exact ⟨hdepth, h⟩
    · rw [if_neg (hdepth ∘ hiff.1)]
      simp only [OwnerOk, goto, update_self]
      exact ⟨Nat.eq_zero_of_not_pos hdepth, h.1⟩
  | decLoad =>
    refine ⟨?_, othersKept_goto _ _, rfl⟩
    simp only [OwnerOk, goto, update_self]
    exact ⟨h.1, h.2.1, h.2.2, trivial⟩
  | decStore nr =>
    obtain ⟨hdepth, hholder, hnr, rfl⟩ := h
    refine ⟨?_, othersKept_goto _ _, rfl⟩
    simp only [OwnerOk, goto, update_self]
    refine ⟨hdepth, hholder, ?_⟩
    have hle : (1 : UInt32) ≤ s.holderRepeatNr := by
      rw [UInt32.le_iff_toNat_le, hnr]
      exact Nat.le_add_left _ _
    rw [UInt32.toNat_sub_of_le _ _ hle, hnr]
    rfl
  | clearHolder =>
    refine ⟨?_, othersKept_goto _ _, rfl⟩
    simp only [OwnerOk, goto, update_self]
    exact ⟨h.1, trivial⟩
  | clearRepeat =>
    refine ⟨?_, othersKept_goto _ _, rfl⟩
    simp only [OwnerOk, goto, update_self]
    exact h

/-- The next instruction of the running task. -/
lemma Inv.next (h : s.Inv k o) (hnext : s.next k = some s') : ∃ o', s'.Inv k o' := by
  by_cases houtside : s.pc s.kernel.cur = .outside
  · simp [LockState.next, houtside] at hnext
  by_cases htest : s.pc s.kernel.cur = .testHolder
  · simp only [LockState.next, htest, Option.some.injEq] at hnext
    exact ⟨o, hnext ▸ h.testHolder htest⟩
  by_cases hdown : s.pc s.kernel.cur = .semaDown
  · simp only [LockState.next, hdown, map_eq_some_iff] at hnext
    obtain ⟨kernel, hexec, rfl⟩ := hnext
    exact h.semaDown hdown hexec
  by_cases hup : s.pc s.kernel.cur = .semaUp
  · simp only [LockState.next, hup, map_eq_some_iff] at hnext
    obtain ⟨kernel, hexec, rfl⟩ := hnext
    exact ⟨none, h.semaUp hup hexec⟩
  have ho := h.eq_owner houtside htest hdown
  subst ho
  obtain ⟨hok, hkept, hkernel⟩ := (h.owner _ rfl).next houtside htest hup hnext
  exact ⟨_, h.of_owner hkept (by rw [hkernel]) hok⟩

end LockState

/-! ### Runs -/

section

variable {k : Nat} {s s' : LockState}

lemma LockState.exists_inv_of_init (h : (lockSystem k).init s) : ∃ o, s.Inv k o := by
  obtain ⟨-, hvalue, hholder, -, hpc, hdepth⟩ := h
  refine ⟨none, hvalue, fun _ => hholder, fun t ht => (by cases ht), fun t _ => ?_⟩
  exact ⟨by rw [hdepth], .inl (by rw [hpc])⟩

lemma LockState.Inv.step {o : Option Nat} (h : s.Inv k o) (hfits : NestingFits s l)
    (hstep : (lockSystem k).step s l s') : ∃ o', s'.Inv k o' := by
  cases l with
  | acquire =>
    obtain ⟨hpc, -, rfl⟩ := hstep
    exact ⟨o, h.acquire hpc hfits⟩
  | release =>
    obtain ⟨hpc, hdepth, rfl⟩ := hstep
    exact ⟨o, h.release hpc hdepth⟩
  | next => exact h.next hstep
  | sched a =>
    obtain ⟨-, hdown, hup, -, -, kernel, hexec, rfl⟩ := hstep
    exact ⟨o, h.sched hdown hup hexec⟩

end

/-- While the counter does not overflow, the lock excludes: at every point of every run one task at
most is between its outermost calls, the lock names it and counts its nesting depth, and the semaphore
is 0 or 1. -/
theorem lock_exclusive_of_reachable {k : Nat} {s : LockState}
    (h : (lockSystem k).Reachable NestingFits s) : s.Exclusive k := by
  obtain ⟨o, hinv⟩ := h.invariant (fun s => ∃ o, s.Inv k o)
    (fun _ hinit => LockState.exists_inv_of_init hinit)
    (fun _ _ _ ⟨_, hinv⟩ hfits hstep => hinv.step hfits hstep)
  exact hinv.exclusive

/-! ### Overflow of the counter -/

/-- The running task has called `lock_acquire` `n` times without a release. -/
structure LockState.Nested (s : LockState) (n : Nat) : Prop where
  cur : s.kernel.cur ≠ s.kernel.idleThread
  pc : s.pc s.kernel.cur = .outside
  depth : s.depth s.kernel.cur = n
  holder : s.holder = some s.kernel.cur
  nr : s.holderRepeatNr = UInt32.ofNat n

/-- The steps of a task that calls `lock_acquire` and is not interrupted. -/
def LockState.acquireStep (k : Nat) (s : LockState) : LockAct → Option LockState
  | .acquire =>
    if s.pc s.kernel.cur = .outside ∧ s.kernel.cur ≠ s.kernel.idleThread then
      some (s.goto .testHolder)
    else
      none
  | .next => s.next k
  | _ => none

lemma LockState.step_of_acquireStep (s : LockState) (l : LockAct) (s' : LockState)
    (h : s.acquireStep k l = some s') : (lockSystem k).step s l s' := by
  cases l with
  | acquire =>
    simp only [acquireStep, ite_none_right_eq_some, Option.some.injEq] at h
    exact ⟨h.1.1, h.1.2, h.2.symm⟩
  | next => exact h
  | release => cases h
  | sched a => cases h

/-- The main thread takes the lock. -/
lemma exists_nested_one : ∃ s, (lockSystem 7).Reachable NestingFits s ∧ s.Nested 1 := by
  have hrun : ((Kernel.threadInit 0 1 2 fun _ => 1).bind fun kernel =>
      (System.follow (LockState.acquireStep 7) (fun s _ => decide (s.depth s.kernel.cur + 1 < 2 ^ 32))
        ⟨kernel, none, 0, fun _ => .outside, fun _ => 0⟩ [.acquire, .next, .next, .next, .next]).map
      fun s => ((kernel.value 7, s.kernel.cur, s.kernel.idleThread), s.pc 1, s.depth 1, s.holder,
        s.holderRepeatNr)) = some ((1, 1, 2), .outside, 1, some 1, 1) := by decide +kernel
  obtain ⟨kernel, hkernel, hrun⟩ := bind_eq_some_iff.mp hrun
  obtain ⟨s, hs, hrun⟩ := map_eq_some_iff.mp hrun
  simp only [Prod.mk.injEq] at hrun
  obtain ⟨⟨hvalue, hcur, hidle⟩, hpc, hdepth, hholder, hnr⟩ := hrun
  have hinit : (lockSystem 7).Reachable NestingFits ⟨kernel, none, 0, fun _ => .outside, fun _ => 0⟩ :=
    .init ⟨freshSema_of_init ⟨0, 1, 2, fun _ => 1, by decide, by decide, by decide, hkernel⟩ 7, hvalue,
      rfl, rfl, rfl, rfl⟩
  have hfits : ∀ (s : LockState) (l : LockAct),
      decide (s.depth s.kernel.cur + 1 < 2 ^ 32) = true → NestingFits s l := by
    intro s l hdepth
    cases l with
    | acquire =>
      show s.depth s.kernel.cur + 1 < 2 ^ 32
      exact of_decide_eq_true hdepth
    | _ => trivial
  refine ⟨s, hinit.follow LockState.step_of_acquireStep hfits hs, ?_⟩
  exact ⟨by simp [hcur, hidle], hcur ▸ hpc, hcur ▸ hdepth, hcur ▸ hholder, hnr⟩

/-- The holder takes it once more. -/
lemma LockState.Nested.succ {s : LockState} {n : Nat} (h : s.Nested n)
    (hs : (lockSystem 7).Reachable (fun _ _ => True) s) :
    ∃ s', (lockSystem 7).Reachable (fun _ _ => True) s' ∧ s'.Nested (n + 1) := by
  have hrun : System.follow (LockState.acquireStep 7) (fun _ _ => true) s
      [.acquire, .next, .next, .next] = some { s with holderRepeatNr := s.holderRepeatNr + 1 }.acquired := by
    simp [System.follow, LockState.acquireStep, LockState.next, LockState.goto, LockState.acquired,
      h.pc, h.cur, h.holder]
  refine ⟨_, hs.follow LockState.step_of_acquireStep (fun _ _ _ => trivial) hrun, ?_⟩
  refine ⟨h.cur, pc_acquired_self _, ?_, h.holder, ?_⟩
  · refine (depth_acquired_self _).trans ?_
    rw [h.depth]
  · rw [h.nr, UInt32.ofNat_add]
    rfl

lemma exists_nested (n : Nat) :
    ∃ s, (lockSystem 7).Reachable (fun _ _ => True) s ∧ s.Nested (n + 1) := by
  induction n with
  | zero =>
    obtain ⟨s, hs, hnested⟩ := exists_nested_one
    exact ⟨s, hs.mono fun _ _ _ => trivial, hnested⟩
  | succ n ih =>
    obtain ⟨s, hs, hnested⟩ := ih
    exact hnested.succ hs

/-- After 2³² calls without a release the counter is 0 again. -/
theorem not_exclusive_of_overflow :
    ¬∀ s, (lockSystem 7).Reachable (fun _ _ => True) s → s.Exclusive 7 := by
  intro hall
  obtain ⟨s, hs, hnested⟩ := exists_nested (2 ^ 32 - 1)
  have hpos : 0 < s.depth s.kernel.cur := by
    rw [hnested.depth]
    exact Nat.succ_pos _
  have hnr := ((hall s hs).holder _ hpos).2
  rw [LockState.nesting, hnested.pc, hnested.depth, hnested.nr] at hnr
  simp at hnr

/-- The main thread has the lock once. -/
theorem lock_exclusive_main :
    ∃ s : LockState, s.depth s.kernel.cur = 1 ∧ s.holder = some s.kernel.cur ∧ s.Exclusive 7 := by
  obtain ⟨s, hs, hnested⟩ := exists_nested_one
  exact ⟨s, hnested.depth, hnested.holder, lock_exclusive_of_reachable hs⟩

end SimpleOs
