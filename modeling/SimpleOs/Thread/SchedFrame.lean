import SimpleOs.Thread.SchedSafety

/-!
# What a section leaves alone

The values of the semaphores and the waiters of the io queues change in the functions that are
about them and nowhere else, and no task that is ready is put to sleep by another one.
-/

namespace SimpleOs

open Base Function Option Kernel

namespace Kernel

variable {s s' s₁ s₂ s₃ : Kernel} {t u c k : Nat}

/-- A task that is running or will be run. -/
def Awake (s : Kernel) (t : Nat) : Prop :=
  t ∈ s.threadAllList ∧ (s.status t = .running ∨ s.status t = .ready)

/-- The semaphores and io queues are as they were, and nobody who was awake sleeps. -/
structure Quiet (s s' : Kernel) : Prop where
  value : s'.value = s.value
  waiter : s'.waiter = s.waiter
  awake : ∀ t, s.Awake t → s'.Awake t

lemma Quiet.refl (s : Kernel) : s.Quiet s := ⟨rfl, rfl, fun _ ht => ht⟩

lemma Quiet.trans (h : s₁.Quiet s₂) (h' : s₂.Quiet s₃) : s₁.Quiet s₃ where
  value := h'.value.trans h.value
  waiter := h'.waiter.trans h.waiter
  awake := fun t ht => h'.awake t (h.awake t ht)

lemma quiet_append (h : s.append q t = some s') : s.Quiet s' := by
  obtain ⟨m, -, rfl⟩ := map_eq_some_iff.mp h
  exact ⟨rfl, rfl, fun _ ht => ht⟩

lemma pop_cases (h : s.pop q = some (t, s')) : ∃ m, s' = s.withLinks m := by
  obtain ⟨⟨x, m⟩, -, h⟩ := bind_eq_some_iff.mp h
  cases x with
  | tag u =>
    cases h
    exact ⟨m, rfl⟩
  | head q => cases h
  | tail q => cases h

lemma quiet_pop (h : s.pop q = some (t, s')) : s.Quiet s' ∧ s'.cur = s.cur := by
  obtain ⟨m, rfl⟩ := pop_cases h
  exact ⟨⟨rfl, rfl, fun _ ht => ht⟩, rfl⟩

lemma quiet_setStatus (hst : st = .running ∨ st = .ready) : s.Quiet (s.setStatus t st) := by
  refine ⟨rfl, rfl, fun u hu => ?_⟩
  refine ⟨hu.1, ?_⟩
  rw [status_setStatus]
  split_ifs
  · exact hst
  · exact hu.2

lemma quiet_threadUnblock (h : s.threadUnblock t = some s') : s.Quiet s' ∧ s'.cur = s.cur := by
  simp only [threadUnblock] at h
  split_ifs at h
  · obtain ⟨found, -, h⟩ := bind_eq_some_iff.mp h
    split_ifs at h
    obtain ⟨s₁, hpush, h⟩ := bind_eq_some_iff.mp h
    obtain ⟨m, -, rfl⟩ := map_eq_some_iff.mp hpush
    cases h
    have hlinks : s.Quiet (s.withLinks m) := ⟨rfl, rfl, fun _ ht => ht⟩
    exact ⟨hlinks.trans (quiet_setStatus (.inr rfl)), rfl⟩
  · cases h
    exact ⟨.refl s, rfl⟩

lemma quiet_enqueueCur (h : s.enqueueCur = some s') : s.Quiet s' := by
  simp only [enqueueCur] at h
  split_ifs at h
  · obtain ⟨s₁, happend, h⟩ := bind_eq_some_iff.mp h
    cases h
    refine (quiet_append happend).trans ⟨rfl, rfl, fun u hu => ?_⟩
    refine ⟨hu.1, ?_⟩
    rw [status_setTask]
    split_ifs
    · exact .inr rfl
    · exact hu.2
  · cases h
    exact .refl s

lemma quiet_wakeIdle (h : s.wakeIdle = some s') : s.Quiet s' := by
  simp only [wakeIdle] at h
  split_ifs at h
  · exact (quiet_threadUnblock h).1
  · cases h
    exact .refl s

lemma quiet_switchToNext (h : s.switchToNext = some s') : s.Quiet s' := by
  simp only [switchToNext] at h
  split_ifs at h
  obtain ⟨⟨next, s₁⟩, hpop, h⟩ := bind_eq_some_iff.mp h
  cases h
  refine (quiet_pop hpop).1.trans ((quiet_setStatus (.inl rfl) : s₁.Quiet (s₁.setStatus next .running)).trans ?_)
  exact ⟨rfl, rfl, fun _ ht => ht⟩

lemma quiet_schedule (h : s.schedule = some s') : s.Quiet s' := by
  obtain ⟨s₁, h1, h⟩ := bind_eq_some_iff.mp h
  obtain ⟨s₂, h2, h3⟩ := bind_eq_some_iff.mp h
  exact ((quiet_enqueueCur h1).trans (quiet_wakeIdle h2)).trans (quiet_switchToNext h3)

/-- The semaphores and io queues are as they were, and nobody but one task falls asleep or ends. -/
structure QuietBut (s : Kernel) (t : Nat) (s' : Kernel) : Prop where
  value : s'.value = s.value
  waiter : s'.waiter = s.waiter
  awake : ∀ u, u ≠ t → s.Awake u → s'.Awake u

lemma Quiet.but (h : s.Quiet s') (t : Nat) : s.QuietBut t s' :=
  ⟨h.value, h.waiter, fun u _ hu => h.awake u hu⟩

lemma QuietBut.trans (h : s₁.QuietBut t s₂) (h' : s₂.QuietBut t s₃) : s₁.QuietBut t s₃ where
  value := h'.value.trans h.value
  waiter := h'.waiter.trans h.waiter
  awake := fun u hne hu => h'.awake u hne (h.awake u hne hu)

lemma quietBut_setTask (s : Kernel) (t : Nat) (f : Task → Task) : s.QuietBut t (s.setTask t f) := by
  refine ⟨rfl, rfl, fun u hne hu => ⟨hu.1, ?_⟩⟩
  rw [status_setTask, if_neg hne]
  exact hu.2

lemma quietBut_threadBlock (h : s.threadBlock st = some s') : s.QuietBut s.cur s' :=
  (quietBut_setTask s s.cur _).trans ((quiet_schedule h).but _)

lemma quietBut_threadYield (h : s.threadYield = some s') : s.QuietBut s.cur s' := by
  obtain ⟨s₁, happend, h⟩ := bind_eq_some_iff.mp h
  have hset : s₁.Quiet (s₁.setStatus s₁.cur .ready) := quiet_setStatus (.inr rfl)
  exact (((quiet_append happend).trans hset).trans (quiet_schedule h)).but s.cur

lemma quietBut_intrTimerHandler (h : s.intrTimerHandler = some s') : s.QuietBut s.cur s' := by
  simp only [intrTimerHandler] at h
  have htick : s.QuietBut s.cur s.countTick := quietBut_setTask s s.cur _
  split_ifs at h
  · exact htick.trans ((quiet_schedule h).but _)
  · cases h
    exact htick.trans (quietBut_setTask s.countTick s.cur _)

lemma quietBut_erase (s : Kernel) (t : Nat) (pid : Int) :
    s.QuietBut t ({ s with threadAllList := s.threadAllList.erase t }.releasePid pid) :=
  ⟨rfl, rfl, fun _ hne hu => ⟨(List.mem_erase_of_ne hne).mpr hu.1, hu.2⟩⟩

lemma quietBut_forgetTask (h : s.forgetTask t = some s') : s.QuietBut t s' := by
  obtain ⟨found, -, h⟩ := bind_eq_some_iff.mp h
  have hset : s.QuietBut t (s.setStatus t .died) := quietBut_setTask s t _
  cases found
  · cases h
    exact hset.trans (quietBut_erase _ t _)
  · obtain ⟨s₁, hs1, h⟩ := bind_eq_some_iff.mp h
    obtain ⟨m, -, rfl⟩ := map_eq_some_iff.mp hs1
    cases h
    have hlinks : (s.setStatus t .died).QuietBut t ((s.setStatus t .died).withLinks m) :=
      ⟨rfl, rfl, fun _ _ hu => hu⟩
    exact (hset.trans hlinks).trans (quietBut_erase _ t _)

lemma quietBut_threadExit (h : s.threadExit t b = some s') : s.QuietBut t s' := by
  obtain ⟨s₁, hforget, h⟩ := bind_eq_some_iff.mp h
  split_ifs at h
  · exact (quietBut_forgetTask hforget).trans ((quiet_schedule h).but t)
  · cases h
    exact quietBut_forgetTask hforget

lemma quietBut_sysFork {pid : Int} (h : s.sysFork t pid = some s') : s.QuietBut t s' := by
  obtain ⟨s₁, happend, h⟩ := bind_eq_some_iff.mp h
  cases h
  have hset : s.QuietBut t (s.setTask t fun _ => childOf (s.task s.cur) pid) := quietBut_setTask s t _
  have hlinks := (quiet_append happend).but t
  refine hset.trans ⟨hlinks.value, hlinks.waiter, fun u hne hu => ?_⟩
  have hawake := hlinks.awake u hne hu
  exact ⟨List.mem_append_left _ hawake.1, hawake.2⟩

/-! ### Semaphores and io queues -/

/-- A round of `sema_down` that takes a unit. -/
lemma semaDown_of_ne_zero (hk : s.value k ≠ 0) :
    s.semaDown k = some { s with value := update s.value k (s.value k - 1) } :=
  if_neg hk

/-- A round that blocks. -/
lemma quietBut_semaDown (hk : s.value k = 0) (h : s.semaDown k = some s') : s.QuietBut s.cur s' := by
  simp only [semaDown, if_pos hk] at h
  obtain ⟨found, -, h⟩ := bind_eq_some_iff.mp h
  split_ifs at h
  obtain ⟨s₁, happend, h⟩ := bind_eq_some_iff.mp h
  have hcur : s₁.cur = s.cur := by
    obtain ⟨m, -, rfl⟩ := map_eq_some_iff.mp happend
    rfl
  have hblock := quietBut_threadBlock h
  rw [hcur] at hblock
  have hquiet := quiet_append happend
  exact ⟨hblock.value.trans hquiet.value, hblock.waiter.trans hquiet.waiter,
    fun u hne hu => hblock.awake u hne (hquiet.awake u hu)⟩

lemma quiet_wakeWaiter (h : s.wakeWaiter k = some s') : s.Quiet s' ∧ s'.cur = s.cur := by
  simp only [wakeWaiter] at h
  split_ifs at h
  · cases h
    exact ⟨.refl s, rfl⟩
  · obtain ⟨⟨t, s₁⟩, hpop, h⟩ := bind_eq_some_iff.mp h
    obtain ⟨hquiet, hcur⟩ := quiet_pop hpop
    exact ⟨hquiet.trans (quiet_threadUnblock h).1, (quiet_threadUnblock h).2.trans hcur⟩

lemma semaUp_spec (h : s.semaUp k = some s') :
    s'.value = update s.value k (s.value k + 1) ∧ s'.waiter = s.waiter ∧
      (∀ t, s.Awake t → s'.Awake t) ∧ s'.cur = s.cur := by
  obtain ⟨s₁, hwake, h⟩ := bind_eq_some_iff.mp h
  cases h
  obtain ⟨hquiet, hcur⟩ := quiet_wakeWaiter hwake
  exact ⟨by rw [hquiet.value], hquiet.waiter, hquiet.awake, hcur⟩

lemma ioqWait_spec (h : s.ioqWait c = some s') :
    s'.value = s.value ∧ s'.waiter = update s.waiter c (some s.cur) ∧
      ∀ t, t ≠ s.cur → s.Awake t → s'.Awake t := by
  have hblock := quietBut_threadBlock h
  exact ⟨hblock.value, hblock.waiter, hblock.awake⟩

lemma wakeup_spec (h : s.wakeup c = some s') :
    s'.value = s.value ∧ s'.waiter = update s.waiter c none ∧
      (∀ t, s.Awake t → s'.Awake t) ∧ s'.cur = s.cur := by
  obtain ⟨t, -, h⟩ := bind_eq_some_iff.mp h
  obtain ⟨s₁, hunblock, h⟩ := bind_eq_some_iff.mp h
  cases h
  obtain ⟨hquiet, hcur⟩ := quiet_threadUnblock hunblock
  exact ⟨hquiet.value, by rw [hquiet.waiter], hquiet.awake, hcur⟩

end Kernel

/-! ### Sections -/

namespace SchedAct

variable {s s' : Kernel} {a : SchedAct} {t k : Nat}

/-- The values of the semaphores after a section. -/
def values (s : Kernel) : SchedAct → Nat → UInt8
  | semaDown k => if s.value k = 0 then s.value else update s.value k (s.value k - 1)
  | semaUp k => update s.value k (s.value k + 1)
  | _ => s.value

/-- The `producer` and `consumer` fields after a section. -/
def waiters (s : Kernel) : SchedAct → Nat → Option Nat
  | ioqWait c => update s.waiter c (some s.cur)
  | wakeup c => update s.waiter c none
  | _ => s.waiter

/-- The task a section may put to sleep or end. -/
def subject (s : Kernel) : SchedAct → Nat
  | fork t _ => t
  | exit t _ => t
  | _ => s.cur

/-- What a section does to the semaphores, the io queues and the other tasks. -/
lemma exec_frame (h : a.exec s = some s') :
    s'.value = a.values s ∧ s'.waiter = a.waiters s ∧
      ∀ t, t ≠ a.subject s → s.Awake t → s'.Awake t := by
  have hframe : ∀ t, s.QuietBut t s' →
      s'.value = s.value ∧ s'.waiter = s.waiter ∧ ∀ u, u ≠ t → s.Awake u → s'.Awake u :=
    fun t hquiet => ⟨hquiet.value, hquiet.waiter, hquiet.awake⟩
  cases a with
  | timer => exact hframe _ (quietBut_intrTimerHandler h)
  | block stat => exact hframe _ (quietBut_threadBlock h)
  | unblockParent t => exact hframe _ ((quiet_threadUnblock h).1.but _)
  | yield => exact hframe _ (quietBut_threadYield h)
  | semaDown k =>
    by_cases hk : s.value k = 0
    · have hquiet := quietBut_semaDown hk h
      exact ⟨by rw [hquiet.value, values, if_pos hk], hquiet.waiter, hquiet.awake⟩
    · obtain rfl := some.inj ((semaDown_of_ne_zero hk).symm.trans h)
      exact ⟨by rw [values, if_neg hk], rfl, fun t _ ht => ht⟩
  | semaUp k =>
    obtain ⟨hvalue, hwaiter, hawake, -⟩ := semaUp_spec h
    exact ⟨hvalue, hwaiter, fun t _ ht => hawake t ht⟩
  | ioqWait c => exact ioqWait_spec h
  | wakeup c =>
    obtain ⟨hvalue, hwaiter, hawake, -⟩ := wakeup_spec h
    exact ⟨hvalue, hwaiter, fun t _ ht => hawake t ht⟩
  | fork t pid => exact hframe _ (quietBut_sysFork h)
  | exit t needSchedule => exact hframe _ (quietBut_threadExit h)

/-- A section of another task leaves those that are awake alone. -/
lemma subject_ne (ha : a.Enabled s) (ht : s.Awake t) (hcur : t ≠ s.cur) : t ≠ a.subject s := by
  cases a with
  | fork t' pid =>
    rintro rfl
    exact ha ht.1
  | exit t' needSchedule =>
    rintro rfl
    cases needSchedule with
    | false =>
      have hhang : s.status t = .hanging := by simpa using ha.2
      rcases ht.2 with hst | hst <;> simp [hhang] at hst
    | true => exact hcur ha.2.1
  | timer | block | unblockParent | yield | semaDown | semaUp | ioqWait | wakeup => exact hcur

/-- Only `sema_down` and `sema_up` on a semaphore change its waiters and its value. -/
lemma queues_waiters (hdown : a ≠ .semaDown k) (hup : a ≠ .semaUp k) :
    a.queues s q (.waiters k) = q (.waiters k) ∧ a.values s k = s.value k := by
  cases a with
  | semaDown j =>
    have hne : j ≠ k := fun heq => hdown (by rw [heq])
    simp only [queues, values]
    split_ifs
    · exact ⟨update_of_ne (by simp [hne.symm]) _ _, rfl⟩
    · exact ⟨rfl, update_of_ne hne.symm _ _⟩
  | semaUp j =>
    have hne : j ≠ k := fun heq => hup (by rw [heq])
    exact ⟨update_of_ne (by simp [hne.symm]) _ _, update_of_ne hne.symm _ _⟩
  | timer | block | unblockParent | yield | ioqWait | wakeup | fork | exit => exact ⟨rfl, rfl⟩

end SchedAct

end SimpleOs
