import Mathlib
import SimpleOs.Thread.SchedFrame
import SimpleOs.Thread.SchedReachable

/-!
# No waiter is stranded

A task that `sema_up` takes from the waiters does not get the unit: it looks at the value again when
it runs, and another task may have been faster. While somebody waits, there are at least as many
tasks on their way to look again as the semaphore has units, so a unit is never left lying while
everybody sleeps.
-/

namespace SimpleOs

open Base Function Option Kernel

/-- The scheduler, with the tasks that are blocked in `sema_down` on one semaphore and those that
`sema_up` has woken and that have not looked at the value again. -/
structure SemaState where
  kernel : Kernel
  asleep : Finset Nat
  signalled : Finset Nat

/-- The task `sema_up` would wake. -/
def Kernel.firstWaiter (s : Kernel) (k : Nat) : Option Nat :=
  if (Queue.waiters k).ends.listEmpty s.links then none else (s.pop (.waiters k)).map Prod.fst

namespace SemaState

/-- How a section changes who sleeps on semaphore `k` and who has been woken. -/
def track (s : SemaState) (k : Nat) (a : SchedAct) (kernel : Kernel) : SemaState :=
  match a with
  | .semaDown j =>
    if j = k then
      { kernel := kernel
        asleep := if s.kernel.value k = 0 then insert s.kernel.cur s.asleep else s.asleep
        signalled := s.signalled.erase s.kernel.cur }
    else { s with kernel := kernel }
  | .semaUp j =>
    if j = k then
      match s.kernel.firstWaiter k with
      | none => { s with kernel := kernel }
      | some t =>
        { kernel := kernel, asleep := s.asleep.erase t, signalled := insert t s.signalled }
    else { s with kernel := kernel }
  | _ => { s with kernel := kernel }

end SemaState

/-- The scheduler, seen from semaphore `k`. A task that has been woken in `sema_down` runs with the
interrupts off: it does nothing before it looks at the value again. -/
def semaSystem (k : Nat) : System SemaState SchedAct where
  init s := schedSystem.init s.kernel ∧ s.asleep = ∅ ∧ s.signalled = ∅
  step s a s' := a.Enabled s.kernel ∧ (s.kernel.cur ∈ s.signalled → a = .semaDown k) ∧
    ∃ kernel, a.exec s.kernel = some kernel ∧ s' = s.track k a kernel

/-- The lists `q` are those of the scheduler, the waiters of `k` are the tasks that sleep on it, and
the woken ones are awake and not fewer than the units while somebody waits. -/
structure SemaInv (k : Nat) (s : SemaState) (q : Queue → List Nat) : Prop where
  lists : ListInv s.kernel q (some s.kernel.cur)
  waiters : ∀ t, t ∈ q (.waiters k) ↔ t ∈ s.asleep
  signalled : ∀ t ∈ s.signalled, s.kernel.Awake t
  value : q (.waiters k) ≠ [] → (s.kernel.value k).toNat ≤ s.signalled.card

variable {k t : Nat} {s s' : SemaState} {q : Queue → List Nat} {kernel : Kernel} {a : SchedAct}

lemma SemaInv.notMem_asleep (h : SemaInv k s q) (ht : t ∈ s.signalled) : t ∉ s.asleep := by
  intro hsleep
  obtain ⟨-, hblocked, -⟩ := h.lists.waiters k t ((h.waiters t).mpr hsleep)
  rcases (h.signalled t ht).2 with hst | hst <;> simp [hst] at hblocked

lemma firstWaiter_eq (hholds : Holds kernel.links q) :
    kernel.firstWaiter k = (q (.waiters k)).head? := by
  simp only [firstWaiter, listEmpty_eq hholds]
  cases hq : q (.waiters k) with
  | nil => simp
  | cons t l =>
    obtain ⟨m, hm, -⟩ := pop_eq hholds hq
    simp [hm]

lemma SemaInv.awake (h : SemaInv k s q) (ha : a.Enabled s.kernel)
    (hexec : a.exec s.kernel = some kernel) (ht : t ∈ s.signalled) (hcur : t ≠ s.kernel.cur) :
    kernel.Awake t := by
  obtain ⟨-, -, hawake⟩ := SchedAct.exec_frame hexec
  exact hawake t (SchedAct.subject_ne ha (h.signalled t ht) hcur) (h.signalled t ht)

/-- A section that is about something else leaves the semaphore alone. -/
lemma SemaInv.of_other (h : SemaInv k s q) (ha : a.Enabled s.kernel)
    (hcur : s.kernel.cur ∉ s.signalled) (hexec : a.exec s.kernel = some kernel)
    (hdown : a ≠ .semaDown k) (hup : a ≠ .semaUp k) :
    ∃ q', SemaInv k { s with kernel := kernel } q' := by
  obtain ⟨s1, l, hs1, hlists⟩ := h.lists.exec ha
  obtain rfl := some.inj (hs1.symm.trans hexec)
  obtain ⟨hqueue, hvalue⟩ := SchedAct.queues_waiters (s := s.kernel) (q := q) hdown hup
  have hwaiters : update (a.queues s.kernel q) .ready l (.waiters k) = q (.waiters k) := by
    rw [update_of_ne (by simp), hqueue]
  refine ⟨_, hlists, ?_, fun t ht => ?_, ?_⟩
  · rw [hwaiters]
    exact h.waiters
  · refine h.awake ha hexec ht ?_
    rintro rfl
    exact hcur ht
  · rw [hwaiters, (SchedAct.exec_frame hexec).1, hvalue]
    exact h.value

/-- A round of `sema_down`: the task has looked at the value. -/
lemma SemaInv.semaDown (h : SemaInv k s q) (ha : (SchedAct.semaDown k).Enabled s.kernel)
    (hexec : (SchedAct.semaDown k).exec s.kernel = some kernel) :
    ∃ q', SemaInv k (s.track k (.semaDown k) kernel) q' := by
  obtain ⟨s1, l, hs1, hlists⟩ := h.lists.exec ha
  obtain rfl := some.inj (hs1.symm.trans hexec)
  have hvalue := (SchedAct.exec_frame hexec).1
  have hawake : ∀ t ∈ s.signalled.erase s.kernel.cur, s1.Awake t := fun t ht =>
    h.awake ha hexec (Finset.mem_of_mem_erase ht) (Finset.ne_of_mem_erase ht)
  refine ⟨_, by simpa only [SemaState.track, if_true] using hlists, ?_, ?_, ?_⟩
  all_goals simp only [SemaState.track, if_true]
  · intro t
    rw [update_of_ne (by simp)]
    simp only [SchedAct.queues]
    split_ifs
    · simp only [update_self, List.mem_append, List.mem_singleton, Finset.mem_insert,
        h.waiters, or_comm]
    · exact h.waiters t
  · exact hawake
  · rw [hvalue]
    simp only [SchedAct.queues, SchedAct.values]
    split_ifs with hzero
    · intro _
      rw [hzero]
      exact Nat.zero_le _
    · intro hne
      -- one unit fewer, and one woken task fewer at most
      have hle := h.value hne
      have hcard := Finset.pred_card_le_card_erase (a := s.kernel.cur) (s := s.signalled)
      have hsub : (s.kernel.value k - 1).toNat = (s.kernel.value k).toNat - 1 := by
        have hpos : (s.kernel.value k).toNat ≠ 0 := fun heq => hzero (UInt8.toNat_inj.mp heq)
        refine UInt8.toNat_sub_of_le _ _ (UInt8.le_iff_toNat_le.mpr ?_)
        exact Nat.one_le_iff_ne_zero.mpr hpos
      rw [update_self]
      omega

/-- The task that `sema_up` takes from the waiters is ready. -/
lemma awake_of_semaUp {s s' : Kernel} {r : Option Nat} {rest : List Nat} (h : ListInv s q r)
    (hq : q (.waiters k) = t :: rest) (hexec : s.semaUp k = some s') : s'.Awake t := by
  obtain ⟨hall, hblocked, -⟩ := h.waiters k t (by simp [hq])
  obtain ⟨m, hm, hholds⟩ := pop_eq h.holds hq
  obtain ⟨hinv, hloose⟩ := h.dequeueWaiter hq hholds
  obtain ⟨m', hm', -⟩ := hinv.threadUnblock hall (.inl hblocked) hloose
  simp only [semaUp, wakeWaiter, listEmpty_eq h.holds, hq, hm, hm',
    reduceCtorEq, decide_false, Bool.false_eq_true, if_false, bind_eq_bind,
    bind_some] at hexec
  cases hexec
  exact ⟨hall, .inr ((status_setStatus _ t .ready t).trans (if_pos rfl))⟩

/-- `sema_up`: the first waiter, if there is one, is woken. -/
lemma SemaInv.semaUp (h : SemaInv k s q) (hcur : s.kernel.cur ∉ s.signalled)
    (hexec : (SchedAct.semaUp k).exec s.kernel = some kernel) :
    ∃ q', SemaInv k (s.track k (.semaUp k) kernel) q' := by
  have ha : (SchedAct.semaUp k).Enabled s.kernel := trivial
  obtain ⟨s1, l, hs1, hlists⟩ := h.lists.exec ha
  obtain rfl := some.inj (hs1.symm.trans hexec)
  have hvalue := (SchedAct.exec_frame hexec).1
  have hawake : ∀ t ∈ s.signalled, s1.Awake t := fun t ht => by
    refine h.awake ha hexec ht ?_
    rintro rfl
    exact hcur ht
  have hwaiters : update ((SchedAct.semaUp k).queues s.kernel q) .ready l (.waiters k) =
      (q (.waiters k)).tail := by
    exact update_self _ _ _
  have hfirst : s.kernel.firstWaiter k = (q (.waiters k)).head? := firstWaiter_eq h.lists.holds
  cases hq : q (.waiters k) with
  | nil =>
    rw [hq, List.head?_nil] at hfirst
    rw [hq, List.tail_nil] at hwaiters
    refine ⟨_, by simpa only [SemaState.track, if_true, hfirst] using hlists, ?_, ?_, ?_⟩
    all_goals simp only [SemaState.track, if_true, hfirst]
    · rw [hwaiters, ← hq]
      exact h.waiters
    · exact hawake
    · rw [hwaiters]
      exact fun hne => absurd rfl hne
  | cons u rest =>
    rw [hq, List.head?_cons] at hfirst
    have hnodup := h.lists.holds.nodup (.waiters k)
    rw [hq] at hnodup
    have hu : u ∈ s.asleep := (h.waiters u).mp (by simp [hq])
    have hfresh : u ∉ s.signalled := fun hsig => h.notMem_asleep hsig hu
    refine ⟨_, by simpa only [SemaState.track, if_true, hfirst] using hlists, ?_, ?_, ?_⟩
    all_goals simp only [SemaState.track, if_true, hfirst]
    · intro t
      rw [hwaiters, Finset.mem_erase, ← h.waiters, hq, List.mem_cons]
      constructor
      · intro ht
        refine ⟨?_, .inr ht⟩
        rintro rfl
        exact (List.nodup_cons.mp hnodup).1 ht
      · rintro ⟨hne, ht⟩
        exact ht.resolve_left hne
    · intro t ht
      rcases Finset.mem_insert.mp ht with rfl | ht
      · exact awake_of_semaUp h.lists hq hexec
      · exact hawake t ht
    · intro _
      -- one unit more, and one woken task more
      have hle := h.value (by simp [hq])
      have hadd : (s.kernel.value k + 1).toNat ≤ (s.kernel.value k).toNat + 1 := by
        exact Nat.mod_le _ _
      rw [hvalue, Finset.card_insert_of_notMem hfresh]
      simp only [SchedAct.values, update_self]
      omega

lemma SemaInv.step (h : SemaInv k s q) (hstep : (semaSystem k).step s a s') :
    ∃ q', SemaInv k s' q' := by
  obtain ⟨ha, hagain, kernel, hexec, rfl⟩ := hstep
  by_cases hdown : a = .semaDown k
  · subst hdown
    exact h.semaDown ha hexec
  · have hcur : s.kernel.cur ∉ s.signalled := fun hmem => hdown (hagain hmem)
    by_cases hup : a = .semaUp k
    · subst hup
      exact h.semaUp hcur hexec
    · have htrack : s.track k a kernel = { s with kernel := kernel } := by
        cases a with
        | semaDown j =>
          have hne : j ≠ k := fun heq => hdown (by rw [heq])
          simp only [SemaState.track, if_neg hne]
        | semaUp j =>
          have hne : j ≠ k := fun heq => hup (by rw [heq])
          simp only [SemaState.track, if_neg hne]
        | timer | block | unblockParent | yield | ioqWait | wakeup | fork | exit => rfl
      rw [htrack]
      exact h.of_other ha hcur hexec hdown hup

lemma SemaInv.of_reachable {ok : SemaState → SchedAct → Prop} (h : (semaSystem k).Reachable ok s) :
    ∃ q, SemaInv k s q := by
  refine h.invariant (fun s => ∃ q, SemaInv k s q) ?_ ?_
  · rintro s ⟨hinit, hasleep, hsignalled⟩
    obtain ⟨q, hinv, hnil⟩ := freshSema_of_init hinit k
    refine ⟨q, hinv, fun t => ?_, ?_, fun hne => absurd hnil hne⟩
    · simp [hasleep, hnil]
    · simp [hsignalled]
  · rintro s a s' ⟨q, hinv⟩ _ hstep
    exact hinv.step hstep

/-- The waiters of a semaphore are the tasks that are blocked in `sema_down` on it, each once. While
there are some, as many tasks as the semaphore has units have been woken and are about to look at
the value again, so it never has a unit while one sleeps and none has been woken. -/
theorem waiters_of_reachable (k : Nat) {s : SemaState}
    (h : (semaSystem k).Reachable (fun _ _ => True) s) :
    ∃ l : List Nat, (Queue.waiters k).ends.IsList s.kernel.links (l.map .tag) ∧ l.Nodup ∧
      (∀ t, t ∈ l ↔ t ∈ s.asleep) ∧
      (∀ t ∈ s.asleep, t ∈ s.kernel.threadAllList ∧ s.kernel.status t = .blocked) ∧
      (∀ t ∈ s.signalled, s.kernel.Awake t) ∧
      (l ≠ [] → (s.kernel.value k).toNat ≤ s.signalled.card) ∧
      ¬(0 < s.kernel.value k ∧ l ≠ [] ∧ s.signalled = ∅) := by
  obtain ⟨q, hinv⟩ := SemaInv.of_reachable h
  refine ⟨q (.waiters k), hinv.lists.holds.lists _, hinv.lists.holds.nodup _, hinv.waiters,
    fun t ht => ?_, hinv.signalled, hinv.value, ?_⟩
  · obtain ⟨hall, hblocked, -⟩ := hinv.lists.waiters k t ((hinv.waiters t).mpr ht)
    exact ⟨hall, hblocked⟩
  · rintro ⟨hpos, hne, hnone⟩
    have hle := hinv.value hne
    rw [hnone, Finset.card_empty] at hle
    exact absurd (UInt8.lt_iff_toNat_lt.mp hpos) (Nat.not_lt.mpr hle)

/-- The main thread sleeps on a semaphore without units; the init process wakes it. -/
theorem waiters_of_wakeup :
    ∃ s : SemaState, s.signalled = {1} ∧ s.kernel.value 7 = 1 ∧
      ∃ l : List Nat, (Queue.waiters 7).ends.IsList s.kernel.links (l.map .tag) ∧
        (∀ t, t ∈ l ↔ t ∈ s.asleep) ∧ (∀ t ∈ s.signalled, s.kernel.Awake t) := by
  have hrun : ((threadInit 0 1 2 fun _ => 0).bind fun s₀ => (s₀.semaDown 7).bind fun s₁ =>
      (s₁.semaUp 7).map fun s₂ => (s₀.cur, s₀.idleThread, s₀.value 7, s₁.firstWaiter 7, s₂.value 7)) =
      some (1, 2, 0, some 1, 1) := by decide +kernel
  obtain ⟨s₀, h₀, hrun⟩ := bind_eq_some_iff.mp hrun
  obtain ⟨s₁, h₁, hrun⟩ := bind_eq_some_iff.mp hrun
  obtain ⟨s₂, h₂, hrun⟩ := map_eq_some_iff.mp hrun
  simp only [Prod.mk.injEq] at hrun
  obtain ⟨hcur, hidle, hzero, hfirst, hone⟩ := hrun
  have hreach₀ : (semaSystem 7).Reachable (fun _ _ => True) ⟨s₀, ∅, ∅⟩ :=
    .init ⟨⟨0, 1, 2, _, by decide, by decide, by decide, h₀⟩, rfl, rfl⟩
  have hreach₁ : (semaSystem 7).Reachable (fun _ _ => True) ⟨s₁, {1}, ∅⟩ := by
    refine .step hreach₀ trivial (l := .semaDown 7) ⟨?_, fun hmem => absurd hmem (Finset.notMem_empty _), s₁, h₁, ?_⟩
    · simp [SchedAct.Enabled, hcur, hidle]
    · simp [SemaState.track, hzero, hcur]
  have hreach₂ : (semaSystem 7).Reachable (fun _ _ => True) ⟨s₂, ∅, {1}⟩ := by
    refine .step hreach₁ trivial (l := .semaUp 7)
      ⟨trivial, fun hmem => absurd hmem (Finset.notMem_empty _), s₂, h₂, ?_⟩
    simp [SemaState.track, hfirst]
  obtain ⟨l, hlist, -, hmem, -, hawake, -⟩ := waiters_of_reachable 7 hreach₂
  exact ⟨_, rfl, hone, l, hlist, hmem, hawake⟩

end SimpleOs
