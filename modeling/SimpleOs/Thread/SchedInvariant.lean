import SimpleOs.Thread.Sched

/-!
# The lists of the scheduler

`Holds m q` says which tasks are in which list, `ListInv s q r` how that fits the statuses when
the running task is `r`. Inside `schedule` nobody is running, so the running task is a parameter
of the invariant. Each function of the scheduler is shown to succeed and to keep it.
-/

namespace SimpleOs

open Base Function List

/-! ### Tags in lists -/

/-- List `i` holds the tags of the tasks `q i`, and no tag is in two lists. -/
structure Holds (m : Links Node) (q : Queue → List Nat) : Prop where
  lists : ∀ i : Queue, i.ends.IsList m ((q i).map .tag)
  disjoint : ∀ i j t, t ∈ q i → t ∈ q j → i = j

namespace Holds

variable {q : Queue → List Nat} {i : Queue} {t : Nat}

lemma nodup (h : Holds m q) (i : Queue) : (q i).Nodup := (h.lists i).nodup.of_map

lemma holdsAll_iff : Holds m q ↔ HoldsAll m Queue.ends fun i => (q i).map .tag := by
  refine ⟨fun h => ⟨h.lists, fun i j y hi hj => ?_⟩, fun h => ⟨h.lists, fun i j t hi hj => ?_⟩⟩
  · -- sentinels of different lists differ, and a common tag would be in both lists
    simp only [ListEnds.mem_nodes, Queue.ends, mem_map] at hi hj
    rcases hi with rfl | ⟨t, ht, rfl⟩ | rfl
    · simpa using hj
    · simp only [Node.tag.injEq, exists_eq_right, reduceCtorEq, false_or, or_false] at hj
      exact h.disjoint i j t ht hj
    · simpa using hj
  · exact h.disjoint i j (.tag t) (by simp [hi]) (by simp [hj])

lemma of_update (h : HoldsAll m Queue.ends (update (fun j => (q j).map .tag) i (l.map .tag))) :
    Holds m (update q i l) := by
  rw [holdsAll_iff]
  convert h using 2 with j
  exact apply_update (fun _ => map Node.tag) q i l j

private lemma tag_notMem (ht : t ∉ q i) : Node.tag t ∉ i.ends.nodes ((q i).map .tag) := by
  simp [ListEnds.mem_nodes, Queue.ends, ht]

variable (h : Holds m q)
include h

lemma append (ht : ∀ j, t ∉ q j) :
    ∃ m', i.ends.listAppend m (.tag t) = some m' ∧ Holds m' (update q i (q i ++ [t])) := by
  obtain ⟨m', hm', hall⟩ := (holdsAll_iff.mp h).listAppend (i := i) fun j => tag_notMem (ht j)
  exact ⟨m', hm', of_update (by simpa using hall)⟩

lemma push (ht : ∀ j, t ∉ q j) :
    ∃ m', i.ends.listPush m (.tag t) = some m' ∧ Holds m' (update q i (t :: q i)) := by
  obtain ⟨m', hm', hall⟩ := (holdsAll_iff.mp h).listPush (i := i) fun j => tag_notMem (ht j)
  exact ⟨m', hm', of_update hall⟩

lemma pop (hq : q i = t :: l) :
    ∃ m', i.ends.listPop m = some (.tag t, m') ∧ Holds m' (update q i l) := by
  obtain ⟨m', hm', hall⟩ := (holdsAll_iff.mp h).listPop (i := i) (congrArg (map Node.tag) hq)
  exact ⟨m', hm', of_update hall⟩

lemma elemFind (hfuel : (q i).length + 1 ≤ fuel) :
    i.ends.elemFind m fuel (.tag t) = some (decide (t ∈ q i)) := by
  have hlen : ((q i).map Node.tag).length < fuel := by rwa [length_map]
  simpa using (h.lists i).elemFind (x := .tag t) hlen

lemma resetTag (ht : ∀ j, t ∉ q j) : Holds ((m.setPrev (.tag t) none).setNext (.tag t) none) q := by
  refine ⟨fun i => (h.lists i).of_sameAt fun y hy => ?_, h.disjoint⟩
  have hne : y ≠ .tag t := by
    rintro rfl
    exact tag_notMem (ht i) hy
  simp [Links.SameAt, hne]

end Holds

/-! ### Lists and statuses -/

/-- The lists agree with the statuses, `r` being the running task. A task that sleeps in an
io queue is in no list, and the idle thread sleeps nowhere. -/
structure ListInv (s : Kernel) (q : Queue → List Nat) (r : Option Nat) : Prop where
  holds : Holds s.links q
  nodup : s.threadAllList.Nodup
  running : ∀ t, r = some t ↔ t ∈ s.threadAllList ∧ s.status t = .running
  ready : ∀ t, t ∈ q .ready ↔ t ∈ s.threadAllList ∧ s.status t = .ready
  waiters : ∀ k t, t ∈ q (.waiters k) →
    t ∈ s.threadAllList ∧ s.status t = .blocked ∧ t ≠ s.idleThread
  waiter : ∀ c t, s.waiter c = some t →
    t ∈ s.threadAllList ∧ s.status t = .blocked ∧ t ≠ s.idleThread ∧ ∀ k, t ∉ q (.waiters k)
  waiter_inj : ∀ c c' t, s.waiter c = some t → s.waiter c' = some t → c = c'
  idle_mem : s.idleThread ∈ s.threadAllList
  idle_status : s.status s.idleThread = .running ∨ s.status s.idleThread = .ready ∨
    s.status s.idleThread = .blocked

/-- Nothing but a call of `schedule` waits for the task. -/
def Kernel.Loose (s : Kernel) (q : Queue → List Nat) (t : Nat) : Prop :=
  (∀ k, t ∉ q (.waiters k)) ∧ ∀ c, s.waiter c ≠ some t

namespace ListInv

variable {s s' : Kernel} {q : Queue → List Nat} {t : Nat}

section

variable (h : ListInv s q r)
include h

lemma loose_of_status (ht : s.status t ≠ .blocked) : s.Loose q t :=
  ⟨fun k hk => ht (h.waiters k t hk).2.1, fun c hc => ht (h.waiter c t hc).2.1⟩

lemma loose_idle : s.Loose q s.idleThread :=
  ⟨fun k hk => (h.waiters k _ hk).2.2 rfl, fun c hc => (h.waiter c _ hc).2.2.1 rfl⟩

lemma notMem_queues (hloose : ∀ k, t ∉ q (.waiters k))
    (ht : s.status t ≠ .ready) (j : Queue) : t ∉ q j := by
  cases j with
  | ready => exact fun hmem => ht ((h.ready t).mp hmem).2
  | waiters k => exact hloose k

lemma queue_subset (i : Queue) : q i ⊆ s.threadAllList := by
  intro t ht
  cases i with
  | ready => exact ((h.ready t).mp ht).1
  | waiters k => exact (h.waiters k t ht).1

lemma elemFind (i : Queue) : s.elemFind i t = some (decide (t ∈ q i)) :=
  h.holds.elemFind
    (Nat.succ_le_succ ((h.holds.nodup i).length_le_of_subset (h.queue_subset i)))

/-- The invariant speaks of the lists and statuses only. -/
lemma congr (hlinks : s'.links = s.links)
    (hall : s'.threadAllList = s.threadAllList) (hidle : s'.idleThread = s.idleThread)
    (hwaiter : s'.waiter = s.waiter) (hstatus : ∀ t, s'.status t = s.status t) :
    ListInv s' q r where
  holds := hlinks ▸ h.holds
  nodup := hall ▸ h.nodup
  running := by simpa only [hall, hstatus] using h.running
  ready := by simpa only [hall, hstatus] using h.ready
  waiters := by simpa only [hall, hstatus, hidle] using h.waiters
  waiter := by simpa only [hall, hstatus, hidle, hwaiter] using h.waiter
  waiter_inj := by simpa only [hwaiter] using h.waiter_inj
  idle_mem := by simpa only [hall, hidle] using h.idle_mem
  idle_status := by simpa only [hstatus, hidle] using h.idle_status

/-- A task that nothing waits for changes its status, and the ready list with it. -/
lemma changeStatus (hloose : s.Loose q t) (hholds : Holds m (update q .ready l))
    (hrun : ∀ u, r' = some u ↔ u ∈ s.threadAllList ∧ (if u = t then st else s.status u) = .running)
    (hready : ∀ u, u ∈ l ↔ u ∈ s.threadAllList ∧ (if u = t then st else s.status u) = .ready)
    (hidle : s.idleThread = t → st = .running ∨ st = .ready ∨ st = .blocked) :
    ListInv ((s.withLinks m).setStatus t st) (update q .ready l) r' := { h with
  holds := hholds
  running u := by simpa using hrun u
  ready u := by simpa using hready u
  waiters k u hu := by
    have hut : u ≠ t := by rintro rfl; exact hloose.1 k hu
    simpa [hut] using h.waiters k u hu
  waiter c u hu := by
    have hut : u ≠ t := by rintro rfl; exact hloose.2 c hu
    simpa [hut] using h.waiter c u hu
  idle_status := by
    simp only [Kernel.status_setStatus]
    split_ifs with hti
    · exact hidle hti
    · exact h.idle_status }

/-- A task becomes ready: it is linked into the ready list and its status says so. -/
lemma makeReady (ht : t ∈ s.threadAllList) (hloose : s.Loose q t)
    (hholds : Holds m (update q .ready l))
    (hl : ∀ u, u ∈ l ↔ u = t ∨ u ∈ q .ready) :
    ListInv ((s.withLinks m).setStatus t .ready) (update q .ready l)
      (if r = some t then none else r) := by
  refine h.changeStatus hloose hholds (fun u => ?_) (fun u => ?_) (by simp)
  · have hu := h.running u
    by_cases hut : u = t
    · split_ifs <;> simp_all
    · split_ifs with hr
      · simp only [hr, Option.some.injEq, Ne.symm hut, false_iff] at hu
        simpa using hu
      · exact hu
  · rw [hl, h.ready]
    by_cases hut : u = t
    · subst hut; simp [ht]
    · simp [hut]

end

/-- The running task stops without being linked into a list. -/
lemma stop (h : ListInv s q (some t))
    (hst : st = .blocked ∨ st = .waiting ∨ st = .hanging) (hidle : t = s.idleThread → st = .blocked) :
    ListInv (s.setStatus t st) q none := by
  have hrun := ((h.running t).mp rfl).2
  have hholds : Holds s.links (update q .ready (q .ready)) := by
    rw [update_eq_self]
    exact h.holds
  have hloose := h.loose_of_status (by simp [hrun] : s.status t ≠ .blocked)
  suffices hinv : ListInv ((s.withLinks s.links).setStatus t st) (update q .ready (q .ready)) none by
    rwa [update_eq_self] at hinv
  refine h.changeStatus hloose hholds (fun u => ?_) (fun u => ?_) fun hti => .inr (.inr (hidle hti.symm))
  · by_cases hut : u = t
    · rcases hst with rfl | rfl | rfl <;> simp [hut]
    · simpa [hut, Ne.symm hut] using h.running u
  · by_cases hut : u = t
    · have hnot : t ∉ q .ready := fun hmem => by
        rw [((h.ready t).mp hmem).2] at hrun
        cases hrun
      rcases hst with rfl | rfl | rfl <;> simp [hut, hnot]
    · simpa [hut] using h.ready u

/-- The first ready task runs. -/
lemma run (h : ListInv s q none) (hq : q .ready = t :: l) (hholds : Holds m (update q .ready l)) :
    ListInv ((s.withLinks m).setStatus t .running) (update q .ready l) (some t) := by
  obtain ⟨ht, hst⟩ := (h.ready t).mp (by simp [hq])
  have hloose := h.loose_of_status (by simp [hst] : s.status t ≠ .blocked)
  refine h.changeStatus hloose hholds (fun u => ?_) (fun u => ?_) (by simp)
  · by_cases hut : u = t
    · simp [hut, ht]
    · simpa [hut, Ne.symm hut] using h.running u
  · have hnodup := h.holds.nodup .ready
    rw [hq, nodup_cons] at hnodup
    have hu := h.ready u
    rw [hq] at hu
    by_cases hut : u = t
    · simp [hut, hnodup.1]
    · simpa [hut] using hu

variable (h : ListInv s q r)
include h

/-- A task that is blocked already is linked into the waiters of a semaphore. -/
lemma enqueueWaiter (ht : t ∈ s.threadAllList) (hst : s.status t = .blocked)
    (hidle : t ≠ s.idleThread) (hloose : s.Loose q t)
    (hholds : Holds m (update q (.waiters k) (q (.waiters k) ++ [t]))) :
    ListInv (s.withLinks m) (update q (.waiters k) (q (.waiters k) ++ [t])) r := { h with
  holds := hholds
  ready u := by simpa using h.ready u
  waiters k' u hu := by
    by_cases hk : k' = k
    · rw [hk, update_self] at hu
      rcases mem_append.mp hu with hu | hu
      · exact h.waiters k u hu
      · obtain rfl := mem_singleton.mp hu
        exact ⟨ht, hst, hidle⟩
    · rw [update_of_ne (by simpa using hk)] at hu
      exact h.waiters k' u hu
  waiter c u hu := by
    obtain ⟨hall, hblocked, hne, hnot⟩ := h.waiter c u hu
    refine ⟨hall, hblocked, hne, fun k' => ?_⟩
    by_cases hk : k' = k
    · rw [hk, update_self, mem_append, mem_singleton, not_or]
      exact ⟨hnot k, fun hut => hloose.2 c (hut ▸ hu)⟩
    · rw [update_of_ne (by simpa using hk)]
      exact hnot k' }

/-- The first task that waits for a semaphore is unlinked. -/
lemma dequeueWaiter (hq : q (.waiters k) = t :: l) (hholds : Holds m (update q (.waiters k) l)) :
    ListInv (s.withLinks m) (update q (.waiters k) l) r ∧
      (s.withLinks m).Loose (update q (.waiters k) l) t := by
  have hsub : ∀ k' u, u ∈ update q (.waiters k) l (.waiters k') → u ∈ q (.waiters k') := by
    intro k' u hu
    by_cases hk : k' = k
    · rw [hk, update_self] at hu
      rw [hk, hq]
      exact mem_cons_of_mem _ hu
    · rwa [update_of_ne (by simpa using hk)] at hu
  have ht : t ∈ q (.waiters k) := by simp [hq]
  refine ⟨⟨hholds, h.nodup, h.running, fun u => by simpa using h.ready u, fun k' u hu =>
    h.waiters k' u (hsub k' u hu), fun c u hu => ?_, h.waiter_inj, h.idle_mem, h.idle_status⟩,
    fun k' hmem => ?_, fun c hc => (h.waiter c t hc).2.2.2 k ht⟩
  · obtain ⟨hall, hblocked, hne, hnot⟩ := h.waiter c u hu
    exact ⟨hall, hblocked, hne, fun k' hmem => hnot k' (hsub k' u hmem)⟩
  · by_cases hk : k' = k
    · rw [hk, update_self] at hmem
      have hnodup := h.holds.nodup (.waiters k)
      rw [hq, nodup_cons] at hnodup
      exact hnodup.1 hmem
    · have hsame := h.holds.disjoint _ _ t (hsub k' t hmem) ht
      exact hk (by simpa using hsame)

/-- A task that is blocked already is entered in an io queue. -/
lemma setWaiter (ht : t ∈ s.threadAllList) (hst : s.status t = .blocked)
    (hidle : t ≠ s.idleThread) (hloose : s.Loose q t) (c : Nat) :
    ListInv { s with waiter := update s.waiter c (some t) } q r := { h with
  waiter c' u hu := by
    by_cases hc : c' = c
    · rw [hc] at hu
      obtain rfl : t = u := by simpa using hu
      exact ⟨ht, hst, hidle, hloose.1⟩
    · exact h.waiter c' u (by simpa [hc] using hu)
  waiter_inj := by
    refine unique_of_fresh c h.waiter_inj (fun c' u hc hu => by simpa [hc] using hu) fun c' u hu hu' => ?_
    obtain rfl : t = u := by simpa using hu
    exact absurd hu' (hloose.2 c') }

/-- The task an io queue names is taken out of it. -/
lemma clearWaiter (hc : s.waiter c = some t) :
    ListInv { s with waiter := update s.waiter c none } q r ∧
      Kernel.Loose { s with waiter := update s.waiter c none } q t := by
  have hsub : ∀ c' u, update s.waiter c none c' = some u → c' ≠ c ∧ s.waiter c' = some u := by
    intro c' u hu
    by_cases hcc : c' = c
    · simp [hcc] at hu
    · exact ⟨hcc, by simpa [hcc] using hu⟩
  refine ⟨⟨h.holds, h.nodup, h.running, h.ready, h.waiters, fun c' u hu =>
    h.waiter c' u (hsub c' u hu).2, fun c1 c2 u h1 h2 =>
    h.waiter_inj c1 c2 u (hsub c1 u h1).2 (hsub c2 u h2).2, h.idle_mem, h.idle_status⟩,
    (h.waiter c t hc).2.2.2, fun c' hc' => ?_⟩
  obtain ⟨hne, hc'⟩ := hsub c' t hc'
  exact hne (h.waiter_inj c' c t hc' hc)

/-- A task that is in no list leaves the list of all tasks. -/
lemma forget (hready : s.status t ≠ .ready) (hne : t ≠ s.idleThread)
    (hloose : s.Loose q t) (hlinks : s'.links = s.links)
    (hall : s'.threadAllList = s.threadAllList.erase t) (hidle : s'.idleThread = s.idleThread)
    (hwaiter : s'.waiter = s.waiter) (hstatus : ∀ u, u ≠ t → s'.status u = s.status u) :
    ListInv s' q (if r = some t then none else r) where
  holds := hlinks ▸ h.holds
  nodup := hall ▸ h.nodup.erase t
  running u := by
    have hu := h.running u
    rw [hall, h.nodup.mem_erase_iff]
    by_cases hut : u = t
    · split_ifs with hr <;> simp_all
    · rw [hstatus u hut]
      split_ifs with hr
      · simp only [hr, Option.some.injEq, Ne.symm hut, false_iff] at hu
        simpa [hut] using hu
      · simpa [hut] using hu
  ready u := by
    have hu := h.ready u
    rw [hall, h.nodup.mem_erase_iff]
    by_cases hut : u = t
    · simp only [hut, hready, and_false, iff_false] at hu
      simp [hut, hu]
    · rw [hstatus u hut]
      simpa [hut] using hu
  waiters k u hu := by
    have hut : u ≠ t := by rintro rfl; exact hloose.1 k hu
    simpa [hall, hstatus u hut, hidle, hut, h.nodup.mem_erase_iff] using h.waiters k u hu
  waiter c u hu := by
    rw [hwaiter] at hu
    have hut : u ≠ t := by rintro rfl; exact hloose.2 c hu
    simpa [hall, hstatus u hut, hidle, hut, h.nodup.mem_erase_iff] using h.waiter c u hu
  waiter_inj := by simpa only [hwaiter] using h.waiter_inj
  idle_mem := by simpa [hall, hidle, h.nodup.mem_erase_iff, hne.symm] using h.idle_mem
  idle_status := by simpa [hidle, hstatus _ hne.symm] using h.idle_status

/-- A new task is linked into the ready list and enters the list of all tasks. -/
lemma enter (ht : t ∉ s.threadAllList) (hholds : Holds m (update q .ready (q .ready ++ [t])))
    (hlinks : s'.links = m) (hall : s'.threadAllList = s.threadAllList ++ [t])
    (hidle : s'.idleThread = s.idleThread) (hwaiter : s'.waiter = s.waiter)
    (hstatus : ∀ u, s'.status u = if u = t then .ready else s.status u) :
    ListInv s' (update q .ready (q .ready ++ [t])) r where
  holds := hlinks ▸ hholds
  nodup := by
    rw [hall]
    exact nodup_append.mpr ⟨h.nodup, by simp, by rintro u hu v hv rfl; simp_all⟩
  running u := by
    rw [hall, hstatus, h.running]
    by_cases hut : u = t
    · simp [hut, ht]
    · simp [hut]
  ready u := by
    rw [hall, hstatus, update_self, mem_append, h.ready]
    by_cases hut : u = t
    · simp [hut]
    · simp [hut]
  waiters k u hu := by
    obtain ⟨hmem, hrest⟩ := h.waiters k u hu
    have hut : u ≠ t := by rintro rfl; exact ht hmem
    simpa [hall, hstatus, hidle, hut, hmem] using hrest
  waiter c u hu := by
    rw [hwaiter] at hu
    obtain ⟨hmem, hrest⟩ := h.waiter c u hu
    have hut : u ≠ t := by rintro rfl; exact ht hmem
    simpa [hall, hstatus, hidle, hut, hmem] using hrest
  waiter_inj := by simpa only [hwaiter] using h.waiter_inj
  idle_mem := by simp [hall, hidle, h.idle_mem]
  idle_status := by
    have hne : s.idleThread ≠ t := by rintro rfl; exact ht h.idle_mem
    simpa [hstatus, hidle, hne] using h.idle_status

end ListInv

/-! ### The functions of the scheduler -/

/-- Giving the processor to another task leaves the process tree alone: who exists, the pids, who
waits and who has exited. -/
structure Kernel.SameProcs (s s' : Kernel) : Prop where
  all : s'.threadAllList = s.threadAllList
  idleThread : s'.idleThread = s.idleThread
  pidBitmap : s'.pidBitmap = s.pidBitmap
  pid : ∀ t, (s'.task t).pid = (s.task t).pid
  parentPid : ∀ t, (s'.task t).parentPid = (s.task t).parentPid
  exitStatus : ∀ t, (s'.task t).exitStatus = (s.task t).exitStatus
  userProg : ∀ t, (s'.task t).userProg = (s.task t).userProg
  waiting : ∀ t, s'.status t = .waiting ↔ s.status t = .waiting
  hanging : ∀ t, s'.status t = .hanging ↔ s.status t = .hanging

namespace Kernel

variable {s s' : Kernel} {q : Queue → List Nat} {t : Nat}

lemma SameProcs.of_eq (hall : s'.threadAllList = s.threadAllList)
    (hidle : s'.idleThread = s.idleThread) (hpid : s'.pidBitmap = s.pidBitmap)
    (htask : s'.task = s.task) : s.SameProcs s' := by
  refine ⟨hall, hidle, hpid, ?_, ?_, ?_, ?_, ?_, ?_⟩ <;> simp [status, htask]

lemma SameProcs.refl (s : Kernel) : s.SameProcs s := .of_eq rfl rfl rfl rfl

lemma SameProcs.trans {s1 s2 s3 : Kernel} (h : s1.SameProcs s2) (h' : s2.SameProcs s3) :
    s1.SameProcs s3 where
  all := h'.all.trans h.all
  idleThread := h'.idleThread.trans h.idleThread
  pidBitmap := h'.pidBitmap.trans h.pidBitmap
  pid t := (h'.pid t).trans (h.pid t)
  parentPid t := (h'.parentPid t).trans (h.parentPid t)
  exitStatus t := (h'.exitStatus t).trans (h.exitStatus t)
  userProg t := (h'.userProg t).trans (h.userProg t)
  waiting t := (h'.waiting t).trans (h.waiting t)
  hanging t := (h'.hanging t).trans (h.hanging t)

/-- A task that neither waits nor has exited may change its status and its time slice. -/
lemma sameProcs_setTask (s : Kernel) (m : Links Node)
    (hf : (f (s.task t)).pid = (s.task t).pid ∧ (f (s.task t)).parentPid = (s.task t).parentPid ∧
      (f (s.task t)).exitStatus = (s.task t).exitStatus ∧
      (f (s.task t)).userProg = (s.task t).userProg)
    (hst : s.status t ≠ .waiting ∧ s.status t ≠ .hanging)
    (hst' : (f (s.task t)).status ≠ .waiting ∧ (f (s.task t)).status ≠ .hanging) :
    s.SameProcs ((s.withLinks m).setTask t f) := by
  have htask : ∀ u, ((s.withLinks m).setTask t f).task u =
      if u = t then f (s.task t) else s.task u := task_setTask (s.withLinks m) t f
  have hstatus : ∀ u, ((s.withLinks m).setTask t f).status u =
      if u = t then (f (s.task t)).status else s.status u := status_setTask (s.withLinks m) t f
  refine ⟨rfl, rfl, rfl, fun u => ?_, fun u => ?_, fun u => ?_, fun u => ?_, fun u => ?_, fun u => ?_⟩
  iterate 4 · rw [htask]; split_ifs with hu <;> simp_all
  iterate 2 · rw [hstatus]; split_ifs with hu <;> simp_all

end Kernel

end SimpleOs
