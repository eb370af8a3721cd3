import SimpleOs.Device.PartScan

/-!
# Partition tables

Disks with a well-formed layout, and what the scan of a sequence of them records. The scan is right
for a disk as long as no earlier disk has left the address of its extended partition behind.
-/

namespace SimpleOs

open Base Option List

variable {d : Sectors}

/-! ### Well-formed disks -/

/-- The logical partitions from the entries `es` of the extended boot record at `a` on. The next
record is given relative to the start `ext` of the extended partition, a partition relative to its
own record. -/
inductive Logicals (d : Sectors) (ext : UInt32) : UInt32 → List PartEntry → List Part → Prop where
  | nil (a : UInt32) : Logicals d ext a [] []
  | empty {a : UInt32} {e : PartEntry} {es : List PartEntry} {ps : List Part}
      (hempty : e.fsType = 0) (h : Logicals d ext a es ps) : Logicals d ext a (e :: es) ps
  | logical {a : UInt32} {e : PartEntry} {es : List PartEntry} {ps : List Part}
      (hpart : e.fsType ≠ 0 ∧ e.fsType ≠ 5) (h : Logicals d ext a es ps) :
      Logicals d ext a (e :: es) (⟨.logic, a + e.startLba, e.secCnt⟩ :: ps)
  | next {a : UInt32} {e : PartEntry} {es : List PartEntry} {qs ps : List Part}
      (hlink : e.fsType = 5) (hne : e.startLba + ext ≠ 0)
      (hnext : Logicals d ext (e.startLba + ext) (partitionTable (d (e.startLba + ext))) qs)
      (hone : ∀ e' ∈ es, e'.fsType ≠ 5) (h : Logicals d ext a es ps) :
      Logicals d ext a (e :: es) (qs ++ ps)

/-- The partitions of a disk from the entries `es` of its master boot record on, in table order. -/
inductive MbrParts (d : Sectors) : List PartEntry → List Part → Prop where
  | nil : MbrParts d [] []
  | empty {e : PartEntry} {es : List PartEntry} {ps : List Part} (hempty : e.fsType = 0)
      (h : MbrParts d es ps) : MbrParts d (e :: es) ps
  | primary {e : PartEntry} {es : List PartEntry} {ps : List Part}
      (hpart : e.fsType ≠ 0 ∧ e.fsType ≠ 5) (h : MbrParts d es ps) :
      MbrParts d (e :: es) (⟨.prim, e.startLba, e.secCnt⟩ :: ps)
  | extended {e : PartEntry} {es : List PartEntry} {qs ps : List Part} (hext : e.fsType = 5)
      (hne : e.startLba ≠ 0)
      (hchain : Logicals d e.startLba e.startLba (partitionTable (d e.startLba)) qs)
      (hlen : qs.length ≤ 8) (hone : ∀ e' ∈ es, e'.fsType ≠ 5) (h : MbrParts d es ps) :
      MbrParts d (e :: es) (qs ++ ps)

/-- A disk with a well-formed layout, and its partitions. -/
structure PartitionedDisk where
  sectors : Sectors
  parts : List Part
  mbr : MbrParts sectors (partitionTable (sectors 0)) parts

/-- Every disk of the sequence is recorded as it is. -/
def RecordsAll (ds : List PartitionedDisk) : Prop :=
  ∃ fuel, scanDisks fuel 0 (ds.map (·.sectors)) = some (ds.map fun d => numbered 0 0 d.parts)

/-- With `base` left by an earlier disk, the chain that is read from sector `base` behind the start
of the extended partition, the next records being relative to `base`, holds the partitions of the
real chain. -/
def SameFromBase (d : Sectors) (base : UInt32) (es : List PartEntry) (ps : List Part) : Prop :=
  ∀ e ∈ es, e.fsType = 5 → ∃ base' l, Walk d base 0 (e.startLba + base)
    (partitionTable (d (e.startLba + base))) base' l (ps.filter (·.kind = .logic))

/-- The base that the scan of a disk leaves. -/
def leavesBase (base : UInt32) (es : List PartEntry) : UInt32 :=
  match es.find? (·.fsType = 5) with
  | some e => linkBase base e
  | none => base

/-- No disk is scanned with the base of an earlier one in force, unless that makes no difference. -/
def NoStaleBase : UInt32 → List PartitionedDisk → Prop
  | _, [] => True
  | base, d :: ds =>
    (base = 0 ∨ SameFromBase d.sectors base (partitionTable (d.sectors 0)) d.parts) ∧
      NoStaleBase (leavesBase base (partitionTable (d.sectors 0))) ds

/-! ### Walks of well-formed disks -/

lemma Walk.det (h1 : Walk d base l a es b1 l1 ps1) (h2 : Walk d base l a es b2 l2 ps2) :
    b1 = b2 ∧ l1 = l2 ∧ ps1 = ps2 := by
  obtain ⟨hl1, n1, hn1⟩ := scanEntries_of_walk h1 ⟨base, 0, l, []⟩ rfl rfl
  obtain ⟨hl2, n2, hn2⟩ := scanEntries_of_walk h2 ⟨base, 0, l, []⟩ rfl rfl
  have heq := some.inj
    ((hn1 (max n1 n2) (Nat.le_max_left _ _)).symm.trans (hn2 (max n1 n2) (Nat.le_max_right _ _)))
  have hrec := congrArg (List.map Prod.snd ∘ ScanState.recorded) heq
  simp only [Function.comp_apply, recorded_after, List.nil_append, map_snd_numbered] at hrec
  exact ⟨congrArg ScanState.extLbaBase heq, by rw [← hl1, ← hl2, heq], hrec⟩

lemma Walk.base_eq (h : Walk d base l a es base' l' ps) (hne : base ≠ 0) : base' = base := by
  induction h with
  | done => rfl
  | empty _ _ ih => exact ih hne
  | link _ _ _ ihbelow ih =>
    simp only [linkBase, if_pos hne] at ihbelow
    obtain rfl := ihbelow hne
    exact ih hne
  | prim _ _ _ ih => exact ih hne
  | logic _ _ _ _ ih => exact ih hne
  | last => rfl

/-- With the right base the walk meets the logical partitions of the chain. -/
lemma Logicals.walk {ext a : UInt32} {es : List PartEntry} {ps : List Part}
    (h : Logicals d ext a es ps) (hext : ext ≠ 0) (ha : a ≠ 0) {l : UInt8}
    (hl : l.toNat + ps.length ≤ 8) :
    ∃ l', Walk d ext l a es ext l' ps ∧ l'.toNat = l.toNat + ps.length := by
  induction h generalizing l with
  | nil a => exact ⟨l, .done _ _ _, rfl⟩
  | empty hempty _ ih =>
    obtain ⟨l', hw, hl'⟩ := ih ha hl
    exact ⟨l', .empty hempty hw, hl'⟩
  | @logical a e es ps hpart h ih =>
    rw [length_cons] at hl
    have hsucc : (l + 1).toNat = l.toNat + 1 := by
      rw [UInt8.toNat_add, UInt8.toNat_one, Nat.mod_eq_of_lt (by omega)]
    by_cases hlast : 8 ≤ l + 1
    · -- the eighth one: there is no other behind it
      have hge : 8 ≤ (l + 1).toNat := UInt8.le_iff_toNat_le.mp hlast
      have hnil : ps = [] := length_eq_zero_iff.mp (by omega)
      subst hnil
      exact ⟨l + 1, .last hpart ha hlast, by simpa using hsucc⟩
    · obtain ⟨l', hw, hl'⟩ := ih ha (l := l + 1) (by omega)
      exact ⟨l', .logic hpart ha hlast hw, by rw [length_cons]; omega⟩
  | @next a e es qs ps hlink hne hnext hone h ihnext ih =>
    rw [length_append] at hl
    obtain ⟨l1, hbelow, hl1⟩ := ihnext hne (l := l) (by omega)
    obtain ⟨l', hw, hl'⟩ := ih ha (l := l1) (by omega)
    have hbase : linkBase ext e = ext := by rw [linkBase, if_pos hext]
    have htarget : linkTarget ext e = e.startLba + ext := by rw [linkTarget, if_pos hext]
    refine ⟨l', .link hlink ?_ hw, by rw [length_append]; omega⟩
    rw [hbase, htarget]
    exact hbelow

lemma Logicals.kind {ext a : UInt32} {es : List PartEntry} {ps : List Part}
    (h : Logicals d ext a es ps) : ∀ q ∈ ps, q.kind = .logic := by
  induction h with
  | nil => simp
  | empty _ _ ih => exact ih
  | logical _ _ ih => simpa using ih
  | next _ _ _ _ _ ihnext ih =>
    intro q hq
    rcases mem_append.mp hq with hq | hq
    · exact ihnext q hq
    · exact ih q hq

namespace MbrParts

variable {es : List PartEntry}

lemma kind (h : MbrParts d es ps) (hone : ∀ e ∈ es, e.fsType ≠ 5) : ∀ q ∈ ps, q.kind = .prim := by
  induction h with
  | nil => simp
  | empty _ _ ih => exact ih fun e he => hone e (mem_cons_of_mem _ he)
  | primary _ _ ih => simpa using ih fun e he => hone e (mem_cons_of_mem _ he)
  | extended hext => exact absurd hext (hone _ mem_cons_self)

lemma walk (h : MbrParts d es ps)
    (hone : ∀ e ∈ es, e.fsType ≠ 5) (base : UInt32) (l : UInt8) : Walk d base l 0 es base l ps := by
  induction h with
  | nil => exact .done _ _ _
  | empty hempty _ ih => exact .empty hempty (ih fun e he => hone e (mem_cons_of_mem _ he))
  | @primary e es ps hpart _ ih =>
    have hw := Walk.prim hpart rfl (ih fun e he => hone e (mem_cons_of_mem _ he))
    rwa [UInt32.zero_add] at hw
  | extended hext => exact absurd hext (hone _ mem_cons_self)

/-- A well-formed disk is walked as it is exactly when the base is right. -/
lemma walk_iff {ps : List Part} (h : MbrParts d es ps) (base : UInt32) :
    (∃ base' l, Walk d base 0 0 es base' l ps) ↔ base = 0 ∨ SameFromBase d base es ps := by
  induction h with
  | nil => exact iff_of_true ⟨base, 0, .done _ _ _⟩ (.inr (by simp [SameFromBase]))
  | @empty e es ps hempty h ih =>
    have hsame : SameFromBase d base (e :: es) ps ↔ SameFromBase d base es ps := by
      simp [SameFromBase, hempty]
    rw [hsame, ← ih]
    constructor
    · rintro ⟨base', l, hw⟩
      cases hw with
      | empty _ hw => exact ⟨base', l, hw⟩
      | link hlink => simp [hempty] at hlink
      | prim hpart => exact absurd hempty hpart.1
      | logic hpart => exact absurd hempty hpart.1
      | last hpart => exact absurd hempty hpart.1
    · rintro ⟨base', l, hw⟩
      exact ⟨base', l, .empty hempty hw⟩
  | @primary e es ps hpart h ih =>
    have hsame : SameFromBase d base (e :: es) (⟨.prim, e.startLba, e.secCnt⟩ :: ps) ↔
        SameFromBase d base es ps := by
      simp [SameFromBase, hpart.2]
    rw [hsame, ← ih]
    constructor
    · rintro ⟨base', l, hw⟩
      generalize hqs : (⟨.prim, e.startLba, e.secCnt⟩ :: ps : List Part) = qs at hw
      cases hw with
      | empty hempty => exact absurd hempty hpart.1
      | link hlink => exact absurd hlink hpart.2
      | prim _ _ hw =>
        obtain rfl := (List.cons.inj hqs).2
        exact ⟨base', l, hw⟩
      | logic _ ha => exact absurd rfl ha
      | last _ ha => exact absurd rfl ha
    · rintro ⟨base', l, hw⟩
      have := Walk.prim hpart rfl hw
      rw [UInt32.zero_add] at this
      exact ⟨base', l, this⟩
  | @extended e es qs ps hext hne hchain hlen hone h ih =>
    have hfilter : (qs ++ ps).filter (·.kind = .logic) = qs := by
      rw [filter_append, filter_eq_self.mpr (by simpa using hchain.kind),
        filter_eq_nil_iff.mpr, append_nil]
      intro q hq
      simp [h.kind hone q hq]
    by_cases hbase : base = 0
    · -- the extended partition gives the base
      refine iff_of_true ?_ (.inl hbase)
      obtain ⟨l, hbelow, -⟩ := hchain.walk hne hne (l := 0) (by simpa using hlen)
      refine ⟨e.startLba, l, .link hext ?_ (h.walk hone _ _)⟩
      simp only [hbase, linkBase, linkTarget, ne_eq, not_true, if_false]
      exact hbelow
    · have hlink : linkBase base e = base ∧ linkTarget base e = e.startLba + base :=
        ⟨if_pos hbase, if_pos hbase⟩
      have hsame : SameFromBase d base (e :: es) (qs ++ ps) ↔
          ∃ base' l, Walk d base 0 (e.startLba + base)
            (partitionTable (d (e.startLba + base))) base' l qs := by
        simp only [SameFromBase, hfilter, forall_mem_cons, hext, true_imp_iff]
        exact and_iff_left fun e' he' h5 => absurd h5 (hone e' he')
      rw [or_iff_right hbase, hsame]
      constructor
      · rintro ⟨base', l, hw⟩
        generalize hall : qs ++ ps = rs at hw
        cases hw with
        | empty hempty => rw [hext] at hempty; cases hempty
        | link _ hbelow hrest =>
          obtain rfl := (hrest.det (h.walk hone _ _)).2.2
          rw [append_cancel_right hall]
          rw [hlink.1, hlink.2] at hbelow
          exact ⟨_, _, hbelow⟩
        | prim hpart => exact absurd hext hpart.2
        | logic hpart => exact absurd hext hpart.2
        | last hpart => exact absurd hext hpart.2
      · rintro ⟨base', l, hbelow⟩
        refine ⟨base', l, .link hext ?_ (h.walk hone _ _)⟩
        rw [hlink.1, hlink.2]
        exact hbelow

lemma base_eq (h : MbrParts d es ps)
    (hw : Walk d base l 0 es base' l' qs) : base' = leavesBase base es := by
  induction h generalizing base l qs with
  | nil => cases hw; rfl
  | @empty e es ps hempty h ih =>
    have hfind : leavesBase base (e :: es) = leavesBase base es := by
      simp [leavesBase, hempty]
    rw [hfind]
    cases hw with
    | empty _ hw => exact ih hw
    | link hlink => simp [hempty] at hlink
    | prim hpart => exact absurd hempty hpart.1
    | logic hpart => exact absurd hempty hpart.1
    | last hpart => exact absurd hempty hpart.1
  | @primary e es ps hpart h ih =>
    have hfind : leavesBase base (e :: es) = leavesBase base es := by
      simp [leavesBase, hpart.2]
    rw [hfind]
    cases hw with
    | empty hempty => exact absurd hempty hpart.1
    | link hlink => exact absurd hlink hpart.2
    | prim _ _ hw => exact ih hw
    | logic _ ha => exact absurd rfl ha
    | last _ ha => exact absurd rfl ha
  | @extended e es qs ps hext hne hchain hlen hone h ih =>
    have hfind : leavesBase base (e :: es) = linkBase base e := by
      simp [leavesBase, hext]
    have hlink : linkBase base e ≠ 0 := by
      rw [linkBase]
      split_ifs with hbase
      · exact hbase
      · exact hne
    rw [hfind]
    cases hw with
    | empty hempty => rw [hext] at hempty; cases hempty
    | link _ hbelow hrest =>
      rw [(hrest.det (h.walk hone _ _)).1]
      exact hbelow.base_eq hlink
    | prim hpart => exact absurd hext hpart.2
    | logic hpart => exact absurd hext hpart.2
    | last hpart => exact absurd hext hpart.2

end MbrParts

/-! ### Sequences of disks -/

/-- One disk is recorded as it is exactly when the base is right. -/
lemma PartitionedDisk.records_iff (d : PartitionedDisk) (base : UInt32) :
    (∃ fuel st, partitionScan d.sectors fuel 0 ⟨base, 0, 0, []⟩ = some st ∧
        st.recorded = numbered 0 0 d.parts) ↔
      base = 0 ∨ SameFromBase d.sectors base (partitionTable (d.sectors 0)) d.parts := by
  rw [← d.mbr.walk_iff base]
  constructor
  · rintro ⟨fuel, st, hscan, hrec⟩
    obtain ⟨base', l, ps, hw, rfl⟩ := partitionScan_iff.mp ⟨fuel, hscan⟩
    rw [recorded_after, List.nil_append] at hrec
    have hps := congrArg (List.map Prod.snd) hrec
    rw [map_snd_numbered, map_snd_numbered] at hps
    exact ⟨base', l, hps ▸ hw⟩
  · rintro ⟨base', l, hw⟩
    obtain ⟨fuel, hscan⟩ :=
      (@partitionScan_iff d.sectors 0 ⟨base, 0, 0, []⟩ _).mpr ⟨base', l, _, hw, rfl⟩
    exact ⟨fuel, _, hscan, by rw [recorded_after, List.nil_append]⟩

lemma PartitionedDisk.extLbaBase_eq (d : PartitionedDisk)
    (h : partitionScan d.sectors fuel 0 ⟨base, 0, 0, []⟩ = some st) :
    st.extLbaBase = leavesBase base (partitionTable (d.sectors 0)) := by
  obtain ⟨base', l, ps, hw, rfl⟩ := partitionScan_iff.mp ⟨fuel, h⟩
  exact d.mbr.base_eq hw

lemma scanDisks_iff (ds : List PartitionedDisk) (base : UInt32) :
    (∃ fuel, scanDisks fuel base (ds.map (·.sectors)) = some (ds.map fun d => numbered 0 0 d.parts)) ↔
      NoStaleBase base ds := by
  induction ds generalizing base with
  | nil => exact iff_of_true ⟨0, rfl⟩ trivial
  | cons d ds ih =>
    rw [NoStaleBase, ← d.records_iff, ← ih]
    constructor
    · rintro ⟨fuel, h⟩
      obtain ⟨st, hst, hrest⟩ := bind_eq_some_iff.mp h
      obtain ⟨rs, hrs, hcons⟩ := map_eq_some_iff.mp hrest
      obtain ⟨hrec, rfl⟩ := List.cons.inj hcons
      rw [d.extLbaBase_eq hst] at hrs
      exact ⟨⟨fuel, st, hst, hrec⟩, fuel, hrs⟩
    · rintro ⟨⟨fuel1, st, hst, hrec⟩, fuel2, hrs⟩
      refine ⟨max fuel1 fuel2, bind_eq_some_iff.mpr
        ⟨st, partitionScan_mono (Nat.le_max_left _ _) hst, map_eq_some_iff.mpr
          ⟨_, scanDisks_mono (Nat.le_max_right _ _) ?_, by rw [hrec]; rfl⟩⟩⟩
      rw [d.extLbaBase_eq hst]
      exact hrs

/-- The disks of a sequence are all recorded as they are exactly when none is read with the base of
an earlier one. -/
theorem recordsAll_iff (ds : List PartitionedDisk) : RecordsAll ds ↔ NoStaleBase 0 ds :=
  scanDisks_iff ds 0

/-- An extended partition at sector 1 that holds one logical partition. -/
def oneLogicalSectors : Sectors := fun a =>
  if a = 0 then oneEntry 5 1 9 else if a = 1 then oneEntry 0x83 1 4 else Bytes.zero

lemma mbrParts_oneLogical :
    MbrParts oneLogicalSectors (partitionTable (oneLogicalSectors 0)) [⟨.logic, 2, 4⟩] := by
  refine @MbrParts.extended _ ⟨5, 1, 9⟩ _ [⟨.logic, 2, 4⟩] [] rfl (by decide) ?_ (by decide)
    (by decide) (.empty rfl (.empty rfl (.empty rfl .nil)))
  exact .logical (by decide) (.empty rfl (.empty rfl (.empty rfl (.nil _))))

/-- The disk with its one partition. -/
def oneLogical : PartitionedDisk := ⟨oneLogicalSectors, [⟨.logic, 2, 4⟩], mbrParts_oneLogical⟩

/-- The second of two such disks is read with the base of the first. -/
theorem not_forall_recordsAll : ¬ ∀ ds, RecordsAll ds := by
  intro h
  obtain ⟨fuel, hscan⟩ := h [oneLogical, oneLogical]
  have hthree : scanDisks 3 0 [oneLogical.sectors, oneLogical.sectors] =
      some [[(0, ⟨.logic, 2, 4⟩)], []] := by
    decide +kernel
  have heq := (scanDisks_mono (Nat.le_max_left fuel 3) hscan).symm.trans
    (scanDisks_mono (Nat.le_max_right fuel 3) hthree)
  cases heq

end SimpleOs
