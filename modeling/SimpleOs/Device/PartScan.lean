import SimpleOs.Base.Bytes

/-!
# The partition scan

`partition_scan` and the loop of `ide_init` over the disks (`device/ide.c`). The scan goes from the
master boot record down the chain of extended boot records; the address of the first extended
partition is kept in a global that is never reset.
-/

namespace SimpleOs

open Base Option

/-- `struct partition_table_entry`, less the addresses in the old format. -/
structure PartEntry where
  fsType : UInt8
  startLba : UInt32
  secCnt : UInt32
deriving DecidableEq, Repr

/-- The sectors of a disk, as `ide_read` delivers them. -/
abbrev Sectors := UInt32 → Bytes

/-- The partition table of a boot sector: four entries of 16 bytes at byte 446. -/
def partitionTable (bs : Bytes) : List PartEntry :=
  (List.range 4).map fun i =>
    ⟨bs (446 + 16 * i + 4), bs.u32 (446 + 16 * i + 8), bs.u32 (446 + 16 * i + 12)⟩

/-- Which of the two arrays of `struct disk` a partition is recorded in. -/
inductive PartKind where
  | prim
  | logic
deriving DecidableEq, Repr

/-- A partition with its absolute address. -/
structure Part where
  kind : PartKind
  startLba : UInt32
  secCnt : UInt32
deriving DecidableEq, Repr

/-- The globals of the scan, and what has been recorded of the disk in the order of
`partition_list`: the index into `prim_parts` or `logic_parts` and the partition. -/
structure ScanState where
  extLbaBase : UInt32
  pNo : UInt8
  lNo : UInt8
  recorded : List (UInt8 × Part)
deriving DecidableEq

namespace ScanState

/-- Record a partition at the next index of its array. -/
def add (st : ScanState) (q : Part) : ScanState :=
  match q.kind with
  | .prim => { st with recorded := st.recorded ++ [(st.pNo, q)], pNo := st.pNo + 1 }
  | .logic => { st with recorded := st.recorded ++ [(st.lNo, q)], lNo := st.lNo + 1 }

/-- Record the primary partition of an entry. -/
def addPrim (st : ScanState) (e : PartEntry) (extLba : UInt32) : ScanState :=
  st.add ⟨.prim, extLba + e.startLba, e.secCnt⟩

/-- Record the logical partition of an entry. -/
def addLogic (st : ScanState) (e : PartEntry) (extLba : UInt32) : ScanState :=
  st.add ⟨.logic, extLba + e.startLba, e.secCnt⟩

end ScanState

/-- The loop over the entries of the boot record at `extLba`, `scan` being the recursive call. -/
def scanEntries (scan : UInt32 → ScanState → Option ScanState) (extLba : UInt32) :
    List PartEntry → ScanState → Option ScanState
  | [], st => some st
  | e :: es, st =>
    if e.fsType = 0x5 then
      if st.extLbaBase ≠ 0 then
        (scan (e.startLba + st.extLbaBase) st).bind (scanEntries scan extLba es)
      else
        (scan e.startLba { st with extLbaBase := e.startLba }).bind (scanEntries scan extLba es)
    else if e.fsType ≠ 0 then
      if extLba = 0 then scanEntries scan extLba es (st.addPrim e extLba)
      else if 8 ≤ (st.addLogic e extLba).lNo then some (st.addLogic e extLba)
      else scanEntries scan extLba es (st.addLogic e extLba)
    else scanEntries scan extLba es st

/-- `partition_scan`, with a bound on the depth of the recursion. -/
def partitionScan (d : Sectors) : Nat → UInt32 → ScanState → Option ScanState
  | 0, _, _ => none
  | fuel + 1, extLba, st =>
    scanEntries (partitionScan d fuel) extLba (partitionTable (d extLba)) st

/-- The disks that `ide_init` scans, one after the other: `p_no` and `l_no` start at 0 for each,
`ext_lba_base` is what the disk before has left. The result is what is recorded of each disk. -/
def scanDisks (fuel : Nat) : UInt32 → List Sectors → Option (List (List (UInt8 × Part)))
  | _, [] => some []
  | base, d :: ds =>
    (partitionScan d fuel 0 ⟨base, 0, 0, []⟩).bind fun st =>
      (scanDisks fuel st.extLbaBase ds).map (st.recorded :: ·)

/-! ### Depth -/

variable {d : Sectors}

lemma scanEntries_mono
    (h : ∀ a st st', scan a st = some st' → scan' a st = some st') (extLba : UInt32)
    (hs : scanEntries scan extLba es st = some st') :
    scanEntries scan' extLba es st = some st' := by
  induction es generalizing st with
  | nil => exact hs
  | cons e es ih =>
    simp only [scanEntries] at hs ⊢
    split_ifs at hs ⊢
    · obtain ⟨st1, h1, h2⟩ := bind_eq_some_iff.mp hs
      exact bind_eq_some_iff.mpr ⟨st1, h _ _ _ h1, ih h2⟩
    · obtain ⟨st1, h1, h2⟩ := bind_eq_some_iff.mp hs
      exact bind_eq_some_iff.mpr ⟨st1, h _ _ _ h1, ih h2⟩
    · exact ih hs
    · exact hs
    · exact ih hs
    · exact ih hs

lemma partitionScan_mono (hle : fuel ≤ fuel') (h : partitionScan d fuel extLba st = some st') :
    partitionScan d fuel' extLba st = some st' := by
  induction fuel generalizing fuel' extLba st st' with
  | zero => cases h
  | succ fuel ih =>
    obtain ⟨k, rfl⟩ : ∃ k, fuel' = k + 1 := ⟨fuel' - 1, by omega⟩
    exact scanEntries_mono (fun a st st' => ih (by omega)) _ h

lemma scanDisks_mono (hle : fuel ≤ fuel') (h : scanDisks fuel base ds = some rs) :
    scanDisks fuel' base ds = some rs := by
  induction ds generalizing base rs with
  | nil => exact h
  | cons d ds ih =>
    obtain ⟨st, hst, hrest⟩ := bind_eq_some_iff.mp h
    obtain ⟨rs', hrs', rfl⟩ := map_eq_some_iff.mp hrest
    exact bind_eq_some_iff.mpr ⟨st, partitionScan_mono hle hst,
      map_eq_some_iff.mpr ⟨rs', ih hrs', rfl⟩⟩

/-! ### The walk over the boot records -/

/-- The base that is in force below an extended entry. -/
def linkBase (base : UInt32) (e : PartEntry) : UInt32 := if base ≠ 0 then base else e.startLba

/-- The boot record that an extended entry leads to. -/
def linkTarget (base : UInt32) (e : PartEntry) : UInt32 :=
  if base ≠ 0 then e.startLba + base else e.startLba

/-- The partitions that are met from the entries `es` of the boot record at `a` on, in order. The
walk starts with `base` in force and `l` logical partitions met, and ends with `base'` and `l'`; the
eighth logical partition ends the record it is in. -/
inductive Walk (d : Sectors) :
    UInt32 → UInt8 → UInt32 → List PartEntry → UInt32 → UInt8 → List Part → Prop where
  | done (base : UInt32) (l : UInt8) (a : UInt32) : Walk d base l a [] base l []
  | empty {base base' a : UInt32} {l l' : UInt8} {e : PartEntry} {es : List PartEntry}
      {ps : List Part} (hempty : e.fsType = 0) (h : Walk d base l a es base' l' ps) :
      Walk d base l a (e :: es) base' l' ps
  | link {base base₁ base' a : UInt32} {l l₁ l' : UInt8} {e : PartEntry} {es : List PartEntry}
      {qs ps : List Part} (hlink : e.fsType = 5)
      (hbelow : Walk d (linkBase base e) l (linkTarget base e)
        (partitionTable (d (linkTarget base e))) base₁ l₁ qs)
      (h : Walk d base₁ l₁ a es base' l' ps) :
      Walk d base l a (e :: es) base' l' (qs ++ ps)
  | prim {base base' a : UInt32} {l l' : UInt8} {e : PartEntry} {es : List PartEntry}
      {ps : List Part} (hpart : e.fsType ≠ 0 ∧ e.fsType ≠ 5) (ha : a = 0)
      (h : Walk d base l a es base' l' ps) :
      Walk d base l a (e :: es) base' l' (⟨.prim, a + e.startLba, e.secCnt⟩ :: ps)
  | logic {base base' a : UInt32} {l l' : UInt8} {e : PartEntry} {es : List PartEntry}
      {ps : List Part} (hpart : e.fsType ≠ 0 ∧ e.fsType ≠ 5) (ha : a ≠ 0) (hl : ¬ 8 ≤ l + 1)
      (h : Walk d base (l + 1) a es base' l' ps) :
      Walk d base l a (e :: es) base' l' (⟨.logic, a + e.startLba, e.secCnt⟩ :: ps)
  | last {base a : UInt32} {l : UInt8} {e : PartEntry} {es : List PartEntry}
      (hpart : e.fsType ≠ 0 ∧ e.fsType ≠ 5) (ha : a ≠ 0) (hl : 8 ≤ l + 1) :
      Walk d base l a (e :: es) base (l + 1) [⟨.logic, a + e.startLba, e.secCnt⟩]

/-- The state with partitions recorded and `base` in force. -/
def ScanState.after (st : ScanState) (base : UInt32) (ps : List Part) : ScanState :=
  { ps.foldl ScanState.add st with extLbaBase := base }

namespace ScanState

variable (st : ScanState)

@[simp] lemma after_nil : st.after st.extLbaBase [] = st := rfl

@[simp] lemma extLbaBase_add (q : Part) : (st.add q).extLbaBase = st.extLbaBase := by
  cases hq : q.kind <;> simp [add, hq]

lemma after_cons (base : UInt32) (q : Part) (ps : List Part) :
    st.after base (q :: ps) = (st.add q).after base ps := rfl

lemma add_withBase (base : UInt32) (q : Part) :
    ({ st with extLbaBase := base } : ScanState).add q = { st.add q with extLbaBase := base } := by
  cases hq : q.kind <;> simp [add, hq]

lemma foldl_withBase (base : UInt32) (ps : List Part) :
    ps.foldl add { st with extLbaBase := base } = { ps.foldl add st with extLbaBase := base } := by
  induction ps generalizing st with
  | nil => rfl
  | cons q ps ih => rw [List.foldl_cons, add_withBase, ih, List.foldl_cons]

lemma after_withBase (base base' : UInt32) (ps : List Part) :
    ({ st with extLbaBase := base } : ScanState).after base' ps = st.after base' ps := by
  simp only [after, foldl_withBase]

lemma after_append (base base' : UInt32) (ps qs : List Part) :
    (st.after base ps).after base' qs = st.after base' (ps ++ qs) := by
  simp only [after, foldl_withBase, List.foldl_append]

end ScanState

/-- The partitions with the indices they are recorded at, from `p` and `l` on. -/
def numbered : (p l : UInt8) → List Part → List (UInt8 × Part)
  | _, _, [] => []
  | p, l, q :: qs =>
    match q.kind with
    | .prim => (p, q) :: numbered (p + 1) l qs
    | .logic => (l, q) :: numbered p (l + 1) qs

lemma recorded_after (st : ScanState) (base : UInt32) (ps : List Part) :
    (st.after base ps).recorded = st.recorded ++ numbered st.pNo st.lNo ps := by
  induction ps generalizing st with
  | nil => simp [ScanState.after, numbered]
  | cons q ps ih =>
    rw [ScanState.after_cons, ih]
    cases hq : q.kind <;> simp [ScanState.add, numbered, hq]

lemma map_snd_numbered (p l : UInt8) (ps : List Part) : (numbered p l ps).map Prod.snd = ps := by
  induction ps generalizing p l with
  | nil => rfl
  | cons q ps ih => cases hq : q.kind <;> simp [numbered, hq, ih]

/-! ### The scan is the walk -/

/-- What a scan that ends has met. -/
lemma walk_of_scanEntries (hscan : ∀ a st st', scan a st = some st' → ∃ base ps,
      Walk d st.extLbaBase st.lNo a (partitionTable (d a)) base (st.after base ps).lNo ps ∧
        st' = st.after base ps)
    (h : scanEntries scan a es st = some st') :
    ∃ base ps, Walk d st.extLbaBase st.lNo a es base (st.after base ps).lNo ps ∧
      st' = st.after base ps := by
  induction es generalizing st with
  | nil =>
    obtain rfl := some.inj h
    exact ⟨st.extLbaBase, [], .done _ _ _, rfl⟩
  | cons e es ih =>
    have hlink : ∀ st0 : ScanState, st0 = { st with extLbaBase := linkBase st.extLbaBase e } →
        e.fsType = 5 → (scan (linkTarget st.extLbaBase e) st0).bind (scanEntries scan a es) = some st' →
        ∃ base ps, Walk d st.extLbaBase st.lNo a (e :: es) base (st.after base ps).lNo ps ∧
          st' = st.after base ps := by
      rintro _ rfl htype hbind
      obtain ⟨st1, h1, h2⟩ := bind_eq_some_iff.mp hbind
      obtain ⟨base1, qs, hbelow, rfl⟩ := hscan _ _ _ h1
      obtain ⟨base, ps, hrest, rfl⟩ := ih h2
      rw [ScanState.after_withBase] at hbelow hrest
      rw [ScanState.after_append] at hrest
      refine ⟨base, qs ++ ps, .link htype hbelow hrest, ?_⟩
      rw [ScanState.after_append, ScanState.after_withBase]
    simp only [scanEntries] at h
    split_ifs at h with htype hbase hne ha hl
    · refine hlink st ?_ htype ?_
      · rw [linkBase, if_pos hbase]
      · rwa [linkTarget, if_pos hbase]
    · refine hlink _ rfl htype ?_
      rwa [linkTarget, if_neg hbase, linkBase, if_neg hbase]
    · obtain ⟨base, ps, hrest, rfl⟩ := ih h
      exact ⟨base, _, .prim ⟨hne, htype⟩ ha hrest, rfl⟩
    · obtain rfl := some.inj h
      exact ⟨st.extLbaBase, [⟨.logic, a + e.startLba, e.secCnt⟩], .last ⟨hne, htype⟩ ha hl, rfl⟩
    · obtain ⟨base, ps, hrest, rfl⟩ := ih h
      exact ⟨base, _, .logic ⟨hne, htype⟩ ha hl hrest, rfl⟩
    · obtain ⟨base, ps, hrest, rfl⟩ := ih h
      exact ⟨base, ps, .empty (not_not.mp hne) hrest, rfl⟩

lemma walk_of_partitionScan (h : partitionScan d fuel a st = some st') :
    ∃ base ps, Walk d st.extLbaBase st.lNo a (partitionTable (d a)) base (st.after base ps).lNo ps ∧
      st' = st.after base ps := by
  induction fuel generalizing a st st' with
  | zero => cases h
  | succ fuel ih => exact walk_of_scanEntries (fun _ _ _ => ih) h

/-- A finite walk is made by the scan, given enough depth. -/
lemma scanEntries_of_walk (h : Walk d base l a es base' l' ps) (st : ScanState)
    (hbase : st.extLbaBase = base) (hl : st.lNo = l) :
    (st.after base' ps).lNo = l' ∧ ∃ n, ∀ fuel, n ≤ fuel →
      scanEntries (partitionScan d fuel) a es st = some (st.after base' ps) := by
  induction h generalizing st with
  | done base l a =>
    subst hbase hl
    exact ⟨rfl, 0, fun _ _ => rfl⟩
  | @empty base base' a l l' e es ps hempty h ih =>
    obtain ⟨hl', n, hn⟩ := ih st hbase hl
    refine ⟨hl', n, fun fuel hf => ?_⟩
    simp only [scanEntries, hempty]
    exact hn fuel hf
  | @link base base1 base' a l l1 l' e es qs ps hlink hbelow h ihbelow ih =>
    obtain ⟨hl1, n1, hn1⟩ := ihbelow { st with extLbaBase := linkBase base e } rfl hl
    rw [ScanState.after_withBase] at hl1 hn1
    obtain ⟨hl', n, hn⟩ := ih (st.after base1 qs) rfl hl1
    rw [ScanState.after_append] at hl' hn
    refine ⟨hl', max (n1 + 1) n, fun fuel hf => ?_⟩
    obtain ⟨k, rfl⟩ : ∃ k, fuel = k + 1 := ⟨fuel - 1, by omega⟩
    have hrec : partitionScan d (k + 1) (linkTarget base e)
        { st with extLbaBase := linkBase base e } = some (st.after base1 qs) := hn1 k (by omega)
    subst hbase
    simp only [scanEntries, hlink, if_true]
    by_cases h0 : st.extLbaBase ≠ 0
    · simp only [linkTarget, linkBase, if_pos h0] at hrec
      rw [if_pos h0, hrec]
      exact hn _ (by omega)
    · simp only [linkTarget, linkBase, if_neg h0] at hrec
      rw [if_neg h0, hrec]
      exact hn _ (by omega)
  | @prim base base' a l l' e es ps hpart ha h ih =>
    obtain ⟨hl', n, hn⟩ := ih (st.addPrim e a) (by simpa [ScanState.addPrim] using hbase) hl
    refine ⟨hl', n, fun fuel hf => ?_⟩
    rw [scanEntries, if_neg hpart.2, if_pos hpart.1, if_pos ha]
    exact hn fuel hf
  | @logic base base' a l l' e es ps hpart ha hlt h ih =>
    subst hl
    obtain ⟨hl', n, hn⟩ := ih (st.addLogic e a) (by simpa [ScanState.addLogic] using hbase) rfl
    refine ⟨hl', n, fun fuel hf => ?_⟩
    rw [scanEntries, if_neg hpart.2, if_pos hpart.1, if_neg ha, if_neg (by exact hlt)]
    exact hn fuel hf
  | @last base a l e es hpart ha hge =>
    subst hl hbase
    refine ⟨rfl, 0, fun fuel _ => ?_⟩
    rw [scanEntries, if_neg hpart.2, if_pos hpart.1, if_neg ha, if_pos (by exact hge)]
    rfl

lemma partitionScan_iff :
    (∃ fuel, partitionScan d fuel a st = some st') ↔
      ∃ base l ps, Walk d st.extLbaBase st.lNo a (partitionTable (d a)) base l ps ∧
        st' = st.after base ps := by
  constructor
  · rintro ⟨fuel, h⟩
    obtain ⟨base, ps, hw, rfl⟩ := walk_of_partitionScan h
    exact ⟨base, _, ps, hw, rfl⟩
  · rintro ⟨base, l, ps, hw, rfl⟩
    obtain ⟨-, n, hn⟩ := scanEntries_of_walk hw st rfl rfl
    exact ⟨n + 1, hn n (Nat.le_refl _)⟩

/-! ### Any content -/

/-- The index is inside `prim_parts` or `logic_parts`. -/
def InRange (r : UInt8 × Part) : Prop :=
  match r.2.kind with
  | .prim => r.1.toNat < 4
  | .logic => r.1.toNat < 8

/-- The scan of a disk ends and has written inside the arrays of the disk only. -/
def Survives (d : Sectors) (base : UInt32) : Prop :=
  ∃ fuel st, partitionScan d fuel 0 ⟨base, 0, 0, []⟩ = some st ∧ ∀ r ∈ st.recorded, InRange r

/-- The number of partitions of a kind. -/
def countKind (k : PartKind) (ps : List Part) : Nat := (ps.filter (·.kind = k)).length

lemma countKind_cons (k : PartKind) (q : Part) (qs : List Part) :
    countKind k (q :: qs) = countKind k qs + if q.kind = k then 1 else 0 := by
  simp only [countKind, List.filter_cons, decide_eq_true_eq]
  split_ifs <;> simp

/-- The indices are in range when there are not too many partitions of each kind. -/
lemma inRange_numbered_iff (hp : p.toNat ≤ 4) (hl : l.toNat ≤ 8) (ps : List Part) :
    (∀ r ∈ numbered p l ps, InRange r) ↔
      p.toNat + countKind .prim ps ≤ 4 ∧ l.toNat + countKind .logic ps ≤ 8 := by
  induction ps generalizing p l with
  | nil => simp [numbered, countKind, hp, hl]
  | cons q ps ih =>
    cases hq : q.kind with
    | prim =>
      have hin : InRange (p, q) ↔ p.toNat < 4 := by simp [InRange, hq]
      simp only [numbered, hq, List.forall_mem_cons, hin, countKind_cons, if_true,
        reduceCtorEq, if_false]
      by_cases hlt : p.toNat < 4
      · have hsucc : (p + 1).toNat = p.toNat + 1 := by
          rw [UInt8.toNat_add, UInt8.toNat_one, Nat.mod_eq_of_lt (by omega)]
        rw [ih (by omega) hl]
        omega
      · exact iff_of_false (fun h => hlt h.1) (by omega)
    | logic =>
      have hin : InRange (l, q) ↔ l.toNat < 8 := by simp [InRange, hq]
      simp only [numbered, hq, List.forall_mem_cons, hin, countKind_cons, if_true,
        reduceCtorEq, if_false]
      by_cases hlt : l.toNat < 8
      · have hsucc : (l + 1).toNat = l.toNat + 1 := by
          rw [UInt8.toNat_add, UInt8.toNat_one, Nat.mod_eq_of_lt (by omega)]
        rw [ih hp (by omega)]
        omega
      · exact iff_of_false (fun h => hlt h.1) (by omega)

/-- The scan survives exactly the disks whose boot records give a finite walk that meets at most
four primary and eight logical partitions. -/
theorem survives_iff (d : Sectors) (base : UInt32) :
    Survives d base ↔ ∃ base' l ps, Walk d base 0 0 (partitionTable (d 0)) base' l ps ∧
      countKind .prim ps ≤ 4 ∧ countKind .logic ps ≤ 8 := by
  have hrange : ∀ base' ps, (∀ r ∈ ((⟨base, 0, 0, []⟩ : ScanState).after base' ps).recorded,
      InRange r) ↔ countKind .prim ps ≤ 4 ∧ countKind .logic ps ≤ 8 := by
    intro base' ps
    rw [recorded_after, List.nil_append, inRange_numbered_iff (Nat.zero_le _) (Nat.zero_le _)]
    simp
  constructor
  · rintro ⟨fuel, st, hscan, hin⟩
    obtain ⟨base', l, ps, hw, rfl⟩ := partitionScan_iff.mp ⟨fuel, hscan⟩
    exact ⟨base', l, ps, hw, (hrange base' ps).mp hin⟩
  · rintro ⟨base', l, ps, hw, hcount⟩
    obtain ⟨fuel, hscan⟩ :=
      (@partitionScan_iff d 0 ⟨base, 0, 0, []⟩ _).mpr ⟨base', l, ps, hw, rfl⟩
    exact ⟨fuel, _, hscan, (hrange base' ps).mpr hcount⟩

/-- A boot sector with one entry. -/
def oneEntry (fsType : UInt8) (startLba secCnt : UInt32) : Bytes :=
  ((Bytes.zero.fill 450 fsType 1).setU32 454 startLba).setU32 458 secCnt

/-- An extended partition whose first boot record has itself as the next one. -/
def selfLink : Sectors := fun a => if a = 0 then oneEntry 5 1 9 else oneEntry 5 0 9

lemma partitionScan_selfLink (fuel : Nat) (st : ScanState) (h : st.extLbaBase = 1) :
    partitionScan selfLink fuel 1 st = none := by
  induction fuel generalizing st with
  | zero => rfl
  | succ fuel ih =>
    have htable : partitionTable (selfLink 1) = ⟨5, 0, 9⟩ :: List.replicate 3 ⟨0, 0, 0⟩ := by
      decide +kernel
    have hne : (1 : UInt32) ≠ 0 := by decide
    simp only [partitionScan, htable, scanEntries, h, if_true, if_pos hne]
    rw [show (0 : UInt32) + 1 = 1 from rfl, ih st h]
    rfl

/-- The scan follows the record that leads to itself for ever. -/
theorem not_forall_survives : ¬ ∀ d base, Survives d base := by
  intro h
  obtain ⟨fuel, st, hscan, -⟩ := h selfLink 0
  cases fuel with
  | zero => cases hscan
  | succ fuel =>
    have htable : partitionTable (selfLink 0) = ⟨5, 1, 9⟩ :: List.replicate 3 ⟨0, 0, 0⟩ := by
      decide +kernel
    have hzero : ¬ (0 : UInt32) ≠ 0 := by decide
    simp only [partitionScan, htable, scanEntries, if_true, if_neg hzero] at hscan
    rw [partitionScan_selfLink fuel _ rfl] at hscan
    cases hscan

end SimpleOs
