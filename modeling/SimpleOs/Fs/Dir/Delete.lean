import Mathlib
import SimpleOs.Fs.Dir.Insert

/-!
# Deleting a directory entry

`delete_dir_entry` looks for the first block with an entry of the inode number. It clears the slot,
or gives the whole block back when no other entry is left in it. Giving back a block behind the
indirect table either never returns or gives the table back as well.
-/

namespace SimpleOs

open Base Finset

variable {p : Partition}

variable {buf : Bytes} {inodeNo : UInt32} {i idx k n : Nat} {s : BlockScan} {v v1 : Vol p}
  {ino ino1 : Inode} {σ : SlotTable}

variable {o : Option Entry} {r : DirResult p}

/-! ### The scan of a block -/

/-- Entry `i` of a sector is in use and not called "." or "..". -/
def OrdinarySlot (buf : Bytes) (i : Nat) : Prop :=
  entryFType buf i ≠ 0 ∧ sameName buf (24 * i) dotName = false ∧ sameName buf (24 * i) dotDotName = false

instance (buf : Bytes) : DecidablePred (OrdinarySlot buf) :=
  fun _ => inferInstanceAs (Decidable (_ ∧ _ ∧ _))

/-- What the inner loop of `delete_dir_entry` knows after the first `i` entries of a sector. -/
structure CountOf (buf : Bytes) (inodeNo : UInt32) (i : Nat) (s : BlockScan) : Prop where
  cnt : s.dirEntryCnt = ((Finset.range i).filter (OrdinarySlot buf)).card
  found : ∀ j, s.dirEntryFound = some j → j < i ∧ OrdinarySlot buf j ∧ entryINo buf j = inodeNo
  found_none : s.dirEntryFound = none → ∀ j < i, OrdinarySlot buf j → entryINo buf j ≠ inodeNo
  first : s.isDirFirstBlock = true ↔
    ∃ j < i, entryFType buf j ≠ 0 ∧ sameName buf (24 * j) dotName = true

namespace CountOf

variable (h : CountOf buf inodeNo i s)
include h

lemma pass (hord : ¬ OrdinarySlot buf i)
    (hb : b = true ↔ s.isDirFirstBlock = true ∨ entryFType buf i ≠ 0 ∧ sameName buf (24 * i) dotName = true) :
    CountOf buf inodeNo (i + 1) { s with isDirFirstBlock := b } := by
  refine ⟨?_, fun j hj => ?_, fun hnone j hj ho => ?_, ?_⟩
  · rw [Finset.range_add_one, filter_insert, if_neg hord]
    exact h.cnt
  · obtain ⟨hlt, ho⟩ := h.found j hj
    exact ⟨by omega, ho⟩
  · rcases Nat.lt_succ_iff_lt_or_eq.mp hj with hj | rfl
    · exact h.found_none hnone j hj ho
    · exact absurd ho hord
  · rw [hb, h.first, Nat.exists_lt_succ_right]

/-- An entry that the loop counts, and may take for the one to delete. -/
lemma count (hord : OrdinarySlot buf i) : CountOf buf inodeNo (i + 1) { s with
        dirEntryCnt := s.dirEntryCnt + 1
        dirEntryFound := if entryINo buf i = inodeNo then some i else s.dirEntryFound } := by
  refine ⟨?_, fun j hj => ?_, fun hnone j hj ho => ?_, ?_⟩
  · rw [Finset.range_add_one, filter_insert, if_pos hord, card_insert_of_notMem (by simp), ← h.cnt]
  · split_ifs at hj with hino
    · cases hj
      exact ⟨by omega, hord, hino⟩
    · obtain ⟨hlt, ho⟩ := h.found j hj
      exact ⟨by omega, ho⟩
  · split_ifs at hnone with hino
    rcases Nat.lt_succ_iff_lt_or_eq.mp hj with hj | rfl
    · exact h.found_none hnone j hj ho
    · exact hino
  · rw [h.first, Nat.exists_lt_succ_right, or_iff_left]
    exact fun hd => Bool.false_ne_true (hord.2.1.symm.trans hd.2)

lemma step : CountOf buf inodeNo (i + 1) (s.step buf inodeNo i) := by
  rw [BlockScan.step]
  by_cases htype : entryFType buf i = 0
  · rw [if_pos htype]
    exact h.pass (fun ho => ho.1 htype) (by simp [htype])
  rw [if_neg htype]
  by_cases hdot : sameName buf (24 * i) dotName = true
  · -- the entry of the directory itself
    rw [if_pos hdot]
    exact h.pass (fun ho => Bool.false_ne_true (ho.2.1.symm.trans hdot)) (by simp [htype, hdot])
  rw [if_neg hdot]
  by_cases hdotDot : sameName buf (24 * i) dotDotName = true
  · rw [if_pos hdotDot]
    exact h.pass (fun ho => Bool.false_ne_true (ho.2.2.symm.trans hdotDot)) (by simp [hdot])
  · rw [if_neg hdotDot]
    exact h.count ⟨htype, Bool.eq_false_iff.mpr hdot, Bool.eq_false_iff.mpr hdotDot⟩

lemma scanBlock (n : Nat) : CountOf buf inodeNo (i + n) (SimpleOs.scanBlock buf inodeNo n i s) := by
  induction n generalizing i s with
  | zero => exact h
  | succ n ih =>
    rw [show i + (n + 1) = i + 1 + n by omega]
    exact ih h.step

end CountOf

lemma countOf_scanSector (disk : Bytes) (b inodeNo : UInt32) :
    CountOf (ideRead disk b.toNat Bytes.zero 0 1) inodeNo 21 (scanSector disk b inodeNo) := by
  have h0 : CountOf (ideRead disk b.toNat Bytes.zero 0 1) inodeNo 0 ⟨none, 0, false⟩ :=
    ⟨by simp, by simp, by simp, by simp⟩
  have h21 : CountOf _ _ (0 + 21) (scanSector disk b inodeNo) := h0.scanBlock 21
  rwa [Nat.zero_add] at h21

/-- What the inner loop knows about a row of slots after its first `i` slots. -/
structure ScanOf (row : Nat → Option Entry) (inodeNo : UInt32) (i : Nat) (s : BlockScan) :
    Prop where
  found_some : ∀ j, s.dirEntryFound = some j →
    j < i ∧ ∃ e, row j = some e ∧ e.Ordinary ∧ e.iNo = inodeNo
  found_none : s.dirEntryFound = none →
    ∀ j < i, ∀ e, row j = some e → e.Ordinary → e.iNo ≠ inodeNo
  cnt_one : s.dirEntryCnt = 1 → ∀ j < i, ∀ j' < i, ∀ e e', row j = some e → row j' = some e' →
    e.Ordinary → e'.Ordinary → j = j'
  first : s.isDirFirstBlock = false → ∀ j < i, ∀ e, row j = some e → e.name ≠ dotName

lemma SlotHolds.ordinarySlot_iff
    (h : SlotHolds buf (24 * i) o) : OrdinarySlot buf i ↔ ∃ e, o = some e ∧ e.Ordinary := by
  have hdot := h.sameName_iff (n := dotName) (by decide) (by decide)
  have hdotDot := h.sameName_iff (n := dotDotName) (by decide) (by decide)
  have htype : o = none ↔ entryFType buf i = 0 := h.eq_none_iff
  rw [OrdinarySlot, ← Bool.not_eq_true, ← Bool.not_eq_true, hdot, hdotDot, ne_eq, ← htype]
  cases o <;> simp [Entry.Ordinary]

lemma SlotHolds.dot_iff (h : SlotHolds buf (24 * i) o) :
    entryFType buf i ≠ 0 ∧ sameName buf (24 * i) dotName = true ↔ ∃ e, o = some e ∧ e.name = dotName := by
  have hdot := h.sameName_iff (n := dotName) (by decide) (by decide)
  have htype : o = none ↔ entryFType buf i = 0 := h.eq_none_iff
  rw [hdot, ne_eq, ← htype]
  cases o <;> simp

/-- What the loop knows about a sector in terms of its entries. -/
lemma CountOf.scanOf (h : CountOf buf inodeNo i s)
    (hrow : ∀ j < i, SlotHolds buf (24 * j) (row j)) : ScanOf row inodeNo i s := by
  have hino : ∀ j < i, ∀ e, row j = some e → entryINo buf j = e.iNo := by
    intro j hj e he
    have hslot := hrow j hj
    rw [he] at hslot
    exact hslot.1.iNo
  have hmem : ∀ j < i, ∀ e, row j = some e → e.Ordinary → j ∈ (Finset.range i).filter (OrdinarySlot buf) :=
    fun j hj e he ho =>
      mem_filter.mpr ⟨mem_range.mpr hj, (hrow j hj).ordinarySlot_iff.mpr ⟨e, he, ho⟩⟩
  refine ⟨fun j hj => ?_, fun hnone j hj e he ho => ?_, fun hone j hj j' hj' e e' he he' ho ho' => ?_,
    fun hf j hj e he hn => ?_⟩
  · obtain ⟨hlt, hslot, hno⟩ := h.found j hj
    obtain ⟨e, he, ho⟩ := (hrow j hlt).ordinarySlot_iff.mp hslot
    exact ⟨hlt, e, he, ho, (hino j hlt e he).symm.trans hno⟩
  · rw [← hino j hj e he]
    exact h.found_none hnone j hj ((hrow j hj).ordinarySlot_iff.mpr ⟨e, he, ho⟩)
  · rw [h.cnt] at hone
    exact card_le_one.mp hone.le j (hmem j hj e he ho) j' (hmem j' hj' e' he' ho')
  · have hfirst := h.first.mpr ⟨j, hj, (hrow j hj).dot_iff.mpr ⟨e, he, hn⟩⟩
    rw [hf] at hfirst
    cases hfirst

section

lemma DirRep.scanOf (h : DirRep v ino σ) (hk : loadBlocks v.disk ino k ≠ 0) (inodeNo : UInt32) :
    ScanOf (σ k) inodeNo 21 (scanSector v.disk (loadBlocks v.disk ino k) inodeNo) :=
  (countOf_scanSector v.disk _ inodeNo).scanOf (h.row hk Bytes.zero)

/-- A block with one entry, which is neither "." nor "..". -/
lemma DirRep.scan_alone (h : DirRep v ino σ) (he : σ k idx = some e) (ho : e.Ordinary)
    (honly : ∀ j e', σ k j = some e' → j = idx) (inodeNo : UInt32) :
    (scanSector v.disk (loadBlocks v.disk ino k) inodeNo).dirEntryCnt = 1 ∧
      (scanSector v.disk (loadBlocks v.disk ino k) inodeNo).isDirFirstBlock = false := by
  obtain ⟨hk, hidx, -⟩ := h.some_inv he
  have hcount := countOf_scanSector v.disk (loadBlocks v.disk ino k) inodeNo
  have hrow := h.row hk Bytes.zero
  constructor
  · rw [hcount.cnt, card_eq_one]
    refine ⟨idx, Finset.ext fun j => ?_⟩
    rw [mem_filter, mem_range, mem_singleton]
    constructor
    · rintro ⟨hj, hslot⟩
      obtain ⟨e', he', -⟩ := (hrow j hj).ordinarySlot_iff.mp hslot
      exact honly j e' he'
    · rintro rfl
      exact ⟨hidx, (hrow j hidx).ordinarySlot_iff.mpr ⟨e, he, ho⟩⟩
  · rw [← Bool.not_eq_true, hcount.first]
    rintro ⟨j, hj, hdot⟩
    obtain ⟨e', he', hn⟩ := (hrow j hj).dot_iff.mp hdot
    obtain rfl := honly j e' he'
    obtain rfl := Option.some.inj (he.symm.trans he')
    exact ho.1 hn

end

/-! ### Giving blocks back -/

variable {allBlocks : Nat → UInt32}

/-- The count of indirect blocks ends only when all of them are in use, and is zero then. -/
lemma countIndirect_eq_some (h : countIndirect allBlocks n k = some c) :
    c = 0 ∧ ∀ j, k ≤ j → j < k + n → allBlocks j ≠ 0 := by
  induction n generalizing k with
  | zero =>
    cases h
    exact ⟨rfl, fun j h1 h2 => by omega⟩
  | succ n ih =>
    simp only [countIndirect] at h
    split_ifs at h with h0
    obtain ⟨hc, hall⟩ := ih h
    refine ⟨hc, ?_⟩
    intro j hj1 hj2
    rcases Nat.eq_or_lt_of_le hj1 with rfl | hlt
    · exact h0
    · exact hall j hlt (by omega)

lemma countIndirect_eq_none (h : countIndirect allBlocks n k = none) :
    ∃ j, k ≤ j ∧ j < k + n ∧ allBlocks j = 0 := by
  induction n generalizing k with
  | zero => cases h
  | succ n ih =>
    rw [countIndirect] at h
    split_ifs at h with h0
    · obtain ⟨j, hle, hlt, hj⟩ := ih h
      exact ⟨j, by omega, by omega, hj⟩
    · exact ⟨k, le_rfl, by omega, not_not.mp h0⟩

lemma releaseBlock_eq_none
    (h : releaseBlock allBlocks k v ino = none) : 12 ≤ k ∧ ∃ j, 12 ≤ j ∧ j < 140 ∧ allBlocks j = 0 := by
  simp only [releaseBlock] at h
  split_ifs at h with hk
  cases hcnt : countIndirect allBlocks 128 12 with
  | none => exact ⟨by omega, countIndirect_eq_none hcnt⟩
  | some c =>
    rw [hcnt] at h
    simp only at h
    split_ifs at h

lemma releaseBlock_cases {r : Vol p × Inode} (h : releaseBlock allBlocks k v ino = some r) :
    k < 12 ∧ r = (v.freeBlock (allBlocks k),
        { ino with iSectors := setEntry ino.iSectors k 0 }) ∨
      12 ≤ k ∧ (∀ j, 12 ≤ j → j < 140 → allBlocks j ≠ 0) ∧
        r = ((v.freeBlock (allBlocks k)).freeBlock (ino.iSectors 12),
          { ino with iSectors := setEntry ino.iSectors 12 0 }) := by
  simp only [releaseBlock] at h
  split_ifs at h with hk
  · cases h
    exact .inl ⟨hk, rfl⟩
  · split at h
    · cases h
    · rename_i c hc
      obtain ⟨rfl, hall⟩ := countIndirect_eq_some hc
      simp only [gt_iff_lt, Nat.not_lt_zero, if_false, Option.some.injEq] at h
      exact .inr ⟨by omega, hall, h.symm⟩

/-! ### `delete_dir_entry` -/

/-- The deletion stops at the first block in which it finds the inode number. -/
lemma deleteBlocks_cases (h : deleteBlocks inodeNo allBlocks v ino n k = some r) :
    (r = ⟨false, v, ino⟩ ∧ ∀ j, k ≤ j → j < k + n → allBlocks j ≠ 0 →
      (scanSector v.disk (allBlocks j) inodeNo).dirEntryFound = none) ∨
    ∃ j idx, j < k + n ∧ allBlocks j ≠ 0 ∧
      (scanSector v.disk (allBlocks j) inodeNo).dirEntryFound = some idx ∧
      (((scanSector v.disk (allBlocks j) inodeNo).dirEntryCnt = 1 ∧
          (scanSector v.disk (allBlocks j) inodeNo).isDirFirstBlock = false ∧
          ∃ q, releaseBlock allBlocks j v ino = some q ∧ r = finishDelete q.1 q.2) ∨
        ¬ ((scanSector v.disk (allBlocks j) inodeNo).dirEntryCnt = 1 ∧
          (scanSector v.disk (allBlocks j) inodeNo).isDirFirstBlock = false) ∧
        r = finishDelete (v.setDisk (ideWrite v.disk (allBlocks j).toNat
          ((ideRead v.disk (allBlocks j).toNat Bytes.zero 0 1).fill (24 * idx) 0 24) 0 1)) ino) := by
  induction n generalizing k with
  | zero =>
    cases h
    exact .inl ⟨rfl, fun j h1 h2 => by omega⟩
  | succ n ih =>
    simp only [deleteBlocks] at h
    by_cases hskip : allBlocks k ≠ 0 →
        (scanSector v.disk (allBlocks k) inodeNo).dirEntryFound = none
    · have hnext : deleteBlocks inodeNo allBlocks v ino n (k + 1) = some r := by
        by_cases h0 : allBlocks k = 0
        · rwa [if_pos h0] at h
        · rwa [if_neg h0, hskip h0] at h
      rcases ih hnext with ⟨hr, hall⟩ | ⟨j, idx, hj, hrest⟩
      · refine .inl ⟨hr, fun j hj1 hj2 hj => ?_⟩
        rcases Nat.eq_or_lt_of_le hj1 with rfl | hlt
        · exact hskip hj
        · exact hall j hlt (by omega) hj
      · exact .inr ⟨j, idx, by omega, hrest⟩
    · obtain ⟨h0, hne⟩ := Classical.not_imp.mp hskip
      obtain ⟨idx, hidx⟩ := Option.ne_none_iff_exists'.mp hne
      rw [if_neg h0, hidx] at h
      refine .inr ⟨k, idx, by omega, h0, hidx, ?_⟩
      split_ifs at h with hone
      · obtain ⟨q, hq, rfl⟩ := Option.map_eq_some_iff.mp h
        exact .inl ⟨hone.1, hone.2, q, hq, rfl⟩
      · cases h
        exact .inr ⟨hone, rfl⟩

/-- The deletion does not return when it has to give back a block behind an indirect table that is not
full. -/
lemma deleteBlocks_eq_none (h : deleteBlocks inodeNo allBlocks v ino n k = none) :
    ∃ j idx, allBlocks j ≠ 0 ∧ (scanSector v.disk (allBlocks j) inodeNo).dirEntryFound = some idx ∧
      (scanSector v.disk (allBlocks j) inodeNo).dirEntryCnt = 1 ∧ releaseBlock allBlocks j v ino = none := by
  induction n generalizing k with
  | zero => cases h
  | succ n ih =>
    rw [deleteBlocks] at h
    split_ifs at h with h0
    · exact ih h
    simp only at h
    cases hfound : (scanSector v.disk (allBlocks k) inodeNo).dirEntryFound with
    | none =>
      rw [hfound] at h
      exact ih h
    | some idx =>
      rw [hfound] at h
      split_ifs at h with hone
      exact ⟨k, idx, h0, hfound, hone.1, Option.map_eq_none_iff.mp h⟩

lemma ideWrite_fill_ideRead (d : Bytes) (b : UInt32) (hidx : idx < 21) :
    ideWrite d b.toNat ((ideRead d b.toNat Bytes.zero 0 1).fill (24 * idx) 0 24) 0 1 =
      d.copy (entryAddr b idx) Bytes.zero 0 24 := by
  have hfill : ∀ s : Bytes, s.fill (24 * idx) 0 24 = s.copy (0 + 24 * idx) Bytes.zero 0 24 := by
    intro s
    rw [Nat.zero_add]
    rfl
  rw [hfill, ideWrite_eq, ideRead_eq, Bytes.copy_copy_back _ _ _ (by omega), entryAddr]

/-- The deletion of the only entry of an indirect block, all 128 of them being in use. -/
def LastOfFullTable (v : Vol p) (ino : Inode) (inodeNo : UInt32) : Prop :=
  (∀ k, 12 ≤ k → k < 140 → loadBlocks v.disk ino k ≠ 0) ∧
    ∃ k, 12 ≤ k ∧ k < 140 ∧
      (scanSector v.disk (loadBlocks v.disk ino k) inodeNo).dirEntryFound ≠ none ∧
      (scanSector v.disk (loadBlocks v.disk ino k) inodeNo).dirEntryCnt = 1

/-- What a deletion leaves alone besides other blocks: it writes to the inode table only to save
the inode of the directory. -/
structure DeleteFrame (v : Vol p) (ino : Inode) (v' : Vol p) (ino' : Inode) : Prop extends
    DirFrame v ino v' ino' where
  sameTable : ∃ v₁ : Vol p, (∀ a, 512 * p.sb.inodeTableLba ≤ a → a < 512 * p.sb.dataStartLba →
    v₁.disk a = v.disk a) ∧ v' = v₁.inodeSync ino' Bytes.zero
  iNo : ino'.iNo = ino.iNo
  iOpenCnts : ino'.iOpenCnts = ino.iOpenCnts
  writeDeny : ino'.writeDeny = ino.writeDeny

/-- The end of a deletion, after which no more is owned than before. -/
lemma Rewritten.finishDelete (hw : Rewritten v ino v1 ino1 m new)
    (hm : ∀ j, m j ≠ 0 → m j = loadBlocks v.disk ino j)
    (ht : ino1.iSectors 12 ≠ 0 → ino1.iSectors 12 = ino.iSectors 12)
    (hothers : ∀ x, v.Holds x → ¬ OwnsBlock v ino x → v1.Holds x ∧ SameSector v.disk v1.disk x.toNat)
    (hused : ∀ i, v1.inodeUsed i = v.inodeUsed i)
    (htab : ∀ a, 512 * p.sb.inodeTableLba ≤ a → a < 512 * p.sb.dataStartLba →
      v1.disk a = v.disk a) (hno : ino1.iNo = ino.iNo) (hcnt : ino1.iOpenCnts = ino.iOpenCnts)
    (hdeny : ino1.writeDeny = ino.writeDeny) :
    let r := SimpleOs.finishDelete v1 ino1
    Rewritten v ino r.vol r.inode m new ∧ DeleteFrame v ino r.vol r.inode := by
  intro r
  have hsame : ∀ x, v1.Holds x → SameSector v1.disk r.vol.disk x.toNat :=
    fun x hx => (v1.sameData_inodeSync _ _).sameSector hx.ge
  have hs : Rewritten v1 ino1 r.vol r.inode m fun _ _ => none := by
    obtain ⟨rfl, howned, -, -⟩ := hw
    exact .of_sameSector howned (fun _ _ => rfl) fun x hx => ⟨howned.holds hx, hsame x (howned.holds hx)⟩
  refine ⟨hw.trans_none hs, ⟨⟨fun x hx hown => ?_, ?_, hused⟩, ⟨v1, htab, rfl⟩, hno, hcnt, hdeny⟩⟩
  · obtain ⟨h1, h2⟩ := hothers x hx hown
    exact ⟨h1, h2.trans (hsame x h1)⟩
  · rintro x ⟨hx0, ⟨j, hj⟩ | hx⟩
    · rw [hs.blocks] at hj
      exact .inl ⟨hx0, .inl ⟨j, (hm j (hj ▸ hx0)).symm.trans hj⟩⟩
    · exact .inl ⟨hx0, .inr ((ht (hx.symm ▸ hx0)).symm.trans hx)⟩

namespace BlocksOwned

variable (h : BlocksOwned v (loadBlocks v.disk ino) (ino.iSectors 12))
include h

lemma clearSlot (hk : loadBlocks v.disk ino k ≠ 0) (hidx : idx < 21) :
    let r := SimpleOs.finishDelete (v.setDisk (v.disk.copy (entryAddr (loadBlocks v.disk ino k) idx)
      Bytes.zero 0 24)) ino
    Rewritten v ino r.vol r.inode (loadBlocks v.disk ino) (oneSlot k idx Bytes.zero) ∧
      DeleteFrame v ino r.vol r.inode := by
  refine (Rewritten.of_slot h hk hidx Bytes.zero rfl).finishDelete (fun _ _ => rfl) (fun _ => rfl)
    (fun x hx hown => ⟨hx, fun r hr => Bytes.copy_outside _ _ ?_⟩) (fun _ => rfl)
    (fun a _ ha => Bytes.copy_outside _ _ ?_) rfl rfl rfl
  · have hne : x.toNat ≠ (loadBlocks v.disk ino k).toNat := by
      intro heq
      rw [UInt32.toNat_inj.mp heq] at hown
      exact hown (DirRep.ownsBlock hk)
    rw [entryAddr]
    omega
  · have := (h.held k hk).ge
    rw [entryAddr]
    omega

/-- Giving a direct block back. -/
lemma dropBlock (hk0 : loadBlocks v.disk ino k ≠ 0) (hk : k < 12) :
    let r := SimpleOs.finishDelete (v.freeBlock (loadBlocks v.disk ino k))
      { ino with iSectors := setEntry ino.iSectors k 0 }
    Rewritten v ino r.vol r.inode (setEntry (loadBlocks v.disk ino) k 0) (fun _ _ => none) ∧
      DeleteFrame v ino r.vol r.inode := by
  have hf := Vol.freed_freeBlock v (h.held k hk0).isBlock
  have h12 : setEntry ino.iSectors k 0 12 = ino.iSectors 12 := setEntry_of_ne _ _ (by omega)
  -- a block that is still there is another one
  have hm : ∀ j, setEntry (loadBlocks v.disk ino) k 0 j ≠ 0 →
      j ≠ k ∧ setEntry (loadBlocks v.disk ino) k 0 j = loadBlocks v.disk ino j := by
    intro j hj
    have hjk : j ≠ k := by
      rintro rfl
      exact hj (setEntry_self _ _ _)
    exact ⟨hjk, setEntry_of_ne _ _ hjk⟩
  have hw : Rewritten v ino (v.freeBlock (loadBlocks v.disk ino k))
      { ino with iSectors := setEntry ino.iSectors k 0 } (setEntry (loadBlocks v.disk ino) k 0)
      fun _ _ => none := by
    refine .of_le h (loadBlocks_setEntry hk rfl fun ht => hf.sameSector (h.table_held ht)) (fun j hj => ?_)
      fun ht => ?_
    · obtain ⟨hjk, heq⟩ := hm j hj
      rw [heq] at hj ⊢
      have hheld := h.held j hj
      exact ⟨rfl, (hf.holds_iff _).mpr ⟨hheld, fun hjk' => hjk (h.inj j k hj hjk')⟩, hf.sameSector hheld⟩
    · have ht' : ino.iSectors 12 ≠ 0 := h12 ▸ ht
      exact ⟨h12, (hf.holds_iff _).mpr ⟨h.table_held ht', (h.table_ne ht' k).symm⟩⟩
  refine hw.finishDelete (fun j hj => (hm j hj).2) (fun _ => h12) (fun x hx hown => ⟨?_, hf.sameSector hx⟩)
    hf.inodeUsed (fun a ha _ => hf.sameDisk a ha) rfl rfl rfl
  refine (hf.holds_iff x).mpr ⟨hx, ?_⟩
  rintro rfl
  exact hown (DirRep.ownsBlock hk0)

/-- Giving a block behind the indirect table back, and the table. -/
lemma dropTable (hk0 : loadBlocks v.disk ino k ≠ 0) (hk : 12 ≤ k) :
    let r := SimpleOs.finishDelete
      ((v.freeBlock (loadBlocks v.disk ino k)).freeBlock (ino.iSectors 12))
      { ino with iSectors := setEntry ino.iSectors 12 0 }
    Rewritten v ino r.vol r.inode (directBlocks ino) (fun _ _ => none) ∧
      DeleteFrame v ino r.vol r.inode := by
  have ht : ino.iSectors 12 ≠ 0 := fun h0 => hk0 (loadBlocks_of_table_eq_zero h0 hk)
  have hf := Vol.freed_freeBlock v (h.held k hk0).isBlock
  have hf' := Vol.freed_freeBlock (v.freeBlock (loadBlocks v.disk ino k)) (h.table_held ht).isBlock
  have h12 : setEntry ino.iSectors 12 0 12 = 0 := setEntry_self _ _ _
  have hdisk := fun a ha => (hf'.sameDisk a ha).trans (hf.sameDisk a ha)
  have hsame : ∀ x, v.Holds x → SameSector v.disk
      ((v.freeBlock (loadBlocks v.disk ino k)).freeBlock (ino.iSectors 12)).disk x.toNat := by
    intro x hx r hr
    have h1 := hx.ge
    have h2 := p.dataStartLba_eq
    exact hdisk _ (by omega)
  have hholds : ∀ x, v.Holds x → x ≠ loadBlocks v.disk ino k → x ≠ ino.iSectors 12 →
      ((v.freeBlock (loadBlocks v.disk ino k)).freeBlock (ino.iSectors 12)).Holds x :=
    fun x hx h1 h2 => (hf'.holds_iff x).mpr ⟨(hf.holds_iff x).mpr ⟨hx, h1⟩, h2⟩
  have hw : Rewritten v ino ((v.freeBlock (loadBlocks v.disk ino k)).freeBlock (ino.iSectors 12))
      { ino with iSectors := setEntry ino.iSectors 12 0 } (directBlocks ino) fun _ _ => none := by
    refine .of_le h (fun j => ?_) (fun j hj => ?_) fun h0 => absurd h12 h0
    · rw [loadBlocks_eq_directBlocks h12, directBlocks, directBlocks]
      split_ifs with hj
      · exact setEntry_of_ne _ _ (by omega)
      · rfl
    · have heq := directBlocks_eq_loadBlocks hj v.disk
      have hj12 : j < 12 := by
        by_contra hge
        exact hj (by rw [directBlocks, if_neg hge])
      rw [heq] at hj ⊢
      have hheld := h.held j hj
      refine ⟨rfl, hholds _ hheld (fun hjk => ?_) (h.table_ne ht j), hsame _ hheld⟩
      have := h.inj j k hj hjk
      omega
  refine hw.finishDelete (fun j hj => directBlocks_eq_loadBlocks hj _) (fun h0 => absurd h12 h0)
    (fun x hx hown => ⟨hholds x hx ?_ ?_, hsame x hx⟩) (fun i => (hf'.inodeUsed i).trans (hf.inodeUsed i))
    (fun a ha _ => hdisk a ha) rfl rfl rfl
  · rintro rfl
    exact hown (DirRep.ownsBlock hk0)
  · rintro rfl
    exact hown ⟨ht, .inr rfl⟩

end BlocksOwned

/-- What a deletion that returns has done to the slots: nothing, or it has cleared the slot it found,
given back the block, or given back the block and the indirect table. -/
lemma deleteDirEntry_rewritten (h : BlocksOwned v (loadBlocks v.disk ino) (ino.iSectors 12))
    (hr : deleteDirEntry v ino inodeNo = some r) :
    (r = ⟨false, v, ino⟩ ∧ ∀ k, loadBlocks v.disk ino k ≠ 0 →
      (scanSector v.disk (loadBlocks v.disk ino k) inodeNo).dirEntryFound = none) ∨
    r.ok = true ∧ DeleteFrame v ino r.vol r.inode ∧ r.inode.iSize = ino.iSize - 24 ∧ ∃ k idx,
      loadBlocks v.disk ino k ≠ 0 ∧
      (scanSector v.disk (loadBlocks v.disk ino k) inodeNo).dirEntryFound = some idx ∧
      ((¬ ((scanSector v.disk (loadBlocks v.disk ino k) inodeNo).dirEntryCnt = 1 ∧
          (scanSector v.disk (loadBlocks v.disk ino k) inodeNo).isDirFirstBlock = false) ∧
          r.inode.iSectors 12 = ino.iSectors 12 ∧
          Rewritten v ino r.vol r.inode (loadBlocks v.disk ino) (oneSlot k idx Bytes.zero)) ∨
        ((scanSector v.disk (loadBlocks v.disk ino k) inodeNo).dirEntryCnt = 1 ∧
          (scanSector v.disk (loadBlocks v.disk ino k) inodeNo).isDirFirstBlock = false ∧ k < 12 ∧
          r.inode.iSectors 12 = ino.iSectors 12 ∧
          Rewritten v ino r.vol r.inode (setEntry (loadBlocks v.disk ino) k 0) fun _ _ => none) ∨
        (scanSector v.disk (loadBlocks v.disk ino k) inodeNo).dirEntryCnt = 1 ∧ 12 ≤ k ∧ k < 140 ∧
          (∀ j, 12 ≤ j → j < 140 → loadBlocks v.disk ino j ≠ 0) ∧ r.inode.iSectors 12 = 0 ∧
          Rewritten v ino r.vol r.inode (directBlocks ino) fun _ _ => none) := by
  rcases deleteBlocks_cases hr with ⟨rfl, hall⟩ | ⟨k, idx, hk, hk0, hfound, hcase⟩
  · exact .inl ⟨rfl, fun k hk0 => hall k (by omega) (lt_of_loadBlocks hk0) hk0⟩
  right
  have hidx := ((countOf_scanSector v.disk _ inodeNo).found idx hfound).1
  rcases hcase with ⟨hone, hfirst, q, hq, rfl⟩ | ⟨hmore, rfl⟩
  · rcases releaseBlock_cases hq with ⟨hk12, rfl⟩ | ⟨hk12, hall, rfl⟩
    · obtain ⟨hw, hframe⟩ := h.dropBlock hk0 hk12
      exact ⟨rfl, hframe, rfl, k, idx, hk0, hfound,
        .inr (.inl ⟨hone, hfirst, hk12, setEntry_of_ne _ _ (by omega), hw⟩)⟩
    · obtain ⟨hw, hframe⟩ := h.dropTable hk0 hk12
      exact ⟨rfl, hframe, rfl, k, idx, hk0, hfound,
        .inr (.inr ⟨hone, hk12, by omega, hall, setEntry_self ino.iSectors 12 0, hw⟩)⟩
  · rw [ideWrite_fill_ideRead _ _ hidx]
    obtain ⟨hw, hframe⟩ := h.clearSlot hk0 hidx
    exact ⟨rfl, hframe, rfl, k, idx, hk0, hfound, .inl ⟨hmore, rfl, hw⟩⟩

/-- A directory that has lost blocks. -/
lemma DirRep.of_dropped {v' : Vol p} {ino' : Inode} {σ' : SlotTable} {m : Nat → UInt32}
    (h : DirRep v ino σ) (hw : Rewritten v ino v' ino' m fun _ _ => none)
    (hold : ∀ k i, m k ≠ 0 → i < 21 → σ' k i = σ k i) (hout : ∀ k i, m k = 0 ∨ 21 ≤ i → σ' k i = none) :
    DirRep v' ino' σ' :=
  h.of_rewritten hw nofun (fun k i _ => hold k i) hout

/-- A deletion that returns has found nothing, or has removed one entry of the inode number: alone,
with the rest of its block, or with everything behind the indirect table. -/
lemma DirRep.deleteDirEntry
    (h : DirRep v ino σ) (hr : SimpleOs.deleteDirEntry v ino inodeNo = some r) :
    (r = ⟨false, v, ino⟩ ∧ ∀ k idx e, σ k idx = some e → e.Ordinary → e.iNo ≠ inodeNo) ∨
    (r.ok = true ∧ DeleteFrame v ino r.vol r.inode ∧ r.inode.iSize = ino.iSize - 24 ∧
      ∃ k idx e, σ k idx = some e ∧ e.Ordinary ∧ e.iNo = inodeNo ∧
        (DirRep r.vol r.inode (σ.set k idx none) ∨
          ((∀ i e', σ k i = some e' → e'.Ordinary → i = idx) ∧
            (∀ i e', σ k i = some e' → e'.name ≠ dotName) ∧
            DirRep r.vol r.inode (σ.setBlock k fun _ => none)) ∨
          (LastOfFullTable v ino inodeNo ∧ DirRep r.vol r.inode σ.direct))) := by
  rcases deleteDirEntry_rewritten h.owned hr with ⟨rfl, hall⟩ |
    ⟨hok, hframe, hsize, k, idx, hk0, hfound, hcase⟩
  · refine .inl ⟨rfl, fun k idx e hs ho => ?_⟩
    obtain ⟨hk0, hidx, -⟩ := h.some_inv hs
    exact (h.scanOf hk0 inodeNo).found_none (hall k hk0) idx hidx e hs ho
  have hscan := h.scanOf hk0 inodeNo
  obtain ⟨hidx, e, he, ho, hino⟩ := hscan.found_some idx hfound
  refine .inr ⟨hok, hframe, hsize, k, idx, e, he, ho, hino, ?_⟩
  rcases hcase with ⟨-, -, hw⟩ | ⟨hone, hfirst, hk, -, hw⟩ | ⟨hone, hk, hlt, hall, -, hw⟩
  · exact .inl (h.of_oneSlot hw hk0 hidx (blankAt_of_zero fun _ _ => rfl))
  · refine .inr (.inl ⟨fun i e' he' ho' => ?_, fun i e' he' => ?_, ?_⟩)
    · exact hscan.cnt_one hone i (h.some_inv he').2.1 idx hidx e' e he' he ho' ho
    · exact hscan.first hfirst i (h.some_inv he').2.1 e' he'
    refine h.of_dropped hw (fun j i hj _ => ?_) fun j i hj => ?_
    · rw [SlotTable.setBlock, if_neg]
      rintro rfl
      exact hj (setEntry_self _ _ _)
    · rw [SlotTable.setBlock]
      split_ifs with hjk
      · rfl
      · rw [setEntry_of_ne _ _ hjk] at hj
        exact h.outside j i hj
  · refine .inr (.inr ⟨⟨hall, k, hk, hlt, by simp [hfound], hone⟩, ?_⟩)
    exact h.of_dropped hw (fun j i hj _ => SlotTable.direct_of_ne hj) h.direct_outside

/-- The deletion of the only entry of a block behind the indirect table gives the table back. -/
lemma DirRep.deleteDirEntry_alone (h : DirRep v ino σ) (hs : σ k idx = some e) (ho : e.Ordinary)
    (hino : e.iNo = inodeNo)
    (huniq : ∀ j i e', σ j i = some e' → e'.Ordinary → e'.iNo = inodeNo → j = k ∧ i = idx) (hk : 12 ≤ k)
    (halone : ∀ i e', σ k i = some e' → i = idx) (hr : SimpleOs.deleteDirEntry v ino inodeNo = some r) :
    (∀ j, 12 ≤ j → j < 140 → loadBlocks v.disk ino j ≠ 0) ∧ r.inode.iSectors 12 = 0 := by
  obtain ⟨hk0, hidx, -⟩ := h.some_inv hs
  rcases deleteDirEntry_rewritten h.owned hr with ⟨rfl, hall⟩ | ⟨-, -, -, j, i, hj0, hfound, hcase⟩
  · exact absurd hino ((h.scanOf hk0 inodeNo).found_none (hall k hk0) idx hidx e hs ho)
  obtain ⟨-, e', he', ho', hino'⟩ := (h.scanOf hj0 inodeNo).found_some i hfound
  obtain ⟨rfl, rfl⟩ := huniq j i e' he' ho' hino'
  rcases hcase with ⟨hmore, -⟩ | ⟨-, -, hlt, -⟩ | ⟨-, -, -, hall, h12, -⟩
  · exact absurd (h.scan_alone hs ho halone inodeNo) hmore
  · omega
  · exact ⟨hall, h12⟩

end SimpleOs
