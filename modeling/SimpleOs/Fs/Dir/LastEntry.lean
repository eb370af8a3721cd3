import SimpleOs.Fs.Dir.Map
import SimpleOs.Fs.Path.Remove

/-!
# Deletions behind the indirect table

When `delete_dir_entry` takes the last entry of a block it gives the block back. For a block behind the
indirect table it first counts the others, in a loop that only moves on at entries of the table that are
in use and counts none of them.
-/

namespace SimpleOs

open Base DirTree

variable {p : Partition}

variable {σ : SlotTable} {live : List Entry} {inodeNo : UInt32} {idx idx' k k' : Nat}
  {r : DirResult p}

/-- Inode number `inodeNo` has an ordinary entry in slot `idx` of block `k`. -/
def SlotTable.Names (σ : SlotTable) (inodeNo : UInt32) (k idx : Nat) : Prop :=
  ∃ e, σ k idx = some e ∧ e.Ordinary ∧ e.iNo = inodeNo

/-- Slot `idx` is the only one in use in block `k`. -/
def SlotTable.Alone (σ : SlotTable) (k idx : Nat) : Prop := ∀ i, σ k i ≠ none → i = idx

/-- What a deletion should do: return, leave every other entry in its slot, and give back a block behind
the indirect table when its last entry goes, and the table only when no other block is behind it. -/
def DeletesEntry (v : Vol p) (ino : Inode) (σ : SlotTable) (inodeNo : UInt32) : Prop :=
  ∃ r, deleteDirEntry v ino inodeNo = some r ∧ DirRep r.vol r.inode (eraseSlots inodeNo σ) ∧
    ∀ k idx, 12 ≤ k → σ.Names inodeNo k idx → σ.Alone k idx →
      ¬ r.vol.Holds (loadBlocks v.disk ino k) ∧
      (r.inode.iSectors 12 ≠ 0 ↔ ∃ j, 12 ≤ j ∧ j ≠ k ∧ loadBlocks v.disk ino j ≠ 0)

/-- The entry of the inode number is the only one of a block behind the indirect table. -/
def SlotTable.LastOfIndirect (σ : SlotTable) (inodeNo : UInt32) : Prop :=
  ∃ k idx, 12 ≤ k ∧ σ.Names inodeNo k idx ∧ σ.Alone k idx

namespace SlotTable.IsMap

lemma names_unique (h : σ.IsMap live) (hn : σ.Names inodeNo k idx)
    (hn' : σ.Names inodeNo k' idx') : k = k' ∧ idx = idx' := by
  obtain ⟨e, he, ho, hi⟩ := hn
  obtain ⟨e', he', ho', hi'⟩ := hn'
  obtain rfl := h.inos e ((h.mem_iff e).mpr ⟨k, idx, he⟩) e' ((h.mem_iff e').mpr ⟨k', idx', he'⟩) ho ho'
    (hi.trans hi'.symm)
  exact h.names k idx k' idx' e e he he' rfl

/-- Taking the entry of a number out is clearing its slot. -/
lemma eraseSlots_eq_set (h : σ.IsMap live) (hn : σ.Names inodeNo k idx) :
    eraseSlots inodeNo σ = σ.set k idx none := by
  funext j i
  rw [eraseSlots, SlotTable.set]
  split_ifs with hji
  · obtain ⟨rfl, rfl⟩ := hji
    obtain ⟨e, he, ho, hi⟩ := hn
    simp [he, ho, hi]
  · cases he : σ j i with
    | none => rfl
    | some e =>
      have hother : ¬ (e.Ordinary ∧ e.iNo = inodeNo) :=
        fun hnamed => hji (h.names_unique ⟨e, he, hnamed⟩ hn)
      simp [Option.filter, hother]

lemma eraseSlots_eq_self (hnone : ∀ k idx e, σ k idx = some e → e.Ordinary → e.iNo ≠ inodeNo) :
    eraseSlots inodeNo σ = σ := by
  funext j i
  rw [eraseSlots]
  cases he : σ j i with
  | none => rfl
  | some e =>
    have hother : ¬ (e.Ordinary ∧ e.iNo = inodeNo) := fun hnamed => hnone j i e he hnamed.1 hnamed.2
    simp [Option.filter, hother]

lemma alone (h : σ.IsMap live) (hk : k ≠ 0)
    (honly : ∀ i e', σ k i = some e' → e'.Ordinary → i = idx) : σ.Alone k idx := by
  intro i hi
  obtain ⟨e', he'⟩ := Option.ne_none_iff_exists'.mp hi
  refine honly i e' he' ⟨fun hdot => hk ?_, fun hdot => hk ?_⟩
  · obtain ⟨i0, e0, he0, hn0⟩ := h.dot
    exact (h.names k i 0 i0 e' e0 he' he0 (hdot.trans hn0.symm)).1
  · obtain ⟨i0, e0, he0, hn0⟩ := h.dotDot
    exact (h.names k i 0 i0 e' e0 he' he0 (hdot.trans hn0.symm)).1

end SlotTable.IsMap

section

variable {v : Vol p} {ino : Inode}

section

variable (h : DirRep v ino σ)
include h

lemma DirRep.alone_of_scan (hmap : σ.IsMap live) (hk : loadBlocks v.disk ino k ≠ 0) (hk0 : k ≠ 0)
    (hfound : (scanSector v.disk (loadBlocks v.disk ino k) inodeNo).dirEntryFound = some idx)
    (hone : (scanSector v.disk (loadBlocks v.disk ino k) inodeNo).dirEntryCnt = 1) :
    σ.Names inodeNo k idx ∧ σ.Alone k idx := by
  have hscan := h.scanOf hk inodeNo
  obtain ⟨hidx, e, he, ho, hi⟩ := hscan.found_some idx hfound
  refine ⟨⟨e, he, ho, hi⟩, hmap.alone hk0 fun i e' he' ho' => ?_⟩
  exact hscan.cnt_one hone i (h.some_inv he').2.1 idx hidx e' e he' he ho' ho

/-- The deletion of the last entry of a block behind the table does not return, or it gives the table
back while all the other blocks are still behind it. -/
lemma deleteDirEntry_of_lastOfIndirect (hmap : σ.IsMap live) (hk : 12 ≤ k)
    (hnames : σ.Names inodeNo k idx) (halone : σ.Alone k idx)
    (hr : deleteDirEntry v ino inodeNo = some r) :
    r.inode.iSectors 12 = 0 ∧ ∀ j, 12 ≤ j → j < 140 → loadBlocks v.disk ino j ≠ 0 := by
  obtain ⟨e, he, ho, hi⟩ := hnames
  obtain ⟨hall, h12⟩ := h.deleteDirEntry_alone he ho hi (fun j i e' he' ho' hi' =>
    hmap.names_unique ⟨e', he', ho', hi'⟩ ⟨e, he, ho, hi⟩) hk (fun j e' he' => halone j (by simp [he'])) hr
  exact ⟨h12, hall⟩

lemma deleteDirEntry_ne_none (hmap : σ.IsMap live)
    (hlast : ¬ σ.LastOfIndirect inodeNo) : deleteDirEntry v ino inodeNo ≠ none := by
  intro hnone
  obtain ⟨k, idx, hk, hfound, hone, hrel⟩ := deleteBlocks_eq_none hnone
  obtain ⟨hk12, -⟩ := releaseBlock_eq_none hrel
  exact hlast ⟨k, idx, hk12, h.alone_of_scan hmap hk (by omega) hfound hone⟩

/-- Any other deletion takes the entry of the number out, and no other. -/
lemma deleteDirEntry_rep (hmap : σ.IsMap live)
    (hlast : ¬ σ.LastOfIndirect inodeNo) (hr : deleteDirEntry v ino inodeNo = some r) :
    DirRep r.vol r.inode (eraseSlots inodeNo σ) := by
  rcases h.deleteDirEntry hr with ⟨rfl, hnone⟩ | ⟨-, -, -, k, idx, e, he, ho, hi, hcase⟩
  · rw [SlotTable.IsMap.eraseSlots_eq_self hnone]
    exact h
  · rw [hmap.eraseSlots_eq_set ⟨e, he, ho, hi⟩]
    rcases hcase with hrep | ⟨honly, hdot, hrep⟩ | ⟨⟨hall, j, hj12, hj, hfound, hone⟩, -⟩
    · exact hrep
    · rwa [hmap.setBlock_eq_set he honly hdot] at hrep
    · -- all of the table is in use, and one of its blocks has a single entry
      obtain ⟨i, hfound⟩ := Option.ne_none_iff_exists'.mp hfound
      have halone := h.alone_of_scan hmap (hall j hj12 hj) (by omega) hfound hone
      exact absurd ⟨j, i, hj12, halone⟩ hlast

end

/-- A deletion does what it should exactly when it does not take the last entry of a block behind the
indirect table. -/
theorem deletesEntry_iff (h : DirRep v ino σ) (hmap : σ.IsMap live) (inodeNo : UInt32) :
    DeletesEntry v ino σ inodeNo ↔ ¬ σ.LastOfIndirect inodeNo := by
  constructor
  · rintro ⟨r, hr, -, hfree⟩ ⟨k, idx, hk, hnames, halone⟩
    obtain ⟨hzero, hall⟩ := deleteDirEntry_of_lastOfIndirect h hmap hk hnames halone hr
    -- there are 127 blocks more behind the table that it gives back
    obtain ⟨j, hj, hj', hjk⟩ : ∃ j, 12 ≤ j ∧ j < 140 ∧ j ≠ k := by
      by_cases hk12 : k = 12
      · exact ⟨13, by omega, by omega, by omega⟩
      · exact ⟨12, by omega, by omega, by omega⟩
    exact ((hfree k idx hk hnames halone).2.mpr ⟨j, hj, hjk, hall j hj hj'⟩) hzero
  · intro hlast
    obtain ⟨r, hr⟩ := Option.ne_none_iff_exists'.mp (deleteDirEntry_ne_none h hmap hlast)
    refine ⟨r, hr, deleteDirEntry_rep h hmap hlast hr, fun k idx hk hnames halone => ?_⟩
    exact absurd ⟨k, idx, hk, hnames, halone⟩ hlast

end

namespace Crowded

/-- Deleting an entry of a direct block of the crowded directory works. -/
theorem deletesEntry_five : DeletesEntry vol inode slots 5 := by
  refine (deletesEntry_iff rep isMap 5).mpr ?_
  rintro ⟨k, idx, hk, ⟨e, he, -, hi⟩, -⟩
  obtain ⟨hslot, rfl⟩ := slots_eq_some he
  obtain ⟨rfl, rfl⟩ : k = 12 ∧ idx = 0 := by omega
  exact absurd hi (by decide)

/-- Deleting the one entry behind the indirect table does not return. -/
theorem not_forall_deletesEntry :
    ¬ ∀ (p : Partition) (v : Vol p) (ino : Inode) (σ : SlotTable) (live : List Entry),
      DirRep v ino σ → σ.IsMap live → ∀ inodeNo, DeletesEntry v ino σ inodeNo := by
  intro hall
  obtain ⟨r, hr, -⟩ := hall _ vol inode slots state.live rep isMap 252
  have hnone : (deleteDirEntry vol inode 252).isNone = true := by decide +kernel
  rw [hr] at hnone
  cases hnone

end Crowded

end SimpleOs
