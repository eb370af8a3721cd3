import SimpleOs.Base.Transition
import SimpleOs.Fs.Dir.Delete

/-!
# A directory as a finite map

Seen from outside a directory is a finite map from names to inode numbers and types. Runs of
insertions and deletions keep that view as long as no insertion has to replace an indirect table
and no deletion gives one back with entries behind it.
-/

namespace SimpleOs

open Base

variable {p : Partition}

/-- The slots of a directory are a map: no name stands in two of them, and no inode number stands
under two ordinary names. The entries for the directory and its parent are in the first block. -/
structure SlotTable.IsMap (σ : SlotTable) (live : List Entry) : Prop where
  mem_iff : ∀ e, e ∈ live ↔ ∃ k idx, σ k idx = some e
  names : ∀ k idx k' idx' e e', σ k idx = some e → σ k' idx' = some e' → e.name = e'.name →
    k = k' ∧ idx = idx'
  inos : ∀ e ∈ live, ∀ e' ∈ live, e.Ordinary → e'.Ordinary → e.iNo = e'.iNo → e = e'
  dot : ∃ idx e, σ 0 idx = some e ∧ e.name = dotName
  dotDot : ∃ idx e, σ 0 idx = some e ∧ e.name = dotDotName

/-- A directory on a volume, with the entries that are live in it. -/
structure DirState (p : Partition) where
  vol : Vol p
  inode : Inode
  live : List Entry

/-- The volume holds a directory with these entries. -/
def DirState.WellFormed (s : DirState p) : Prop :=
  ∃ σ, DirRep s.vol s.inode σ ∧ σ.IsMap s.live

/-- The two operations that change a directory. -/
inductive DirOp where
  | insert (e : Entry) (ioBuf : Bytes)
  | delete (inodeNo : UInt32)

/-- The entries that are left when inode number `inodeNo` is deleted. -/
def without (inodeNo : UInt32) (live : List Entry) : List Entry :=
  live.filter fun e => ¬ (e.Ordinary ∧ e.iNo = inodeNo)

/-- A call that returns true: `sync_dir_entry` of a new name and number, or `delete_dir_entry`. -/
inductive DirStep : DirState p → DirOp → DirState p → Prop where
  | insert {s : DirState p} (e : Entry) (ioBuf : Bytes) (valid : e.Valid)
      (newName : ∀ e' ∈ s.live, e'.name ≠ e.name)
      (newNumber : ∀ e' ∈ s.live, e'.Ordinary → e'.iNo ≠ e.iNo) (r : DirResult p)
      (call : syncDirEntry s.vol s.inode
        (createDirEntry e.name e.iNo e.fType Bytes.zero) ioBuf = r) (returns : r.ok = true) :
      DirStep s (.insert e ioBuf) ⟨r.vol, r.inode, e :: s.live⟩
  | delete {s : DirState p} (inodeNo : UInt32) (r : DirResult p)
      (call : deleteDirEntry s.vol s.inode inodeNo = some r) (returns : r.ok = true) :
      DirStep s (.delete inodeNo) ⟨r.vol, r.inode, without inodeNo s.live⟩

/-- Insertions into and deletions from a directory. -/
def dirSystem (p : Partition) : System (DirState p) DirOp where
  init := DirState.WellFormed
  step := DirStep

/-- The lookup finds exactly the live entries. -/
def DirState.Finds (s : DirState p) : Prop :=
  ∀ name : List UInt8, name ≠ [] → 0 ∉ name →
    (searchDirEntry true s.vol s.inode name).map (fun r => (entryINo r 0, entryFType r 0)) =
      (s.live.find? (fun e => e.name = name)).map (fun e => (e.iNo, e.fType.code))

/-- An insertion must not find all direct blocks full when there already is an indirect table, and
a deletion must not take the last entry of a block behind a full table. -/
def DirState.Safe (s : DirState p) : DirOp → Prop
  | .insert _ _ => ¬ (DirectFull s.vol s.inode ∧ s.inode.iSectors 12 ≠ 0)
  | .delete inodeNo => ¬ LastOfFullTable s.vol s.inode inodeNo

/-! ### The map under one operation -/

namespace SlotTable.IsMap

variable {σ : SlotTable} {live : List Entry}

/-- A new entry in an empty slot. -/
lemma insert (h : σ.IsMap live) (hfree : σ k idx = none) (hname : ∀ e' ∈ live, e'.name ≠ e.name)
    (hino : ∀ e' ∈ live, e'.Ordinary → e'.iNo ≠ e.iNo) :
    (σ.set k idx (some e)).IsMap (e :: live) := by
  have hset : ∀ j i e', σ.set k idx (some e) j i = some e' →
      j = k ∧ i = idx ∧ e' = e ∨ σ j i = some e' := by
    intro j i e' he'
    simp only [SlotTable.set] at he'
    split_ifs at he' with hji
    · exact .inl ⟨hji.1, hji.2, by simpa [eq_comm] using he'⟩
    · exact .inr he'
  have hold : ∀ j i e', σ j i = some e' → σ.set k idx (some e) j i = some e' := by
    intro j i e' he'
    simp only [SlotTable.set]
    rw [if_neg]
    · exact he'
    · rintro ⟨rfl, rfl⟩
      simp [hfree] at he'
  refine ⟨?_, ?_, ?_, ?_, ?_⟩
  · intro e'
    rw [List.mem_cons]
    constructor
    · rintro (rfl | hmem)
      · exact ⟨k, idx, by simp [SlotTable.set]⟩
      · obtain ⟨j, i, hs⟩ := (h.mem_iff e').mp hmem
        exact ⟨j, i, hold j i e' hs⟩
    · rintro ⟨j, i, hs⟩
      rcases hset j i e' hs with ⟨-, -, rfl⟩ | hs
      · exact .inl rfl
      · exact .inr ((h.mem_iff e').mpr ⟨j, i, hs⟩)
  · intro j i j' i' e1 e2 h1 h2 hn
    rcases hset j i e1 h1 with ⟨rfl, rfl, rfl⟩ | hs1 <;>
      rcases hset j' i' e2 h2 with ⟨rfl, rfl, rfl⟩ | hs2
    · exact ⟨rfl, rfl⟩
    · exact absurd hn.symm (hname e2 ((h.mem_iff e2).mpr ⟨_, _, hs2⟩))
    · exact absurd hn (hname e1 ((h.mem_iff e1).mpr ⟨_, _, hs1⟩))
    · exact h.names j i j' i' e1 e2 hs1 hs2 hn
  · intro e1 h1 e2 h2 ho1 ho2 hi
    rcases List.mem_cons.mp h1 with rfl | hm1 <;> rcases List.mem_cons.mp h2 with rfl | hm2
    · rfl
    · exact absurd hi.symm (hino e2 hm2 ho2)
    · exact absurd hi (hino e1 hm1 ho1)
    · exact h.inos e1 hm1 e2 hm2 ho1 ho2 hi
  · obtain ⟨i, e', he', hn⟩ := h.dot
    exact ⟨i, e', hold 0 i e' he', hn⟩
  · obtain ⟨i, e', he', hn⟩ := h.dotDot
    exact ⟨i, e', hold 0 i e' he', hn⟩

/-- An ordinary entry taken out of its slot. -/
lemma erase (h : σ.IsMap live) (hs : σ k idx = some e)
    (ho : e.Ordinary) : (σ.set k idx none).IsMap (without e.iNo live) := by
  have hset : ∀ j i e', σ.set k idx none j i = some e' ↔ σ j i = some e' ∧ e' ≠ e := by
    intro j i e'
    simp only [SlotTable.set]
    split_ifs with hji
    · obtain ⟨rfl, rfl⟩ := hji
      simp only [hs, Option.some.injEq, false_iff, not_and, not_not]
      exact Eq.symm
    · refine ⟨fun he' => ⟨he', ?_⟩, fun he' => he'.1⟩
      rintro rfl
      exact hji (h.names j i k idx e' e' he' hs rfl)
  have hmem : ∀ e', e' ∈ without e.iNo live ↔ e' ∈ live ∧ e' ≠ e := by
    intro e'
    simp only [without, List.mem_filter, decide_eq_true_eq]
    refine and_congr_right fun hlive => not_congr ?_
    constructor
    · rintro ⟨ho', hi⟩
      exact h.inos e' hlive e ((h.mem_iff e).mpr ⟨k, idx, hs⟩) ho' ho hi
    · rintro rfl
      exact ⟨ho, rfl⟩
  refine ⟨?_, ?_, ?_, ?_, ?_⟩
  · intro e'
    rw [hmem, h.mem_iff]
    simp only [hset]
    constructor
    · simp
    · simp
  · intro j i j' i' e1 e2 h1 h2 hn
    exact h.names j i j' i' e1 e2 ((hset _ _ _).mp h1).1 ((hset _ _ _).mp h2).1 hn
  · intro e1 h1 e2 h2
    exact h.inos e1 ((hmem e1).mp h1).1 e2 ((hmem e2).mp h2).1
  · obtain ⟨i, e', he', hn⟩ := h.dot
    refine ⟨i, e', (hset _ _ _).mpr ⟨he', ?_⟩, hn⟩
    rintro rfl
    exact ho.1 hn
  · obtain ⟨i, e', he', hn⟩ := h.dotDot
    refine ⟨i, e', (hset _ _ _).mpr ⟨he', ?_⟩, hn⟩
    rintro rfl
    exact ho.2 hn

/-- A block whose only ordinary entry is taken out is empty. -/
lemma setBlock_eq_set (h : σ.IsMap live) (hs : σ k idx = some e)
    (honly : ∀ i e', σ k i = some e' → e'.Ordinary → i = idx)
    (hdot : ∀ i e', σ k i = some e' → e'.name ≠ dotName) :
    σ.setBlock k (fun _ => none) = σ.set k idx none := by
  -- the first block holds the directory itself, so this is another one
  have hk : k ≠ 0 := by
    rintro rfl
    obtain ⟨i, e', he', hn⟩ := h.dot
    exact hdot i e' he' hn
  funext j i
  simp only [SlotTable.setBlock, SlotTable.set]
  by_cases hj : j = k
  · subst hj
    by_cases hi : i = idx
    · simp [hi]
    · simp only [if_true, hi, and_false, if_false]
      cases he' : σ j i with
      | none => rfl
      | some e' =>
        exfalso
        refine hi (honly i e' he' ⟨hdot i e' he', fun hn => ?_⟩)
        obtain ⟨i0, e0, he0, hn0⟩ := h.dotDot
        exact hk (h.names j i 0 i0 e' e0 he' he0 (hn.trans hn0.symm)).1
  · simp [hj]

end SlotTable.IsMap

/-- Behind no indirect table there is nothing to forget. -/
lemma DirRep.direct_setBlock (h : DirRep v ino σ) (h12 : ino.iSectors 12 = 0) (e : Entry) :
    σ.direct.setBlock 12 (firstSlot e) = σ.set 12 0 (some e) := by
  funext j i
  simp only [SlotTable.setBlock, SlotTable.direct, SlotTable.set]
  by_cases hj : j = 12
  · subst hj
    by_cases hi : i = 0
    · simp [hi, firstSlot]
    · have := h.outside 12 i (.inl (loadBlocks_of_table_eq_zero h12 le_rfl))
      simp [hi, firstSlot, this]
  · by_cases hlt : j < 12
    · simp [hj, hlt]
    · have := h.outside j i (.inl (loadBlocks_of_table_eq_zero h12 (by omega)))
      simp [hj, hlt, this]

/-! ### Runs -/

/-- A well-formed directory answers lookups as its map does. -/
lemma DirState.WellFormed.finds {s : DirState p} (h : s.WellFormed) : s.Finds := by
  obtain ⟨σ, hrep, hmap⟩ := h
  intro name hne hn
  cases hr : searchDirEntry true s.vol s.inode name with
  | none =>
    have hnone : s.live.find? (fun e => e.name = name) = none := by
      rw [List.find?_eq_none]
      intro e he
      obtain ⟨k, idx, hs⟩ := (hmap.mem_iff e).mp he
      simpa using hrep.of_searchDirEntry_eq_none hne hn hr hs
    rw [hnone]
    rfl
  | some r =>
    obtain ⟨k, idx, e, hs, hname, hat⟩ := hrep.of_searchDirEntry_eq_some hne hn hr
    have hmem := (hmap.mem_iff e).mpr ⟨k, idx, hs⟩
    -- the name is live, and only once
    cases hf : s.live.find? (fun e => e.name = name) with
    | none =>
      have := List.find?_eq_none.mp hf e hmem
      simp [hname] at this
    | some e' =>
      have hname' : e'.name = name := by simpa using List.find?_some hf
      obtain ⟨k', idx', hs'⟩ := (hmap.mem_iff e').mp (List.mem_of_find?_eq_some hf)
      obtain ⟨rfl, rfl⟩ := hmap.names k idx k' idx' e e' hs hs' (hname.trans hname'.symm)
      obtain rfl : e = e' := Option.some.inj (hs.symm.trans hs')
      have hi : entryINo r 0 = e.iNo := hat.iNo
      have ht : entryFType r 0 = e.fType.code := hat.fType
      simp only [Option.map_some, hi, ht]

/-- A safe call keeps a directory well formed. -/
lemma DirStep.wellFormed (h : s.WellFormed) (hsafe : s.Safe op)
    (hstep : DirStep s op s') : s'.WellFormed := by
  obtain ⟨σ, hrep, hmap⟩ := h
  cases hstep with
  | insert e ioBuf hvalid hname hino r hcall hok =>
    subst hcall
    have hpDe : SlotHolds (createDirEntry e.name e.iNo e.fType Bytes.zero) 0 (some e) :=
      ⟨entryAt_createDirEntry hvalid, hvalid⟩
    rcases hrep.syncDirEntry_ok hpDe ioBuf hok with ⟨k, idx, -, -, hfree, hrep'⟩ | ⟨hfull, hrep'⟩
    · exact ⟨_, hrep', hmap.insert hfree hname hino⟩
    · have h12 : s.inode.iSectors 12 = 0 := by
        by_contra h0
        exact hsafe ⟨hfull, h0⟩
      rw [hrep.direct_setBlock h12] at hrep'
      have hfree := hrep.outside 12 0 (.inl (loadBlocks_of_table_eq_zero h12 le_rfl))
      exact ⟨_, hrep', hmap.insert hfree hname hino⟩
  | delete inodeNo r hcall hok =>
    rcases hrep.deleteDirEntry hcall with ⟨rfl, -⟩ | ⟨-, -, -, k, idx, e, hs, ho, rfl, hcase⟩
    · cases hok
    · rcases hcase with hrep' | ⟨honly, hdot, hrep'⟩ | ⟨hlast, -⟩
      · exact ⟨_, hrep', hmap.erase hs ho⟩
      · rw [hmap.setBlock_eq_set hs honly hdot] at hrep'
        exact ⟨_, hrep', hmap.erase hs ho⟩
      · exact absurd hlast hsafe

/-- In every run of safe insertions and deletions the lookup finds exactly the live entries. -/
theorem finds_of_safe_run (s : DirState p) (h : (dirSystem p).Reachable DirState.Safe s) :
    s.Finds := by
  have hwf : s.WellFormed :=
    h.invariant DirState.WellFormed (fun _ hs => hs) fun _ _ _ hs hsafe hstep => DirStep.wellFormed hs hsafe hstep
  exact hwf.finds

/-! ### A crowded directory -/

/-- A partition with room for a few thousand data blocks. -/
def Partition.roomy : Partition where
  startLba := 2048
  secCnt := 4096
  secCnt_ge := by decide
  lba_le := by decide

namespace Crowded

/-- The entries of a crowded directory: itself, its parent, and names of two letters. -/
def entry (j : Nat) : Entry :=
  if j = 0 then ⟨dotName, 0, .directory⟩
  else if j = 1 then ⟨dotDotName, 0, .directory⟩
  else ⟨[UInt8.ofNat (65 + j / 21), UInt8.ofNat (65 + j % 21)], UInt32.ofNat j, .regular⟩

/-- The bytes of an entry. -/
def image (j : Nat) : Bytes :=
  createDirEntry (entry j).name (entry j).iNo (entry j).fType Bytes.zero

/-- Twelve full direct blocks, the indirect table, and one block behind it with one entry. -/
def disk : Bytes := fun a =>
  let b := a / 512 - 2660
  let r := a % 512
  if b < 12 then image (21 * b + r / 24) (r % 24)
  else if b = 12 then (if r < 4 then Bytes.byteOf 2673 r else 0)
  else if b = 13 ∧ r < 24 then image 252 r
  else 0

def vol : Vol .roomy where
  disk := disk
  blockBitmap := ⟨512, fun i => if i = 0 then 0xff else if i = 1 then 0x3f else 0⟩
  inodeBitmap := ⟨512, Bytes.zero⟩
  blockBitmap_len := by decide
  inodeBitmap_len := by decide

def inode : Inode where
  iNo := 0
  iSize := 24 * 253
  iOpenCnts := 1
  writeDeny := false
  iSectors k := if k < 13 then UInt32.ofNat (2660 + k) else 0

def state : DirState .roomy := ⟨vol, inode, (List.range 253).map entry⟩

/-- The slots of the crowded directory. -/
def slots : SlotTable := fun k idx =>
  if k < 12 ∧ idx < 21 ∨ k = 12 ∧ idx = 0 then some (entry (21 * k + idx)) else none

lemma slots_eq_some (h : slots k idx = some e) :
    (k < 12 ∧ idx < 21 ∨ k = 12 ∧ idx = 0) ∧ e = entry (21 * k + idx) := by
  simp only [slots] at h
  split_ifs at h with hk
  exact ⟨hk, by simpa [eq_comm] using h⟩

lemma valid_entry (hj : j < 253) : (entry j).Valid := by
  have hall : ∀ j < 253, (entry j).name ≠ [] ∧ 0 ∉ (entry j).name ∧ (entry j).name.length ≤ 15 ∧
      (entry j).fType ≠ .unknown := by
    decide +kernel
  obtain ⟨h1, h2, h3, h4⟩ := hall j hj
  exact ⟨h1, h2, h3, h4⟩

/-- The number of an entry, read off its name. -/
def number : List UInt8 → Nat
  | [a, b] => if a = 46 then 1 else 21 * (a.toNat - 65) + (b.toNat - 65)
  | _ => 0

lemma number_entry : ∀ j < 253, number (entry j).name = j := by
  decide +kernel

lemma entry_name_inj (hi : i < 253) (hj : j < 253)
    (h : (entry i).name = (entry j).name) : i = j := by
  rw [← number_entry i hi, ← number_entry j hj, h]

lemma loadBlocks_eq (k : Nat) : loadBlocks vol.disk inode k =
    if k < 12 then UInt32.ofNat (2660 + k) else if k = 12 then 2673 else 0 := by
  have hall : ∀ k < 140, loadBlocks vol.disk inode k =
      if k < 12 then UInt32.ofNat (2660 + k) else if k = 12 then 2673 else 0 := by
    decide +kernel
  by_cases hk : k < 140
  · exact hall k hk
  · rw [loadBlocks_of_ge (by omega), if_neg (by omega), if_neg (by omega)]

lemma loadBlocks_toNat (hk : k ≤ 12) :
    (loadBlocks vol.disk inode k).toNat = if k = 12 then 2673 else 2660 + k := by
  rw [loadBlocks_eq]
  by_cases h : k = 12
  · simp [h]
  · rw [if_pos (by omega), if_neg h, UInt32.toNat_ofNat']
    omega

lemma loadBlocks_ne_zero : loadBlocks vol.disk inode k ≠ 0 ↔ k ≤ 12 := by
  constructor
  · intro h
    by_contra hk
    rw [loadBlocks_eq, if_neg (by omega), if_neg (by omega)] at h
    exact h rfl
  · intro hk h0
    have := loadBlocks_toNat hk
    rw [h0, UInt32.toNat_zero] at this
    split_ifs at this
    omega

lemma holds (hx : x.toNat = n) (h : 2660 ≤ n) (h' : n < 2674) : vol.Holds x := by
  have hused : ∀ b < 14, vol.blockUsed b = true := by decide
  have hblocks : Vol.nBlocks .roomy = 4096 := by decide
  have hstart : Partition.roomy.sb.dataStartLba = 2660 := by decide
  refine ⟨n - 2660, by omega, hused _ (by omega), by omega⟩

lemma table_toNat : (inode.iSectors 12).toNat = 2672 := by decide

lemma rep : DirRep vol inode slots := by
  refine ⟨⟨?_, ?_, fun _ => holds table_toNat (by decide) (by decide), ?_⟩, ?_, ?_⟩
  · intro k hk
    have hle := loadBlocks_ne_zero.mp hk
    refine holds (loadBlocks_toNat hle) ?_ ?_ <;> split_ifs <;> omega
  · intro j k hj hjk
    have h1 := loadBlocks_toNat (loadBlocks_ne_zero.mp hj)
    have h2 := loadBlocks_toNat (loadBlocks_ne_zero.mp (hjk ▸ hj))
    have hle := loadBlocks_ne_zero.mp hj
    have hle' := loadBlocks_ne_zero.mp (hjk ▸ hj)
    rw [hjk, h2] at h1
    split_ifs at h1 <;> omega
  · intro _ k hk
    by_cases hle : k ≤ 12
    · have := loadBlocks_toNat hle
      rw [hk, table_toNat] at this
      split_ifs at this <;> omega
    · have h0 : loadBlocks vol.disk inode k = 0 := by
        by_contra h
        exact hle (loadBlocks_ne_zero.mp h)
      rw [hk] at h0
      have htab := table_toNat
      rw [h0] at htab
      exact absurd htab (by decide)
  · intro k idx hk hidx
    have hle := loadBlocks_ne_zero.mp hk
    have haddr := loadBlocks_toNat hle
    by_cases hs : k < 12 ∨ idx = 0
    · -- a slot in use: its bytes are those of the entry
      have hslot : slots k idx = some (entry (21 * k + idx)) := by
        simp only [slots]
        rw [if_pos (by omega)]
      have hv : (entry (21 * k + idx)).Valid := valid_entry (by omega)
      rw [hslot]
      refine ⟨(entryAt_createDirEntry hv).congr hv fun r hr => ?_, hv⟩
      rw [entryAddr, haddr]
      simp only [vol, disk, image]
      by_cases h12 : k = 12
      · subst h12
        have h1 : (512 * 2673 + 24 * idx + r) / 512 - 2660 = 13 := by omega
        have h2 : (512 * 2673 + 24 * idx + r) % 512 = r := by omega
        have h3 : 21 * 12 + idx = 252 := by omega
        simp [h1, h2, h3, hr]
      · have h1 : (512 * (2660 + k) + 24 * idx + r) / 512 - 2660 = k := by omega
        have h2 : (512 * (2660 + k) + 24 * idx + r) % 512 = 24 * idx + r := by omega
        have h3 : (24 * idx + r) / 24 = idx := by omega
        have h4 : (24 * idx + r) % 24 = r := by omega
        have h5 : k < 12 := by omega
        simp [h1, h2, h3, h4, h5, h12]
    · -- the rest of the block behind the table
      have hslot : slots k idx = none := by
        simp only [slots]
        rw [if_neg (by omega)]
      rw [hslot]
      refine blankAt_of_zero fun r hr => ?_
      obtain rfl : k = 12 := by omega
      have h1 : (512 * 2673 + 24 * idx + r) / 512 - 2660 = 13 := by omega
      have h2 : ¬ (512 * 2673 + 24 * idx + r) % 512 < 24 := by omega
      rw [entryAddr, haddr]
      simp [vol, disk, h1, h2]
  · intro k idx hk
    simp only [slots]
    rw [if_neg]
    rcases hk with hk | hk
    · have : ¬ k ≤ 12 := fun hle => loadBlocks_ne_zero.mpr hle hk
      omega
    · omega

lemma isMap : slots.IsMap state.live := by
  have hmem : ∀ e, e ∈ state.live ↔ ∃ j < 253, entry j = e := by
    simp [state]
  refine ⟨?_, ?_, ?_, ⟨0, _, rfl, rfl⟩, ⟨1, _, rfl, rfl⟩⟩
  · intro e
    rw [hmem]
    constructor
    · rintro ⟨j, hj, rfl⟩
      refine ⟨j / 21, j % 21, ?_⟩
      simp only [slots]
      rw [if_pos (by omega), Nat.div_add_mod]
    · rintro ⟨k, idx, hs⟩
      obtain ⟨hk, rfl⟩ := slots_eq_some hs
      exact ⟨_, by omega, rfl⟩
  · intro k idx k' idx' e e' hs hs' hn
    obtain ⟨hk, rfl⟩ := slots_eq_some hs
    obtain ⟨hk', rfl⟩ := slots_eq_some hs'
    have := entry_name_inj (by omega) (by omega) hn
    omega
  · intro e he e' he' ho ho' hi
    obtain ⟨i, hi253, rfl⟩ := (hmem e).mp he
    obtain ⟨j, hj253, rfl⟩ := (hmem e').mp he'
    have hord : ∀ n, n < 253 → (entry n).Ordinary → (entry n).iNo.toNat = n := by
      decide +kernel
    rw [← hord i hi253 ho, ← hord j hj253 ho', hi]

lemma wellFormed : state.WellFormed := by
  have hmap := isMap
  exact ⟨slots, rep, hmap⟩

/-- Deleting an entry of the crowded directory leaves the others in place. -/
theorem finds_delete : ∃ r, deleteDirEntry vol inode 5 = some r ∧
    DirState.Finds ⟨r.vol, r.inode, without 5 state.live⟩ := by
  have hok : (deleteDirEntry vol inode 5).map DirResult.ok = some true := by decide +kernel
  obtain ⟨r, hr, hok⟩ := Option.map_eq_some_iff.mp hok
  have hsafe : state.Safe (.delete 5) := by
    rintro ⟨hfull, -⟩
    exact absurd (loadBlocks_ne_zero.mp (hfull 13 (by decide) (by decide))) (by decide)
  exact ⟨r, hr, finds_of_safe_run _ (.step (.init wellFormed) hsafe (.delete 5 r hr hok))⟩

/-- The next insertion succeeds and makes the entry behind the indirect table unreachable. -/
theorem not_forall_finds :
    ¬ ∀ s, (dirSystem .roomy).Reachable (fun _ _ => True) s → s.Finds := by
  intro hall
  obtain ⟨r, hr, hok, hlost⟩ : ∃ r, syncDirEntry vol inode
      (createDirEntry [90] 300 .regular Bytes.zero) Bytes.zero = r ∧ r.ok = true ∧
      (searchDirEntry true r.vol r.inode (entry 252).name).isNone = true :=
    ⟨_, rfl, by decide +kernel, by decide +kernel⟩
  have hstep : DirStep state (.insert ⟨[90], 300, .regular⟩ Bytes.zero)
      ⟨r.vol, r.inode, ⟨[90], 300, .regular⟩ :: state.live⟩ :=
    .insert _ _ ⟨by decide, by decide, by decide, by decide⟩ (by decide +kernel)
      (by decide +kernel) r hr hok
  have hfinds := hall _ (.step (.init wellFormed) trivial hstep) (entry 252).name
    (by decide) (by decide)
  simp only [Option.isNone_iff_eq_none.mp hlost] at hfinds
  revert hfinds
  decide +kernel

end Crowded

end SimpleOs
