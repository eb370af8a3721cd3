import SimpleOs.Fs.Dir.Entries

/-!
# The slots of a directory

A directory on disk represents a table of slots: which entry, if any, stands in slot `idx` of
block `k`. The functions of `fs/dir.c` act on that table: a lookup searches it, an insertion fills
a slot, a deletion empties a slot or drops a block.
-/

namespace SimpleOs

open Base

variable {p : Partition}

variable {i i' idx k : Nat} {n name : List UInt8} {v v' : Vol p} {ino ino' : Inode}
  {σ σ' : SlotTable} {m m' : Nat → UInt32} {new : Nat → Nat → Option Bytes}

/-- What stands in each slot of each block of a directory. -/
abbrev SlotTable := Nat → Nat → Option Entry

namespace SlotTable

/-- Change one slot. -/
def set (σ : SlotTable) (k idx : Nat) (o : Option Entry) : SlotTable :=
  fun j i => if j = k ∧ i = idx then o else σ j i

/-- Replace the slots of one block. -/
def setBlock (σ : SlotTable) (k : Nat) (row : Nat → Option Entry) : SlotTable :=
  fun j => if j = k then row else σ j

/-- Keep the direct blocks only. -/
def direct (σ : SlotTable) : SlotTable := fun j => if j < 12 then σ j else fun _ => none

end SlotTable

/-- The row of a fresh block: one entry in its first slot. -/
def firstSlot (e : Entry) : Nat → Option Entry := fun i => if i = 0 then some e else none

/-- The slot at address `a` has content `o`. -/
def SlotHolds (s : Bytes) (a : Nat) : Option Entry → Prop
  | none => BlankAt s a
  | some e => EntryAt s a e ∧ e.Valid

/-- The blocks in a block map are distinct allocated blocks, and so is the indirect table. -/
structure BlocksOwned (v : Vol p) (m : Nat → UInt32) (table : UInt32) : Prop where
  held : ∀ k, m k ≠ 0 → v.Holds (m k)
  inj : ∀ j k, m j ≠ 0 → m j = m k → j = k
  table_held : table ≠ 0 → v.Holds table
  table_ne : table ≠ 0 → ∀ k, m k ≠ table

/-- A directory on disk and the table of its slots. -/
structure DirRep (v : Vol p) (ino : Inode) (σ : SlotTable) : Prop where
  owned : BlocksOwned v (loadBlocks v.disk ino) (ino.iSectors 12)
  slots : ∀ k idx, loadBlocks v.disk ino k ≠ 0 → idx < 21 →
    SlotHolds v.disk (entryAddr (loadBlocks v.disk ino k) idx) (σ k idx)
  outside : ∀ k idx, loadBlocks v.disk ino k = 0 ∨ 21 ≤ idx → σ k idx = none

/-- `x` is a block of the directory, or its indirect table. -/
def OwnsBlock (v : Vol p) (ino : Inode) (x : UInt32) : Prop :=
  x ≠ 0 ∧ ((∃ k, loadBlocks v.disk ino k = x) ∨ ino.iSectors 12 = x)

/-- What an operation on a directory leaves alone: the blocks of everything else stay allocated and
unchanged, and every block the directory gains was free. -/
structure DirFrame (v : Vol p) (ino : Inode) (v' : Vol p) (ino' : Inode) : Prop where
  others : ∀ x, v.Holds x → ¬ OwnsBlock v ino x → v'.Holds x ∧ SameSector v.disk v'.disk x.toNat
  fresh : ∀ x, OwnsBlock v' ino' x → OwnsBlock v ino x ∨ ¬ v.Holds x
  inodeUsed : ∀ i, v'.inodeUsed i = v.inodeUsed i

/-! ### Slots -/

lemma entryAddr_disjoint (hi : i < 21) (hi' : i' < 21) (h : b ≠ b' ∨ i ≠ i') :
    entryAddr b i + 24 ≤ entryAddr b' i' ∨ entryAddr b' i' + 24 ≤ entryAddr b i := by
  simp only [entryAddr]
  by_cases hb : b = b'
  · subst hb
    have : i ≠ i' := by simpa using h
    omega
  · have : b.toNat ≠ b'.toNat := fun heq => hb (UInt32.toNat_inj.mp heq)
    omega

lemma SameSector.entryAddr {b : UInt32} (h : SameSector d d' b.toNat) {r : Nat}
    (hidx : idx < 21) (hr : r < 24) :
    d' (SimpleOs.entryAddr b idx + r) = d (SimpleOs.entryAddr b idx + r) := by
  have := h (24 * idx + r) (by omega)
  rwa [← Nat.add_assoc] at this

lemma SlotHolds.congr (h : SlotHolds s a o)
    (heq : ∀ r < 24, t (b + r) = s (a + r)) : SlotHolds t b o := by
  cases o with
  | none => exact BlankAt.congr h heq
  | some e => exact ⟨h.1.congr h.2 heq, h.2⟩

lemma SlotHolds.eq_none_iff (h : SlotHolds s a o) : o = none ↔ s.u32 (a + 20) = 0 := by
  cases o with
  | none => simp [h.fType]
  | some e => simp [h.1.fType_ne_zero h.2]

lemma SlotHolds.sameName_iff (h : SlotHolds s a o) (hne : n ≠ []) (hn : 0 ∉ n) :
    sameName s a n = true ↔ ∃ e, o = some e ∧ e.name = n := by
  cases o with
  | none => simp [BlankAt.sameName_eq_false h hne hn]
  | some e =>
    rw [h.1.sameName_iff h.2 hn]
    simp [eq_comm]

namespace DirRep

lemma some_inv (h : DirRep v ino σ) (hs : σ k idx = some e) :
    loadBlocks v.disk ino k ≠ 0 ∧ idx < 21 ∧ e.Valid := by
  have hk : loadBlocks v.disk ino k ≠ 0 := by
    intro h0
    simp [h.outside k idx (.inl h0)] at hs
  have hidx : idx < 21 := by
    by_contra hge
    simp [h.outside k idx (.inr (by omega))] at hs
  have := h.slots k idx hk hidx
  rw [hs] at this
  exact ⟨hk, hidx, this.2⟩

lemma row (h : DirRep v ino σ) (hk : loadBlocks v.disk ino k ≠ 0) (buf : Bytes) :
    ∀ idx < 21, SlotHolds (ideRead v.disk (loadBlocks v.disk ino k).toNat buf 0 1) (24 * idx)
      (σ k idx) := by
  intro idx hidx
  refine (h.slots k idx hk hidx).congr fun r hr => ?_
  rw [ideRead_sector _ _ _ (by omega), entryAddr, Nat.add_assoc]

end DirRep

lemma loadBlocks_of_lt (hk : k < 12) : loadBlocks d ino k = ino.iSectors k := by
  simp [loadBlocks, hk]

variable {disk : Bytes}

lemma loadBlocks_of_ge (hk : 140 ≤ k) : loadBlocks disk ino k = 0 := by
  have h1 : ¬ k < 12 := by omega
  have h2 : ¬ k < 140 := by omega
  simp [loadBlocks, h1, h2]

lemma lt_of_loadBlocks (h : loadBlocks disk ino k ≠ 0) : k < 140 := by
  by_contra hk
  exact h (loadBlocks_of_ge (by omega))

lemma loadBlocks_of_table_eq_zero
    (h : ino.iSectors 12 = 0) (hk : 12 ≤ k) : loadBlocks disk ino k = 0 := by
  have h1 : ¬ k < 12 := by omega
  simp [loadBlocks, h1, h]

lemma loadBlocks_of_sameSector (h12 : ino'.iSectors 12 = ino.iSectors 12)
    (hs : ino.iSectors 12 ≠ 0 → SameSector d d' (ino.iSectors 12).toNat) (hk : 12 ≤ k) :
    loadBlocks d' ino' k = loadBlocks d ino k := by
  have h1 : ¬ k < 12 := by omega
  simp only [loadBlocks, if_neg h1, h12]
  split_ifs with ht
  · exact (hs ht.1).u32 (by omega)
  · rfl

lemma loadBlocks_congr (hsec : ∀ k ≤ 12, ino'.iSectors k = ino.iSectors k)
    (hs : ino.iSectors 12 ≠ 0 → SameSector d d' (ino.iSectors 12).toNat) (k : Nat) :
    loadBlocks d' ino' k = loadBlocks d ino k := by
  by_cases hk : k < 12
  · rw [loadBlocks_of_lt hk, loadBlocks_of_lt hk, hsec k (by omega)]
  · exact loadBlocks_of_sameSector (hsec 12 le_rfl) hs (by omega)

lemma loadBlocks_inode (h : ∀ k ≤ 12, ino'.iSectors k = ino.iSectors k) (k : Nat) :
    loadBlocks disk ino' k = loadBlocks disk ino k := loadBlocks_congr h (fun _ _ _ => rfl) k

lemma loadBlocks_eq_directBlocks (h : ino.iSectors 12 = 0) (disk : Bytes) (k : Nat) :
    loadBlocks disk ino k = directBlocks ino k := by
  rw [directBlocks]
  split_ifs with hk
  · exact loadBlocks_of_lt hk
  · exact loadBlocks_of_table_eq_zero h (by omega)

lemma directBlocks_eq_loadBlocks (h : directBlocks ino j ≠ 0) (disk : Bytes) :
    directBlocks ino j = loadBlocks disk ino j := by
  rw [directBlocks] at h ⊢
  split_ifs at h ⊢ with hlt
  · exact (loadBlocks_of_lt hlt).symm
  · exact absurd rfl h

lemma loadBlocks_setEntry (hk : k < 12) (hsec : ino'.iSectors = setEntry ino.iSectors k b)
    (hs : ino.iSectors 12 ≠ 0 → SameSector d d' (ino.iSectors 12).toNat) (j : Nat) :
    loadBlocks d' ino' j = setEntry (loadBlocks d ino) k b j := by
  by_cases hj : j < 12
  · rw [loadBlocks_of_lt hj, hsec]
    by_cases hjk : j = k
    · rw [hjk, setEntry_self, setEntry_self]
    · rw [setEntry_of_ne _ _ hjk, setEntry_of_ne _ _ hjk, loadBlocks_of_lt hj]
  · rw [setEntry_of_ne _ _ (by omega)]
    refine loadBlocks_of_sameSector ?_ hs (by omega)
    rw [hsec, setEntry_of_ne _ _ (by omega)]

/-- Some of the blocks, while they stay allocated. -/
lemma BlocksOwned.of_le (h : BlocksOwned v m t)
    (hm : ∀ k, m' k ≠ 0 → m' k = m k ∧ v'.Holds (m k)) (ht : t' ≠ 0 → t' = t ∧ v'.Holds t) :
    BlocksOwned v' m' t' := by
  refine ⟨fun k hk => ?_, fun j k hj hjk => ?_, fun h0 => ?_, fun h0 k heq => ?_⟩
  · obtain ⟨heq, hold⟩ := hm k hk
    rwa [heq]
  · have hj' := (hm j hj).1
    have hk' := (hm k (hjk ▸ hj)).1
    exact h.inj j k (hj' ▸ hj) (hj'.symm.trans (hjk.trans hk'))
  · obtain ⟨heq, hold⟩ := ht h0
    rwa [heq]
  · have hk := (hm k (heq ▸ h0)).1
    have ht' := (ht h0).1
    exact h.table_ne (ht' ▸ h0) k (hk.symm.trans (heq.trans ht'))

/-! ### What an operation does to the slots -/

/-- The bytes of slot `i` of block `k` are the same in two directories. -/
def SameSlot (d : Bytes) (ino : Inode) (d' : Bytes) (ino' : Inode) (k i : Nat) : Prop :=
  ∀ r < 24, d' (entryAddr (loadBlocks d' ino' k) i + r) = d (entryAddr (loadBlocks d ino k) i + r)

/-- What an operation did to the slots of a directory. Its blocks are now those of `m`. A slot that has
bytes in `new` has these; any other slot is in a block that was there, and has the bytes it had. -/
structure Rewritten (v : Vol p) (ino : Inode) (v' : Vol p) (ino' : Inode) (m : Nat → UInt32)
    (new : Nat → Nat → Option Bytes) : Prop where
  blocks : loadBlocks v'.disk ino' = m
  owned : BlocksOwned v' m (ino'.iSectors 12)
  written : ∀ k i b, new k i = some b → m k ≠ 0 → i < 21 →
    ∀ r < 24, v'.disk (entryAddr (m k) i + r) = b r
  kept : ∀ k i, new k i = none → m k ≠ 0 → i < 21 → m k = loadBlocks v.disk ino k ∧
    ∀ r < 24, v'.disk (entryAddr (m k) i + r) = v.disk (entryAddr (m k) i + r)

/-- Bytes for one slot. -/
def oneSlot (k idx : Nat) (b : Bytes) : Nat → Nat → Option Bytes :=
  fun j i => if j = k ∧ i = idx then some b else none

/-- Bytes for the slots of one block: an entry in the first of them, and zeros. -/
def newRow (k : Nat) (b : Bytes) : Nat → Nat → Option Bytes :=
  fun j i => if j = k then some (if i = 0 then b else Bytes.zero) else none

lemma oneSlot_eq_some : oneSlot k idx b j i = some c ↔ (j = k ∧ i = idx) ∧ b = c := by
  simp [oneSlot]

lemma oneSlot_eq_none : oneSlot k idx b j i = none ↔ ¬ (j = k ∧ i = idx) := by
  simp [oneSlot]

lemma newRow_eq_some : newRow k b j i = some c ↔ j = k ∧ (if i = 0 then b else Bytes.zero) = c := by
  rw [newRow, Option.ite_none_right_eq_some, Option.some.injEq]

lemma newRow_eq_none : newRow k b j i = none ↔ j ≠ k := by
  simp [newRow]

lemma DirRep.ownsBlock (hk : loadBlocks v.disk ino k ≠ 0) :
    OwnsBlock v ino (loadBlocks v.disk ino k) :=
  ⟨hk, .inl ⟨k, rfl⟩⟩

lemma BlocksOwned.holds
    (h : BlocksOwned v (loadBlocks v.disk ino) (ino.iSectors 12)) (hx : OwnsBlock v ino x) : v.Holds x := by
  obtain ⟨h0, ⟨k, rfl⟩ | rfl⟩ := hx
  · exact h.held k h0
  · exact h.table_held h0

namespace Rewritten

variable {v₁ : Vol p} {ino₁ : Inode}

lemma sameSlot (h : Rewritten v ino v' ino' m new) (hn : new k i = none) (hk : m k ≠ 0) (hi : i < 21) :
    SameSlot v.disk ino v'.disk ino' k i := by
  obtain ⟨hm, hbytes⟩ := h.kept k i hn hk hi
  intro r hr
  rw [h.blocks, hbytes r hr, hm]

section

variable (h : BlocksOwned v (loadBlocks v.disk ino) (ino.iSectors 12))
include h

lemma of_le (hb : ∀ k, loadBlocks v'.disk ino' k = m k)
    (hm : ∀ k, m k ≠ 0 → m k = loadBlocks v.disk ino k ∧ v'.Holds (m k) ∧
      SameSector v.disk v'.disk (m k).toNat)
    (ht : ino'.iSectors 12 ≠ 0 → ino'.iSectors 12 = ino.iSectors 12 ∧ v'.Holds (ino.iSectors 12)) :
    Rewritten v ino v' ino' m fun _ _ => none := by
  refine ⟨funext hb, h.of_le (fun k hk => ?_) ht, nofun, fun k i _ hk hi => ?_⟩
  · obtain ⟨heq, hold, -⟩ := hm k hk
    exact ⟨heq, heq ▸ hold⟩
  · obtain ⟨heq, -, hsame⟩ := hm k hk
    exact ⟨heq, fun r hr => hsame.entryAddr hi hr⟩

lemma of_sameSector (hsec : ∀ k ≤ 12, ino'.iSectors k = ino.iSectors k)
    (hx : ∀ x, OwnsBlock v ino x → v'.Holds x ∧ SameSector v.disk v'.disk x.toNat) :
    Rewritten v ino v' ino' (loadBlocks v.disk ino) fun _ _ => none := by
  refine of_le h (loadBlocks_congr hsec fun ht => (hx _ ⟨ht, .inr rfl⟩).2) (fun k hk => ⟨rfl, hx _ (DirRep.ownsBlock hk)⟩) fun ht => ?_
  rw [hsec 12 le_rfl] at ht ⊢
  exact ⟨rfl, (hx _ ⟨ht, .inr rfl⟩).1⟩

end

lemma trans_none (h : Rewritten v ino v₁ ino₁ m new)
    (hs : Rewritten v₁ ino₁ v' ino' m fun _ _ => none) : Rewritten v ino v' ino' m new := by
  refine ⟨hs.blocks, hs.owned, fun k i b hn hk hi r hr => ?_, fun k i hn hk hi => ?_⟩
  · rw [(hs.kept k i rfl hk hi).2 r hr]
    exact h.written k i b hn hk hi r hr
  · obtain ⟨heq, hbytes⟩ := h.kept k i hn hk hi
    exact ⟨heq, fun r hr => ((hs.kept k i rfl hk hi).2 r hr).trans (hbytes r hr)⟩

lemma of_slot (h : BlocksOwned v (loadBlocks v.disk ino) (ino.iSectors 12))
    (hk : loadBlocks v.disk ino k ≠ 0) (hidx : idx < 21) (src : Bytes)
    (hsec : ino'.iSectors = ino.iSectors) :
    Rewritten v ino (v.setDisk (v.disk.copy (entryAddr (loadBlocks v.disk ino k) idx) src 0 24)) ino'
      (loadBlocks v.disk ino) (oneSlot k idx src) := by
  set v' := v.setDisk (v.disk.copy (entryAddr (loadBlocks v.disk ino k) idx) src 0 24) with hv'
  have hb : ∀ j, loadBlocks v'.disk ino' j = loadBlocks v.disk ino j := by
    refine loadBlocks_congr (fun _ _ => by rw [hsec]) fun ht r hr => Bytes.copy_outside _ _ ?_
    have hne : (loadBlocks v.disk ino k).toNat ≠ (ino.iSectors 12).toNat :=
      fun heq => h.table_ne ht k (UInt32.toNat_inj.mp heq)
    rw [entryAddr]
    omega
  refine ⟨funext hb, ?_, fun j i b hn _ _ r hr => ?_, fun j i hn hj hi => ⟨rfl, fun r hr => ?_⟩⟩
  · rw [hsec]
    exact h.of_le (fun j hj => ⟨rfl, h.held j hj⟩) fun ht => ⟨rfl, h.table_held ht⟩
  · obtain ⟨⟨rfl, rfl⟩, rfl⟩ := oneSlot_eq_some.mp hn
    rw [Vol.disk_setDisk, Bytes.copy_inside _ _ (by omega)]
    congr 1
    omega
  · have hne : loadBlocks v.disk ino j ≠ loadBlocks v.disk ino k ∨ i ≠ idx := by
      by_cases hjk : j = k
      · exact .inr fun hi => oneSlot_eq_none.mp hn ⟨hjk, hi⟩
      · exact .inl fun hjk' => hjk (h.inj j k hj hjk')
    have := entryAddr_disjoint hi hidx hne
    exact Bytes.copy_outside _ _ (by omega)

end Rewritten

namespace DirRep

/-- The table of a directory after an operation. -/
lemma of_rewritten (h : DirRep v ino σ) (hw : Rewritten v ino v' ino' m new)
    (hnew : ∀ k i b, new k i = some b → m k ≠ 0 → i < 21 → SlotHolds b 0 (σ' k i))
    (hold : ∀ k i, new k i = none → m k ≠ 0 → i < 21 → σ' k i = σ k i)
    (hout : ∀ k i, m k = 0 ∨ 21 ≤ i → σ' k i = none) : DirRep v' ino' σ' := by
  obtain ⟨rfl, howned, hwritten, hkept⟩ := hw
  refine ⟨howned, fun k i hk hi => ?_, hout⟩
  cases hn : new k i with
  | some b =>
    refine (hnew k i b hn hk hi).congr fun r hr => ?_
    rw [hwritten k i b hn hk hi r hr, Nat.zero_add]
  | none =>
    obtain ⟨heq, hbytes⟩ := hkept k i hn hk hi
    rw [hold k i hn hk hi]
    refine (h.slots k i (heq ▸ hk) hi).congr fun r hr => ?_
    rw [hbytes r hr, heq]

lemma of_sameSector (h : DirRep v ino σ) (hsec : ∀ k ≤ 12, ino'.iSectors k = ino.iSectors k)
    (hx : ∀ x, OwnsBlock v ino x → v'.Holds x ∧ SameSector v.disk v'.disk x.toNat) :
    (∀ k, loadBlocks v'.disk ino' k = loadBlocks v.disk ino k) ∧ DirRep v' ino' σ := by
  have hw := Rewritten.of_sameSector h.owned hsec hx
  exact ⟨congrFun hw.blocks, h.of_rewritten hw nofun (fun _ _ _ _ _ => rfl) h.outside⟩

/-- Another content of one slot. -/
lemma of_oneSlot (h : DirRep v ino σ)
    (hw : Rewritten v ino v' ino' (loadBlocks v.disk ino) (oneSlot k idx b))
    (hk : loadBlocks v.disk ino k ≠ 0) (hidx : idx < 21) (ho : SlotHolds b 0 o) :
    DirRep v' ino' (σ.set k idx o) := by
  refine h.of_rewritten hw (fun j i b' hn _ _ => ?_) (fun j i hn _ _ => ?_) fun j i hj => ?_
  · obtain ⟨heq, rfl⟩ := oneSlot_eq_some.mp hn
    rwa [SlotTable.set, if_pos heq]
  · rw [SlotTable.set, if_neg (oneSlot_eq_none.mp hn)]
  · rw [SlotTable.set, if_neg, h.outside j i hj]
    rintro ⟨rfl, rfl⟩
    rcases hj with hj | hj
    · exact hk hj
    · omega

end DirRep

/-! ### Lookup -/

/-- The search stops at the first block with a slot of the given name. -/
lemma searchBlocks_eq_some {n : Nat} (h : searchBlocks disk allBlocks name n k = some r) :
    ∃ j idx, allBlocks j ≠ 0 ∧ idx < 21 ∧
      sameName (ideRead disk (allBlocks j).toNat Bytes.zero 0 1) (24 * idx) name = true ∧
      r = Bytes.zero.copy 0 (ideRead disk (allBlocks j).toNat Bytes.zero 0 1) (24 * idx) 24 := by
  induction n generalizing k with
  | zero => cases h
  | succ n ih =>
    simp only [searchBlocks] at h
    split_ifs at h with h0
    · exact ih h
    · split at h
      · rename_i idx hidx
        obtain ⟨-, hlt, hname, -⟩ := firstFrom_eq_some hidx
        cases h
        exact ⟨k, idx, h0, by omega, hname, rfl⟩
      · exact ih h

lemma searchBlocks_eq_none {n : Nat} (h : searchBlocks disk allBlocks name n k = none) :
    ∀ j, k ≤ j → j < k + n → allBlocks j ≠ 0 → ∀ idx < 21,
      sameName (ideRead disk (allBlocks j).toNat Bytes.zero 0 1) (24 * idx) name = false := by
  induction n generalizing k with
  | zero => intro j h1 h2; omega
  | succ n ih =>
    intro j hj1 hj2 hj idx hidx
    simp only [searchBlocks] at h
    split_ifs at h with h0
    · rcases Nat.eq_or_lt_of_le hj1 with rfl | hlt
      · exact absurd h0 hj
      · exact ih h j hlt (by omega) hj idx hidx
    · split at h
      · cases h
      · rename_i hnone
        rcases Nat.eq_or_lt_of_le hj1 with rfl | hlt
        · exact firstFrom_eq_none hnone idx (by omega) (by omega)
        · exact ih h j hlt (by omega) hj idx hidx

namespace DirRep

/-- An entry that is found stands in some slot. -/
lemma of_searchDirEntry_eq_some (h : DirRep v ino σ) (hne : name ≠ []) (hn : 0 ∉ name)
    (hr : searchDirEntry ok v ino name = some r) :
    ∃ k idx e, σ k idx = some e ∧ e.name = name ∧ EntryAt r 0 e := by
  simp only [searchDirEntry] at hr
  split_ifs at hr
  obtain ⟨k, idx, hk, hidx, hname, rfl⟩ := searchBlocks_eq_some hr
  have hrow := h.row hk Bytes.zero idx hidx
  obtain ⟨e, he, hen⟩ := (hrow.sameName_iff hne hn).mp hname
  refine ⟨k, idx, e, he, hen, ?_⟩
  rw [he] at hrow
  refine hrow.1.congr hrow.2 fun r hr => ?_
  rw [Bytes.copy_inside _ _ (by omega)]
  congr 1
  omega

lemma of_searchDirEntry_eq_none (h : DirRep v ino σ) (hne : name ≠ []) (hn : 0 ∉ name)
    (hr : searchDirEntry true v ino name = none) {e : Entry}
    (hs : σ k idx = some e) : e.name ≠ name := by
  intro hen
  obtain ⟨hk, hidx, -⟩ := h.some_inv hs
  have hlt := lt_of_loadBlocks hk
  have hfalse := searchBlocks_eq_none (by simpa [searchDirEntry] using hr) k (by omega) (by omega)
    hk idx hidx
  have := ((h.row hk Bytes.zero idx hidx).sameName_iff hne hn).mpr ⟨e, hs, hen⟩
  simp [hfalse] at this

end DirRep

end SimpleOs
