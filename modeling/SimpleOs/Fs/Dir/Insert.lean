import SimpleOs.Fs.Dir.Table

/-!
# Inserting a directory entry

`sync_dir_entry` puts an entry into the first free slot of the direct blocks, into a new direct
block, or, when the direct blocks are full, into the first block behind a new indirect table. The
last case forgets the indirect table the directory had.
-/

namespace SimpleOs

open Base Bytes

variable {p : Partition}

variable {i j n r : Nat} {v v' v₁ v₂ : Vol p} {ino : Inode} {lba t x : UInt32} {σ σ0 : SlotTable}

/-- Every slot of a block is in use. -/
def BlockFull (disk : Bytes) (b : UInt32) : Prop := ∀ idx < 21, disk.u32 (entryAddr b idx + 20) ≠ 0

/-- All twelve direct blocks are there and full. -/
def DirectFull (v : Vol p) (ino : Inode) : Prop :=
  ∀ k < 12, ino.iSectors k ≠ 0 ∧ BlockFull v.disk (ino.iSectors k)

/-! ### The loop -/

lemma entryFType_ideRead (disk : Bytes) (b : UInt32) (buf : Bytes) (h : idx < 21) :
    entryFType (ideRead disk b.toNat buf 0 1) idx = disk.u32 (entryAddr b idx + 20) := by
  apply u32_congr
  intro r hr
  rw [ideRead_sector _ _ _ (by omega), entryAddr, Nat.add_assoc, Nat.add_assoc, Nat.add_assoc]

lemma putEntry_ideRead (pDe ioBuf : Bytes) (b : UInt32) (hidx : idx < 21) (v : Vol p)
    (ino : Inode) : putEntry pDe (ideRead v.disk b.toNat ioBuf 0 1) b.toNat idx v ino =
      ⟨true, v.setDisk (v.disk.copy (entryAddr b idx) pDe 0 24),
        { ino with iSize := ino.iSize + 24 }⟩ := by
  simp only [putEntry, ideRead_eq, ideWrite_eq, entryAddr]
  have := copy_copy_back v.disk ioBuf pDe (a := 512 * b.toNat) (b := 0) (n := 512)
    (i := 0) (j := 24 * idx) (m := 24) (by omega)
  rw [Nat.zero_add] at this
  rw [this]

/-- The insertion goes to a free slot of a direct block, or to the first block that is missing. -/
lemma syncBlocks_cases (pDe : Bytes) (v : Vol p) (ino : Inode) (hn : k + n = 140)
    (hk : k ≤ 12) (hfull : ∀ j < k, ino.iSectors j ≠ 0 ∧ BlockFull v.disk (ino.iSectors j))
    (ioBuf : Bytes) :
    (∃ j idx, j < 12 ∧ idx < 21 ∧ ino.iSectors j ≠ 0 ∧
      v.disk.u32 (entryAddr (ino.iSectors j) idx + 20) = 0 ∧
      syncBlocks pDe (directBlocks ino) v ino n k ioBuf =
        ⟨true, v.setDisk (v.disk.copy (entryAddr (ino.iSectors j) idx) pDe 0 24),
          { ino with iSize := ino.iSize + 24 }⟩) ∨
    ∃ j buf, j ≤ 12 ∧ directBlocks ino j = 0 ∧
      (∀ i < j, ino.iSectors i ≠ 0 ∧ BlockFull v.disk (ino.iSectors i)) ∧
      syncBlocks pDe (directBlocks ino) v ino n k ioBuf =
        syncNew pDe (directBlocks ino) j v ino buf := by
  induction n generalizing k ioBuf with
  | zero => omega
  | succ n ih =>
    simp only [syncBlocks]
    split_ifs with h0
    · exact .inr ⟨k, ioBuf, hk, h0, hfull, rfl⟩
    · have hlt : k < 12 := by
        by_contra hge
        exact h0 (by simp [directBlocks, hge])
      have hdir : directBlocks ino k = ino.iSectors k := by simp [directBlocks, hlt]
      rw [hdir] at h0 ⊢
      split
      · rename_i idx hidx
        obtain ⟨-, hi, hfree, -⟩ := firstFrom_eq_some hidx
        simp only [decide_eq_true_eq] at hfree
        rw [entryFType_ideRead _ _ _ (by omega)] at hfree
        exact .inl ⟨k, idx, hlt, by omega, h0, hfree, putEntry_ideRead _ _ _ (by omega) _ _⟩
      · rename_i hnone
        refine ih (by omega) (by omega) ?_ _
        intro j hj
        rcases Nat.lt_succ_iff_lt_or_eq.mp hj with hj | rfl
        · exact hfull j hj
        · refine ⟨h0, fun idx hidx => ?_⟩
          have := firstFrom_eq_none hnone idx (by omega) (by omega)
          rwa [decide_eq_false_iff_not, entryFType_ideRead _ _ _ hidx] at this

/-! ### New blocks -/

variable {allBlocks : Nat → UInt32}

lemma newBlock_direct (hk : k < 12) (h : newBlock allBlocks k v ino = .ok (lba, v', ino')) :
    v.Allocated v' lba ∧ ino' = { ino with iSectors := setEntry ino.iSectors k lba } := by
  simp only [newBlock, hk, if_true] at h
  split at h
  · cases h
  · rename_i lba1 v₁ hal
    cases h
    exact ⟨(Vol.allocated_of_alloc hal).2, rfl⟩

lemma newBlock_table (h : newBlock allBlocks 12 v ino = .ok (lba, v', ino')) :
    ∃ t v₁ v₂, v.Allocated v₁ t ∧ v₁.Allocated v₂ lba ∧
      v' = writeTable (setEntry allBlocks 12 lba) t v₂ ∧
      ino' = { ino with iSectors := setEntry ino.iSectors 12 t } := by
  simp only [newBlock, Nat.lt_irrefl, if_false, if_true] at h
  split at h
  · cases h
  · rename_i t v₁ hal
    split at h
    · cases h
    · rename_i lba2 v₂ hal'
      cases h
      exact ⟨_, _, _, (Vol.allocated_of_alloc hal).2, (Vol.allocated_of_alloc hal').2, rfl, rfl⟩

/-- An allocation that fails has found no block at all; or it has found one, for the table, and gives
it back in memory. -/
lemma newBlock_error_cases (h : newBlock allBlocks k v ino = .error (v', ino')) :
    (v.blockBitmapAlloc = none ∧ v' = v ∧ ino' = ino) ∨
      k = 12 ∧ ∃ lba v₁, v.blockBitmapAlloc = some (lba, v₁) ∧
        v' = (v₁.bitmapSync (lba - p.sb.dataStartLba) .blockBitmap).setBlockBit
          (lba - p.sb.dataStartLba) false ∧
        ino' = { ino with iSectors := setEntry (setEntry ino.iSectors 12 (UInt32.ofNat lba)) 12 0 } := by
  simp only [newBlock] at h
  split at h
  · next hal =>
    cases h
    exact .inl ⟨hal, rfl, rfl⟩
  · next lba v₁ hal =>
    split_ifs at h with hlt h12
    split at h
    · cases h
      exact .inr ⟨h12, lba, v₁, hal, rfl, rfl⟩
    · cases h

lemma BlocksOwned.add (h : BlocksOwned v m t) (hmono : ∀ x, v.Holds x → v'.Holds x)
    (hlba : v'.Holds lba) (hfresh : ¬ v.Holds lba) : BlocksOwned v' (setEntry m k lba) t := by
  have hold : ∀ j, j ≠ k → setEntry m k lba j = m j := fun j hj => setEntry_of_ne _ _ hj
  refine ⟨?_, ?_, fun ht => hmono _ (h.table_held ht), ?_⟩
  · intro j hj
    by_cases hjk : j = k
    · rw [hjk, setEntry_self]
      exact hlba
    · rw [hold j hjk] at hj ⊢
      exact hmono _ (h.held j hj)
  · intro i j hi hij
    by_cases hik : i = k <;> by_cases hjk : j = k
    · rw [hik, hjk]
    · rw [hik, setEntry_self, hold j hjk] at hij
      have : v.Holds lba := hij ▸ h.held j (hij ▸ hlba.ne_zero)
      exact absurd this hfresh
    · rw [hjk, setEntry_self, hold i hik] at hij
      rw [hold i hik] at hi
      exact absurd (hij ▸ h.held i hi) hfresh
    · rw [hold i hik] at hi
      rw [hold i hik, hold j hjk] at hij
      exact h.inj i j hi hij
  · intro ht j
    by_cases hjk : j = k
    · rw [hjk, setEntry_self]
      rintro rfl
      exact hfresh (h.table_held ht)
    · rw [hold j hjk]
      exact h.table_ne ht j

/-- The sector written for a new block: the entry in its first slot, and zeros. -/
lemma newSector_byte (pDe d : Bytes) (lba : UInt32) (buf : Bytes) (hidx : idx < 21) (hr : r < 24) :
    ideWrite d lba.toNat ((buf.fill 0 0 512).copy (24 * 0) pDe 0 24) 0 1 (entryAddr lba idx + r) =
      if idx = 0 then pDe r else 0 := by
  have hsector : ideWrite d lba.toNat ((buf.fill 0 0 512).copy (24 * 0) pDe 0 24) 0 1
      (entryAddr lba idx + r) = (buf.fill 0 0 512).copy (24 * 0) pDe 0 24 (24 * idx + r) := by
    rw [ideWrite_eq, entryAddr, copy_inside _ _ (by omega)]
    congr 1
    omega
  rw [hsector]
  split_ifs with h0
  · rw [copy_inside _ _ (by omega)]
    congr 1
    omega
  · rw [copy_outside _ _ (by omega), fill_inside _ (by omega)]

lemma sameSector_ideWrite_of_ne (d buf : Bytes) (h : x ≠ lba) :
    SameSector d (ideWrite d lba.toNat buf 0 1) x.toNat :=
  sameSector_ideWrite _ _ fun heq => h (UInt32.toNat_inj.mp heq)

/-! ### The block map after an insertion -/

lemma Vol.Allocated.sameSector_ideWrite (hal : v.Allocated v₁ lba)
    (hx : v.Holds x) (buf : Bytes) : SameSector v.disk (ideWrite v₁.disk lba.toNat buf 0 1) x.toNat :=
  (hal.sameData.sameSector hx.ge).trans (sameSector_ideWrite_of_ne _ _ (hal.fresh x hx))

lemma u32_writeTable (allBlocks : Nat → UInt32) (t : UInt32) (v : Vol p) (hj : j < 128) :
    (writeTable allBlocks t v).disk.u32 (512 * t.toNat + 4 * j) = allBlocks (12 + j) := by
  rw [← u32_setWords Bytes.zero 0 (fun j => allBlocks (12 + j)) hj]
  apply u32_congr
  intro r hr
  rw [writeTable, Vol.disk_setDisk, ideWrite_eq, copy_inside _ _ (by omega)]
  congr 1
  omega

/-- A block behind a new indirect table: the direct blocks stay, and the table has one block. -/
lemma loadBlocks_newTable (ht : t ≠ 0)
    (htl : t ≠ lba) (hsec : ino'.iSectors = setEntry ino.iSectors 12 t) (buf : Bytes) (j : Nat) :
    loadBlocks (ideWrite (writeTable (setEntry (directBlocks ino) 12 lba) t v).disk lba.toNat buf 0 1)
      ino' j = setEntry (directBlocks ino) 12 lba j := by
  have htab : ino'.iSectors 12 = t := by rw [hsec, setEntry_self]
  by_cases hj : j < 12
  · rw [loadBlocks_of_lt hj, hsec, setEntry_of_ne _ _ (by omega), setEntry_of_ne _ _ (by omega),
      directBlocks, if_pos hj]
  · by_cases hj' : j < 140
    · rw [loadBlocks, if_neg hj, htab, if_pos ⟨ht, hj'⟩,
        (sameSector_ideWrite_of_ne _ _ htl).u32 (by omega), u32_writeTable _ t v (by omega),
        show 12 + (j - 12) = j by omega]
    · rw [loadBlocks_of_ge (by omega), setEntry_of_ne _ _ (by omega), directBlocks, if_neg hj]

lemma Vol.Allocated.sameSector_newTable (hal : v.Allocated v₁ t)
    (hal' : v₁.Allocated v₂ lba) (hx : v.Holds x) (allBlocks : Nat → UInt32) (buf : Bytes) :
    SameSector v.disk (ideWrite (writeTable allBlocks t v₂).disk lba.toNat buf 0 1) x.toNat := by
  have htable : SameSector v.disk (writeTable allBlocks t v₂).disk x.toNat :=
    ((hal.sameData.trans hal'.sameData).sameSector hx.ge).trans
      (sameSector_ideWrite_of_ne _ _ (hal.fresh x hx))
  exact htable.trans (sameSector_ideWrite_of_ne _ _ (hal'.fresh x (hx.mono hal.mono)))

/-- A new block with one entry, next to blocks that stay as they are. -/
lemma Rewritten.of_newBlock
    {d buf : Bytes} (hb : ∀ j, loadBlocks v'.disk ino' j = setEntry m k lba j)
    (howned : BlocksOwned v' (setEntry m k lba) (ino'.iSectors 12))
    (hold : ∀ j, m j ≠ 0 → m j = loadBlocks v.disk ino j ∧ SameSector v.disk v'.disk (m j).toNat)
    (hdisk : v'.disk = ideWrite d lba.toNat ((buf.fill 0 0 512).copy (24 * 0) pDe 0 24) 0 1) :
    Rewritten v ino v' ino' (setEntry m k lba) (newRow k pDe) := by
  refine ⟨funext hb, howned, fun j i b hn _ hi r hr => ?_, fun j i hn hj hi => ?_⟩
  · obtain ⟨rfl, rfl⟩ := newRow_eq_some.mp hn
    rw [setEntry_self, hdisk, newSector_byte pDe d lba buf hi hr]
    split_ifs <;> rfl
  · have hjk := newRow_eq_none.mp hn
    rw [setEntry_of_ne _ _ hjk] at hj ⊢
    exact ⟨(hold j hj).1, fun r hr => (hold j hj).2.entryAddr hi hr⟩

namespace BlocksOwned

variable (h : BlocksOwned v (loadBlocks v.disk ino) (ino.iSectors 12))
include h

lemma direct : BlocksOwned v (directBlocks ino) 0 := by
  refine h.of_le (fun j hj => ?_) fun h0 => absurd rfl h0
  have heq := directBlocks_eq_loadBlocks hj v.disk
  exact ⟨heq, h.held j (heq ▸ hj)⟩

lemma rewritten_direct (hk : k < 12) (hal : v.Allocated v₁ lba) (pDe buf : Bytes) :
    let r := putEntry pDe (buf.fill 0 0 512) lba.toNat 0 v₁
      { ino with iSectors := setEntry ino.iSectors k lba }
    Rewritten v ino r.vol r.inode (setEntry (loadBlocks v.disk ino) k lba) (newRow k pDe) := by
  intro r
  have h12 : r.inode.iSectors 12 = ino.iSectors 12 := setEntry_of_ne _ _ (by omega)
  refine .of_newBlock (loadBlocks_setEntry hk rfl fun ht => hal.sameSector_ideWrite (h.table_held ht) _) ?_
    (fun j hj => ⟨rfl, hal.sameSector_ideWrite (h.held j hj) _⟩) rfl
  rw [h12]
  exact h.add (fun x hx => hx.mono hal.mono) hal.holds fun hh => hal.fresh _ hh rfl

/-- Insertion behind a new indirect table. -/
lemma rewritten_table (hal : v.Allocated v₁ t) (hal' : v₁.Allocated v₂ lba) (pDe buf : Bytes) :
    let r := putEntry pDe (buf.fill 0 0 512) lba.toNat 0
      (writeTable (setEntry (directBlocks ino) 12 lba) t v₂)
      { ino with iSectors := setEntry ino.iSectors 12 t }
    Rewritten v ino r.vol r.inode (setEntry (directBlocks ino) 12 lba) (newRow 12 pDe) := by
  intro r
  have htab : BlocksOwned v₁ (directBlocks ino) t :=
    ⟨fun j hj => (h.direct.held j hj).mono hal.mono, h.direct.inj, fun _ => hal.holds,
      fun ht j heq => hal.fresh _ (h.direct.held j (heq ▸ ht)) heq⟩
  refine .of_newBlock (loadBlocks_newTable hal.holds.ne_zero (hal'.fresh t hal.holds) rfl _) ?_
    (fun j hj => ⟨directBlocks_eq_loadBlocks hj _, hal.sameSector_newTable hal' (h.direct.held j hj) _ _⟩) rfl
  exact htab.add (fun x hx => hx.mono hal'.mono) hal'.holds fun hh => hal'.fresh _ hh rfl

end BlocksOwned

/-! ### `sync_dir_entry` -/

/-- An insertion succeeds in a free slot of a direct block, in a new direct block, or, when the direct
blocks are full, behind a new indirect table. -/
lemma syncDirEntry_ok_cases (hok : (syncDirEntry v ino pDe ioBuf).ok = true) :
    (∃ k idx, k < 12 ∧ idx < 21 ∧ ino.iSectors k ≠ 0 ∧
      v.disk.u32 (entryAddr (ino.iSectors k) idx + 20) = 0 ∧ syncDirEntry v ino pDe ioBuf =
        ⟨true, v.setDisk (v.disk.copy (entryAddr (ino.iSectors k) idx) pDe 0 24),
          { ino with iSize := ino.iSize + 24 }⟩) ∨
    (∃ k, ∃ buf : Bytes, ∃ lba v₁, k < 12 ∧ ino.iSectors k = 0 ∧ v.Allocated v₁ lba ∧ syncDirEntry v ino pDe ioBuf =
      putEntry pDe (buf.fill 0 0 512) lba.toNat 0 v₁ { ino with iSectors := setEntry ino.iSectors k lba }) ∨
    ∃ buf : Bytes, ∃ t lba v₁ v₂, DirectFull v ino ∧ v.Allocated v₁ t ∧ v₁.Allocated v₂ lba ∧
      syncDirEntry v ino pDe ioBuf = putEntry pDe (buf.fill 0 0 512) lba.toNat 0
        (writeTable (setEntry (directBlocks ino) 12 lba) t v₂)
        { ino with iSectors := setEntry ino.iSectors 12 t } := by
  rcases syncBlocks_cases pDe v ino (n := 140) (k := 0) (by omega) (by omega) (by omega) ioBuf with
    hslot | ⟨k, buf, hk, hk0, hfull, heq⟩
  · exact .inl hslot
  rw [syncDirEntry, heq, syncNew] at hok ⊢
  cases hnew : newBlock (directBlocks ino) k v ino with
  | error q =>
    rw [hnew] at hok
    cases hok
  | ok q =>
    obtain ⟨lba, v', ino'⟩ := q
    rcases Nat.lt_or_eq_of_le hk with hlt | rfl
    · obtain ⟨hal, rfl⟩ := newBlock_direct hlt hnew
      exact .inr (.inl ⟨k, buf, lba, v', hlt, by simpa [directBlocks, hlt] using hk0, hal, rfl⟩)
    · obtain ⟨t, v₁, v₂, hal, hal', rfl, rfl⟩ := newBlock_table hnew
      exact .inr (.inr ⟨buf, t, lba, v₁, v₂, hfull, hal, hal', rfl⟩)

/-- What a successful insertion does to the slots. -/
lemma syncDirEntry_rewritten (h : BlocksOwned v (loadBlocks v.disk ino) (ino.iSectors 12))
    (hok : (syncDirEntry v ino pDe ioBuf).ok = true) :
    let r := syncDirEntry v ino pDe ioBuf
    r.inode.iSize = ino.iSize + 24 ∧
      ((∃ k idx, k < 12 ∧ idx < 21 ∧ loadBlocks v.disk ino k ≠ 0 ∧
          v.disk.u32 (entryAddr (loadBlocks v.disk ino k) idx + 20) = 0 ∧
          r.inode.iSectors 12 = ino.iSectors 12 ∧
          Rewritten v ino r.vol r.inode (loadBlocks v.disk ino) (oneSlot k idx pDe)) ∨
        (∃ k lba, k < 12 ∧ loadBlocks v.disk ino k = 0 ∧ lba ≠ 0 ∧
          r.inode.iSectors 12 = ino.iSectors 12 ∧
          Rewritten v ino r.vol r.inode (setEntry (loadBlocks v.disk ino) k lba) (newRow k pDe)) ∨
        ∃ lba, DirectFull v ino ∧ lba ≠ 0 ∧
          Rewritten v ino r.vol r.inode (setEntry (directBlocks ino) 12 lba) (newRow 12 pDe)) := by
  intro r
  rcases syncDirEntry_ok_cases hok with ⟨k, idx, hk, hidx, hk0, hfree, heq⟩ |
    ⟨k, buf, lba, v₁, hk, hk0, hal, heq⟩ | ⟨buf, t, lba, v₁, v₂, hfull, hal, hal', heq⟩
  · have hr : r = _ := heq
    rw [← loadBlocks_of_lt hk (d := v.disk)] at hk0 hfree hr
    rw [hr]
    exact ⟨rfl, .inl ⟨k, idx, hk, hidx, hk0, hfree, rfl, .of_slot h hk0 hidx pDe rfl⟩⟩
  · have hr : r = _ := heq
    rw [← loadBlocks_of_lt hk (d := v.disk)] at hk0
    rw [hr]
    exact ⟨rfl, .inr (.inl ⟨k, lba, hk, hk0, hal.holds.ne_zero, setEntry_of_ne _ _ (by omega),
      h.rewritten_direct hk hal pDe buf⟩)⟩
  · have hr : r = _ := heq
    rw [hr]
    exact ⟨rfl, .inr (.inr ⟨lba, hfull, hal'.holds.ne_zero, h.rewritten_table hal hal' pDe buf⟩)⟩

lemma SlotTable.direct_of_ne (hj : directBlocks ino j ≠ 0) : σ.direct j i = σ j i := by
  rw [directBlocks] at hj
  split_ifs at hj with hlt
  · rw [SlotTable.direct, if_pos hlt]
  · exact absurd rfl hj

lemma DirRep.direct_outside (h : DirRep v ino σ) (j i : Nat)
    (hj : directBlocks ino j = 0 ∨ 21 ≤ i) : σ.direct j i = none := by
  rw [SlotTable.direct]
  split_ifs with hlt
  · rw [directBlocks, if_pos hlt, ← loadBlocks_of_lt hlt (d := v.disk)] at hj
    exact h.outside j i hj
  · rfl

/-- The table of a directory with a new block. -/
lemma DirRep.of_newRow (h : DirRep v ino σ)
    (hw : Rewritten v ino v' ino' (setEntry m k lba) (newRow k pDe)) (hlba : lba ≠ 0)
    (hpDe : SlotHolds pDe 0 (some e)) (hold : ∀ j i, m j ≠ 0 → σ0 j i = σ j i)
    (hout : ∀ j i, m j = 0 ∨ 21 ≤ i → σ0 j i = none) : DirRep v' ino' (σ0.setBlock k (firstSlot e)) := by
  refine h.of_rewritten hw (fun j i b hn _ _ => ?_) (fun j i hn hj _ => ?_) fun j i hj => ?_
  · obtain ⟨hjk, rfl⟩ := newRow_eq_some.mp hn
    rw [SlotTable.setBlock, if_pos hjk, firstSlot]
    split_ifs
    · exact hpDe
    · exact blankAt_of_zero fun _ _ => rfl
  · have hjk := newRow_eq_none.mp hn
    rw [setEntry_of_ne _ _ hjk] at hj
    rw [SlotTable.setBlock, if_neg hjk, hold j i hj]
  · by_cases hjk : j = k
    · rw [hjk, setEntry_self, or_iff_right hlba] at hj
      rw [SlotTable.setBlock, if_pos hjk, firstSlot, if_neg (by omega)]
    · rw [setEntry_of_ne _ _ hjk] at hj
      rw [SlotTable.setBlock, if_neg hjk, hout j i hj]

/-- A successful insertion fills a free slot of a direct block; only when all of them are full does
it start a new indirect table, in place of the one that was there. -/
lemma DirRep.syncDirEntry_ok (h : DirRep v ino σ) (hpDe : SlotHolds pDe 0 (some e)) (ioBuf : Bytes)
    (hok : (syncDirEntry v ino pDe ioBuf).ok = true) :
    let r := syncDirEntry v ino pDe ioBuf
    (∃ k idx, k < 12 ∧ idx < 21 ∧ σ k idx = none ∧ DirRep r.vol r.inode (σ.set k idx (some e))) ∨
      DirectFull v ino ∧ DirRep r.vol r.inode (σ.direct.setBlock 12 (firstSlot e)) := by
  obtain ⟨-, ⟨k, idx, hk, hidx, hk0, hfree, -, hw⟩ | ⟨k, lba, hk, hk0, hlba, -, hw⟩ |
    ⟨lba, hfull, hlba, hw⟩⟩ :=
    syncDirEntry_rewritten h.owned hok
  · have hnone := (h.slots k idx hk0 hidx).eq_none_iff.mpr hfree
    exact .inl ⟨k, idx, hk, hidx, hnone, h.of_oneSlot hw hk0 hidx hpDe⟩
  · have hnone : ∀ i, σ k i = none := fun i => h.outside k i (.inl hk0)
    have hrow : σ.setBlock k (firstSlot e) = σ.set k 0 (some e) := by
      funext j i
      simp only [SlotTable.setBlock, SlotTable.set]
      by_cases hjk : j = k
      · by_cases hi : i = 0 <;> simp [firstSlot, hjk, hi, hnone]
      · simp [hjk]
    refine .inl ⟨k, 0, hk, by omega, hnone 0, ?_⟩
    rw [← hrow]
    exact h.of_newRow hw hlba hpDe (fun _ _ _ => rfl) h.outside
  · exact .inr ⟨hfull, h.of_newRow hw hlba hpDe (fun _ _ hj => SlotTable.direct_of_ne hj) h.direct_outside⟩

/-- What a failed insertion leaves: nothing when there is no free block; otherwise there is one block,
which was marked on disk, and the indirect table is forgotten. -/
lemma syncDirEntry_fail_cases (hok : (syncDirEntry v ino pDe ioBuf).ok = false) :
    (v.blockBitmapAlloc = none ∧ syncDirEntry v ino pDe ioBuf = ⟨false, v, ino⟩) ∨
      ∃ lba v₁, v.blockBitmapAlloc = some (lba, v₁) ∧ syncDirEntry v ino pDe ioBuf =
        ⟨false, (v₁.bitmapSync (lba - p.sb.dataStartLba) .blockBitmap).setBlockBit
          (lba - p.sb.dataStartLba) false,
          { ino with iSectors := setEntry (setEntry ino.iSectors 12 (UInt32.ofNat lba)) 12 0 }⟩ ∧
        DirectFull v ino := by
  rcases syncBlocks_cases pDe v ino (n := 140) (k := 0) (by omega) (by omega) (by omega) ioBuf with
    ⟨k, idx, -, -, -, -, heq⟩ | ⟨k, buf, -, -, hfull, heq⟩
  · rw [syncDirEntry, heq] at hok
    cases hok
  rw [syncDirEntry, heq, syncNew] at hok ⊢
  cases hnew : newBlock (directBlocks ino) k v ino with
  | ok r =>
    rw [hnew] at hok
    cases hok
  | error r =>
    rcases newBlock_error_cases hnew with ⟨hal, hv, hino⟩ | ⟨rfl, lba, v₁, hal, hv, hino⟩
    · exact .inl ⟨hal, by rw [← hv, ← hino]⟩
    · exact .inr ⟨lba, v₁, hal, by rw [← hv, ← hino], hfull⟩

end SimpleOs
