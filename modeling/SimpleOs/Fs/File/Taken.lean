import SimpleOs.Fs.FailedWrite
import SimpleOs.Fs.File.Read
import SimpleOs.Fs.SyncedCalls

/-!
# The blocks `file_write` takes

Which bits of the block bitmap a call of `file_write` sets, and where it records the blocks: the
blocks of a file are exactly those in its inode and its indirect table, and every write that succeeds
adds to them what it takes from the bitmap.
-/

namespace SimpleOs

open Base

variable {p : Partition}

variable {v v' v1 v2 : Vol p} {ino ino' ino1 ino2 : Inode} {k lba n n' written : Nat}
  {st st' st1 st2 : WriteState p} {okAll okIo : Bool}

/-! ### The blocks of a file -/

/-- The file owns `n` blocks, and nothing else stands in its inode or its indirect table. -/
structure ExactlyOwns (v : Vol p) (ino : Inode) (n : Nat) : Prop where
  owns : OwnsFile v ino n
  le : n ≤ 140
  rest : ∀ k, n ≤ k → loadBlocks v.disk ino k = 0
  table : n ≤ 12 → ino.iSectors 12 = 0

lemma exactlyOwns_inodeInit (v : Vol p) (n : UInt32) : ExactlyOwns v (Inode.inodeInit n) 0 where
  owns := ⟨by simp, by simp, by simp, by simp⟩
  le := by omega
  rest k _ := by
    by_cases hk : k < 12
    · rw [loadBlocks_of_lt hk]
      rfl
    · exact loadBlocks_of_table_eq_zero rfl (by omega)
  table _ := rfl

namespace ExactlyOwns

variable (h : ExactlyOwns v ino n)
include h

lemma table_holds (hn : 12 < n) : v.Holds (ino.iSectors 12) :=
  Owns.table_held h.owns _ (by simp [hn])

lemma loadBlocks_eq (hk : k < n) : loadBlocks v.disk ino k = v.blockOf ino k := by
  by_cases h12 : k < 12
  · rw [loadBlocks_of_lt h12, Vol.blockOf, if_pos h12]
  · have hle := h.le
    have ht : ino.iSectors 12 ≠ 0 ∧ k < 140 := ⟨(h.table_holds (by omega)).ne_zero, by omega⟩
    rw [loadBlocks, Vol.blockOf, if_neg h12, if_neg h12, if_pos ht]

/-- The blocks a file owns, by where they are recorded. -/
lemma ownsBlock_iff (x : UInt32) :
    OwnsBlock v ino x ↔ (∃ k < n, v.blockOf ino k = x) ∨ 12 < n ∧ ino.iSectors 12 = x := by
  constructor
  · rintro ⟨h0, ⟨k, rfl⟩ | rfl⟩
    · by_cases hk : k < n
      · exact .inl ⟨k, hk, (h.loadBlocks_eq hk).symm⟩
      · exact absurd (h.rest k (by omega)) h0
    · by_cases hn : 12 < n
      · exact .inr ⟨hn, rfl⟩
      · exact absurd (h.table (by omega)) h0
  · rintro (⟨k, hk, rfl⟩ | ⟨hn, rfl⟩)
    · exact ⟨(Owns.held h.owns k hk).ne_zero, .inl ⟨k, h.loadBlocks_eq hk⟩⟩
    · exact ⟨(h.table_holds hn).ne_zero, .inr rfl⟩

lemma holds (hx : OwnsBlock v ino x) : v.Holds x := by
  rcases (h.ownsBlock_iff x).mp hx with ⟨k, hk, rfl⟩ | ⟨hn, rfl⟩
  · exact Owns.held h.owns k hk
  · exact h.table_holds hn

lemma iSectors_zero_eq : ino.iSectors 0 = 0 ↔ n = 0 := by
  constructor
  · intro h0
    by_contra hn
    have hheld := Owns.held h.owns 0 (by omega)
    exact hheld.ne_zero h0
  · rintro rfl
    exact h.rest 0 le_rfl

/-- Nothing changes for the file while its indirect table does not and its blocks stay allocated. -/
lemma of_sameTable (hsec : ∀ k ≤ 12, ino'.iSectors k = ino.iSectors k)
    (htab : ino.iSectors 12 ≠ 0 → SameSector v.disk v'.disk (ino.iSectors 12).toNat)
    (hholds : ∀ x, OwnsBlock v ino x → v'.Holds x) :
    ExactlyOwns v' ino' n ∧ ∀ x, OwnsBlock v' ino' x ↔ OwnsBlock v ino x := by
  have hload := loadBlocks_congr hsec htab
  have hown : ∀ x, OwnsBlock v' ino' x ↔ OwnsBlock v ino x := by
    intro x
    simp only [OwnsBlock, hload, hsec 12 le_rfl]
  refine ⟨⟨?_, h.le, fun k hk => ?_, fun hn => ?_⟩, hown⟩
  · have hb : ∀ k < n, v'.blockOf ino' k = v.blockOf ino k :=
      OwnsFile.blockOf_eq (fun k hk => hsec k (by omega)) h.le fun hn =>
        htab (h.table_holds hn).ne_zero
    have hheld : Owns v' (v.blockOf ino) n (if 12 < n then some (ino.iSectors 12) else none) := by
      refine ⟨fun k hk => ?_, Owns.inj h.owns, fun t ht => ?_, Owns.table_ne h.owns⟩
      · exact hholds _ ((h.ownsBlock_iff _).mpr (.inl ⟨k, hk, rfl⟩))
      · by_cases hn : 12 < n
        · rw [if_pos hn] at ht
          cases ht
          exact hholds _ ((h.ownsBlock_iff _).mpr (.inr ⟨hn, rfl⟩))
        · rw [if_neg hn] at ht
          cases ht
    rw [OwnsFile, hsec 12 le_rfl]
    exact hheld.congr hb
  · rw [hload]
    exact h.rest k hk
  · rw [hsec 12 le_rfl]
    exact h.table hn

end ExactlyOwns

/-- What a write does to the blocks of a file: it keeps those it has, and the ones it gains are those
that leave the bitmap. -/
structure Gains (v : Vol p) (ino : Inode) (v' : Vol p) (ino' : Inode) : Prop where
  keeps : ∀ x, OwnsBlock v ino x → OwnsBlock v' ino' x
  fresh : ∀ x, OwnsBlock v' ino' x → OwnsBlock v ino x ∨ ¬ v.Holds x
  holds : ∀ x, v'.Holds x → v.Holds x ∨ OwnsBlock v' ino' x
  mono : ∀ x, v.Holds x → v'.Holds x

lemma Gains.trans (h : Gains v ino v1 ino1) (h' : Gains v1 ino1 v2 ino2) : Gains v ino v2 ino2 where
  keeps x hx := h'.keeps x (h.keeps x hx)
  fresh x hx := (h'.fresh x hx).elim (h.fresh x) fun hn => .inr fun hx => hn (h.mono x hx)
  holds x hx := (h'.holds x hx).elim (fun hx => (h.holds x hx).imp_right (h'.keeps x)) .inr
  mono x hx := h'.mono x (h.mono x hx)

lemma Gains.of_iff (hown : ∀ x, OwnsBlock v' ino' x ↔ OwnsBlock v ino x)
    (hholds : ∀ x, v'.Holds x ↔ v.Holds x) : Gains v ino v' ino' where
  keeps x hx := (hown x).mpr hx
  fresh x hx := .inl ((hown x).mp hx)
  holds x hx := .inl ((hholds x).mp hx)
  mono x hx := (hholds x).mpr hx

/-! ### The parts of `file_write` -/

namespace WriteState

/-- What the first write to a file does about its first block. -/
lemma firstBlock_gives (h0 : st.inode.iSectors 0 = 0) (hok : st.firstBlock = .ok st') :
    ∃ lba, st.vol.Allocated st'.vol lba ∧ (∀ x, st'.vol.Holds x ↔ st.vol.Holds x ∨ x = lba) ∧
      st'.inode.iSectors = setEntry st.inode.iSectors 0 lba ∧ st'.allBlocks = st.allBlocks := by
  rw [firstBlock, if_pos h0] at hok
  cases halloc : st.vol.blockBitmapAlloc with
  | none =>
    rw [halloc] at hok
    cases hok
  | some r =>
    obtain ⟨lba, v⟩ := r
    rw [halloc] at hok
    cases hok
    refine ⟨UInt32.ofNat lba, (Vol.allocated_of_alloc halloc).2, fun x => ?_, rfl, rfl⟩
    exact (Vol.holds_bitmapSync _ _ _ x).trans (Vol.holds_alloc_iff halloc x)

/-- A file that has no block gets its first one. -/
lemma firstBlock_gains (h : ExactlyOwns st.vol st.inode n) (hok : st.firstBlock = .ok st') :
    ExactlyOwns st'.vol st'.inode (max n 1) ∧ Gains st.vol st.inode st'.vol st'.inode ∧
      st'.allBlocks = st.allBlocks := by
  by_cases h0 : st.inode.iSectors 0 = 0
  · obtain rfl := h.iSectors_zero_eq.mp h0
    obtain ⟨lba, ha, hholds, hsec, hall⟩ := firstBlock_gives h0 hok
    have hzero : st'.inode.iSectors 0 = lba := by rw [hsec, setEntry_self]
    have htab : st'.inode.iSectors 12 = 0 := by
      rw [hsec]
      exact h.table (by omega)
    have hrest : ∀ k, 1 ≤ k → loadBlocks st'.vol.disk st'.inode k = 0 := by
      intro k hk
      by_cases hk12 : k < 12
      · have hold := h.rest k (Nat.zero_le k)
        rw [loadBlocks_of_lt hk12] at hold ⊢
        rw [hsec, setEntry_of_ne _ _ (by omega), hold]
      · exact loadBlocks_of_table_eq_zero htab (by omega)
    have howns : OwnsFile st'.vol st'.inode 1 := ownsFile_one (hzero ▸ ha.holds)
    have hexact : ExactlyOwns st'.vol st'.inode 1 := ⟨howns, by omega, hrest, fun _ => htab⟩
    have hown : ∀ x, OwnsBlock st'.vol st'.inode x ↔ x = lba := by
      intro x
      rw [hexact.ownsBlock_iff]
      constructor
      · rintro (⟨k, hk, rfl⟩ | ⟨hn, -⟩)
        · obtain rfl : k = 0 := by omega
          exact hzero
        · omega
      · rintro rfl
        exact .inl ⟨0, by omega, hzero⟩
    refine ⟨hexact, ⟨fun x hx => ?_, fun x hx => .inr ?_, fun x hx => ?_, fun x hx => hx.mono ha.mono⟩,
      hall⟩
    · rcases (h.ownsBlock_iff x).mp hx with ⟨k, hk, -⟩ | ⟨hn, -⟩ <;> omega
    · rw [(hown x).mp hx]
      exact fun hx => ha.fresh _ hx rfl
    · rw [hown]
      exact (hholds x).mp hx
  · rw [firstBlock, if_neg h0] at hok
    cases hok
    have hn : n ≠ 0 := fun hn => h0 (h.iSectors_zero_eq.mpr hn)
    rw [Nat.max_eq_left (by omega)]
    exact ⟨h, .of_iff (fun _ => Iff.rfl) fun _ => Iff.rfl, rfl⟩

/-- Behind the blocks of the file there is nothing in the map, and then nothing on the disk. -/
private lemma loadBlocks_finish (hmap : ∀ k, n' ≤ k → k < 140 → st.map k = 0)
    (htab : n' ≤ 12 → st.inode.iSectors 12 = 0) (k : Nat) (hk : n' ≤ k) :
    loadBlocks (st.finish n').vol.disk (st.finish n').inode k = 0 := by
  by_cases hk12 : k < 12
  · rw [loadBlocks_of_lt hk12, inode_finish, iSectors_eq_map st hk12, hmap k hk (by omega)]
  by_cases hn' : n' ≤ 12
  · rw [inode_finish]
    exact loadBlocks_of_table_eq_zero (htab hn') (by omega)
  by_cases hlt : k < 140
  · rw [loadBlocks]
    split_ifs
    · have hb := st.blockOf_writeTable hlt
      rw [Vol.blockOf, if_neg hk12] at hb
      rw [finish, if_neg hn', hb, hmap k hk hlt]
    · rfl
  · exact loadBlocks_of_ge (by omega)

/-- The blocks that are taken are what the file gains, once the map is recorded in `v'` and `ino'`. -/
private lemma Prepared.gains
    (hprep : st.Prepared st1 n n') (ht : st1.Takes st2 n (n' - n)) (hnn : n ≤ n')
    (h : ExactlyOwns st.vol st.inode n) (h' : ExactlyOwns v' ino' n')
    (hblock : ∀ k < n', v'.blockOf ino' k = st2.map k) (hholds : ∀ x, v'.Holds x ↔ st2.vol.Holds x)
    (htab : ino'.iSectors 12 = st1.inode.iSectors 12) : Gains st.vol st.inode v' ino' := by
  have hle := h.le
  have hold : ∀ k < n, v'.blockOf ino' k = st.vol.blockOf st.inode k := by
    intro k hk
    rw [hblock k (by omega), ht.map_other k (.inl hk), hprep.map_lt hk (by omega)]
  refine ⟨?_, ?_, ?_, ?_⟩
  · intro x hx
    rw [h'.ownsBlock_iff]
    rcases (h.ownsBlock_iff x).mp hx with ⟨k, hk, rfl⟩ | ⟨hn, rfl⟩
    · exact .inl ⟨k, by omega, hold k hk⟩
    · exact .inr ⟨by omega, htab.trans (hprep.table (.inl hn))⟩
  · intro x hx
    rcases (h'.ownsBlock_iff x).mp hx with ⟨k, hk, rfl⟩ | ⟨hn', rfl⟩
    · by_cases hkn : k < n
      · rw [hold k hkn]
        exact .inl ((h.ownsBlock_iff _).mpr (.inl ⟨k, hkn, rfl⟩))
      · rw [hblock k hk]
        exact .inr fun hx => ht.fresh k (by omega) (by omega) ((hprep.holds_iff _).mpr (.inl hx))
    · rw [htab]
      by_cases hn : 12 < n
      · rw [hprep.table (.inl hn)]
        exact .inl ((h.ownsBlock_iff _).mpr (.inr ⟨hn, rfl⟩))
      · exact .inr (hprep.fresh (by omega) hn')
  · intro x hx
    rcases (ht.holds_iff x).mp ((hholds x).mp hx) with hx | ⟨j, h1, h2, rfl⟩
    · refine ((hprep.holds_iff x).mp hx).imp_right ?_
      rintro ⟨⟨-, hn'⟩, rfl⟩
      exact (h'.ownsBlock_iff _).mpr (.inr ⟨hn', htab⟩)
    · exact .inr ((h'.ownsBlock_iff _).mpr (.inl ⟨j, by omega, hblock j (by omega)⟩))
  · intro x hx
    exact (hholds x).mpr ((ht.holds_iff x).mpr (.inl ((hprep.holds_iff x).mpr (.inl hx))))

/-- The block map part of `file_write` gives the file what it takes. -/
lemma mapBlocks_gains (hpos : 0 < n) (hnn : n ≤ n') (hle : n' ≤ 140)
    (h : ExactlyOwns st.vol st.inode n) (hblank : ∀ k, st.allBlocks k = 0)
    (hok : st.mapBlocks n n' = .ok st') :
    ExactlyOwns st'.vol st'.inode n' ∧ Gains st.vol st.inode st'.vol st'.inode := by
  have hmapped := mapBlocks_mapped hpos hnn hle h.owns hok
  obtain rfl | hlt := Nat.eq_or_lt_of_le hnn
  · obtain ⟨hvol, hinode, -⟩ := mapBlocks_self hok
    rw [hvol, hinode]
    exact ⟨h, .of_iff (fun _ => Iff.rfl) fun _ => Iff.rfl⟩
  obtain ⟨st1, st2, hprep, ht, rfl⟩ := mapBlocks_eq_ok hlt hok
  have hzero : ∀ k, n' ≤ k → k < 140 → st2.map k = 0 := by
    intro k hk hk'
    have hrest := h.rest k (by omega)
    rw [ht.map_other k (.inr (by omega)), hprep.map k hk']
    split_ifs with hn
    · have hne := (h.table_holds hn).ne_zero
      rw [Vol.blockOf, if_neg (by omega)]
      rwa [loadBlocks, if_neg (by omega), if_pos ⟨hne, hk'⟩] at hrest
    · rw [map]
      split_ifs with hk12
      · rwa [loadBlocks_of_lt hk12] at hrest
      · exact hblank k
  have htab : n' ≤ 12 → st2.inode.iSectors 12 = 0 := fun hn' =>
    (ht.table.trans (hprep.table (.inr hn'))).trans (h.table (by omega))
  have hexact : ExactlyOwns (st2.finish n').vol (st2.finish n').inode n' :=
    ⟨hmapped.owns, hle, loadBlocks_finish hzero htab, by rwa [inode_finish]⟩
  exact ⟨hexact, hprep.gains ht hnn h hexact (fun k hk => st2.blockOf_finish hk hle) (st2.holds_finish n')
    (by rw [inode_finish, ht.table])⟩

/-- What is left alone by a block map part that fails. -/
structure Spared (st st' : WriteState p) (n : Nat) : Prop where
  iSectors : ∀ k < n, k < 12 → st'.inode.iSectors k = st.inode.iSectors k
  table : 12 < n → st'.inode.iSectors 12 = st.inode.iSectors 12
  iSize : st'.inode.iSize = st.inode.iSize
  mono : ∀ x, st.vol.Holds x → st'.vol.Holds x
  sameData : st.vol.SameData st'.vol

lemma mapBlocks_spared (herr : st.mapBlocks n n' = .error st') : st.Spared st' n := by
  obtain ⟨-, ⟨-, -, rfl⟩ | ⟨st1, hprep, -, ht⟩⟩ := mapBlocks_eq_error herr
  · exact ⟨fun _ _ _ => rfl, fun _ => rfl, rfl, fun _ hx => hx, fun _ _ => rfl⟩
  · refine ⟨fun k hk hk12 => ?_, fun hn => ht.table.trans (hprep.table (.inl hn)),
      ht.iSize.trans hprep.iSize, fun x hx => ?_, hprep.sameData.trans ht.sameData⟩
    · rw [iSectors_eq_map _ hk12, ht.map_other k (.inl hk), hprep.map_lt hk (by omega), Vol.blockOf,
        if_pos hk12]
    · exact (ht.holds_iff x).mpr (.inl ((hprep.holds_iff x).mpr (.inl hx)))

/-- What `file_write` returns when its block map part fails. -/
def failed (st : WriteState p) (file : OpenFile) : WriteResult p :=
  ⟨none, st.vol, { file with fdInode := st.inode }⟩

end WriteState

/-! ### The data loop -/

namespace CopyState

lemma iSectors_writeLoop (allBlocks : Nat → UInt32) (buf : Bytes) (count fuel : Nat) (first : Bool)
    (written : Nat) (c : CopyState p) :
    (writeLoop allBlocks buf count fuel first written c).file.fdInode.iSectors =
      c.file.fdInode.iSectors := by
  induction fuel generalizing first written c with
  | zero => rfl
  | succ fuel ih =>
    rw [writeLoop]
    split_ifs
    · exact ih _ _ _
    · rfl

lemma holds_writeLoop (allBlocks : Nat → UInt32) (buf : Bytes) (count fuel : Nat) (first : Bool)
    (written : Nat) (c : CopyState p) (x : UInt32) :
    (writeLoop allBlocks buf count fuel first written c).vol.Holds x ↔ c.vol.Holds x := by
  induction fuel generalizing first written c with
  | zero => rfl
  | succ fuel ih =>
    rw [writeLoop]
    split_ifs
    · exact ih _ _ _
    · rfl

/-- The data loop writes no sector but those of the blocks the data goes to. -/
lemma sameSector_writeLoop {allBlocks : Nat → UInt32} (buf : Bytes) {count : Nat} (fuel : Nat)
    (first : Bool) {c : CopyState p}
    (hsum : c.file.fdInode.iSize.toNat + (count - written) < 2 ^ 32)
    (hlba : ∀ k, 512 * k < c.file.fdInode.iSize.toNat + (count - written) →
      c.file.fdInode.iSize.toNat / 512 ≤ k → lba ≠ (allBlocks k).toNat) :
    SameSector c.vol.disk (writeLoop allBlocks buf count fuel first written c).vol.disk lba := by
  induction fuel generalizing first written c with
  | zero => exact fun _ _ => rfl
  | succ fuel ih =>
    rw [writeLoop]
    split_ifs with hlt
    · set iSize := c.file.fdInode.iSize.toNat with hsize
      have hle := chunkSize_le (count - written) iSize
      set chunk := chunkSize (count - written) iSize with hchunk
      have hsize' : (c.writeChunk allBlocks buf first written chunk).file.fdInode.iSize.toNat =
          iSize + chunk := by
        simp only [writeChunk, UInt32.toNat_add, UInt32.toNat_ofNat', ← hsize]
        omega
      have hhere : SameSector c.vol.disk (c.writeChunk allBlocks buf first written chunk).vol.disk lba :=
        sameSector_ideWrite _ _ (hlba (iSize / 512) (by omega) le_rfl)
      refine hhere.trans (ih false ?_ ?_)
      · omega
      · exact fun k h1 h2 => hlba k (by omega) (by omega)
    · exact fun _ _ => rfl

end CopyState

/-! ### `file_write` -/

/-- The data loop of a write whose block map is complete. -/
def WriteState.copied (st : WriteState p) (buf : Bytes) (count : UInt32) : CopyState p :=
  CopyState.writeLoop st.allBlocks buf count.toNat count.toNat true 0
    { vol := st.vol
      file := { fdPos := st.inode.iSize - 1, fdInode := st.inode }
      ioBuf := Bytes.zero }

lemma WriteState.iSectors_copied (st : WriteState p) (buf : Bytes) (count : UInt32) :
    (st.copied buf count).file.fdInode.iSectors = st.inode.iSectors :=
  CopyState.iSectors_writeLoop _ _ _ _ _ _ _

lemma WriteState.holds_copied (st : WriteState p) (buf : Bytes) (count : UInt32) (x : UInt32) :
    (st.copied buf count).vol.Holds x ↔ st.vol.Holds x :=
  CopyState.holds_writeLoop _ _ _ _ _ _ _ _

/-- The steps of a write that succeeds. -/
lemma fileWrite_eq_of_ne_none (hret : (fileWrite okIo okAll v f buf count).ret ≠ none) :
    ∃ st st', WriteState.firstBlock { vol := v, inode := f.fdInode, allBlocks := fun _ => 0 } = .ok st ∧
      st.mapBlocks (st.inode.iSize.toNat / 512 + 1) ((st.inode.iSize + count).toNat / 512 + 1) = .ok st' ∧
      fileWrite okIo okAll v f buf count = ⟨some count.toNat,
        (st'.copied buf count).vol.inodeSync (st'.copied buf count).file.fdInode
          (st'.copied buf count).ioBuf, (st'.copied buf count).file⟩ := by
  revert hret
  simp only [fileWrite]
  split_ifs with h1 h2 h3
  · intro hret; exact absurd rfl hret
  · intro hret; exact absurd rfl hret
  · intro hret; exact absurd rfl hret
  · split
    · intro hret; exact absurd rfl hret
    · rename_i st' hst
      intro _
      obtain ⟨st, hfirst, hmap⟩ := except_bind_eq_ok.mp hst
      exact ⟨st, st', hfirst, hmap, rfl⟩

/-- How many blocks a file has: none before the first write, and then always the one its next byte
goes to. -/
def Inode.blockCount (ino : Inode) : Nat := if ino.iSectors 0 = 0 then 0 else ino.iSize.toNat / 512 + 1

/-- A file as successful writes leave it: its bytes are `data`, and it owns the blocks for them. -/
structure WrittenFile (v : Vol p) (ino : Inode) (data : List UInt8) : Prop where
  rep : FileRep v ino data
  exact : ExactlyOwns v ino ino.blockCount

lemma writtenFile_inodeInit (v : Vol p) (n : UInt32) : WrittenFile v (Inode.inodeInit n) [] :=
  ⟨fileRep_inodeInit v n, exactlyOwns_inodeInit v n⟩

/-- A write that succeeds leaves such a file, and gives it the blocks that it takes. -/
lemma WrittenFile.fileWrite {data : List UInt8} (h : WrittenFile v f.fdInode data)
    (hbound : (f.fdInode.iSize.toNat + count.toNat) / 512 + 1 ≤ 140)
    (hret : (fileWrite okIo okAll v f buf count).ret ≠ none) :
    WrittenFile (fileWrite okIo okAll v f buf count).vol
        (fileWrite okIo okAll v f buf count).file.fdInode (data ++ buf.slice 0 count.toNat) ∧
      Gains v f.fdInode (fileWrite okIo okAll v f buf count).vol
        (fileWrite okIo okAll v f buf count).file.fdInode := by
  obtain ⟨-, hrep, -⟩ := fileWrite_rep h.rep hbound hret
  have hsize := h.rep.size
  have hsum : (f.fdInode.iSize + count).toNat = data.length + count.toNat := by
    rw [UInt32.toNat_add]
    omega
  obtain ⟨st, st', hfirst, hmap, heq⟩ := fileWrite_eq_of_ne_none hret
  obtain ⟨-, hsz, -⟩ := WriteState.firstBlock_owns h.rep hfirst
  obtain ⟨hone, hgain, hall⟩ := WriteState.firstBlock_gains h.exact hfirst
  have hmax : max f.fdInode.blockCount 1 = data.length / 512 + 1 := by
    rw [Inode.blockCount]
    split_ifs with h0
    · rw [h.rep.blank h0]
      rfl
    · omega
  rw [hmax] at hone
  rw [hsz, hsize, hsum] at hmap
  have hnn : data.length / 512 + 1 ≤ (data.length + count.toNat) / 512 + 1 := by omega
  have hm := WriteState.mapBlocks_mapped (by omega) hnn (by omega) hone.owns hmap
  obtain ⟨hexact, hgain'⟩ := WriteState.mapBlocks_gains (by omega) hnn (by omega) hone
    (fun k => by rw [hall]) hmap
  -- the data goes to blocks of the file, none of which is its indirect table
  have hiSize : st'.inode.iSize.toNat = data.length := by rw [hm.iSize, hsz, hsize]
  have htab : st'.inode.iSectors 12 ≠ 0 → SameSector st'.vol.disk
      ((st'.copied buf count).vol.inodeSync (st'.copied buf count).file.fdInode
        (st'.copied buf count).ioBuf).disk (st'.inode.iSectors 12).toNat := by
    intro hne
    have hn : 12 < (data.length + count.toNat) / 512 + 1 := by
      by_contra hn
      exact hne (hexact.table (by omega))
    have hloop : SameSector st'.vol.disk (st'.copied buf count).vol.disk
        (st'.inode.iSectors 12).toNat := by
      refine CopyState.sameSector_writeLoop buf _ _ ?_ fun k h1 h2 => ?_
      · simp only [hiSize]
        omega
      · simp only [hiSize] at h1 h2
        rw [hm.allBlocks_eq k (by omega) (by omega)]
        exact hexact.owns.table_ne hn (by omega)
    exact hloop.trans (((st'.copied buf count).vol.sameData_inodeSync _ _).sameSector
      (hexact.table_holds hn).ge)
  rw [heq] at hrep ⊢
  obtain ⟨hexact', hown⟩ := hexact.of_sameTable (fun k _ => congrFun (st'.iSectors_copied buf count) k)
    htab fun x hx => (st'.holds_copied buf count x).mpr (hexact.holds hx)
  refine ⟨⟨hrep, ?_⟩, hgain.trans (hgain'.trans (.of_iff hown (st'.holds_copied buf count)))⟩
  have hcount : (st'.copied buf count).file.fdInode.blockCount =
      (data.length + count.toNat) / 512 + 1 := by
    have hne := mt hexact'.iSectors_zero_eq.mp (Nat.succ_ne_zero _)
    have hlen := hrep.size
    rw [List.length_append, Bytes.length_slice] at hlen
    rw [Inode.blockCount, if_neg hne, hlen]
  rw [hcount]
  exact hexact'

end SimpleOs
