import SimpleOs.Fs.File.Blocks
import SimpleOs.Fs.SyncedCalls

/-!
# `file_write` and the block bitmap

When a file grows past its direct blocks, `file_write` takes the block of the indirect table without
writing the bitmap back, and then takes data blocks, each with its sector of the bitmap written back.
The bit of the table reaches the disk exactly if the first of these lies in the same sector.
-/

namespace SimpleOs

open Base Option

variable {p : Partition} {v v' : Vol p}

variable {lba m : Nat} {st : WriteState p} {allBlocks t : Nat → UInt32}

variable {i n : Nat} {st1 : WriteState p} {file : OpenFile} {count : UInt32}

namespace Vol

/-- The lowest free block is the only free one in its sector of the bitmap. -/
def LoneFirst (v : Vol p) : Prop :=
  ∃ b, v.blockBitmap.bitmapScan 1 = some b ∧
    ∀ c < nBlocks p, v.blockUsed c = false → c / 4096 = b / 4096 → c = b

/-- Sector `i` of the bitmap has not been written back, and will not be on account of a new block. -/
structure Stale (v : Vol p) (i : Nat) : Prop where
  lt : i < p.sb.blockBitmapSects
  not_synced : ¬v.BlockSynced i
  full : ∀ c < nBlocks p, v.blockUsed c = false → c / 4096 ≠ i

lemma Stale.not_agree (h : v.Stale i) : ¬v.BlocksAgree :=
  fun hagree => h.not_synced (hagree i h.lt)

lemma Stale.alloc (h : v.Stale i) (halloc : v.blockBitmapAlloc = some (lba, v')) :
    (v'.bitmapSync (lba - p.sb.dataStartLba) .blockBitmap).Stale i := by
  obtain ⟨b, hb, hfree, rfl, rfl⟩ := blockBitmapAlloc_eq_some halloc
  have hne : i ≠ b / 4096 := (h.full b hb hfree).symm
  rw [Nat.add_sub_cancel_left]
  refine ⟨h.lt, ?_, fun c hc hcfree => ?_⟩
  · rw [blockSynced_bitmapSync_of_ne hne, blockSynced_setBlockBit hne]
    exact h.not_synced
  · rw [blockUsed_bitmapSync, blockUsed_setBlockBit] at hcfree
    split_ifs at hcfree
    exact h.full c hc hcfree

end Vol

namespace WriteState

open Vol

/-- The blocks a write works on are off the bitmaps. -/
structure Off (st : WriteState p) : Prop where
  allBlocks : ∀ k, OffBitmaps p (st.allBlocks k).toNat
  sectors : ∀ k ≤ 12, OffBitmaps p (st.inode.iSectors k).toNat

lemma offBitmaps_setEntry
    (h : ∀ k ≤ m, OffBitmaps p (t k).toNat) (hx : OffBitmaps p x.toNat) (j : Nat) :
    ∀ k ≤ m, OffBitmaps p (setEntry t j x k).toNat := by
  intro k hk
  by_cases hkj : k = j
  · rw [hkj, setEntry_self]
    exact hx
  · rw [setEntry_of_ne _ _ hkj]
    exact h k hk

lemma Off.record (h : st.Off) (direct : Bool) (k : Nat) {lba : UInt32} (hlba : OffBitmaps p lba.toNat)
    (w : Vol p) : ((({ st with vol := w } : WriteState p)).record direct k lba).Off := by
  refine ⟨fun j => ?_, ?_⟩
  · exact offBitmaps_setEntry (m := j) (fun i _ => h.allBlocks i) hlba k j le_rfl
  · cases direct with
    | true => exact offBitmaps_setEntry h.sectors hlba k
    | false => exact h.sectors

/-- The rule for the loops that allocate blocks: what taking a block and writing its sector of the
bitmap back keeps, the loop keeps. -/
lemma allocBlocks_induction (inv : Vol p → Prop)
    (hstep : ∀ (v v' : Vol p) (lba : Nat), inv v → v.blockBitmapAlloc = some (lba, v') →
      inv (v'.bitmapSync (lba - p.sb.dataStartLba) .blockBitmap))
    (direct : Nat → Bool) (n k : Nat) (h : inv st.vol) (hoff : st.Off) :
    inv (outcome (allocBlocks direct n k st)).vol ∧ (outcome (allocBlocks direct n k st)).Off := by
  induction n generalizing k st with
  | zero => exact ⟨h, hoff⟩
  | succ n ih =>
    rw [allocBlocks]
    cases halloc : st.vol.blockBitmapAlloc with
    | none => exact ⟨h, hoff⟩
    | some r =>
      exact ih (k + 1) (hstep _ _ _ h halloc) (hoff.record _ k (isBlock_alloc halloc).offBitmaps _)

lemma allocBlocks_syncStep (direct : Nat → Bool) (n k : Nat) (hoff : st.Off) :
    st.vol.SyncStep (outcome (allocBlocks direct n k st)).vol ∧
      (outcome (allocBlocks direct n k st)).Off :=
  allocBlocks_induction (fun w => st.vol.SyncStep w)
    (fun _ _ _ h halloc => h.trans (syncStep_alloc halloc)) direct n k (.refl _) hoff

/-- What the allocation of the indirect table does, if it finds a block. -/
lemma allocTable_eq_ok (htable : st.allocTable = .ok st1) :
    ∃ b, st.vol.blockBitmap.bitmapScan 1 = some b ∧ b < nBlocks p ∧ st.vol.blockUsed b = false ∧
      (∀ c < b, st.vol.blockUsed c = true) ∧ st1.vol = st.vol.setBlockBit b true ∧
      (st.Off → st1.Off) := by
  rw [allocTable] at htable
  cases halloc : st.vol.blockBitmapAlloc with
  | none =>
    rw [halloc] at htable
    cases htable
  | some r =>
    obtain ⟨lba, v1⟩ := r
    rw [halloc] at htable
    obtain rfl := Except.ok.inj htable
    have hlba := (isBlock_alloc halloc).offBitmaps
    obtain ⟨b, hscan, hb, hfree, hfirst, -, rfl⟩ := blockBitmapAlloc_first halloc
    exact ⟨b, hscan, hb, hfree, hfirst, rfl,
      fun hoff => ⟨hoff.allBlocks, offBitmaps_setEntry hoff.sectors hlba 12⟩⟩

/-- The first block after the table, if it lies in the same sector, takes the table's bit to the
disk. -/
lemma blocksAgree_of_same_sector (h : v.BlocksAgree)
    (hfirst : ∀ c < b, v.blockUsed c = true) (hcfree : v.blockUsed c = false)
    (hcb : c / 4096 = b / 4096) (hne : c ≠ b)
    (halloc : (v.setBlockBit b true).blockBitmapAlloc = some (lba, v')) :
    (v'.bitmapSync (lba - p.sb.dataStartLba) .blockBitmap).BlocksAgree := by
  obtain ⟨d, -, hd, hdfree, hdfirst, rfl, rfl⟩ := blockBitmapAlloc_first halloc
  rw [blockUsed_setBlockBit] at hdfree
  split_ifs at hdfree with hdb
  -- the block lies between the table's and `c`
  have hbd : b < d := by
    by_contra hle
    have hused := hfirst d (by omega)
    rw [hdfree] at hused
    cases hused
  have hdc : d ≤ c := by
    by_contra hlt
    have hused := hdfirst c (by omega)
    rw [blockUsed_setBlockBit, if_neg hne, hcfree] at hused
    cases hused
  have hsector : d / 4096 = b / 4096 := by omega
  rw [Nat.add_sub_cancel_left]
  intro j hj
  by_cases hjd : j = d / 4096
  · subst hjd
    exact blockSynced_bitmapSync_self _ d
  · rw [blockSynced_bitmapSync_of_ne hjd, blockSynced_setBlockBit hjd,
      blockSynced_setBlockBit (hsector ▸ hjd)]
    exact h j hj

/-- The allocation of the indirect table and then of at least one block. -/
lemma allocTable_allocBlocks (htable : st.allocTable = .ok st1) (hoff : st.Off)
    (h : st.vol.BlocksAgree) (direct : Nat → Bool) (n k : Nat) :
    (outcome (allocBlocks direct (n + 1) k st1)).Off ∧
      st.vol.SameInodeBitmap (outcome (allocBlocks direct (n + 1) k st1)).vol ∧
      (st.vol.LoneFirst → ∃ i, (outcome (allocBlocks direct (n + 1) k st1)).vol.Stale i) ∧
      (¬st.vol.LoneFirst → (outcome (allocBlocks direct (n + 1) k st1)).vol.BlocksAgree) := by
  obtain ⟨b, hscan, hb, hfree, hfirst, hv1, hoff1⟩ := allocTable_eq_ok htable
  have hoff1 := hoff1 hoff
  have hstep := allocBlocks_syncStep direct (n + 1) k hoff1
  refine ⟨hstep.2, ?_, fun hlone => ⟨b / 4096, ?_⟩, fun hlone => ?_⟩
  · have hsame : st.vol.SameInodeBitmap st1.vol := by
      rw [hv1]
      exact ⟨rfl, fun _ _ => rfl⟩
    exact hsame.trans hstep.1.inodes
  · obtain ⟨b', hscan', honly⟩ := hlone
    obtain rfl := some.inj (hscan.symm.trans hscan')
    refine (allocBlocks_induction (fun w => w.Stale (b / 4096))
      (fun _ _ _ hs halloc => hs.alloc halloc) direct (n + 1) k ?_ hoff1).1
    rw [nBlocks] at hb
    have hlt : b / 4096 < p.sb.blockBitmapSects := by omega
    rw [hv1]
    refine ⟨hlt, not_blockSynced_setBlockBit (h _ hlt) (by simp [hfree]), fun c hc hcfree hcb => ?_⟩
    rw [blockUsed_setBlockBit] at hcfree
    split_ifs at hcfree with hne
    exact hne (honly c hc hcfree hcb)
  · have hother : ∃ c < nBlocks p, st.vol.blockUsed c = false ∧ c / 4096 = b / 4096 ∧ c ≠ b := by
      by_contra hnone
      refine hlone ⟨b, hscan, fun c hc hcfree hcb => ?_⟩
      by_contra hne
      exact hnone ⟨c, hc, hcfree, hcb, hne⟩
    obtain ⟨c, hc, hcfree, hcb, hne⟩ := hother
    rw [allocBlocks]
    cases halloc : st1.vol.blockBitmapAlloc with
    | none =>
      rw [hv1] at halloc
      have hcard := blockBitmapAlloc_eq_none_iff.mp halloc
      have hmem : c ∈ (st.vol.setBlockBit b true).freeBlocks :=
        Finset.mem_filter.mpr ⟨Finset.mem_range.mpr hc, by simp [hne, hcfree]⟩
      rw [Finset.card_eq_zero] at hcard
      rw [hcard] at hmem
      cases hmem
    | some r =>
      have hagree := blocksAgree_of_same_sector h hfirst hcfree hcb hne (hv1 ▸ halloc)
      exact (allocBlocks_syncStep direct n (k + 1) (hoff1.record _ k
        (isBlock_alloc halloc).offBitmaps _)).1.blocks hagree

/-! ### The parts of `file_write` -/

lemma Off.lastBlock (h : st.Off) (hn : n ≤ 13) : (st.lastBlock n).Off := by
  refine ⟨fun j => ?_, h.sectors⟩
  exact offBitmaps_setEntry (m := j) (fun i _ => h.allBlocks i) (h.sectors _ (by omega)) _ j le_rfl

lemma sameBitmaps_writeTable (h : st.Off) : st.vol.SameBitmaps st.writeTable.vol :=
  sameBitmaps_ideWrite st.vol (h.sectors 12 le_rfl) _

lemma firstBlock_syncStep (h : st.Off) :
    st.vol.SyncStep (outcome st.firstBlock).vol ∧ (outcome st.firstBlock).Off := by
  rw [firstBlock]
  split_ifs
  · cases halloc : st.vol.blockBitmapAlloc with
    | none => exact ⟨.refl _, h⟩
    | some r =>
      exact ⟨syncStep_alloc halloc,
        ⟨h.allBlocks, offBitmaps_setEntry h.sectors (isBlock_alloc halloc).offBitmaps 0⟩⟩
  · exact ⟨.refl _, h⟩

lemma outcome_bind_writeTable (r : Except (WriteState p) (WriteState p)) (hoff : (outcome r).Off) :
    (outcome (r >>= fun st => .ok st.writeTable)).Off ∧
      (outcome r).vol.SameBitmaps (outcome (r >>= fun st => .ok st.writeTable)).vol := by
  cases r with
  | error st => exact ⟨hoff, rfl, rfl, fun _ _ _ => rfl⟩
  | ok st => exact ⟨⟨hoff.allBlocks, hoff.sectors⟩, sameBitmaps_writeTable hoff⟩

/-- The block map part of `file_write`, for a state whose table of blocks is in order. -/
lemma mapBlocks_synced (hasUsed willUse : Nat) (h : st.Off) (htable : 12 < hasUsed → st.readTable.Off)
    (hle : hasUsed ≤ willUse) (hv : st.vol.BlocksAgree) :
    (outcome (st.mapBlocks hasUsed willUse)).Off ∧
      st.vol.SameInodeBitmap (outcome (st.mapBlocks hasUsed willUse)).vol ∧
      ((outcome (st.mapBlocks hasUsed willUse)).vol.BlocksAgree ↔
        ¬(hasUsed ≤ 12 ∧ 12 < willUse ∧ st.vol.LoneFirst)) := by
  rw [mapBlocks]
  split_ifs with hsame hwill hwill hhas
  · exact ⟨h.lastBlock (by omega), ⟨rfl, fun _ _ => rfl⟩, iff_of_true hv fun hn => by omega⟩
  · exact ⟨htable (by omega), ⟨rfl, fun _ _ => rfl⟩, iff_of_true hv fun hn => by omega⟩
  · obtain ⟨hstep, hoff⟩ := allocBlocks_syncStep (fun _ => true) (willUse - hasUsed) hasUsed
      (h.lastBlock (n := hasUsed) (by omega))
    exact ⟨hoff, hstep.inodes, iff_of_true (hstep.blocks hv) fun hn => by omega⟩
  · -- the file gets its indirect table
    obtain ⟨n, hn⟩ : ∃ n, willUse - hasUsed = n + 1 := ⟨willUse - hasUsed - 1, by omega⟩
    have hlast := h.lastBlock (n := hasUsed) (by omega)
    have hcond : (hasUsed ≤ 12 ∧ 12 < willUse ∧ st.vol.LoneFirst) ↔ st.vol.LoneFirst :=
      ⟨fun hc => hc.2.2, fun hc => ⟨hhas, by omega, hc⟩⟩
    rw [hcond, hn]
    cases halloc : (st.lastBlock hasUsed).allocTable with
    | error st1 =>
      obtain ⟨rfl, hnone⟩ := allocTable_eq_error halloc
      refine ⟨hlast, ⟨rfl, fun _ _ => rfl⟩, iff_of_true hv ?_⟩
      rintro ⟨b, hscan, -⟩
      have hscan' : (st.lastBlock hasUsed).vol.blockBitmap.bitmapScan 1 = some b := hscan
      rw [blockBitmapAlloc, hscan'] at hnone
      cases hnone
    | ok st1 =>
      obtain ⟨hoff, hinodes, hlone, hnot⟩ := allocTable_allocBlocks halloc hlast hv
        (fun k => decide (k < 12)) n hasUsed
      obtain ⟨hoff', hsame'⟩ := outcome_bind_writeTable _ hoff
      refine ⟨hoff', hinodes.trans hsame'.syncStep.inodes, hsame'.blocksAgree_iff.trans ⟨?_, hnot⟩⟩
      intro hagree hl
      obtain ⟨i, hstale⟩ := hlone hl
      exact hstale.not_agree hagree
  · have hread := htable (by omega)
    obtain ⟨hstep, hoff⟩ := allocBlocks_syncStep (fun _ => false) (willUse - hasUsed) hasUsed hread
    obtain ⟨hoff', hsame'⟩ := outcome_bind_writeTable _ hoff
    have hstep' := hstep.trans hsame'.syncStep
    exact ⟨hoff', hstep'.inodes, iff_of_true (hstep'.blocks hv) fun hn => by omega⟩

end WriteState

/-! ### `file_write` -/

lemma CopyState.sameBitmaps_writeLoop (buf : Bytes) (count : Nat)
    (hoff : ∀ k, Vol.OffBitmaps p (allBlocks k).toNat) (fuel : Nat) (first : Bool) (written : Nat)
    (c : CopyState p) : c.vol.SameBitmaps (writeLoop allBlocks buf count fuel first written c).vol := by
  induction fuel generalizing first written c with
  | zero => exact .refl _
  | succ fuel ih =>
    rw [writeLoop]
    split_ifs
    · refine .trans ?_ (ih _ _ _)
      exact Vol.sameBitmaps_ideWrite c.vol (hoff _) _
    · exact .refl _

/-- A file as the other calls leave it, and a count that does not wrap around: its blocks are its own,
and it has an indirect table if it is too long for its direct blocks. -/
structure Vol.WriteReady (v : Vol p) (file : OpenFile) (count : UInt32) : Prop where
  owned : BlocksOwned v (loadBlocks v.disk file.fdInode) (file.fdInode.iSectors 12)
  table : 6144 ≤ file.fdInode.iSize.toNat → file.fdInode.iSectors 12 ≠ 0
  fits : file.fdInode.iSize.toNat + count.toNat < 2 ^ 32

/-- The write makes the file get an indirect table, and the table's block is the only free one in its
sector of the bitmap after the first block of the file, if that is missing, has been taken. -/
def Vol.TableLeft (v : Vol p) (file : OpenFile) (count : UInt32) : Prop :=
  file.fdInode.iSize.toNat < 6144 ∧ 6144 ≤ file.fdInode.iSize.toNat + count.toNat ∧
    ∃ st, WriteState.firstBlock { vol := v, inode := file.fdInode, allBlocks := fun _ => 0 } = .ok st ∧
      st.vol.LoneFirst

lemma Vol.WriteReady.off (h : v.WriteReady file count) :
    ({ vol := v, inode := file.fdInode, allBlocks := fun _ => 0 } : WriteState p).Off := by
  refine ⟨fun k => .inl rfl, fun k hk => ?_⟩
  by_cases h0 : file.fdInode.iSectors k = 0
  · rw [h0]
    exact .inl rfl
  · by_cases hlt : k < 12
    · have hheld := h.owned.held k
      rw [loadBlocks_of_lt hlt] at hheld
      exact (hheld h0).isBlock.offBitmaps
    · obtain rfl : k = 12 := by omega
      exact (h.owned.table_held h0).isBlock.offBitmaps

/-- The first write changes neither the size nor the table, nor the sector of the table. -/
lemma WriteState.firstBlock_frame (h : st.firstBlock = .ok st1) :
    st1.inode.iSize = st.inode.iSize ∧ st1.inode.iSectors 12 = st.inode.iSectors 12 ∧
      st1.allBlocks = st.allBlocks ∧ st.vol.SameData st1.vol := by
  rw [firstBlock] at h
  split_ifs at h with h0
  · cases halloc : st.vol.blockBitmapAlloc with
    | none =>
      rw [halloc] at h
      cases h
    | some r =>
      rw [halloc] at h
      obtain rfl := Except.ok.inj h
      refine ⟨rfl, ?_, rfl, (Vol.allocated_of_alloc halloc).2.sameData⟩
      exact setEntry_of_ne st.inode.iSectors (UInt32.ofNat r.1) (by omega : 12 ≠ 0)
  · obtain rfl := Except.ok.inj h
    exact ⟨rfl, rfl, rfl, fun _ _ => rfl⟩

/-- The table that is read in is in order. -/
lemma Vol.WriteReady.readTable
    (h : v.WriteReady file count) (hlong : 6144 ≤ file.fdInode.iSize.toNat) (hoff : st.Off)
    (hfirst : WriteState.firstBlock { vol := v, inode := file.fdInode, allBlocks := fun _ => 0 } = .ok st) :
    st.readTable.Off := by
  obtain ⟨-, htable, -, hdata⟩ := WriteState.firstBlock_frame hfirst
  have ht0 := h.table hlong
  have hsector := hdata.sameSector (h.owned.table_held ht0).ge
  refine ⟨fun k => ?_, hoff.sectors⟩
  simp only [WriteState.readTable, htable]
  split_ifs with hk
  · have hlt : k - 12 < 128 := by omega
    rw [hsector.u32 hlt]
    have hload : loadBlocks v.disk file.fdInode k =
        v.disk.u32 (512 * (file.fdInode.iSectors 12).toNat + 4 * (k - 12)) := by
      simp only [loadBlocks]
      rw [if_neg (by omega), if_pos ⟨ht0, hk.2⟩]
    rw [← hload]
    by_cases h0 : loadBlocks v.disk file.fdInode k = 0
    · rw [h0]
      exact .inl rfl
    · exact (h.owned.held k h0).isBlock.offBitmaps
  · exact hoff.allBlocks k

/-- `file_write` leaves the disk behind if it comes to the allocation and the bit of the table stays
in memory. -/
lemma agree_fileWrite_iff (hready : v.WriteReady file count) (h : v.BitmapsAgree) :
    (fileWrite okIoBuf okAllBlocks v file buf count).vol.BitmapsAgree ↔
      ¬((file.fdInode.iSize + count).toNat ≤ 512 * 140 ∧ okIoBuf ∧ okAllBlocks ∧
        v.TableLeft file count) := by
  have hsum : (file.fdInode.iSize + count).toNat = file.fdInode.iSize.toNat + count.toNat := by
    exact Nat.mod_eq_of_lt hready.fits
  rw [fileWrite]
  split_ifs with hbig hbuf hblocks
  · exact iff_of_true h fun hn => absurd hn.1 (by omega)
  · exact iff_of_true h fun hn => by simp [hn.2.1] at hbuf
  · exact iff_of_true h fun hn => by simp [hn.2.2.1] at hblocks
  have hcond : ((file.fdInode.iSize + count).toNat ≤ 512 * 140 ∧ okIoBuf ∧ okAllBlocks ∧
      v.TableLeft file count) ↔ v.TableLeft file count :=
    ⟨fun hc => hc.2.2.2, fun hc => ⟨by omega, by simpa using hbuf, by simpa using hblocks, hc⟩⟩
  rw [hcond]
  have hstep := WriteState.firstBlock_syncStep hready.off
  cases hfirst : WriteState.firstBlock
      { vol := v, inode := file.fdInode, allBlocks := fun _ => 0 } with
  | error st =>
    rw [hfirst] at hstep
    refine iff_of_true (hstep.1.agree h) ?_
    rintro ⟨-, -, st', hst', -⟩
    rw [hfirst] at hst'
    cases hst'
  | ok st =>
    rw [hfirst] at hstep
    obtain ⟨hstep, hoff⟩ : v.SyncStep st.vol ∧ st.Off := hstep
    have hsize : st.inode.iSize = file.fdInode.iSize := (WriteState.firstBlock_frame hfirst).1
    have hleft : v.TableLeft file count ↔
        st.inode.iSize.toNat / 512 + 1 ≤ 12 ∧ 12 < (st.inode.iSize + count).toNat / 512 + 1 ∧
          st.vol.LoneFirst := by
      rw [hsize]
      constructor
      · rintro ⟨hlt, hge, st', hst', hlone⟩
        obtain rfl := Except.ok.inj (hfirst.symm.trans hst')
        exact ⟨by omega, by omega, hlone⟩
      · rintro ⟨hlt, hge, hlone⟩
        exact ⟨by omega, by omega, st, hfirst, hlone⟩
    obtain ⟨hoff', hinodes, hagree⟩ := WriteState.mapBlocks_synced
      (st.inode.iSize.toNat / 512 + 1) ((st.inode.iSize + count).toNat / 512 + 1) hoff
      (fun hlong => hready.readTable (by rw [hsize] at hlong; omega) hoff hfirst)
      (by rw [hsize]; omega) (hstep.blocks h.block)
    rw [hleft, ← hagree]
    -- what is left to do does not touch the bitmaps
    have hiff : ∀ w : Vol p, (WriteState.outcome (st.mapBlocks (st.inode.iSize.toNat / 512 + 1)
        ((st.inode.iSize + count).toNat / 512 + 1))).vol.SameBitmaps w →
        (w.BitmapsAgree ↔ (WriteState.outcome (st.mapBlocks (st.inode.iSize.toNat / 512 + 1)
          ((st.inode.iSize + count).toNat / 512 + 1))).vol.BlocksAgree) := by
      intro w hsame
      refine ⟨fun hw => hsame.blocksAgree_iff.mp hw.block, fun hw => ⟨hsame.blocksAgree_iff.mpr hw, ?_⟩⟩
      exact fun i hi => ((hstep.inodes.trans hinodes).trans hsame.syncStep.inodes).inodeSynced hi
        (h.inode i hi)
    cases hmap : st.mapBlocks (st.inode.iSize.toNat / 512 + 1)
        ((st.inode.iSize + count).toNat / 512 + 1) with
    | error st' =>
      rw [hmap] at hiff
      simp only [bind, Except.bind, hmap]
      exact hiff st'.vol (.refl _)
    | ok st' =>
      rw [hmap] at hiff hoff'
      simp only [bind, Except.bind, hmap]
      exact hiff _ ((CopyState.sameBitmaps_writeLoop buf _ hoff'.allBlocks _ _ _
        ⟨st'.vol, ⟨st'.inode.iSize - 1, st'.inode⟩, Bytes.zero⟩).trans (Vol.sameBitmaps_inodeSync _ _ _))

/-! ### All calls -/

/-- The inodes a call is given are as the other calls leave them: their blocks are their own, and a
number that is to be deleted is one of the partition's. -/
def FsCall.WellFormed (v : Vol p) : FsCall → Prop
  | .fileCreate _ _ _ parent _ => BlocksOwned v (loadBlocks v.disk parent) (parent.iSectors 12)
  | .fileWrite _ _ file _ count => v.WriteReady file count
  | .sysMkdir _ parent _ =>
    ∀ ino, parent = some ino → BlocksOwned v (loadBlocks v.disk ino) (ino.iSectors 12)
  | .sysRmdir _ searched => ∀ parent dir, searched = some (parent, dir) → v.DeleteReady parent dir.iNo dir
  | .sysUnlink _ searched =>
    ∀ parent n ino, searched = some (parent, n, ino) → v.DeleteReady parent n ino

/-- Neither is the bit of an indirect table left behind by `file_write`, nor is it cleared in memory
only by `sync_dir_entry`. -/
def FsCall.SyncSafe (v : Vol p) : FsCall → Prop
  | .fileCreate okIoBuf okInode okSlot parent _ =>
    ¬(okIoBuf ∧ okInode ∧ okSlot ∧ v.inodeBitmapAlloc ≠ none ∧ v.TableStuck parent)
  | .fileWrite okIoBuf okAllBlocks file _ count =>
    ¬((file.fdInode.iSize + count).toNat ≤ 512 * 140 ∧ okIoBuf ∧ okAllBlocks ∧ v.TableLeft file count)
  | .sysMkdir okIoBuf parent _ =>
    ¬(okIoBuf ∧ v.inodeBitmapAlloc ≠ none ∧ ∃ ino, parent = some ino ∧ v.MkdirStuck ino)
  | _ => True

/-- The calls leave the bitmaps on disk as they are in memory unless the block of an indirect table is
taken by `file_write` alone in its sector of the bitmap, or given back by `sync_dir_entry`. -/
theorem bitmaps_agree_iff (c : FsCall) (hc : c.WellFormed v) (h : v.BitmapsAgree)
    (hexec : c.exec v = some v') : v'.BitmapsAgree ↔ c.SyncSafe v := by
  cases c with
  | fileCreate okIoBuf okInode okSlot parent filename =>
    cases hexec
    exact Vol.agree_fileCreate_iff hc h
  | fileWrite okIoBuf okAllBlocks file buf count =>
    cases hexec
    exact agree_fileWrite_iff hc h
  | sysMkdir okIoBuf parent dirname =>
    cases hexec
    exact Vol.agree_sysMkdir_iff hc h
  | sysRmdir okIoBuf searched =>
    refine iff_of_true ?_ trivial
    simp only [FsCall.exec, Vol.sysRmdir] at hexec
    split at hexec
    · rwa [← some.inj hexec]
    · split_ifs at hexec
      · rwa [← some.inj hexec]
      · rwa [← some.inj hexec]
      · exact h.deleteAndRelease (hc _ _ rfl) hexec
  | sysUnlink okIoBuf searched =>
    refine iff_of_true ?_ trivial
    simp only [FsCall.exec, Vol.sysUnlink] at hexec
    split at hexec
    · rwa [← some.inj hexec]
    · split_ifs at hexec
      · rwa [← some.inj hexec]
      · exact h.deleteAndRelease (hc _ _ _ rfl) hexec

/-- A partition with a single free block, the last one its bitmap has a bit for. -/
def Vol.nearlyFull : Vol Partition.smallest where
  disk := fun a => if 512 * 2050 ≤ a ∧ a < 512 * 2051 then (if a = 512 * 2050 + 511 then 0x7f else 0xff) else 0
  blockBitmap := ⟨512, fun k => if k = 511 then 0x7f else 0xff⟩
  inodeBitmap := ⟨512, Bytes.zero⟩
  blockBitmap_len := rfl
  inodeBitmap_len := rfl

/-- A file with `n` direct blocks. -/
def OpenFile.withBlocks (n : Nat) (size : UInt32) : OpenFile where
  fdPos := 0
  fdInode := { Inode.inodeInit 1 with
    iSize := size, iSectors := fun k => if k < n then UInt32.ofNat (2660 + k) else 0 }

lemma Vol.bitmapsAgree_nearlyFull : Vol.nearlyFull.BitmapsAgree := by
  refine ⟨fun i hi r hr => ?_, fun i hi r hr => ?_⟩
  · obtain rfl : i = 0 := Nat.lt_one_iff.mp hi
    have hlba : Partition.smallest.sb.blockBitmapLba = 2050 := rfl
    simp only [nearlyFull, hlba]
    rw [if_pos (by omega)]
    by_cases h511 : r = 511
    · simp [h511]
    · rw [if_neg (by omega), if_neg (by omega)]
  · have hlba : Partition.smallest.sb.inodeBitmapLba = 2051 := rfl
    simp only [nearlyFull, hlba]
    rw [if_neg (by omega)]
    rfl

lemma OpenFile.owned_withBlocks (hn : n ≤ 12) (size : UInt32) :
    BlocksOwned Vol.nearlyFull (loadBlocks Vol.nearlyFull.disk (OpenFile.withBlocks n size).fdInode)
      ((OpenFile.withBlocks n size).fdInode.iSectors 12) := by
  have htable : (OpenFile.withBlocks n size).fdInode.iSectors 12 = 0 := if_neg (by omega)
  have hload : ∀ k, loadBlocks Vol.nearlyFull.disk (OpenFile.withBlocks n size).fdInode k =
      if k < n then UInt32.ofNat (2660 + k) else 0 := by
    intro k
    by_cases hk : k < 12
    · exact loadBlocks_of_lt hk
    · rw [loadBlocks_of_table_eq_zero htable (by omega), if_neg (by omega)]
  have hnat : ∀ k < 12, (UInt32.ofNat (2660 + k)).toNat = 2660 + k := by
    intro k hk
    rw [UInt32.toNat_ofNat']
    omega
  have hused : ∀ k < 12, Vol.nearlyFull.blockUsed k = true := by decide
  refine ⟨fun k hk => ?_, fun j k hj hjk => ?_, fun ht => absurd htable ht, fun ht => absurd htable ht⟩
  · rw [hload] at hk ⊢
    split_ifs at hk ⊢ with hlt
    · refine ⟨k, ?_, ?_, hnat k (by omega)⟩
      · show k < 4096
        omega
      · exact hused k (by omega)
    · exact absurd rfl hk
  · rw [hload] at hj
    rw [hload, hload] at hjk
    split_ifs at hj hjk with h1 h2
    · have := congrArg UInt32.toNat hjk
      rw [hnat j (by omega), hnat k (by omega)] at this
      omega
    · exact absurd hjk hj
    all_goals exact absurd rfl hj

/-- The first byte of a file goes to the last free block, and the bitmap on disk has its bit. -/
theorem bitmaps_agree_first_byte :
    ∃ v', (FsCall.fileWrite true true (OpenFile.withBlocks 0 0) Bytes.zero 1).exec Vol.nearlyFull = some v' ∧
      v'.BitmapsAgree := by
  refine ⟨_, rfl, ?_⟩
  have hready : Vol.nearlyFull.WriteReady (OpenFile.withBlocks 0 0) 1 :=
    ⟨OpenFile.owned_withBlocks (by omega) 0, fun h => absurd h (by decide), by decide⟩
  refine (bitmaps_agree_iff (.fileWrite true true (OpenFile.withBlocks 0 0) Bytes.zero 1) hready
    Vol.bitmapsAgree_nearlyFull rfl).mpr ?_
  rintro ⟨-, -, -, -, hge, -⟩
  exact absurd hge (by decide)

/-- A file of twelve blocks gets one byte more than they hold, and there is a single free block: it is
taken for the table, no other is found, and the bitmap on disk does not have its bit. -/
theorem not_bitmaps_agree_of_full :
    ¬∀ (p : Partition) (v v' : Vol p) (c : FsCall), c.WellFormed v → v.BitmapsAgree →
      c.exec v = some v' → v'.BitmapsAgree := by
  intro hall
  have hready : Vol.nearlyFull.WriteReady (OpenFile.withBlocks 12 6143) 1 :=
    ⟨OpenFile.owned_withBlocks le_rfl 6143, fun h => absurd h (by decide), by decide⟩
  have hagree := hall _ _ _ (.fileWrite true true (OpenFile.withBlocks 12 6143) Bytes.zero 1) hready
    Vol.bitmapsAgree_nearlyFull rfl
  have hbyte := hagree.block 0 (by decide) 511 (by decide)
  revert hbyte
  decide +kernel

end SimpleOs
