import SimpleOs.Fs.Dir.Delete
import SimpleOs.Fs.Synced

/-!
# When the calls leave the bitmaps on disk behind

Nearly every change of a bitmap is written back at once. Two are not: the block that `file_write` takes
for an indirect table, whose sector of the bitmap reaches the disk only with a later block in the same
sector, and the block that `sync_dir_entry` gives back when the second of the two blocks it needs is
missing.
-/

namespace SimpleOs

open Base

variable {p : Partition} {v v' : Vol p}

variable {lba n : Nat} {v1 : Vol p} {parent : Inode} {inodeNo : UInt32}

namespace Vol

/-! ### Inserting a directory entry -/

/-- `sync_dir_entry` needs two blocks and finds one. -/
def TableStuck (v : Vol p) (ino : Inode) : Prop := DirectFull v ino ∧ v.freeBlocks.card = 1

variable (pDe ioBuf : Bytes)

lemma syncStep_putEntry {lba : UInt32} (h : IsBlock p lba) (idx : Nat) (v : Vol p)
    (ino : Inode) : v.SyncStep (putEntry pDe ioBuf lba.toNat idx v ino).vol :=
  (sameBitmaps_ideWrite v h.offBitmaps _).syncStep

/-- What the insertion into a new block does to the block bitmap. -/
lemma syncNew_synced (allBlocks : Nat → UInt32) (ino : Inode) (hk : k ≤ 12) (h : v.BlocksAgree) :
    v.SameInodeBitmap (syncNew pDe allBlocks k v ino ioBuf).vol ∧
      ((syncNew pDe allBlocks k v ino ioBuf).vol.BlocksAgree ↔ ¬(k = 12 ∧ v.freeBlocks.card = 1)) := by
  -- a step that is in order, while it is not the one that fails
  have hstep : ∀ v' : Vol p, v.SyncStep v' → ¬(k = 12 ∧ v.freeBlocks.card = 1) →
      v.SameInodeBitmap v' ∧ (v'.BlocksAgree ↔ ¬(k = 12 ∧ v.freeBlocks.card = 1)) :=
    fun v' hs hn => ⟨hs.inodes, iff_of_true (hs.blocks h) hn⟩
  simp only [syncNew, newBlock]
  cases halloc : v.blockBitmapAlloc with
  | none =>
    have hcard := blockBitmapAlloc_eq_none_iff.mp halloc
    exact hstep v (.refl v) fun hn => by omega
  | some r =>
    obtain ⟨lba, v1⟩ := r
    have hs1 := syncStep_alloc halloc
    have hblock := isBlock_alloc halloc
    have hcard := card_freeBlocks_alloc halloc
    simp only
    by_cases hlt : k < 12
    · rw [if_pos hlt]
      exact hstep _ (hs1.trans (syncStep_putEntry _ _ hblock _ _ _)) fun hn => by omega
    · obtain rfl : k = 12 := by omega
      obtain ⟨b, hb, -, rfl, rfl⟩ := blockBitmapAlloc_eq_some halloc
      rw [Nat.add_sub_cancel_left] at hs1 ⊢
      cases halloc' : ((v.setBlockBit b true).bitmapSync b .blockBitmap).blockBitmapAlloc with
      | none =>
        -- the block of the table is given back in memory only
        have hzero := blockBitmapAlloc_eq_none_iff.mp halloc'
        rw [card_freeBlocks_bitmapSync] at hzero
        refine ⟨⟨hs1.inodes.bits, hs1.inodes.disk⟩, iff_of_false (fun hagree => ?_) fun hn => hn ⟨rfl, ?_⟩⟩
        · rw [nBlocks] at hb
          exact not_blockSynced_setBlockBit (hs1.blocks h _ (by omega)) (by simp)
            (hagree (b / 4096) (by omega))
        · omega
      | some r' =>
        have hcard' := card_freeBlocks_alloc halloc'
        rw [card_freeBlocks_bitmapSync] at hcard'
        refine hstep _ ?_ fun hn => by omega
        exact ((hs1.trans (syncStep_alloc halloc')).trans
          (sameBitmaps_ideWrite _ hblock.offBitmaps _).syncStep).trans
            (syncStep_putEntry _ _ (isBlock_alloc halloc') _ _ _)

/-- `sync_dir_entry` leaves the inode bitmap alone, and the block bitmap in order unless it is stuck. -/
lemma syncDirEntry_synced
    (hown : BlocksOwned v (loadBlocks v.disk ino) (ino.iSectors 12)) (h : v.BlocksAgree) :
    v.SameInodeBitmap (syncDirEntry v ino pDe ioBuf).vol ∧
      ((syncDirEntry v ino pDe ioBuf).vol.BlocksAgree ↔ ¬v.TableStuck ino) := by
  obtain ⟨j, idx, hj, hidx, hj0, hfree, heq⟩ | ⟨j, buf, hj, hj0, hfull, heq⟩ :=
    syncBlocks_cases pDe v ino (n := 140) (k := 0) rfl (by omega) (fun _ h => absurd h (by omega)) ioBuf
  · rw [syncDirEntry, heq]
    have hblock : IsBlock p (ino.iSectors j) := by
      have hheld := hown.held j
      rw [loadBlocks_of_lt hj] at hheld
      exact (hheld hj0).isBlock
    have hs := syncStep_putEntry pDe (ideRead v.disk (ino.iSectors j).toNat ioBuf 0 1) hblock idx v ino
    rw [putEntry_ideRead _ _ _ hidx] at hs
    exact ⟨hs.inodes, iff_of_true (hs.blocks h) fun hstuck => (hstuck.1 j hj).2 idx hidx hfree⟩
  · rw [syncDirEntry, heq]
    obtain ⟨hinodes, hagree⟩ := syncNew_synced pDe buf (directBlocks ino) ino hj h
    refine ⟨hinodes, hagree.trans (not_congr (and_congr_left fun _ => ?_))⟩
    constructor
    · rintro rfl k hk
      exact hfull k hk
    · intro hdirect
      by_contra hne
      have hlt : j < 12 := by omega
      exact (hdirect j hlt).1 (by simpa [directBlocks, hlt] using hj0)

/-! ### `file_create` and `sys_mkdir` -/

lemma agree_finish_iff (hn : n < 4096) (hsame : v.SameBitmaps v') :
    (v'.bitmapSync n .inodeBitmap).BitmapsAgree ↔ v.BlocksAgree := by
  constructor
  · intro hagree i hi
    rw [← hsame.blockSynced_iff hi, ← blockSynced_bitmapSync_inode hi]
    exact hagree.block i hi
  · intro hblocks
    exact agree_bitmapSync_inode (hsame.blocksAgree_iff.mpr hblocks) hn

lemma agree_giveBack_iff (h : v.BitmapsAgree)
    (halloc : v.inodeBitmapAlloc = some (n, v1)) (hinodes : v1.SameInodeBitmap v') :
    (v'.setInodeBit n false).BitmapsAgree ↔ v'.BlocksAgree :=
  ⟨fun hagree => hagree.block, fun hblocks => ⟨hblocks, fun i hi =>
    (sameInodeBitmap_giveBack halloc hinodes).inodeSynced hi (h.inode i hi)⟩⟩

/-- Taking an inode number leaves the blocks alone. -/
lemma blocks_of_inodeBitmapAlloc (h : v.BitmapsAgree) (halloc : v.inodeBitmapAlloc = some (n, v1))
    (hown : BlocksOwned v (loadBlocks v.disk ino) (ino.iSectors 12)) :
    n < 4096 ∧ v1.BlocksAgree ∧ BlocksOwned v1 (loadBlocks v1.disk ino) (ino.iSectors 12) ∧
      (DirectFull v1 ino ↔ DirectFull v ino) ∧ v1.freeBlocks = v.freeBlocks := by
  obtain ⟨hn, -, -, rfl⟩ := inodeBitmapAlloc_eq_some halloc
  exact ⟨hn, h.block, ⟨hown.held, hown.inj, hown.table_held, hown.table_ne⟩, .rfl, rfl⟩

lemma sameBitmaps_two_inodes (v : Vol p) (i1 i2 : Inode) (b1 b2 : Bytes) :
    v.SameBitmaps ((v.inodeSync i1 b1).inodeSync i2 b2) :=
  (sameBitmaps_inodeSync v i1 b1).trans (sameBitmaps_inodeSync _ i2 b2)

/-- `file_create` leaves the disk behind if it comes to the insertion and that is stuck. -/
lemma agree_fileCreate_iff
    (hown : BlocksOwned v (loadBlocks v.disk parent) (parent.iSectors 12)) (h : v.BitmapsAgree) :
    (v.fileCreate okIoBuf okInode okSlot parent filename).vol.BitmapsAgree ↔
      ¬(okIoBuf ∧ okInode ∧ okSlot ∧ v.inodeBitmapAlloc ≠ none ∧ v.TableStuck parent) := by
  simp only [fileCreate]
  cases okIoBuf with
  | false => exact iff_of_true h (by simp)
  | true =>
    cases halloc : v.inodeBitmapAlloc with
    | none => exact iff_of_true h (by simp)
    | some r =>
      obtain ⟨n, v1⟩ := r
      obtain ⟨hn, hblocks1, hown1, hfull, hfree⟩ := blocks_of_inodeBitmapAlloc h halloc hown
      have hstuck : v1.TableStuck parent ↔ v.TableStuck parent := by rw [TableStuck, hfull, hfree]; rfl
      by_cases hok : okInode = true ∧ okSlot = true
      · obtain ⟨rfl, rfl⟩ := hok
        obtain ⟨hinodes, hagree⟩ := syncDirEntry_synced
          (createDirEntry filename (UInt32.ofNat n) .regular Bytes.zero) Bytes.zero hown1 hblocks1
        rw [hstuck] at hagree
        simp only [Bool.not_true, Bool.or_false, Bool.false_eq_true, if_false, true_and, ne_eq,
          reduceCtorEq, not_false_eq_true]
        split_ifs
        · rw [agree_finish_iff hn (sameBitmaps_two_inodes _ _ _ _ _)]
          exact hagree
        · rw [agree_giveBack_iff h halloc hinodes]
          exact hagree
      · have hgive : (!okInode || !okSlot) = true := by
          cases okInode <;> cases okSlot <;> simp_all
        simp only [Bool.not_true, Bool.false_eq_true, if_false, hgive, if_true]
        rw [agree_giveBack_iff h halloc (SyncStep.refl v1).inodes]
        exact iff_of_true hblocks1 fun hn => hok ⟨hn.2.1, hn.2.2.1⟩

/-- The sectors of the blocks that are taken are the same, and no such block is given back. -/
structure KeepsHeld (v v' : Vol p) : Prop where
  holds : ∀ x, v.Holds x → v'.Holds x
  sector : ∀ x, v.Holds x → SameSector v.disk v'.disk x.toNat

lemma KeepsHeld.loadBlocks (h : v.KeepsHeld v')
    (htable : ino.iSectors 12 ≠ 0 → v.Holds (ino.iSectors 12)) :
    loadBlocks v'.disk ino = loadBlocks v.disk ino :=
  funext (loadBlocks_congr (fun _ _ => rfl) fun ht => h.sector _ (htable ht))

lemma KeepsHeld.owned (h : v.KeepsHeld v')
    (hown : BlocksOwned v (SimpleOs.loadBlocks v.disk ino) (ino.iSectors 12)) :
    BlocksOwned v' (SimpleOs.loadBlocks v'.disk ino) (ino.iSectors 12) := by
  rw [h.loadBlocks hown.table_held]
  exact hown.of_le (fun k hk => ⟨rfl, h.holds _ (hown.held k hk)⟩) fun ht => ⟨rfl, h.holds _ (hown.table_held ht)⟩

lemma KeepsHeld.directFull_iff (h : v.KeepsHeld v')
    (hown : BlocksOwned v (SimpleOs.loadBlocks v.disk ino) (ino.iSectors 12)) :
    DirectFull v' ino ↔ DirectFull v ino := by
  refine forall₂_congr fun k hk => and_congr_right fun hk0 => forall₂_congr fun idx hidx => ?_
  have hheld := hown.held k
  rw [loadBlocks_of_lt hk] at hheld
  have hword := (h.sector _ (hheld hk0)).u32 (j := 6 * idx + 5) (by omega)
  have haddr : entryAddr (ino.iSectors k) idx + 20 = 512 * (ino.iSectors k).toNat + 4 * (6 * idx + 5) := by
    simp only [entryAddr]
    omega
  rw [haddr, hword]

lemma offBitmaps_alloc (halloc : v.blockBitmapAlloc = some (lba, v1)) : OffBitmaps p lba := by
  obtain ⟨b, -, -, rfl, -⟩ := blockBitmapAlloc_eq_some halloc
  have := p.dataStartLba_eq
  exact .inr (by omega)

lemma keepsHeld_alloc (halloc : v.blockBitmapAlloc = some (lba, v1)) (buf : Bytes) :
    v.KeepsHeld ((v1.bitmapSync (lba - p.sb.dataStartLba) .blockBitmap).setDisk
      (ideWrite (v1.bitmapSync (lba - p.sb.dataStartLba) .blockBitmap).disk lba buf 0 1)) := by
  obtain ⟨-, hal⟩ := allocated_of_alloc halloc
  refine ⟨fun x hx => hx.mono hal.mono, fun x hx => ?_⟩
  have hne : x.toNat ≠ lba := by
    intro heq
    refine hal.fresh x hx ?_
    rw [← heq, UInt32.ofNat_toNat]
  exact (hal.sameData.sameSector hx.ge).trans (sameSector_ideWrite _ _ hne)

/-- `sys_mkdir` takes a block for the new directory, after which the insertion needs two and finds
one. -/
def MkdirStuck (v : Vol p) (parent : Inode) : Prop := DirectFull v parent ∧ v.freeBlocks.card = 2

/-- `sys_mkdir` leaves the disk behind if it comes to the insertion and that is stuck. -/
lemma agree_sysMkdir_iff {parent : Option Inode}
    (hown : ∀ ino, parent = some ino → BlocksOwned v (loadBlocks v.disk ino) (ino.iSectors 12))
    (h : v.BitmapsAgree) :
    (v.sysMkdir okIoBuf parent dirname).BitmapsAgree ↔
      ¬(okIoBuf ∧ v.inodeBitmapAlloc ≠ none ∧ ∃ ino, parent = some ino ∧ v.MkdirStuck ino) := by
  simp only [sysMkdir]
  cases okIoBuf with
  | false => exact iff_of_true h (by simp)
  | true =>
    cases parent with
    | none => exact iff_of_true h (by simp)
    | some ino =>
      cases halloc : v.inodeBitmapAlloc with
      | none => exact iff_of_true h (by simp)
      | some r =>
        obtain ⟨n, v1⟩ := r
        obtain ⟨hn, hblocks1, hown1, hfull, hfree⟩ := blocks_of_inodeBitmapAlloc h halloc (hown ino rfl)
        have hstuck1 : v1.MkdirStuck ino ↔ v.MkdirStuck ino := by rw [MkdirStuck, hfull, hfree]; rfl
        simp only [Bool.not_true, Bool.false_eq_true, if_false, true_and, ne_eq, reduceCtorEq,
          not_false_eq_true, Option.some.injEq, exists_eq_left', ← hstuck1]
        cases hblock : v1.blockBitmapAlloc with
        | none =>
          have hcard := blockBitmapAlloc_eq_none_iff.mp hblock
          rw [agree_giveBack_iff h halloc (SyncStep.refl v1).inodes]
          exact iff_of_true hblocks1 fun hstuck => by
            have := hstuck.2
            omega
        | some r =>
          obtain ⟨lba, v2⟩ := r
          have hkeeps := keepsHeld_alloc hblock (dotEntries (UInt32.ofNat n) ino.iNo)
          have hstep := (syncStep_alloc hblock).trans (sameBitmaps_ideWrite _ (offBitmaps_alloc hblock)
            (dotEntries (UInt32.ofNat n) ino.iNo)).syncStep
          have hcard := card_freeBlocks_alloc hblock
          rw [← card_freeBlocks_bitmapSync v2 (lba - p.sb.dataStartLba) .blockBitmap,
            ← card_freeBlocks_setDisk _ (ideWrite (v2.bitmapSync (lba - p.sb.dataStartLba)
              .blockBitmap).disk lba (dotEntries (UInt32.ofNat n) ino.iNo) 0 1)] at hcard
          simp only
          -- only what has just been said of the volume matters from here on
          generalize (v2.bitmapSync (lba - p.sb.dataStartLba) .blockBitmap).setDisk _ = v3 at *
          obtain ⟨hinodes, hagree⟩ := syncDirEntry_synced
            (createDirEntry dirname (UInt32.ofNat n) .directory Bytes.zero) Bytes.zero
            (hkeeps.owned hown1) (hstep.blocks hblocks1)
          have hstuck : v3.TableStuck ino ↔ v1.MkdirStuck ino := by
            rw [TableStuck, hkeeps.directFull_iff hown1]
            exact and_congr_right fun _ => by omega
          rw [hstuck] at hagree
          split_ifs
          · rw [agree_finish_iff hn (sameBitmaps_two_inodes _ _ _ _ _)]
            exact hagree
          · rw [agree_giveBack_iff h halloc (hstep.inodes.trans hinodes)]
            exact hagree

/-! ### `sys_rmdir` and `sys_unlink` -/

lemma syncStep_releaseBlocks
    (h : ∀ k, allBlocks k ≠ 0 → IsBlock p (allBlocks k)) (n k : Nat) (v : Vol p) :
    v.SyncStep (v.releaseBlocks allBlocks n k) := by
  induction n generalizing k v with
  | zero => exact .refl v
  | succ n ih =>
    refine SyncStep.trans ?_ (ih (k + 1) _)
    split_ifs with hk
    · exact syncStep_freeBlock v (h k hk)
    · exact .refl v

/-- `inode_release` of an inode whose blocks are data blocks. -/
lemma BitmapsAgree.inodeRelease (h : v.BitmapsAgree) (hn : n < 4096)
    (hblocks : ∀ k, loadBlocks v.disk ino k ≠ 0 → IsBlock p (loadBlocks v.disk ino k))
    (htable : ino.iSectors 12 ≠ 0 → IsBlock p (ino.iSectors 12)) :
    (v.inodeRelease n ino).BitmapsAgree := by
  have hfree : v.SyncStep (if ino.iSectors 12 ≠ 0 then
      (v.freeBlock (ino.iSectors 12)).releaseBlocks (loadBlocks v.disk ino) 140 0
      else v.releaseBlocks (loadBlocks v.disk ino) 12 0) := by
    split_ifs with ht
    · exact (syncStep_freeBlock v (htable ht)).trans (syncStep_releaseBlocks hblocks 140 0 _)
    · exact syncStep_releaseBlocks hblocks 12 0 v
  refine (sameBitmaps_inodeDelete _ n Bytes.zero).syncStep.agree ?_
  exact agree_bitmapSync_inode (hfree.blocks h.block) hn

/-- What a deletion keeps: the bitmaps stay in order, and no sector but those of the directory's own
blocks changes among the data. -/
lemma deleteDirEntry_synced (hown : BlocksOwned v (loadBlocks v.disk parent) (parent.iSectors 12))
    (hdelete : deleteDirEntry v parent inodeNo = some r) :
    v.SyncStep r.vol ∧ ∀ x : UInt32, p.sb.dataStartLba ≤ x.toNat →
      (∀ k, loadBlocks v.disk parent k ≠ 0 → loadBlocks v.disk parent k ≠ x) →
        SameSector v.disk r.vol.disk x.toNat := by
  obtain ⟨rfl, -⟩ | ⟨j, idx, hj, hj0, -, hrest⟩ := deleteBlocks_cases hdelete
  · exact ⟨.refl v, fun x _ _ _ _ => rfl⟩
  have hheld := hown.held j hj0
  obtain ⟨v1, ino1, hstep, hsector, rfl⟩ : ∃ v1 ino1, v.SyncStep v1 ∧
      (∀ x : UInt32, p.sb.dataStartLba ≤ x.toNat →
        (∀ k, loadBlocks v.disk parent k ≠ 0 → loadBlocks v.disk parent k ≠ x) →
          SameSector v.disk v1.disk x.toNat) ∧ r = finishDelete v1 ino1 := by
    obtain ⟨-, -, q, hq, hr⟩ | ⟨-, hr⟩ := hrest
    · -- the block is given back, perhaps with the indirect table
      have hfreed := freed_freeBlock v hheld.isBlock
      have hstep := syncStep_freeBlock v hheld.isBlock
      have hdata := p.dataStartLba_eq
      obtain ⟨-, rfl⟩ | ⟨hge, -, rfl⟩ := releaseBlock_cases hq
      · exact ⟨_, _, hstep, fun x hx _ _ _ => hfreed.sameDisk _ (by omega), hr⟩
      · have ht0 : parent.iSectors 12 ≠ 0 := fun ht => hj0 (loadBlocks_of_table_eq_zero ht hge)
        have htable := (hown.table_held ht0).isBlock
        have hfreed' := freed_freeBlock (v.freeBlock (loadBlocks v.disk parent j)) htable
        exact ⟨_, _, hstep.trans (syncStep_freeBlock _ htable), fun x hx _ r hr =>
          (hfreed'.sameDisk _ (by omega)).trans (hfreed.sameDisk _ (by omega)), hr⟩
    · refine ⟨_, _, (sameBitmaps_ideWrite v hheld.isBlock.offBitmaps _).syncStep, fun x _ hne => ?_, hr⟩
      exact sameSector_ideWrite _ _ fun heq => hne j hj0 (UInt32.toNat_inj.mp heq).symm
  refine ⟨hstep.trans (sameBitmaps_inodeSync _ _ _).syncStep, fun x hx hne => ?_⟩
  exact (hsector x hx hne).trans ((sameData_inodeSync _ _ _).sameSector hx)

/-- A directory and an inode to be deleted from it: their blocks are their own, and the inode's table
is none of the directory's blocks. -/
structure DeleteReady (v : Vol p) (parent : Inode) (inodeNo : UInt32) (ino : Inode) : Prop where
  dirOwned : BlocksOwned v (loadBlocks v.disk parent) (parent.iSectors 12)
  owned : BlocksOwned v (loadBlocks v.disk ino) (ino.iSectors 12)
  apart : ∀ k, loadBlocks v.disk parent k ≠ 0 → loadBlocks v.disk parent k ≠ ino.iSectors 12
  lt : inodeNo.toNat < 4096

/-- The deletion of an entry and of what it stands for. -/
lemma BitmapsAgree.deleteAndRelease (h : v.BitmapsAgree) (hready : v.DeleteReady parent inodeNo ino)
    (hexec : v.deleteAndRelease parent inodeNo ino = some v') : v'.BitmapsAgree := by
  obtain ⟨r, hr, rfl⟩ := Option.map_eq_some_iff.mp hexec
  obtain ⟨hstep, hsector⟩ := deleteDirEntry_synced hready.dirOwned hr
  have hload : ∀ k, SimpleOs.loadBlocks r.vol.disk ino k = SimpleOs.loadBlocks v.disk ino k :=
    loadBlocks_congr (fun _ _ => rfl) fun ht => hsector _ (hready.owned.table_held ht).ge hready.apart
  refine (hstep.agree h).inodeRelease hready.lt (fun k => ?_)
    fun ht => (hready.owned.table_held ht).isBlock
  rw [hload]
  exact fun hk => (hready.owned.held k hk).isBlock

end Vol

end SimpleOs
