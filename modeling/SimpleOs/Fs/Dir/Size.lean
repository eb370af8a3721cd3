import SimpleOs.Fs.Dir.Direct
import SimpleOs.Fs.Format
import SimpleOs.Fs.SyncedCalls

/-!
# The size of a directory

`sync_dir_entry` and `delete_dir_entry` keep `i_size` by adding and subtracting, and `dir_read`,
`dir_is_empty` and `dir_remove` rely on it. In runs of the two from a directory that `sys_mkdir` or
`partition_format` has made, `i_size` is 24 times the number of live entries.
-/

namespace SimpleOs

open Base Option Bytes Finset DirTree

variable {p : Partition}

variable {v v₁ : Vol p} {ino new parent : Inode} {idx i₀ j₀ k m : Nat} {s s' : Vol p × Inode}
  {d lba n x : UInt32}

/-- `dir_is_empty`. -/
def Inode.dirIsEmpty (ino : Inode) : Bool := ino.iSize = 24 * 2

/-- What `mount_partition` has in memory of the partition on a disk. -/
def Vol.mountPartition (p : Partition) (disk : Bytes) : Vol p where
  disk := disk
  blockBitmap := ⟨p.sb.blockBitmapSects * 512,
    ideRead disk p.sb.blockBitmapLba Bytes.zero 0 p.sb.blockBitmapSects⟩
  inodeBitmap := ⟨p.sb.inodeBitmapSects * 512,
    ideRead disk p.sb.inodeBitmapLba Bytes.zero 0 p.sb.inodeBitmapSects⟩
  blockBitmap_len := rfl
  inodeBitmap_len := rfl

/-- How a directory comes to be: by `sys_mkdir` in a directory `parent`, or as the root of a partition
that has just been formatted. -/
inductive DirStart (p : Partition) where
  | mkdir (v : Vol p) (parent : Inode) (dirname : List UInt8)
  | format (stack disk : Bytes)

namespace DirStart

/-- The partition and the new directory, as `inode_open` then gives its inode. -/
def state : DirStart p → Option (Vol p × Inode)
  | mkdir v parent dirname =>
    match v.inodeBitmapAlloc with
    | none => none
    | some (inodeNo, _) =>
      let r := v.makeDir parent dirname
      if r.ok then some (r.vol, r.vol.inodeLoad inodeNo) else none
  | format stack disk =>
    let v := Vol.mountPartition p (Format.formatted p stack disk)
    some (v, v.inodeLoad 0)

/-- The blocks of the parent are its own. -/
def WellFormed : DirStart p → Prop
  | mkdir v parent _ => BlocksOwned v (loadBlocks v.disk parent) (parent.iSectors 12)
  | format _ _ => True

/-- The new inode has a number that `inode_sync` finds the slot of, and the bitmap of a formatted
partition is long enough to mark the block of the root directory. -/
def Safe : DirStart p → Prop
  | mkdir v _ _ => ∀ inodeNo v', v.inodeBitmapAlloc = some (inodeNo, v') → inodeNo < 256
  | format _ _ => 8 ≤ (Format.blockBitmapBitLen (UInt32.ofNat p.secCnt)).toNat

end DirStart

/-- The calls that change a directory. -/
inductive DirCall where
  | syncDirEntry (pDe ioBuf : Bytes)
  | deleteDirEntry (inodeNo : UInt32)

namespace DirCall

/-- The partition and the inode of the directory after a call. -/
def exec (s : Vol p × Inode) : DirCall → Option (Vol p × Inode)
  | syncDirEntry pDe ioBuf =>
    let r := SimpleOs.syncDirEntry s.1 s.2 pDe ioBuf
    some (r.vol, r.inode)
  | deleteDirEntry inodeNo => (SimpleOs.deleteDirEntry s.1 s.2 inodeNo).map fun r => (r.vol, r.inode)

/-- The call does not need more than the direct blocks. -/
def Direct (s : Vol p × Inode) : DirCall → Prop
  | syncDirEntry _ _ => ¬ DirectFull s.1 s.2
  | deleteDirEntry _ => True

/-- An entry that is inserted is in use and not called "." or "..". -/
def Ordinary : DirCall → Prop
  | syncDirEntry pDe _ => OrdinaryBytes pDe
  | deleteDirEntry _ => True

end DirCall

/-- Runs of the two calls on a directory, from the starts that are `good`. -/
def dirCalls (good : DirStart p → Prop) : System (Vol p × Inode) DirCall where
  init s := ∃ start, start.WellFormed ∧ good start ∧ start.state = some s
  step s c s' := c.exec s = some s'

/-- The size of a directory is that of its live entries, its blocks are not empty, and `dir_is_empty`
tells whether it is. -/
structure SizeRight (s : Vol p × Inode) : Prop where
  size : s.2.iSize.toNat = 24 * (s.2.liveEntries s.1.disk).length
  blocks : ∀ k, 0 < k → k < 12 → s.2.iSectors k ≠ 0 → ∃ i, s.2.Live s.1.disk k i
  dot : ∃ i, s.2.Live s.1.disk 0 i ∧ s.2.NamedAt s.1.disk 0 i dotName
  dotDot : ∃ i, s.2.Live s.1.disk 0 i ∧ s.2.NamedAt s.1.disk 0 i dotDotName
  isEmpty : s.2.dirIsEmpty = true ↔ ∀ k i, s.2.Live s.1.disk k i →
    s.2.NamedAt s.1.disk k i dotName ∨ s.2.NamedAt s.1.disk k i dotDotName
  onlyFirst : s.2.dirIsEmpty = true → s.2.iSectors 0 ≠ 0 ∧ ∀ k, 0 < k → k ≤ 12 → s.2.iSectors k = 0

/-! ### What the invariant gives -/

namespace DirectDir

variable (h : DirectDir v ino i₀ j₀)
include h

lemma dots_ne : i₀ ≠ j₀ := by
  rintro rfl
  have heq := sameName_inj (by decide) (by decide) h.dot.2 h.dotDot.2
  exact absurd heq (by decide)

lemma dots_subset : {(0, i₀), (0, j₀)} ⊆ ino.liveSet v.disk := by
  intro x hx
  rcases mem_insert.mp hx with rfl | hx
  · rw [Inode.mem_liveSet]
    exact h.dot.1
  · rw [mem_singleton.mp hx, Inode.mem_liveSet]
    exact h.dotDot.1

lemma card_dots : ({(0, i₀), (0, j₀)} : Finset (ℕ × ℕ)).card = 2 :=
  card_pair fun heq => h.dots_ne (Prod.mk.inj heq).2

/-- The directory is empty when the two special entries are all there is. -/
lemma dirIsEmpty_iff : ino.dirIsEmpty = true ↔ ino.liveSet v.disk = {(0, i₀), (0, j₀)} := by
  have hsize := h.size
  have hcard : ino.dirIsEmpty = true ↔ (ino.liveSet v.disk).card = 2 := by
    rw [Inode.dirIsEmpty, decide_eq_true_iff, ← UInt32.toNat_inj]
    have h48 : (24 * 2 : UInt32).toNat = 48 := rfl
    omega
  rw [hcard]
  constructor
  · intro htwo
    exact (Finset.eq_of_subset_of_card_le h.dots_subset (by rw [htwo, h.card_dots])).symm
  · intro heq
    rw [heq, h.card_dots]

lemma sizeRight : SizeRight (v, ino) := by
  have hempty := h.dirIsEmpty_iff
  refine ⟨?_, h.blocks, ⟨i₀, h.dot⟩, ⟨j₀, h.dotDot⟩, ?_, fun he => ⟨h.first_ne_zero, fun k hk hk12 => ?_⟩⟩
  · rw [Inode.length_liveEntries]
    exact h.size
  · rw [hempty]
    constructor
    · intro heq k i hl
      have hmem : (k, i) ∈ ino.liveSet v.disk := by rwa [Inode.mem_liveSet]
      rw [heq] at hmem
      rcases mem_insert.mp hmem with hki | hki
      · cases hki
        exact .inl h.dot.2
      · obtain ⟨rfl, rfl⟩ := Prod.mk.inj (mem_singleton.mp hki)
        exact .inr h.dotDot.2
    · intro hall
      refine (h.dots_subset.antisymm ?_).symm
      rintro ⟨k, i⟩ hmem
      rw [Inode.mem_liveSet] at hmem
      rw [mem_insert, mem_singleton]
      by_contra hne
      obtain ⟨h1, h2⟩ := not_or.mp hne
      obtain ⟨hdot, hdotDot⟩ := h.others k i hmem h1 h2
      exact (hall k i hmem).elim hdot hdotDot
  · rcases Nat.eq_or_lt_of_le hk12 with rfl | hk12
    · exact h.table
    · by_contra hk0
      obtain ⟨i, hi⟩ := h.blocks k hk hk12 hk0
      have hmem : (k, i) ∈ ino.liveSet v.disk := by rwa [Inode.mem_liveSet]
      rw [hempty.mp he] at hmem
      rcases mem_insert.mp hmem with hki | hki
      · exact hk.ne' (Prod.mk.inj hki).1
      · exact hk.ne' (Prod.mk.inj (mem_singleton.mp hki)).1

end DirectDir

lemma DirCall.directDir {c : DirCall} (h : DirectDir s.1 s.2 i₀ j₀)
    (hdirect : c.Direct s) (hord : c.Ordinary) (hs' : c.exec s = some s') : DirectDir s'.1 s'.2 i₀ j₀ := by
  cases c with
  | syncDirEntry pDe ioBuf =>
    cases hs'
    exact h.syncDirEntry hord hdirect ioBuf
  | deleteDirEntry inodeNo =>
    obtain ⟨r, hr, rfl⟩ := map_eq_some_iff.mp hs'
    exact h.deleteDirEntry hr

/-! ### New directories -/

namespace Vol

lemma inodeBitmapAlloc_ofNat (h : v.inodeBitmapAlloc = some (m, v₁)) :
    (UInt32.ofNat m).toNat = m ∧ v₁ = v.setInodeBit m true := by
  obtain ⟨hlt, -, -, rfl⟩ := inodeBitmapAlloc_eq_some h
  exact ⟨UInt32.toNat_ofNat_of_lt' (by rw [UInt32.size]; omega), rfl⟩

lemma blockBitmapAlloc_ofNat {lba : Nat} (h : v.blockBitmapAlloc = some (lba, v₁)) :
    (UInt32.ofNat lba).toNat = lba := by
  obtain ⟨i, hi, -, rfl, -⟩ := blockBitmapAlloc_eq_some h
  have := p.dataStartLba_add_lt hi
  exact UInt32.toNat_ofNat_of_lt' (by rw [UInt32.size]; omega)

end Vol

namespace DirTree

/-- The slots of a new directory `n` in directory `d`. -/
def dotSlots (n d : UInt32) : SlotTable := fun k idx =>
  if k = 0 ∧ idx = 0 then some ⟨dotName, n, .directory⟩
  else if k = 0 ∧ idx = 1 then some ⟨dotDotName, d, .directory⟩
  else none

variable {e : Entry}

lemma dotSlots_eq_some : dotSlots n d k idx = some e ↔
    k = 0 ∧ (idx = 0 ∧ e = ⟨dotName, n, .directory⟩ ∨ idx = 1 ∧ e = ⟨dotDotName, d, .directory⟩) := by
  rw [dotSlots]
  split_ifs with h0 h1
  · simp [h0, eq_comm]
  · simp [h1, eq_comm]
  · tauto

end DirTree

/-- The first sector of a new directory holds "." and "..". -/
lemma dotEntries_slot (n d : UInt32) (hidx : idx < 21) :
    SlotHolds (Vol.dotEntries n d) (24 * idx) (dotSlots n d 0 idx) := by
  have hdot : (⟨dotName, n, .directory⟩ : Entry).Valid :=
    ⟨by simp [dotName], by simp [dotName], by simp [dotName], by simp⟩
  have hdotDot : (⟨dotDotName, d, .directory⟩ : Entry).Valid :=
    ⟨by simp [dotDotName], by simp [dotDotName], by simp [dotDotName], by simp⟩
  rw [dotSlots]
  split_ifs with h0 h1
  · refine SlotHolds.congr (s := createDirEntry dotName n .directory Bytes.zero) (a := 0)
      ⟨entryAt_createDirEntry hdot, hdot⟩ fun r hr => ?_
    rw [Vol.dotEntries, copy_outside _ _ (by omega), copy_inside _ _ (by omega)]
    congr 1
    omega
  · refine SlotHolds.congr (s := createDirEntry dotDotName d .directory Bytes.zero) (a := 0)
      ⟨entryAt_createDirEntry hdotDot, hdotDot⟩ fun r hr => ?_
    rw [Vol.dotEntries, copy_inside _ _ (by omega)]
    congr 1
    omega
  · refine blankAt_of_zero fun r hr => ?_
    rw [Vol.dotEntries, copy_outside _ _ (by omega), copy_outside _ _ (by omega)]
    rfl

lemma loadBlocks_single (hsec : new.iSectors = setEntry (fun _ => 0) 0 lba)
    (disk : Bytes) (k : Nat) : loadBlocks disk new k = if k = 0 then lba else 0 := by
  have h12 : new.iSectors 12 = 0 := by rw [hsec, setEntry_of_ne _ _ (by decide)]
  by_cases hk : k < 12
  · rw [loadBlocks_of_lt hk, hsec]
    split_ifs with h0
    · rw [h0, setEntry_self]
    · rw [setEntry_of_ne _ _ h0]
  · rw [loadBlocks_of_table_eq_zero h12 (by omega), if_neg (by omega)]

lemma dirRep_dotEntries (hheld : v.Holds lba)
    (hsec : new.iSectors = setEntry (fun _ => 0) 0 lba) (buf : Bytes) (hbuf : buf = Vol.dotEntries n d) :
    DirRep (v.setDisk (ideWrite v.disk lba.toNat buf 0 1)) new (dotSlots n d) := by
  subst hbuf
  set v' := v.setDisk (ideWrite v.disk lba.toNat (Vol.dotEntries n d) 0 1)
  have h12 : new.iSectors 12 = 0 := by rw [hsec, setEntry_of_ne _ _ (by decide)]
  have hload := loadBlocks_single hsec v'.disk
  have hk0 : ∀ k, loadBlocks v'.disk new k ≠ 0 → k = 0 := by
    intro k hk
    by_contra hne
    rw [hload, if_neg hne] at hk
    exact hk rfl
  refine ⟨⟨fun k hk => ?_, fun j k hj hjk => ?_, fun ht => absurd h12 ht, fun ht => absurd h12 ht⟩,
    fun k idx hk hidx => ?_, fun k idx hk => ?_⟩
  · rw [hload, if_pos (hk0 k hk)]
    exact hheld
  · rw [hk0 j hj, hk0 k (hjk ▸ hj)]
  · rw [hload, hk0 k hk, if_pos rfl]
    refine (dotEntries_slot n d hidx).congr fun r hr => ?_
    rw [Vol.disk_setDisk, ideWrite_eq, entryAddr, copy_inside _ _ (by omega)]
    congr 1
    omega
  · rw [Option.eq_none_iff_forall_ne_some]
    intro e he
    obtain ⟨rfl, hi⟩ := dotSlots_eq_some.mp he
    rcases hk with hk | hk
    · rw [hload] at hk
      exact hheld.ne_zero hk
    · omega

/-- A directory with "." and ".." and nothing else. -/
lemma DirRep.directDir (h : DirRep v ino (dotSlots n d))
    (hsec : ∀ k, 0 < k → k ≤ 12 → ino.iSectors k = 0) (hsize : ino.iSize = 48) : DirectDir v ino 0 1 := by
  have hslot : ∀ i, i < 2 → ∃ e, dotSlots n d 0 i = some e ∧
      e.name = if i = 0 then dotName else dotDotName := by
    intro i hi
    rcases (by omega : i = 0 ∨ i = 1) with rfl | rfl
    · exact ⟨_, rfl, rfl⟩
    · exact ⟨_, rfl, rfl⟩
  have hlive : ∀ k i, ino.Live v.disk k i ↔ k = 0 ∧ i < 2 := by
    intro k i
    constructor
    · rintro ⟨hk, hi, htype⟩
      have hne : dotSlots n d k i ≠ none := fun h0 => htype ((h.slots k i hk hi).eq_none_iff.mp h0)
      obtain ⟨e, he⟩ := Option.ne_none_iff_exists'.mp hne
      obtain ⟨rfl, ⟨rfl, -⟩ | ⟨rfl, -⟩⟩ := dotSlots_eq_some.mp he
      · exact ⟨rfl, by omega⟩
      · exact ⟨rfl, by omega⟩
    · rintro ⟨rfl, hi⟩
      obtain ⟨e, he, -⟩ := hslot i hi
      obtain ⟨hk, hidx, -⟩ := h.some_inv he
      refine ⟨hk, hidx, fun h0 => ?_⟩
      have hnone := (h.slots 0 i hk hidx).eq_none_iff.mpr h0
      rw [he] at hnone
      cases hnone
  have hname : ∀ i, i < 2 → ino.NamedAt v.disk 0 i (if i = 0 then dotName else dotDotName) := by
    intro i hi
    obtain ⟨e, he, hn⟩ := hslot i hi
    obtain ⟨hk, hidx, -⟩ := h.some_inv he
    refine ((h.slots 0 i hk hidx).sameName_iff ?_ ?_).mpr ⟨e, he, hn⟩
    · split_ifs <;> decide
    · split_ifs <;> decide
  have hset : ino.liveSet v.disk = {(0, 0), (0, 1)} := by
    ext ⟨k, i⟩
    rw [Inode.mem_liveSet, hlive]
    simp only [mem_insert, mem_singleton, Prod.mk.injEq]
    omega
  have hload : ∀ k < 12, loadBlocks v.disk ino k = ino.iSectors k := fun k hk => loadBlocks_of_lt hk
  refine ⟨hsec 12 (by omega) le_rfl, fun k hk hk0 => ?_, fun j hj k hk hj0 hjk => ?_, ?_,
    fun k hk hk12 hk0 => absurd (hsec k hk hk12.le) hk0, ⟨(hlive 0 0).mpr ⟨rfl, by omega⟩, hname 0 (by omega)⟩,
    ⟨(hlive 0 1).mpr ⟨rfl, by omega⟩, hname 1 (by omega)⟩, fun k i hl h1 h2 => ?_⟩
  · rw [← hload k hk] at hk0 ⊢
    exact h.owned.held k hk0
  · rw [← hload j hj] at hj0 hjk
    rw [← hload k hk] at hjk
    exact h.owned.inj j k hj0 hjk
  · rw [hsize, hset]
    rfl
  · obtain ⟨rfl, hi⟩ := (hlive k i).mp hl
    rcases (by omega : i = 0 ∨ i = 1) with rfl | rfl
    · exact absurd rfl h1
    · exact absurd rfl h2

/-- An insertion leaves a block of something else alone. -/
lemma syncDirEntry_keeps (pDe ioBuf : Bytes) (hx : v.Holds x) (hne : ∀ k < 12, ino.iSectors k ≠ x) :
    (syncDirEntry v ino pDe ioBuf).vol.Holds x ∧
      SameSector v.disk (syncDirEntry v ino pDe ioBuf).vol.disk x.toNat := by
  cases hok : (syncDirEntry v ino pDe ioBuf).ok with
  | true =>
    rcases syncDirEntry_ok_cases hok with ⟨k, idx, hk, hidx, -, -, heq⟩ | ⟨_, _, _, _, -, -, hal, heq⟩ |
      ⟨_, _, _, _, _, -, hal, hal', heq⟩
    · -- a slot of another block is written
      rw [heq]
      refine ⟨hx, fun r hr => ?_⟩
      have hsec : x.toNat ≠ (ino.iSectors k).toNat := fun h => hne k hk (UInt32.toNat_inj.mp h).symm
      exact copy_outside _ _ (by rw [entryAddr]; omega)
    · rw [heq]
      exact ⟨hx.mono hal.mono, hal.sameSector_ideWrite hx _⟩
    · -- two blocks are taken and written
      rw [heq]
      exact ⟨(hx.mono hal.mono).mono hal'.mono, hal.sameSector_newTable hal' hx _ _⟩
  | false =>
    rcases syncDirEntry_fail_cases hok with ⟨-, heq⟩ | ⟨_, _, hal, heq, -⟩
    · rw [heq]
      exact ⟨hx, fun _ _ => rfl⟩
    · rw [heq]
      have hsame := Vol.sameBlocks_of_alloc hal
      exact ⟨(hsame.holds_iff x).mpr hx, hsame.sameSector hx⟩

/-- A directory that `sys_mkdir` has made, under a number that `inode_sync` finds the slot of. -/
lemma directDir_makeDir {dirname : List UInt8}
    (hown : BlocksOwned v (loadBlocks v.disk parent) (parent.iSectors 12))
    (halloc : v.inodeBitmapAlloc = some (m, v₁)) (hm256 : m < 256)
    (hok : (v.makeDir parent dirname).ok = true) :
    DirectDir (v.makeDir parent dirname).vol ((v.makeDir parent dirname).vol.inodeLoad m) 0 1 := by
  obtain ⟨hm, rfl⟩ := Vol.inodeBitmapAlloc_ofNat halloc
  rw [Vol.makeDir, halloc] at hok ⊢
  cases hblock : (v.setInodeBit m true).blockBitmapAlloc with
  | none =>
    simp only [hblock] at hok
    cases hok
  | some q =>
    obtain ⟨b, v2⟩ := q
    simp only [hblock] at hok ⊢
    have hlba := Vol.blockBitmapAlloc_ofNat hblock
    have hal := (Vol.allocated_of_alloc hblock).2
    set v3 := v2.bitmapSync (b - p.sb.dataStartLba) .blockBitmap with hv3
    set v4 := v3.setDisk (ideWrite v3.disk b (Vol.dotEntries (UInt32.ofNat m) parent.iNo) 0 1) with hv4
    set new : Inode := { Inode.inodeInit (UInt32.ofNat m) with
      iSize := 48
      iSectors := setEntry (fun _ => 0) 0 (UInt32.ofNat b) } with hnew
    set r := syncDirEntry v4 parent (createDirEntry dirname (UInt32.ofNat m) .directory Bytes.zero) Bytes.zero
    split_ifs at hok ⊢
    -- the first sector of the new directory
    have hrep : DirRep v4 new (dotSlots (UInt32.ofNat m) parent.iNo) := by
      have hdots : DirRep (v3.setDisk (ideWrite v3.disk (UInt32.ofNat b).toNat
          (Vol.dotEntries (UInt32.ofNat m) parent.iNo) 0 1)) new
          (dotSlots (UInt32.ofNat m) parent.iNo) := dirRep_dotEntries hal.holds rfl _ rfl
      rwa [hlba] at hdots
    have hdir : DirectDir v4 new 0 1 :=
      hrep.directDir (fun k hk _ => setEntry_of_ne (fun _ => 0) (UInt32.ofNat b) hk.ne') rfl
    -- is not one of the parent, whose blocks were taken before
    have hsec : ∀ k < 12, new.iSectors k ≠ 0 → k = 0 := by
      intro k _ hk0
      by_contra hk
      exact hk0 (setEntry_of_ne (fun _ => 0) (UInt32.ofNat b) hk)
    have hdir1 : DirectDir r.vol new 0 1 := by
      refine hdir.of_sameSector (fun _ _ => rfl) rfl fun k hk hk0 => ?_
      obtain rfl := hsec k hk hk0
      refine syncDirEntry_keeps _ _ (hdir.held 0 hk hk0) fun j hj heq => ?_
      have hload : loadBlocks v.disk parent j = parent.iSectors j := loadBlocks_of_lt hj
      have hj0 : loadBlocks v.disk parent j ≠ 0 := by
        rw [hload, heq]
        exact hk0
      refine hal.fresh _ (hown.held j hj0) ?_
      rw [hload, heq]
      exact setEntry_self (fun _ => 0) 0 (UInt32.ofNat b)
    -- and its inode is the last thing that is written to its slot
    set v5 := (r.vol.inodeSync r.inode Bytes.zero).inodeSync new Bytes.zero with hv5
    have hm4096 : m < 4096 := by omega
    have hdisk : ∀ a, 512 * p.sb.inodeTableLba ≤ a → (v5.bitmapSync m .inodeBitmap).disk a = v5.disk a :=
      fun a ha => Vol.disk_bitmapSync_inode_of_ge v5 hm4096 ha
    have hload : ((v5.bitmapSync m .inodeBitmap).inodeLoad m).SamePersistent new := by
      have hslot : (v5.bitmapSync m .inodeBitmap).slot m = v5.slot m := by
        rw [Vol.slot, Vol.slot, slice_eq_slice_iff]
        exact fun k _ => hdisk _ (by rw [slotAddr]; omega)
      rw [Vol.inodeLoad_congr hslot]
      have hsync := (r.vol.inodeSync r.inode Bytes.zero).samePersistent_inodeLoad_inodeSync new Bytes.zero
      have hmod : new.iNo.toNat % 256 = m := by
        rw [show new.iNo = UInt32.ofNat m from rfl]
        omega
      rwa [hmod] at hsync
    refine ((hdir1.inodeSync r.inode Bytes.zero).inodeSync new Bytes.zero).of_sameSector
      (fun k hk => hload.2.2 k (by omega)) hload.2.1 fun k hk hk0 => ?_
    have hheld := hdir1.held k hk hk0
    have hge := hheld.ge
    have hdata := p.dataStartLba_eq
    refine ⟨hheld.mono fun b hb => ?_, fun s _ => hdisk _ (by omega)⟩
    rw [Vol.blockUsed_bitmapSync]
    exact hb

/-- The root directory is written as `sys_mkdir` writes a directory that is its own parent. -/
lemma rootBuf_eq : Format.rootBuf = Vol.dotEntries 0 0 := by
  have hfirst : ∀ k < 48, Format.rootBuf k = Vol.dotEntries 0 0 k := by decide +kernel
  funext k
  by_cases hk : k < 48
  · exact hfirst k hk
  · rw [Vol.dotEntries, copy_outside _ _ (by omega), copy_outside _ _ (by omega), Format.rootBuf,
      setU32_outside _ (by omega), setU32_outside _ (by omega), fill_outside _ (by omega),
      setU32_outside _ (by omega), setU32_outside _ (by omega), fill_outside _ (by omega)]

section Formatted

variable {stack disk : Bytes}

/-- The inode of the root directory on a formatted partition. -/
lemma inodeLoad_formatted (hdisk : v.disk = Format.formatted p stack disk) :
    (v.inodeLoad 0).iSize = 48 ∧
      (v.inodeLoad 0).iSectors = setEntry (fun _ => 0) 0 (UInt32.ofNat p.sb.dataStartLba) := by
  have hbytes : Inode.ofBytes v.disk (slotAddr p 0) = Inode.ofBytes (Format.inodeTableBuf p.sb) 0 := by
    refine Inode.ofBytes_congr fun k hk => ?_
    have hdata := p.dataStartLba_eq
    rw [hdisk, Format.formatted_eq, copy_outside _ _ (by rw [slotAddr]; omega),
      copy_inside _ _ (by rw [slotAddr]; omega), slotAddr,
      show 0 + (512 * p.sb.inodeTableLba + 76 * 0 + k - 512 * p.sb.inodeTableLba) = 0 + k by omega]
  have hzero : ∀ i, Bytes.zero.u32 i = 0 := fun i => by simp [u32, Bytes.zero]
  have hword : ∀ i, 4 ≤ i → 4 ∣ i → (Format.inodeTableBuf p.sb).u32 i =
      if i = 4 then 48 else if i = 16 then UInt32.ofNat p.sb.dataStartLba else 0 := by
    intro i hi hdvd
    rw [Format.inodeTableBuf]
    by_cases h16 : i = 16
    · rw [h16, u32_setU32_self, if_neg (by decide), if_pos rfl]
    · rw [u32_setU32_of_ne _ _ (by omega), u32_setU32_of_ne _ _ (by omega)]
      by_cases h4 : i = 4
      · rw [h4, u32_setU32_self]
        rfl
      · rw [u32_setU32_of_ne _ _ (by omega), hzero, if_neg h4, if_neg h16]
  rw [Vol.inodeLoad_eq, hbytes]
  refine ⟨hword 4 (by decide) (by decide), funext fun k => ?_⟩
  rw [setEntry]
  simp only [Inode.ofBytes]
  by_cases hk : k < 13
  · rw [if_pos hk, hword _ (by omega) (by omega), if_neg (by omega)]
    by_cases hk0 : k = 0
    · rw [if_pos (by omega), if_pos hk0]
    · rw [if_neg (by omega), if_neg hk0]
  · rw [if_neg hk, if_neg (by omega)]

lemma toNat_dataStartLba (p : Partition) : (UInt32.ofNat p.sb.dataStartLba).toNat = p.sb.dataStartLba := by
  have hlt := p.dataStartLba_add_lt (i := 0) (by have := p.blockBitmapSects_pos; omega)
  exact UInt32.toNat_ofNat_of_lt' (by rw [UInt32.size]; omega)

lemma holds_formatted (hlen : 8 ≤ (Format.blockBitmapBitLen (UInt32.ofNat p.secCnt)).toNat)
    (hbits : v.blockBitmap.bits 0 = Format.formatted p stack disk (512 * p.sb.blockBitmapLba + 0)) :
    v.Holds (UInt32.ofNat p.sb.dataStartLba) := by
  have hpos := p.blockBitmapSects_pos
  refine ⟨0, by rw [Vol.nBlocks]; omega, ?_, toNat_dataStartLba p⟩
  have hbit := (Format.test_blockBitmap (UInt32.ofNat p.secCnt) (by omega)).mpr (.inr ⟨rfl, hlen⟩)
  rw [Vol.blockUsed, Bitmap.bitmapScanTest, hbits, Format.blockBitmap_formatted _ _ _ (by omega)]
  exact hbit

lemma directDir_formatted (hdisk : v.disk = Format.formatted p stack disk)
    (hheld : v.Holds (UInt32.ofNat p.sb.dataStartLba)) : DirectDir v (v.inodeLoad 0) 0 1 := by
  obtain ⟨hsize, hsec⟩ := inodeLoad_formatted hdisk
  -- the last write of the formatting is that of the first block of the root
  have hlast : ∃ d, Format.formatted p stack disk =
      ideWrite d (UInt32.ofNat p.sb.dataStartLba).toNat Format.rootBuf 0 1 := by
    rw [toNat_dataStartLba, Format.formatted, Format.partitionFormat, Format.superBlock_eq]
    exact ⟨_, rfl⟩
  obtain ⟨d, hd⟩ := hlast
  have hrep : DirRep ((v.setDisk d).setDisk (ideWrite d (UInt32.ofNat p.sb.dataStartLba).toNat
      Format.rootBuf 0 1)) (v.inodeLoad 0) (dotSlots 0 0) :=
    dirRep_dotEntries (v := v.setDisk d) hheld hsec Format.rootBuf rootBuf_eq
  rw [← hd, ← hdisk] at hrep
  refine DirRep.directDir hrep (fun k hk _ => ?_) hsize
  rw [hsec]
  exact setEntry_of_ne _ _ hk.ne'

end Formatted

lemma bits_mountPartition (p : Partition) (disk : Bytes) :
    (Vol.mountPartition p disk).blockBitmap.bits 0 = disk (512 * p.sb.blockBitmapLba + 0) := by
  have hpos := p.blockBitmapSects_pos
  rw [Vol.mountPartition, ideRead_eq]
  exact copy_inside _ _ (by omega)

/-! ### Runs -/

/-- A directory that was made in order meets the invariant. -/
lemma DirStart.directDir {start : DirStart p} (hwf : start.WellFormed) (hsafe : start.Safe)
    (hs : start.state = some s) : DirectDir s.1 s.2 0 1 := by
  cases start with
  | mkdir v parent dirname =>
    simp only [state] at hs
    cases halloc : v.inodeBitmapAlloc with
    | none =>
      rw [halloc] at hs
      cases hs
    | some q =>
      rw [halloc] at hs
      split_ifs at hs with hok
      cases hs
      exact directDir_makeDir hwf halloc (hsafe _ _ halloc) hok
  | format stack disk =>
    set v := Vol.mountPartition p (Format.formatted p stack disk) with hv
    have hdisk : v.disk = Format.formatted p stack disk := by rw [hv, Vol.mountPartition]
    have hbits : v.blockBitmap.bits 0 = Format.formatted p stack disk (512 * p.sb.blockBitmapLba + 0) :=
      bits_mountPartition p _
    have hdir := directDir_formatted hdisk (holds_formatted hsafe hbits)
    rw [state, Option.some.injEq] at hs
    rw [← hs]
    exact hdir

/-- In every run of insertions of ordinary entries and deletions that is content with the direct blocks, on
a directory that was made in order, the size is right. -/
theorem sizeRight_of_run (s : Vol p × Inode)
    (h : (dirCalls DirStart.Safe).Reachable (fun s (c : DirCall) => c.Direct s ∧ c.Ordinary) s) :
    SizeRight s := by
  have hinv : DirectDir s.1 s.2 0 1 := by
    refine h.invariant (fun s => DirectDir s.1 s.2 0 1) ?_ ?_
    · rintro s ⟨start, hwf, hsafe, hs⟩
      exact start.directDir hwf hsafe hs
    · rintro s c s' hs ⟨hdirect, hord⟩ hstep
      exact DirCall.directDir hs hdirect hord hstep
  exact hinv.sizeRight

lemma blocksOwned_sample : BlocksOwned (Image.sample.vol .smallest)
    (loadBlocks (Image.sample.vol .smallest).disk ((Image.sample.vol .smallest).inodeLoad 0))
    (((Image.sample.vol .smallest).inodeLoad 0).iSectors 12) := by
  have htree := (Image.ok_sample.consistent .smallest).toIsTree
  have hdir : Image.sample.tree.slots 0 ≠ none := by decide
  obtain ⟨σ, hσ⟩ := Option.ne_none_iff_exists'.mp hdir
  exact (htree.rep 0 σ hσ).owned

/-- A directory made in the sample image, with one entry put into it. -/
theorem sizeRight_sample : ∃ s : Vol .smallest × Inode, s.2.iSize = 72 ∧ SizeRight s := by
  set start : DirStart .smallest :=
    .mkdir (Image.sample.vol .smallest) ((Image.sample.vol .smallest).inodeLoad 0) [120] with hstart
  set call : DirCall := .syncDirEntry (createDirEntry [121] 9 .regular Bytes.zero) Bytes.zero with hcall
  have hrun : (start.state.map fun s => (s.2.iSectors 1, ((call.exec s).map fun s => s.2.iSize))) =
      some (0, some 72) := by decide +kernel
  obtain ⟨s, hs, hval⟩ := map_eq_some_iff.mp hrun
  obtain ⟨h1, hsize⟩ := Prod.mk.inj hval
  obtain ⟨s', hs', hsize⟩ := map_eq_some_iff.mp hsize
  have hsafe : start.Safe := by
    intro inodeNo v' halloc
    have hno : (Image.sample.vol .smallest).inodeBitmapAlloc.map Prod.fst = some 5 := by decide +kernel
    rw [halloc] at hno
    obtain rfl : inodeNo = 5 := some.inj hno
    decide
  have hord : OrdinaryBytes (createDirEntry [121] 9 .regular Bytes.zero) := by decide +kernel
  refine ⟨s', hsize, sizeRight_of_run s' (.step (.init ⟨start, blocksOwned_sample, hsafe, hs⟩) ?_ hs')⟩
  exact ⟨fun hfull => (hfull 1 (by decide)).1 h1, hord⟩

/-- A partition on which the first free inode number is 256. -/
def manyInodes : Vol .smallest :=
  { Vol.blank .smallest with
    inodeBitmap := ⟨512, fun k => if k < 32 then 0xff else 0⟩
    inodeBitmap_len := rfl }

/-- A directory with number 256 has no block when it is opened. -/
theorem not_forall_sizeRight :
    ¬ ∀ (p : Partition) (s : Vol p × Inode),
      (dirCalls (fun _ : DirStart p => True)).Reachable (fun s (c : DirCall) => c.Direct s) s →
        SizeRight s := by
  intro h
  set start : DirStart .smallest := .mkdir manyInodes (Inode.inodeInit 0) [120] with hstart
  have hown : start.WellFormed := by
    have hzero : ∀ k, loadBlocks manyInodes.disk (Inode.inodeInit 0) k = 0 := by
      intro k
      rw [loadBlocks_eq_directBlocks rfl, directBlocks]
      split_ifs <;> rfl
    exact ⟨fun k hk => absurd (hzero k) hk, fun j k hj => absurd (hzero j) hj, fun ht => absurd rfl ht,
      fun ht => absurd rfl ht⟩
  have hrun : (start.state.map fun s => s.2.iSectors 0) = some 0 := by decide +kernel
  obtain ⟨s, hs, hfirst⟩ := map_eq_some_iff.mp hrun
  obtain ⟨i, ⟨hblock, -⟩, -⟩ := (h .smallest s (.init ⟨start, hown, trivial, hs⟩)).dot
  rw [loadBlocks_of_lt (by decide)] at hblock
  exact hblock hfirst

end SimpleOs
