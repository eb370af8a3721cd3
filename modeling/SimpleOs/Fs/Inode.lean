import SimpleOs.Fs.DataBlocks

/-!
# Inodes on disk

`fs/inode.c`. The inode table is an array of 76-byte slots that ignores sector boundaries, so
about one slot in seven lies in two sectors. The reader and the writer of a slot locate it
separately, and the writer does so from the low eight bits of the inode number.
-/

namespace SimpleOs

open Base Bytes

/-- `struct inode`, less the list tag, which is rebuilt whenever an inode is read in. -/
structure Inode where
  iNo : UInt32
  iSize : UInt32
  iOpenCnts : UInt32
  writeDeny : Bool
  iSectors : Nat → UInt32

namespace Inode

/-- `sizeof(struct inode)`. -/
def inodeSize : Nat := 76

variable (i : Inode)

/-- The words of the structure in memory; the last two are the list tag, here `NULL`. -/
def word (k : Nat) : UInt32 :=
  if k = 0 then i.iNo
  else if k = 1 then i.iSize
  else if k = 2 then i.iOpenCnts
  else if k = 3 then (if i.writeDeny then 1 else 0)
  else if k < 17 then i.iSectors (k - 4)
  else 0

/-- The bytes of the structure. -/
def image : Bytes := Bytes.zero.setWords 0 i.word 19

/-- The structure whose bytes stand at address `a`. -/
def ofBytes (s : Bytes) (a : Nat) : Inode where
  iNo := s.u32 a
  iSize := s.u32 (a + 4)
  iOpenCnts := s.u32 (a + 8)
  writeDeny := s.u32 (a + 12) ≠ 0
  iSectors k := if k < 13 then s.u32 (a + 16 + 4 * k) else 0

/-- `inode_init`. -/
def inodeInit (inodeNo : UInt32) : Inode where
  iNo := inodeNo
  iSize := 0
  iOpenCnts := 0
  writeDeny := false
  iSectors := fun _ => 0

/-- What `inode_sync` writes to disk: the run-time fields are reset. -/
def pureInode : Inode := { i with iOpenCnts := 0, writeDeny := false }

/-- Two inodes agree on the fields that are kept on disk. -/
def SamePersistent (i j : Inode) : Prop :=
  i.iNo = j.iNo ∧ i.iSize = j.iSize ∧ ∀ k < 13, i.iSectors k = j.iSectors k

lemma u32_image (hk : k < 19) : i.image.u32 (4 * k) = i.word k := by
  have := u32_setWords Bytes.zero 0 i.word hk
  simpa [image] using this

lemma ofBytes_congr (h : ∀ k < 76, s (a + k) = t (b + k)) : ofBytes s a = ofBytes t b := by
  have hw : ∀ w, w + 4 ≤ 76 → s.u32 (a + w) = t.u32 (b + w) := by
    intro w hw
    apply u32_congr
    intro k hk
    rw [Nat.add_assoc, Nat.add_assoc]
    exact h (w + k) (by omega)
  have h0 := hw 0 (by omega)
  have h4 := hw 4 (by omega)
  have h8 := hw 8 (by omega)
  have h12 := hw 12 (by omega)
  simp only [Nat.add_zero] at h0
  simp only [ofBytes, h0, h4, h8, h12, Inode.mk.injEq, true_and]
  funext k
  split_ifs with hk
  · simpa only [Nat.add_assoc] using hw (16 + 4 * k) (by omega)
  · rfl

/-- The bytes of an inode read back as that inode. -/
lemma samePersistent_ofBytes_image : (ofBytes i.image 0).SamePersistent i := by
  have hw : ∀ k < 19, i.image.u32 (0 + 4 * k) = i.word k := by
    intro k hk
    rw [Nat.zero_add]
    exact i.u32_image hk
  refine ⟨hw 0 (by omega), hw 1 (by omega), ?_⟩
  intro k hk
  have := hw (4 + k) (by omega)
  simp only [ofBytes, if_pos hk]
  rw [show 0 + 16 + 4 * k = 0 + 4 * (4 + k) by omega, this]
  simp only [word]
  rw [if_neg (by omega), if_neg (by omega), if_neg (by omega), if_neg (by omega), if_pos (by omega)]
  congr 1
  omega

end Inode

/-- `struct inode_position`. -/
structure InodePosition where
  twoSec : Bool
  secLba : Nat
  offSize : Nat
deriving DecidableEq, Repr

/-- `inode_locate`: where slot `inodeNo` of the inode table lies. -/
def inodeLocate (p : Partition) (inodeNo : Nat) : InodePosition :=
  let offSize := inodeNo * Inode.inodeSize
  let offSec := offSize / 512
  let offSizeInSec := offSize % 512
  let leftInSec := 512 - offSizeInSec
  { twoSec := leftInSec < Inode.inodeSize
    secLba := p.sb.inodeTableLba + offSec
    offSize := offSizeInSec }

/-- The number of sectors a slot is read and written in. -/
def InodePosition.sects (pos : InodePosition) : Nat := if pos.twoSec then 2 else 1

/-- The address of slot `n` on the disk. -/
def slotAddr (p : Partition) (n : Nat) : Nat := 512 * p.sb.inodeTableLba + 76 * n

namespace Vol

variable (v : Vol p)

/-- `inode_sync`: write an inode back to its slot, `ioBuf` being the caller's work buffer. -/
def inodeSync (inode : Inode) (ioBuf : Bytes) : Vol p :=
  let inodeNo : UInt8 := inode.iNo.toUInt8
  let pos := inodeLocate p inodeNo.toNat
  let inodeBuf := ideRead v.disk pos.secLba ioBuf 0 pos.sects
  let inodeBuf := inodeBuf.copy pos.offSize inode.pureInode.image 0 Inode.inodeSize
  v.setDisk (ideWrite v.disk pos.secLba inodeBuf 0 pos.sects)

/-- What `inode_open` reads from disk when the inode is not in memory. -/
def inodeLoad (inodeNo : Nat) : Inode :=
  let pos := inodeLocate p inodeNo
  let inodeBuf := ideRead v.disk pos.secLba Bytes.zero 0 pos.sects
  { Inode.ofBytes inodeBuf pos.offSize with iOpenCnts := 1 }

/-- `inode_delete`: clear a slot of the inode table. -/
def inodeDelete (inodeNo : Nat) (ioBuf : Bytes) : Vol p :=
  let pos := inodeLocate p inodeNo
  let inodeBuf := ideRead v.disk pos.secLba ioBuf 0 pos.sects
  let inodeBuf := inodeBuf.fill pos.offSize 0 Inode.inodeSize
  v.setDisk (ideWrite v.disk pos.secLba inodeBuf 0 pos.sects)

/-- The bytes of slot `n` of the inode table. -/
def slot (n : Nat) : List UInt8 := v.disk.slice (slotAddr p n) 76

end Vol

/-! ### Positions -/

lemma inodeLocate_fits (p : Partition) (n : Nat) :
    512 * (inodeLocate p n).secLba + (inodeLocate p n).offSize = slotAddr p n ∧
      (inodeLocate p n).offSize + 76 ≤ 512 * (inodeLocate p n).sects := by
  simp only [inodeLocate, InodePosition.sects, Inode.inodeSize, slotAddr]
  by_cases h : 512 - n * 76 % 512 < 76
  · simp only [h, decide_true, if_true]
    omega
  · simp only [h, decide_false, Bool.false_eq_true, if_false]
    omega

lemma slotAddr_disjoint (p : Partition) (h : m ≠ n) (hk : k < 76) :
    slotAddr p m + k < slotAddr p n ∨ slotAddr p n + 76 ≤ slotAddr p m + k := by
  simp only [slotAddr]
  rcases Nat.lt_or_gt_of_ne h with h | h <;> omega

lemma slotAddr_lt (p : Partition) (h : n < 4096) : slotAddr p n + 76 ≤ 512 * p.sb.dataStartLba := by
  simp only [slotAddr, Partition.dataStartLba_eq]
  omega

namespace Vol

variable (v : Vol p)

lemma inodeLoad_eq (n : Nat) :
    v.inodeLoad n = { Inode.ofBytes v.disk (slotAddr p n) with iOpenCnts := 1 } := by
  obtain ⟨haddr, hfit⟩ := inodeLocate_fits p n
  have h : Inode.ofBytes (ideRead v.disk (inodeLocate p n).secLba Bytes.zero 0
      (inodeLocate p n).sects) (inodeLocate p n).offSize =
      Inode.ofBytes v.disk (slotAddr p n) := by
    apply Inode.ofBytes_congr
    intro k hk
    rw [ideRead_eq, copy_inside _ _ (by omega)]
    congr 1
    omega
  simp only [inodeLoad, h]

variable (inode : Inode)

/-- `inode_sync` writes the 76 bytes of one slot, the one of the number's low byte. -/
lemma disk_inodeSync (ioBuf : Bytes) :
    (v.inodeSync inode ioBuf).disk =
      v.disk.copy (slotAddr p (inode.iNo.toNat % 256)) inode.pureInode.image 0 76 := by
  obtain ⟨haddr, hfit⟩ := inodeLocate_fits p (inode.iNo.toNat % 256)
  simp only [inodeSync, disk_setDisk, ideRead_eq, ideWrite_eq, UInt32.toNat_toUInt8,
    Inode.inodeSize]
  have := copy_copy_back v.disk ioBuf inode.pureInode.image
    (a := 512 * (inodeLocate p (inode.iNo.toNat % 256)).secLba) (b := 0) (i := 0) hfit
  rw [Nat.zero_add] at this
  rw [← haddr, ← this]

lemma slot_inodeSync_of_ne (ioBuf : Bytes)
    (h : m ≠ inode.iNo.toNat % 256) : (v.inodeSync inode ioBuf).slot m = v.slot m := by
  rw [slot, slot, slice_eq_slice_iff]
  intro k hk
  rw [disk_inodeSync]
  exact copy_outside _ _ (slotAddr_disjoint p h hk)

lemma slot_inodeSync_self (ioBuf : Bytes) :
    (v.inodeSync inode ioBuf).slot (inode.iNo.toNat % 256) =
      inode.pureInode.image.slice 0 76 := by
  rw [slot, slice_eq_slice_iff]
  intro k hk
  rw [disk_inodeSync, copy_inside _ _ (by omega)]
  congr 1
  omega

lemma sameData_inodeSync (ino : Inode) (buf : Bytes) : v.SameData (v.inodeSync ino buf) := by
  intro a ha
  rw [disk_inodeSync]
  apply copy_outside
  have := slotAddr_lt p (n := ino.iNo.toNat % 256) (by omega)
  omega

lemma inodeLoad_congr {v w : Vol p} (h : v.slot n = w.slot n) : v.inodeLoad n = w.inodeLoad n := by
  rw [inodeLoad_eq, inodeLoad_eq, Inode.ofBytes_congr (slice_eq_slice_iff.mp h)]

/-- Reading the slot that was just written gives the written inode. -/
lemma samePersistent_inodeLoad_inodeSync (ioBuf : Bytes) :
    ((v.inodeSync inode ioBuf).inodeLoad (inode.iNo.toNat % 256)).SamePersistent inode := by
  rw [inodeLoad_eq, disk_inodeSync]
  have h : Inode.ofBytes (v.disk.copy (slotAddr p (inode.iNo.toNat % 256))
      inode.pureInode.image 0 76) (slotAddr p (inode.iNo.toNat % 256)) =
      Inode.ofBytes inode.pureInode.image 0 := by
    apply Inode.ofBytes_congr
    intro k hk
    rw [copy_inside _ _ (by omega)]
    congr 1
    omega
  rw [h]
  exact inode.pureInode.samePersistent_ofBytes_image

/-! ### The write-back round trip -/

/-- Writing an inode back and reading its slot gives the inode, and no other slot changes. -/
def SyncRoundTrip (ioBuf : Bytes) : Prop :=
  ((v.inodeSync inode ioBuf).inodeLoad inode.iNo.toNat).SamePersistent inode ∧
    ∀ m < 4096, m ≠ inode.iNo.toNat → (v.inodeSync inode ioBuf).slot m = v.slot m

/-- The write-back round trip holds of the numbers below 256. Above, `inode_sync` writes the slot
of the low byte, and the round trip holds only if nothing had to be written. -/
theorem syncRoundTrip_iff (v : Vol p) (inode : Inode) (ioBuf : Bytes)
    (hn : inode.iNo.toNat < 4096) :
    v.SyncRoundTrip inode ioBuf ↔
      inode.iNo.toNat < 256 ∨
        ((v.inodeLoad inode.iNo.toNat).SamePersistent inode ∧
          v.slot (inode.iNo.toNat % 256) = inode.pureInode.image.slice 0 76) := by
  by_cases hlt : inode.iNo.toNat < 256
  · have hmod : inode.iNo.toNat % 256 = inode.iNo.toNat := Nat.mod_eq_of_lt hlt
    simp only [hlt, true_or, iff_true]
    refine ⟨?_, ?_⟩
    · have := v.samePersistent_inodeLoad_inodeSync inode ioBuf
      rwa [hmod] at this
    · intro m _ hm
      exact v.slot_inodeSync_of_ne inode ioBuf (hmod.symm ▸ hm)
  · have hne : inode.iNo.toNat ≠ inode.iNo.toNat % 256 := by omega
    -- the slot of the inode itself is not the one that is written
    have hload := inodeLoad_congr (v.slot_inodeSync_of_ne inode ioBuf hne)
    simp only [SyncRoundTrip, hload, hlt, false_or]
    refine and_congr_right fun _ => ?_
    constructor
    · intro hframe
      rw [← hframe (inode.iNo.toNat % 256) (by omega) hne.symm, slot_inodeSync_self]
    · intro hslot m _ _
      by_cases hm : m = inode.iNo.toNat % 256
      · rw [hm, slot_inodeSync_self, hslot]
      · exact v.slot_inodeSync_of_ne inode ioBuf hm

/-- A round trip on a blank disk, for an inode whose slot lies in two sectors. -/
theorem syncRoundTrip_iff_six :
    (Inode.inodeInit 6).iNo.toNat < 4096 ∧
      ((blank Partition.smallest).SyncRoundTrip (Inode.inodeInit 6) Bytes.zero ↔
        (Inode.inodeInit 6).iNo.toNat < 256 ∨
          (((blank Partition.smallest).inodeLoad
              (Inode.inodeInit 6).iNo.toNat).SamePersistent (Inode.inodeInit 6) ∧
            (blank Partition.smallest).slot ((Inode.inodeInit 6).iNo.toNat % 256) =
              (Inode.inodeInit 6).pureInode.image.slice 0 76)) :=
  ⟨by decide, syncRoundTrip_iff _ _ _ (by decide)⟩

/-- On a blank disk inode 256 is written to slot 0 and slot 256 stays blank. -/
theorem not_syncRoundTrip_256 :
    ¬ (blank Partition.smallest).SyncRoundTrip (Inode.inodeInit 256) Bytes.zero := by
  rintro ⟨⟨hno, -⟩, -⟩
  have hslot := (blank Partition.smallest).slot_inodeSync_of_ne (Inode.inodeInit 256) Bytes.zero
    (m := 256) (by decide)
  have hload := inodeLoad_congr hslot
  rw [show (Inode.inodeInit 256).iNo.toNat = 256 from rfl, hload, inodeLoad_eq] at hno
  revert hno
  decide

end Vol

end SimpleOs
