import SimpleOs.Fs.FailedWrite
import SimpleOs.Fs.SyncedWrite

/-!
# The buffers inodes are written through

`inode_sync` and `inode_delete` of `fs/inode.c` read and write the one or two sectors of a slot of the
inode table through a buffer that their caller has allocated. `file_write` allocates one sector for it,
the others two.
-/

namespace SimpleOs

open Base

variable {p : Partition}

/-- A transfer through a caller's buffer: the bytes that are moved and the size of the buffer. -/
structure BufferUse where
  bytes : Nat
  ioBufSize : Nat
deriving DecidableEq, Repr

/-- The buffer has room for the transfer. -/
def BufferUse.Fits (u : BufferUse) : Prop := u.bytes ≤ u.ioBufSize

instance (u : BufferUse) : Decidable u.Fits := inferInstanceAs (Decidable (_ ≤ _))

/-- The transfer of `inode_sync`, which keeps the low eight bits of the inode number. -/
def inodeSyncUse (p : Partition) (inode : Inode) (ioBufSize : Nat) : BufferUse :=
  ⟨512 * (inodeLocate p inode.iNo.toUInt8.toNat).sects, ioBufSize⟩

/-- The transfer of `inode_delete`. -/
def inodeDeleteUse (p : Partition) (inodeNo ioBufSize : Nat) : BufferUse :=
  ⟨512 * (inodeLocate p inodeNo).sects, ioBufSize⟩

namespace Vol

/-- The transfers of a `file_create`: the directory and the new inode, when the entry could be inserted. -/
def fileCreateUses (okIoBuf okInode okSlot : Bool) (v : Vol p) (parent : Inode) (filename : List UInt8) :
    List BufferUse :=
  match v.inodeBitmapAlloc with
  | none => []
  | some (inodeNo, _) =>
    if (v.fileCreate okIoBuf okInode okSlot parent filename).ok then
      [inodeSyncUse p (v.fileCreate okIoBuf okInode okSlot parent filename).inode 1024,
        inodeSyncUse p (Inode.inodeInit (UInt32.ofNat inodeNo)) 1024]
    else []

/-- The transfer of a `file_write`: the inode of the file as it leaves it. -/
def fileWriteUses (okIoBuf okAllBlocks : Bool) (v : Vol p) (file : OpenFile) (buf : Bytes)
    (count : UInt32) : List BufferUse :=
  let r := fileWrite okIoBuf okAllBlocks v file buf count
  if r.ret = none then [] else [inodeSyncUse p r.file.fdInode 512]

/-- The transfers of a `sys_mkdir`: the parent directory and the new inode. -/
def sysMkdirUses (okIoBuf : Bool) (v : Vol p) (parent : Option Inode) (dirname : List UInt8) :
    List BufferUse :=
  match parent, v.inodeBitmapAlloc with
  | some parent, some (inodeNo, _) =>
    if okIoBuf ∧ (v.makeDir parent dirname).ok then
      [inodeSyncUse p (v.makeDir parent dirname).inode 1024,
        inodeSyncUse p (Inode.inodeInit (UInt32.ofNat inodeNo)) 1024]
    else []
  | _, _ => []

/-- The transfers of a `delete_dir_entry` and, once it returns, of the `inode_release` behind it. The
former works on the buffer of its own caller, `dir_remove` or `sys_unlink`. -/
def deleteAndReleaseUses (v : Vol p) (parent : Inode) (inodeNo : UInt32) : List BufferUse :=
  match deleteDirEntry v parent inodeNo with
  | none => []
  | some r =>
    (if r.ok then [inodeSyncUse p r.inode 1024] else []) ++ [inodeDeleteUse p inodeNo.toNat 1024]

/-- The transfers of a `sys_rmdir`. -/
def sysRmdirUses (okIoBuf : Bool) (v : Vol p) (searched : Option (Inode × Inode)) : List BufferUse :=
  match searched with
  | none => []
  | some (parent, dir) =>
    if dir.iSize = 48 ∧ okIoBuf then v.deleteAndReleaseUses parent dir.iNo else []

/-- The transfers of a `sys_unlink`. -/
def sysUnlinkUses (okIoBuf : Bool) (v : Vol p) (searched : Option (Inode × UInt32 × Inode)) :
    List BufferUse :=
  match searched with
  | none => []
  | some (parent, inodeNo, _) => if okIoBuf then v.deleteAndReleaseUses parent inodeNo else []

end Vol

/-- The transfers a call makes, in order. -/
def FsCall.bufferUses (v : Vol p) : FsCall → List BufferUse
  | fileCreate okIoBuf okInode okSlot parent filename =>
    v.fileCreateUses okIoBuf okInode okSlot parent filename
  | fileWrite okIoBuf okAllBlocks file buf count => v.fileWriteUses okIoBuf okAllBlocks file buf count
  | sysMkdir okIoBuf parent dirname => v.sysMkdirUses okIoBuf parent dirname
  | sysRmdir okIoBuf searched => v.sysRmdirUses okIoBuf searched
  | sysUnlink okIoBuf searched => v.sysUnlinkUses okIoBuf searched

/-- Slot `n` of the inode table lies in two sectors. -/
def Straddles (n : Nat) : Prop := 436 < 76 * n % 512

instance (n : Nat) : Decidable (Straddles n) := inferInstanceAs (Decidable (_ < _))

/-- A write that succeeds, to a file whose inode goes to a slot in two sectors. -/
def FsCall.WritesAcross (v : Vol p) : FsCall → Prop
  | fileWrite okIoBuf okAllBlocks file _ count =>
    (file.fdInode.iSize + count).toNat ≤ 512 * 140 ∧ okIoBuf ∧ okAllBlocks ∧
      blocksNeeded file.fdInode count ≤ v.freeBlocks.card ∧ Straddles (file.fdInode.iNo.toNat % 256)
  | _ => False

/-! ### Sizes -/

lemma sects_inodeLocate (p : Partition) (n : Nat) :
    (inodeLocate p n).sects = if Straddles n then 2 else 1 := by
  have hiff : 512 - n * 76 % 512 < 76 ↔ Straddles n := by
    rw [Straddles, Nat.mul_comm 76 n]
    omega
  simp only [inodeLocate, InodePosition.sects, Inode.inodeSize, decide_eq_true_eq, hiff]

lemma fits_two_sectors (p : Partition) (n : Nat) : 512 * (inodeLocate p n).sects ≤ 1024 := by
  rw [sects_inodeLocate]
  split_ifs <;> omega

lemma fits_inodeSyncUse (p : Partition) (inode : Inode) : (inodeSyncUse p inode 1024).Fits :=
  fits_two_sectors p _

lemma fits_one_sector_iff (p : Partition) (inode : Inode) :
    (inodeSyncUse p inode 512).Fits ↔ ¬ Straddles (inode.iNo.toNat % 256) := by
  have hno : inode.iNo.toUInt8.toNat = inode.iNo.toNat % 256 := by simp
  rw [BufferUse.Fits, inodeSyncUse, hno, sects_inodeLocate]
  split_ifs with h <;> simp [h]

/-! ### The inode number in a write -/

namespace WriteState

variable {st st' : WriteState p}

lemma iNo_firstBlock (h : st.firstBlock = .ok st') : st'.inode.iNo = st.inode.iNo := by
  rw [firstBlock] at h
  split_ifs at h
  · split at h <;> cases h
    rfl
  · cases h
    rfl

lemma iNo_record (st : WriteState p) (direct : Bool) (k : Nat) (lba : UInt32) :
    (st.record direct k lba).inode.iNo = st.inode.iNo := by
  cases direct <;> rfl

lemma iNo_allocBlocks (h : allocBlocks direct n k st = .ok st') : st'.inode.iNo = st.inode.iNo := by
  induction n generalizing k st with
  | zero =>
    cases h
    rfl
  | succ n ih =>
    rw [allocBlocks] at h
    split at h
    · cases h
    · exact (ih h).trans (iNo_record _ _ _ _)

lemma iNo_allocTable (h : st.allocTable = .ok st') : st'.inode.iNo = st.inode.iNo := by
  rw [allocTable] at h
  split at h <;> cases h
  rfl

lemma iNo_mapBlocks (h : st.mapBlocks hasUsed willUse = .ok st') :
    st'.inode.iNo = st.inode.iNo := by
  rw [mapBlocks] at h
  split_ifs at h
  · cases h
    rfl
  · cases h
    rfl
  · exact (iNo_allocBlocks h).trans rfl
  · obtain ⟨st1, htable, h⟩ := except_bind_eq_ok.mp h
    obtain ⟨st2, hblocks, h⟩ := except_bind_eq_ok.mp h
    cases h
    exact ((iNo_allocBlocks hblocks).trans (iNo_allocTable htable)).trans rfl
  · obtain ⟨st1, hblocks, h⟩ := except_bind_eq_ok.mp h
    cases h
    exact (iNo_allocBlocks hblocks).trans rfl

end WriteState

lemma CopyState.iNo_writeLoop (allBlocks : Nat → UInt32) (buf : Bytes) (count fuel : Nat) (first : Bool)
    (written : Nat) (c : CopyState p) :
    (writeLoop allBlocks buf count fuel first written c).file.fdInode.iNo = c.file.fdInode.iNo := by
  induction fuel generalizing first written c with
  | zero => rfl
  | succ fuel ih =>
    rw [writeLoop]
    split_ifs
    · exact ih _ _ _
    · rfl

/-- A write that succeeds leaves the inode its number. -/
lemma iNo_fileWrite (h : (fileWrite okIoBuf okAllBlocks v file buf count).ret ≠ none) :
    (fileWrite okIoBuf okAllBlocks v file buf count).file.fdInode.iNo = file.fdInode.iNo := by
  revert h
  simp only [fileWrite]
  split_ifs
  · exact fun h => absurd rfl h
  · exact fun h => absurd rfl h
  · exact fun h => absurd rfl h
  · split
    · exact fun h => absurd rfl h
    · rename_i st hst
      intro _
      obtain ⟨st1, hfirst, hmap⟩ := except_bind_eq_ok.mp hst
      rw [CopyState.iNo_writeLoop]
      exact (WriteState.iNo_mapBlocks hmap).trans (WriteState.iNo_firstBlock hfirst)

/-! ### The calls -/

namespace Vol

lemma fits_fileCreateUses (okIoBuf okInode okSlot : Bool) (v : Vol p) (parent : Inode)
    (filename : List UInt8) : ∀ u ∈ v.fileCreateUses okIoBuf okInode okSlot parent filename, u.Fits := by
  intro u hu
  unfold fileCreateUses at hu
  split at hu
  · cases hu
  · split_ifs at hu
    · rcases List.mem_pair.mp hu with rfl | rfl <;> exact fits_inodeSyncUse _ _
    · cases hu

lemma fits_sysMkdirUses (okIoBuf : Bool) (v : Vol p) (parent : Option Inode) (dirname : List UInt8) :
    ∀ u ∈ v.sysMkdirUses okIoBuf parent dirname, u.Fits := by
  intro u hu
  unfold sysMkdirUses at hu
  split at hu
  · split_ifs at hu
    · rcases List.mem_pair.mp hu with rfl | rfl <;> exact fits_inodeSyncUse _ _
    · cases hu
  · cases hu

lemma fits_deleteAndReleaseUses (v : Vol p) (parent : Inode) (inodeNo : UInt32) :
    ∀ u ∈ v.deleteAndReleaseUses parent inodeNo, u.Fits := by
  intro u hu
  unfold deleteAndReleaseUses at hu
  split at hu
  · cases hu
  · rcases List.mem_append.mp hu with hu | hu
    · split_ifs at hu
      · rw [List.mem_singleton.mp hu]
        exact fits_inodeSyncUse _ _
      · cases hu
    · rw [List.mem_singleton.mp hu]
      exact fits_two_sectors _ _

lemma fits_sysRmdirUses (okIoBuf : Bool) (v : Vol p) (searched : Option (Inode × Inode)) :
    ∀ u ∈ v.sysRmdirUses okIoBuf searched, u.Fits := by
  intro u hu
  unfold sysRmdirUses at hu
  split at hu
  · cases hu
  · split_ifs at hu
    · exact v.fits_deleteAndReleaseUses _ _ u hu
    · cases hu

lemma fits_sysUnlinkUses (okIoBuf : Bool) (v : Vol p) (searched : Option (Inode × UInt32 × Inode)) :
    ∀ u ∈ v.sysUnlinkUses okIoBuf searched, u.Fits := by
  intro u hu
  unfold sysUnlinkUses at hu
  split at hu
  · cases hu
  · split_ifs at hu
    · exact v.fits_deleteAndReleaseUses _ _ u hu
    · cases hu

lemma fits_fileWriteUses_iff (okIoBuf okAllBlocks : Bool) (v : Vol p) (file : OpenFile) (buf : Bytes)
    (count : UInt32) :
    (∀ u ∈ v.fileWriteUses okIoBuf okAllBlocks file buf count, u.Fits) ↔
      ¬ ((fileWrite okIoBuf okAllBlocks v file buf count).ret ≠ none ∧
        Straddles (file.fdInode.iNo.toNat % 256)) := by
  rw [fileWriteUses]
  by_cases hret : (fileWrite okIoBuf okAllBlocks v file buf count).ret = none
  · simp [hret]
  · rw [if_neg hret]
    simp only [List.mem_singleton, forall_eq, ne_eq, hret, not_false_eq_true, true_and]
    rw [fits_one_sector_iff, iNo_fileWrite hret]

end Vol

end SimpleOs
