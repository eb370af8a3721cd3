import SimpleOs.Fs.File.Blocks

/-!
# Writes that fail

What `file_write` leaves behind when it returns `-1`. It gives up in seven places; of its two work
buffers those that it has got by then stay allocated, and so do the blocks it has taken for the file.
-/

namespace SimpleOs

open Base

variable {p : Partition}

/-- What the two `sys_malloc` calls of `file_write` return: blocks that are not in use, or `NULL`. -/
structure WriteBuffers (live : Finset Nat) where
  ioBuf : Option Nat
  allBlocks : Option Nat
  ioBuf_fresh : ∀ a ∈ ioBuf, a ∉ live
  allBlocks_fresh : ∀ b ∈ allBlocks, b ∉ live ∧ b ∉ ioBuf

/-- The outcome of `file_write` with the heap blocks that are in use. -/
structure LiveWrite (p : Partition) where
  result : WriteResult p
  live : Finset Nat

/-- `file_write` with its work buffers on the heap. Only the last lines free them. -/
def fileWriteLive {live : Finset Nat} (bufs : WriteBuffers live) (vol : Vol p) (file : OpenFile)
    (buf : Bytes) (count : UInt32) : LiveWrite p :=
  let result := fileWrite bufs.ioBuf.isSome bufs.allBlocks.isSome vol file buf count
  if (file.fdInode.iSize + count).toNat > 512 * 140 then ⟨result, live⟩
  else
    match bufs.ioBuf, bufs.allBlocks with
    | none, _ => ⟨result, live⟩
    | some a, none => ⟨result, insert a live⟩
    | some a, some b =>
      match result.ret with
      | none => ⟨result, insert b (insert a live)⟩
      | some _ => ⟨result, ((insert b (insert a live)).erase b).erase a⟩

/-- Nothing of what a write works on has changed. -/
structure WriteLeaves (vol : Vol p) (file : OpenFile) (live : Finset Nat) (r : LiveWrite p) : Prop where
  iSize : r.result.file.fdInode.iSize = file.fdInode.iSize
  iSectors : r.result.file.fdInode.iSectors = file.fdInode.iSectors
  blockBitmap : r.result.vol.blockBitmap = vol.blockBitmap
  bitmapDisk : ∀ k < 512 * p.sb.blockBitmapSects,
    r.result.vol.disk (512 * p.sb.blockBitmapLba + k) = vol.disk (512 * p.sb.blockBitmapLba + k)
  table : ∀ k < 512, r.result.vol.disk (512 * (file.fdInode.iSectors 12).toNat + k) =
    vol.disk (512 * (file.fdInode.iSectors 12).toNat + k)
  heap : r.live = live

/-- How many blocks a write takes: the first one of the file, those that the file grows by, and the one
for the indirect table. -/
def blocksNeeded (inode : Inode) (count : UInt32) : Nat :=
  let hasUsed := inode.iSize.toNat / 512 + 1
  let willUse := (inode.iSize + count).toNat / 512 + 1
  (if inode.iSectors 0 = 0 then 1 else 0) +
    ((willUse - hasUsed) + if hasUsed ≤ 12 ∧ 12 < willUse then 1 else 0)

/-! ### Enough blocks -/

/-- With its buffers, and not beyond the largest size, a write succeeds exactly when there are enough
free blocks. -/
lemma fileWrite_ret_ne_none_iff (vol : Vol p) (buf : Bytes)
    (hsize : ¬ (file.fdInode.iSize + count).toNat > 512 * 140) :
    (fileWrite true true vol file buf count).ret ≠ none ↔
      blocksNeeded file.fdInode count ≤ vol.freeBlocks.card := by
  set st : WriteState p := { vol, inode := file.fdInode, allBlocks := fun _ => 0 } with hst
  have hret : (fileWrite true true vol file buf count).ret ≠ none ↔
      ∃ st', (st.firstBlock >>= fun st => st.mapBlocks (st.inode.iSize.toNat / 512 + 1)
        ((st.inode.iSize + count).toNat / 512 + 1)) = .ok st' := by
    simp only [fileWrite, if_neg hsize, Bool.not_true, Bool.false_eq_true, if_false]
    cases hmap : (st.firstBlock >>= fun st => st.mapBlocks (st.inode.iSize.toNat / 512 + 1)
        ((st.inode.iSize + count).toNat / 512 + 1)) with
    | error st' => simp
    | ok st' => simp
  rw [hret, blocksNeeded]
  by_cases hfirst : file.fdInode.iSectors 0 = 0
  · rw [if_pos hfirst, WriteState.firstBlock, if_pos hfirst]
    cases halloc : st.vol.blockBitmapAlloc with
    | none =>
      have hcard : vol.freeBlocks.card = 0 := Vol.blockBitmapAlloc_eq_none_iff.mp halloc
      refine iff_of_false ?_ (by omega)
      rintro ⟨st', h⟩
      cases h
    | some r =>
      obtain ⟨lba, v⟩ := r
      have hcard : v.freeBlocks.card + 1 = vol.freeBlocks.card := Vol.card_freeBlocks_alloc halloc
      simp only [ok_bind]
      rw [WriteState.mapBlocks_ok_iff, Vol.card_freeBlocks_bitmapSync]
      simp only [hst]
      omega
  · rw [if_neg hfirst, WriteState.firstBlock, if_neg hfirst, ok_bind, WriteState.mapBlocks_ok_iff,
      Nat.zero_add]

/-- When a write succeeds, whether or not it finds its buffers. -/
lemma fileWrite_succeeds_iff (okIoBuf okAllBlocks : Bool) (vol : Vol p) (file : OpenFile) (buf : Bytes)
    (count : UInt32) :
    (fileWrite okIoBuf okAllBlocks vol file buf count).ret ≠ none ↔
      (file.fdInode.iSize + count).toNat ≤ 512 * 140 ∧ okIoBuf ∧ okAllBlocks ∧
        blocksNeeded file.fdInode count ≤ vol.freeBlocks.card := by
  by_cases hsize : (file.fdInode.iSize + count).toNat > 512 * 140
  · refine iff_of_false (fun h => h ?_) (by omega)
    simp only [fileWrite, if_pos hsize]
  · cases okIoBuf with
    | false => simp [fileWrite]
    | true =>
      cases okAllBlocks with
      | false => simp [fileWrite]
      | true =>
        rw [fileWrite_ret_ne_none_iff vol buf hsize]
        simp only [true_and]
        exact (and_iff_right (by omega)).symm

lemma WriteBuffers.insert_ne {live : Finset Nat} (bufs : WriteBuffers live)
    (ha : bufs.ioBuf = some a) (S : Finset Nat) (hS : insert a live ⊆ S) : S ≠ live := by
  rintro rfl
  exact bufs.ioBuf_fresh a ha (hS (Finset.mem_insert_self a _))

/-- A write that fails leaves everything as it was exactly when it fails before it has got a buffer. -/
theorem failedWrite_leaves_iff {live : Finset Nat} (bufs : WriteBuffers live) (vol : Vol p)
    (file : OpenFile) (buf : Bytes) (count : UInt32) :
    ((fileWriteLive bufs vol file buf count).result.ret = none →
        WriteLeaves vol file live (fileWriteLive bufs vol file buf count)) ↔
      (file.fdInode.iSize + count).toNat > 512 * 140 ∨ bufs.ioBuf = none ∨
        bufs.allBlocks ≠ none ∧ blocksNeeded file.fdInode count ≤ vol.freeBlocks.card := by
  have hsame : ∀ r : LiveWrite p, r = ⟨⟨none, vol, file⟩, live⟩ → WriteLeaves vol file live r := by
    rintro _ rfl
    exact ⟨rfl, rfl, rfl, fun _ _ => rfl, fun _ _ => rfl, rfl⟩
  by_cases hsize : (file.fdInode.iSize + count).toNat > 512 * 140
  · refine iff_of_true (fun _ => hsame _ ?_) (.inl hsize)
    simp only [fileWriteLive, fileWrite, if_pos hsize]
  rw [or_iff_right hsize]
  cases hio : bufs.ioBuf with
  | none =>
    refine iff_of_true (fun _ => hsame _ ?_) (.inl rfl)
    simp only [fileWriteLive, fileWrite, if_neg hsize, hio, Option.isSome_none, Bool.not_false, if_true]
  | some a =>
    rw [or_iff_right (by simp)]
    cases hall : bufs.allBlocks with
    | none =>
      refine iff_of_false (fun h => ?_) (by simp)
      have hrun : fileWriteLive bufs vol file buf count = ⟨⟨none, vol, file⟩, insert a live⟩ := by
        simp only [fileWriteLive, fileWrite, if_neg hsize, hio, hall, Option.isSome_some,
          Option.isSome_none, Bool.not_true, Bool.not_false, Bool.false_eq_true, if_false, if_true]
      rw [hrun] at h
      exact bufs.insert_ne hio _ (Finset.Subset.refl _) (h rfl).heap
    | some b =>
      rw [← fileWrite_ret_ne_none_iff vol buf hsize]
      cases hret : (fileWrite true true vol file buf count).ret with
      | some n =>
        refine iff_of_true (fun h => ?_) ⟨by simp, by simp⟩
        simp only [fileWriteLive, if_neg hsize, hio, hall, Option.isSome_some, hret] at h
        cases h
      | none =>
        refine iff_of_false (fun h => ?_) (by simp)
        have hrun : fileWriteLive bufs vol file buf count =
            ⟨fileWrite true true vol file buf count, insert b (insert a live)⟩ := by
          simp only [fileWriteLive, if_neg hsize, hio, hall, Option.isSome_some, hret]
        rw [hrun] at h
        exact bufs.insert_ne hio _ (Finset.subset_insert _ _) (h hret).heap

/-- The smallest partition with its block bitmap full but for bit 1. -/
def oneBlockFree : Vol Partition.smallest :=
  { Vol.blank Partition.smallest with
    blockBitmap := ⟨Partition.smallest.sb.blockBitmapSects * 512, fun k => if k = 0 then 0xfd else 0xff⟩
    blockBitmap_len := rfl }

/-- The two buffers of a write on an empty heap. -/
def freshBuffers : WriteBuffers ∅ := ⟨some 0, some 1, by simp, by simp⟩

/-- A write of two blocks with one block free takes the block and both buffers, and fails. -/
theorem not_forall_failedWrite_leaves :
    ¬ ∀ (p : Partition) (live : Finset Nat) (bufs : WriteBuffers live) (vol : Vol p)
      (file : OpenFile) (buf : Bytes) (count : UInt32),
      (fileWriteLive bufs vol file buf count).result.ret = none →
        WriteLeaves vol file live (fileWriteLive bufs vol file buf count) := by
  intro h
  have hsectors := (h Partition.smallest ∅ freshBuffers oneBlockFree ⟨0, Inode.inodeInit 1⟩
    Bytes.zero 600 (by decide +kernel)).iSectors
  have hfirst : (fileWriteLive freshBuffers oneBlockFree ⟨0, Inode.inodeInit 1⟩ Bytes.zero
      600).result.file.fdInode.iSectors 0 ≠ 0 := by decide +kernel
  rw [hsectors] at hfirst
  exact hfirst rfl

end SimpleOs
