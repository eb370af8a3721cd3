import SimpleOs.Fs.File.Position

/-!
# Reads into a buffer from the heap

`file_read` takes its work blocks from the heap of the process that calls it, and puts the page of its
sector buffer back after it has copied each piece to the destination. A destination that shares this
page, as a block of the same size class can, is put back with it.
-/

namespace SimpleOs

open Base

variable {p : Partition}

/-! ### `file_read` -/

/-- When `file_read` returns `n`, the destination holds the next `n` bytes of the file, and no other byte
outside the work blocks has changed. -/
def DeliversRead (w : WorkBlocks) (vol : Vol p) (file : OpenFile) (mem : Bytes) (dst : Nat)
    (count : UInt32) : Prop :=
  ∀ n, (fileRead (some w) vol file mem dst count).ret = some n →
    file.fdPos.toNat + n ≤ file.fdInode.iSize.toNat ∧
    (∀ j < n, (fileRead (some w) vol file mem dst count).mem (dst + j) =
      vol.byteAt file.fdInode (file.fdPos.toNat + j)) ∧
    ∀ a, w.Apart a → a < dst ∨ dst + n ≤ a → (fileRead (some w) vol file mem dst count).mem a = mem a

section

variable {v : Vol p} {f : OpenFile} {data : List UInt8} {count : UInt32} {w : WorkBlocks} {dst : Nat}

/-- A read from inside a file that fits delivers what is left of the file, except that the bytes of the
destination in the page of the sector buffer are what they were. -/
lemma deliversRead_iff_page (mem : Bytes) (h : FileRep v f.fdInode data) (hfits : f.fdPos.toNat + count.toNat < 2 ^ 32)
    (hpos : f.fdPos.toNat ≤ f.fdInode.iSize.toNat) (hdst : ∀ j < count.toNat, w.Apart (dst + j)) :
    DeliversRead w v f mem dst count ↔
      ∀ j < min count.toNat (f.fdInode.iSize.toNat - f.fdPos.toNat), w.SamePage (dst + j) →
        mem (dst + j) = v.byteAt f.fdInode (f.fdPos.toNat + j) := by
  have hmin := toNat_readSize hfits hpos
  rw [← hmin]
  by_cases hend : f.AtEnd count
  · refine iff_of_true (fun n hn => ?_) fun j hj => ?_
    · rw [fileRead_atEnd hend] at hn
      cases hn
    · rw [hend.2] at hj
      exact absurd hj (Nat.not_lt_zero j)
  have hsize : f.fdPos.toNat + (f.readSize count).toNat ≤ f.fdInode.iSize.toNat := by omega
  obtain ⟨hdata, hframe⟩ := fileRead_mem mem h hend hsize fun j hj => hdst j (by omega)
  constructor
  · intro hdel j hj hp
    obtain ⟨-, hbytes, -⟩ := hdel _ (fileRead_some hend).1
    rw [← hbytes j hj, hdata j hj, if_pos hp]
  · intro hpage n hn
    rw [(fileRead_some hend).1] at hn
    cases hn
    refine ⟨hsize, fun j hj => ?_, hframe⟩
    rw [hdata j hj]
    split_ifs with hp
    · exact hpage j hj hp
    · rfl

/-- From behind the end of the file, or with a sum that wraps around, a read returns more than there is. -/
lemma not_deliversRead (mem : Bytes) (dst : Nat)
    (h : f.fdInode.iSize.toNat < f.fdPos.toNat ∨ 2 ^ 32 ≤ f.fdPos.toNat + count.toNat) :
    ¬ DeliversRead w v f mem dst count := by
  have h1 := f.fdInode.iSize.toNat_lt
  have h2 := f.fdPos.toNat_lt
  have h3 := count.toNat_lt
  have hover : f.fdInode.iSize.toNat < f.fdPos.toNat + (f.readSize count).toNat := by
    rw [OpenFile.readSize]
    split_ifs with hgt
    · rw [gt_iff_lt, UInt32.lt_iff_toNat_lt, UInt32.toNat_add] at hgt
      omega
    · omega
  have hend : ¬ f.AtEnd count := by
    rintro ⟨hgt, hzero⟩
    rw [hzero, UInt32.toNat_zero] at hover
    rw [OpenFile.readSize, if_pos hgt] at hzero
    have hsub := congrArg UInt32.toNat hzero
    rw [UInt32.toNat_sub, UInt32.toNat_zero] at hsub
    omega
  intro hdel
  have := (hdel _ (fileRead_some hend).1).1
  omega

end

/-- `file_read` delivers exactly if the position is in the file, the sum of position and count does not
wrap around, and every byte of the destination in the page of the sector buffer already is what it
should become. -/
theorem deliversRead_iff (w : WorkBlocks) (v : Vol p) (f : OpenFile) (data : List UInt8)
    (h : FileRep v f.fdInode data) (mem : Bytes) (dst : Nat) (count : UInt32)
    (hdst : ∀ j < count.toNat, w.Apart (dst + j)) :
    DeliversRead w v f mem dst count ↔
      f.fdPos.toNat ≤ f.fdInode.iSize.toNat ∧ f.fdPos.toNat + count.toNat < 2 ^ 32 ∧
        ∀ j < min count.toNat (f.fdInode.iSize.toNat - f.fdPos.toNat), w.SamePage (dst + j) →
          mem (dst + j) = v.byteAt f.fdInode (f.fdPos.toNat + j) := by
  by_cases hpos : f.fdPos.toNat ≤ f.fdInode.iSize.toNat
  swap
  · exact iff_of_false (not_deliversRead mem dst (.inl (by omega))) fun hc => hpos hc.1
  by_cases hfits : f.fdPos.toNat + count.toNat < 2 ^ 32
  swap
  · exact iff_of_false (not_deliversRead mem dst (.inr (by omega))) fun hc => hfits hc.2.1
  rw [deliversRead_iff_page mem h hfits hpos hdst]
  exact ⟨fun hpage => ⟨hpos, hfits, hpage⟩, fun hc => hc.2.2⟩

lemma exists_threeBytes :
    ∃ (v : Vol Partition.smallest) (f : OpenFile), FileRep v f.fdInode [1, 2, 3] ∧ f.fdPos = 2 ∧
      f.fdInode.iSize = 3 := by
  have hsome : (writeCalls (Vol.blank Partition.smallest, ⟨0, Inode.inodeInit 2⟩)
      [⟨true, true, Bytes.ofList [1, 2, 3], 3⟩]).map (fun s => (s.2.fdPos, s.2.fdInode.iSize)) =
        some (2, 3) := by
    decide +kernel
  obtain ⟨⟨v, f⟩, hw, heq⟩ := Option.map_eq_some_iff.mp hsome
  obtain ⟨hpos, hsize⟩ := Prod.mk.inj heq
  exact ⟨v, f, (writeCalls_rep (fileRep_inodeInit _ 2) hw).1, hpos, hsize⟩

/-- The last byte is read into a page that holds no work block. -/
theorem deliversRead_three :
    ∃ (v : Vol Partition.smallest) (f : OpenFile), f.fdPos = 2 ∧ f.fdInode.iSize = 3 ∧
      DeliversRead .firstPages v f Bytes.zero 32768 512 := by
  obtain ⟨v, f, hrep, hpos, hsize⟩ := exists_threeBytes
  have hdst : ∀ j < (512 : UInt32).toNat, WorkBlocks.firstPages.Apart (32768 + j) := by
    intro j hj
    have hj : j < 512 := hj
    simp only [WorkBlocks.Apart, WorkBlocks.firstPages]
    omega
  refine ⟨v, f, hpos, hsize, (deliversRead_iff _ v f _ hrep _ _ _ hdst).mpr ?_⟩
  rw [hpos, hsize]
  refine ⟨by decide, by decide, fun j hj hp => ?_⟩
  exact absurd hp (by revert j; simp only [WorkBlocks.SamePage]; decide)

/-- The destination is the block next to the sector buffer: it is put back to what it held. -/
theorem not_forall_deliversRead :
    ¬ ∀ (p : Partition) (w : WorkBlocks) (v : Vol p) (f : OpenFile) (data : List UInt8),
      FileRep v f.fdInode data → ∀ (mem : Bytes) (dst : Nat) (count : UInt32),
      (∀ j < count.toNat, w.Apart (dst + j)) → DeliversRead w v f mem dst count := by
  intro hall
  obtain ⟨v, f, hrep, hpos, hsize⟩ := exists_threeBytes
  have hdst : ∀ j < (512 : UInt32).toNat, WorkBlocks.firstPages.Apart (4096 + 12 + 512 + j) := by
    intro j hj
    have hj : j < 512 := hj
    simp only [WorkBlocks.Apart, WorkBlocks.firstPages]
    omega
  have hdel := hall _ .firstPages v f _ hrep Bytes.zero (4096 + 12 + 512) 512 hdst
  have hbyte := (deliversRead_iff_page Bytes.zero hrep (by rw [hpos]; decide)
    (by rw [hpos, hsize]; decide) hdst).mp hdel 0 (by rw [hpos, hsize]; decide) (by decide)
  rw [hpos] at hbyte
  exact absurd (hbyte.trans (hrep.content 2 3 (by decide))) (by decide)

end SimpleOs
