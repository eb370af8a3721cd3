import SimpleOs.Base.Bytes

/-!
# The disk driver

`device/ide.c`. A disk is a byte store in which sector `lba` is the bytes `[512 * lba, 512 * lba +
512)`. The drive is assumed to transfer exactly the sectors it is commanded to.
-/

namespace SimpleOs

open Base

/-- The bytes moved by one command, as `read_from_sector` and `writer2sector` compute them from
the 8-bit sector count: a count of `0` means 256 sectors. -/
def sizeInByte (secCnt : UInt8) : Nat :=
  if secCnt = 0 then 256 * 512 else secCnt.toNat * 512

/-- The sectors moved by the next command, `secsDone` of `secCnt` being done. -/
def secsOp (secCnt secsDone : Nat) : Nat :=
  if secsDone + 256 ≤ secCnt then 256 else secCnt - secsDone

/-- The loop of `ide_read` and `ide_write`: every command moves `secs_op` sectors from `src` to
`dst`, starting `secs_done` sectors after the first one. -/
def ideTransfer (dst : Bytes) (i : Nat) (src : Bytes) (j secCnt : Nat) :
    (fuel secsDone : Nat) → Bytes
  | 0, _ => dst
  | fuel + 1, secsDone =>
    if secsDone < secCnt then
      let op := secsOp secCnt secsDone
      let dst' := dst.copy (i + secsDone * 512) src (j + secsDone * 512)
        (sizeInByte (UInt8.ofNat op))
      ideTransfer dst' i src j secCnt fuel (secsDone + op)
    else dst

variable (disk : Bytes)

variable (lba : Nat)

/-- `ide_read`: read `secCnt` sectors from `lba` on into `buf` at `off`. -/
def ideRead (buf : Bytes) (off secCnt : Nat) : Bytes :=
  ideTransfer buf off disk (512 * lba) secCnt secCnt 0

/-- `ide_write`: write `secCnt` sectors of `buf` from `off` on to the disk at `lba`. -/
def ideWrite (buf : Bytes) (off secCnt : Nat) : Bytes :=
  ideTransfer disk (512 * lba) buf off secCnt secCnt 0

lemma sizeInByte_secsOp (h : secsDone < secCnt) :
    sizeInByte (UInt8.ofNat (secsOp secCnt secsDone)) = secsOp secCnt secsDone * 512 := by
  unfold secsOp
  split_ifs with hop
  · rfl
  · have hne : UInt8.ofNat (secCnt - secsDone) ≠ 0 := by
      intro h0
      have := congrArg UInt8.toNat h0
      simp only [UInt8.toNat_ofNat', UInt8.toNat_zero] at this
      omega
    simp only [sizeInByte, if_neg hne, UInt8.toNat_ofNat']
    omega

/-- The commands of the loop together move the sectors that are left. -/
lemma ideTransfer_eq (dst : Bytes) (i : Nat) (src : Bytes) (j secCnt fuel secsDone : Nat)
    (hd : secsDone ≤ secCnt) (hf : secCnt ≤ fuel + secsDone) :
    ideTransfer dst i src j secCnt fuel secsDone =
      dst.copy (i + secsDone * 512) src (j + secsDone * 512) ((secCnt - secsDone) * 512) := by
  induction fuel generalizing dst secsDone with
  | zero =>
    have : secCnt - secsDone = 0 := by omega
    simp [ideTransfer, this]
  | succ fuel ih =>
    simp only [ideTransfer]
    split_ifs with h
    · have hop : 0 < secsOp secCnt secsDone ∧ secsOp secCnt secsDone ≤ secCnt - secsDone := by
        unfold secsOp
        split_ifs <;> omega
      rw [sizeInByte_secsOp h, ih _ _ (by omega) (by omega)]
      generalize secsOp secCnt secsDone = op at hop
      have hlen : op * 512 + (secCnt - (secsDone + op)) * 512 = (secCnt - secsDone) * 512 := by
        omega
      rw [Nat.add_mul, ← Nat.add_assoc, ← Nat.add_assoc, Bytes.copy_copy_adjacent, hlen]
    · have : secCnt - secsDone = 0 := by omega
      simp [this]

lemma ideRead_eq (buf : Bytes) (off secCnt : Nat) :
    ideRead disk lba buf off secCnt = buf.copy off disk (512 * lba) (512 * secCnt) := by
  rw [ideRead, ideTransfer_eq _ _ _ _ _ _ _ (by omega) (by omega)]
  simp [Nat.mul_comm]

lemma ideRead_sector (buf : Bytes) (hr : r < 512) :
    ideRead disk lba buf 0 1 r = disk (512 * lba + r) := by
  rw [ideRead_eq, Bytes.copy_inside _ _ (by omega), Nat.sub_zero]

lemma ideWrite_eq (buf : Bytes) (off secCnt : Nat) :
    ideWrite disk lba buf off secCnt = disk.copy (512 * lba) buf off (512 * secCnt) := by
  rw [ideWrite, ideTransfer_eq _ _ _ _ _ _ _ (by omega) (by omega)]
  simp [Nat.mul_comm]

end SimpleOs
