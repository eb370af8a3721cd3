import SimpleOs.Device.Ide

/-!
# The commands of a transfer

`select_sector` of `device/ide.c` spreads the 28 bits of an LBA over four registers, one of which also
selects the drive, and the number of sectors goes to a register of 8 bits. The commands of `ide_read`
and `ide_write` with these registers move what `ideRead` and `ideWrite` say.
-/

namespace SimpleOs

open Base

/-- The registers of a channel that `select_sector` writes. -/
structure SectorRegs where
  sectCnt : UInt8
  lbaL : UInt8
  lbaM : UInt8
  lbaH : UInt8
  dev : UInt8

/-- `select_sector`: `BIT_DEV_MBS` is 0xa0, `BIT_DEV_LBA` 0x40 and `BIT_DEV_DEV` 0x10. -/
def selectSector (devNo : UInt8) (lba : UInt32) (secCnt : UInt8) : SectorRegs where
  sectCnt := secCnt
  lbaL := lba.toUInt8
  lbaM := (lba >>> 8).toUInt8
  lbaH := (lba >>> 16).toUInt8
  dev :=
    let bitDevDev : UInt32 := if devNo = 1 then 0x10 else 0
    ((0xa0 : UInt32) ||| (0x40 : UInt32) ||| bitDevDev ||| lba >>> 24).toUInt8

namespace SectorRegs

/-- The first sector, as the drive puts it together. -/
def lba (r : SectorRegs) : Nat :=
  r.lbaL.toNat + 2 ^ 8 * r.lbaM.toNat + 2 ^ 16 * r.lbaH.toNat + 2 ^ 24 * (r.dev.toNat % 16)

/-- The number of sectors; 0 stands for 256. -/
def sects (r : SectorRegs) : Nat := if r.sectCnt = 0 then 256 else r.sectCnt.toNat

/-- The drive that is selected. -/
def drive (r : SectorRegs) : Nat := r.dev.toNat / 16 % 2

end SectorRegs

/-- A command: the registers, and the address and the number of the bytes that `insw` or `outsw`
moves. -/
structure SectorCommand where
  regs : SectorRegs
  addr : UInt32
  sizeInByte : Nat

namespace SectorCommand

/-- The sectors of a command with the addresses of their bytes in memory. -/
def sectors (c : SectorCommand) : List (Nat × Nat) :=
  (List.range c.regs.sects).map fun k => (c.regs.lba + k, c.addr.toNat + 512 * k)

/-- The memory after a command of `ide_read`. -/
def read (disk mem : Bytes) (c : SectorCommand) : Bytes :=
  mem.copy c.addr.toNat disk (512 * c.regs.lba) c.sizeInByte

/-- The disk after a command of `ide_write`. -/
def write (mem disk : Bytes) (c : SectorCommand) : Bytes :=
  disk.copy (512 * c.regs.lba) mem c.addr.toNat c.sizeInByte

end SectorCommand

/-- `secs_op`. -/
def secsOp32 (secCnt secsDone : UInt32) : UInt32 :=
  if secsDone + 256 ≤ secCnt then 256 else secCnt - secsDone

/-- The loop of `ide_read` and `ide_write`, with the commands it gives. -/
def commandLoop (devNo : UInt8) (lba buf secCnt : UInt32) : (fuel : Nat) → (secsDone : UInt32) →
    List SectorCommand
  | 0, _ => []
  | fuel + 1, secsDone =>
    if secsDone < secCnt then
      let op := secsOp32 secCnt secsDone
      ⟨selectSector devNo (lba + secsDone) op.toUInt8, buf + secsDone * 512, sizeInByte op.toUInt8⟩ ::
        commandLoop devNo lba buf secCnt fuel (secsDone + op)
    else []

/-- The commands of `ide_read` and `ide_write`. -/
def ideCommands (devNo : UInt8) (lba buf secCnt : UInt32) : List SectorCommand :=
  commandLoop devNo lba buf secCnt secCnt.toNat 0

/-- The commands `cs` move the sectors from `lba` on, each once and in their order, from or to the
memory from `buf` on, and no other byte of the memory or the disk; what has been written is read
back. -/
structure TransfersExactly (cs : List SectorCommand) (devNo : UInt8) (lba buf secCnt : Nat) : Prop where
  drive : ∀ c ∈ cs, c.regs.drive = if devNo = 1 then 1 else 0
  size : ∀ c ∈ cs, c.sizeInByte = 512 * c.regs.sects
  covers : cs.flatMap SectorCommand.sectors = (List.range secCnt).map fun k => (lba + k, buf + 512 * k)
  read : ∀ disk mem, cs.foldl (SectorCommand.read disk) mem =
    mem.copy buf disk (512 * lba) (512 * secCnt)
  write : ∀ mem disk, cs.foldl (SectorCommand.write mem) disk =
    disk.copy (512 * lba) mem buf (512 * secCnt)
  read_write : ∀ disk mem mem', ∀ k < 512 * secCnt,
    cs.foldl (SectorCommand.read (cs.foldl (SectorCommand.write mem) disk)) mem' (buf + k) = mem (buf + k)

/-! ### The registers -/

lemma selectSector_dev (devNo : UInt8) (hlba : lba.toNat < 2 ^ 28) (secCnt : UInt8) :
    (selectSector devNo lba secCnt).dev.toNat % 16 = lba.toNat / 2 ^ 24 ∧
      (selectSector devNo lba secCnt).drive = if devNo = 1 then 1 else 0 := by
  obtain ⟨hi, hhi⟩ : ∃ hi, lba.toNat / 2 ^ 24 = hi := ⟨_, rfl⟩
  have hlt : hi < 16 := by omega
  have hshift : (lba >>> 24).toNat = hi := by
    rw [UInt32.toNat_shiftRight, ← hhi, Nat.shiftRight_eq_div_pow]
    rfl
  simp only [SectorRegs.drive, selectSector, UInt32.toNat_toUInt8, UInt32.toNat_or, hshift, hhi]
  split_ifs
  · interval_cases hi <;> exact ⟨rfl, rfl⟩
  · interval_cases hi <;> exact ⟨rfl, rfl⟩

lemma selectSector_lba (devNo : UInt8) (hlba : lba.toNat < 2 ^ 28) (secCnt : UInt8) :
    (selectSector devNo lba secCnt).lba = lba.toNat := by
  rw [SectorRegs.lba, (selectSector_dev devNo hlba secCnt).1]
  simp only [selectSector, UInt32.toNat_toUInt8, UInt32.toNat_shiftRight, Nat.shiftRight_eq_div_pow,
    UInt32.reduceToNat, Nat.reduceMod, Nat.reducePow]
  omega

/-! ### The loop -/

variable {devNo : UInt8} {lba buf secCnt secsDone : UInt32}

/-- The two forms of `secs_op`. -/
lemma toNat_secsOp32 (hcnt : secCnt.toNat ≤ 2 ^ 28) (h : secsDone.toNat < secCnt.toNat) :
    (secsOp32 secCnt secsDone).toNat = secsOp secCnt.toNat secsDone.toNat := by
  have hadd : (secsDone + 256).toNat = secsDone.toNat + 256 := by
    simp only [UInt32.toNat_add, UInt32.reduceToNat]
    omega
  simp only [secsOp32, secsOp, UInt32.le_iff_toNat_le, hadd]
  split_ifs
  · rfl
  · exact UInt32.toNat_sub_of_le _ _ (UInt32.le_iff_toNat_le.mpr (by omega))

lemma sizeInByte_eq (secCnt : UInt8) :
    sizeInByte secCnt = (if secCnt = 0 then 256 else secCnt.toNat) * 512 := by
  rw [sizeInByte]
  split_ifs <;> rfl

lemma secsOp_le (secCnt secsDone : Nat) (h : secsDone < secCnt) :
    0 < secsOp secCnt secsDone ∧ secsOp secCnt secsDone ≤ 256 ∧
      secsDone + secsOp secCnt secsDone ≤ secCnt := by
  rw [secsOp]
  split_ifs <;> omega

section Loop

variable (hlba : lba.toNat + secCnt.toNat ≤ 2 ^ 28) (hbuf : buf.toNat + 512 * secCnt.toNat ≤ 2 ^ 32)

include hlba hbuf in
/-- A round of the loop: its command, and where the next round starts. -/
lemma commandLoop_succ (devNo : UInt8) (h : secsDone.toNat < secCnt.toNat) (fuel : Nat) :
    ∃ c next, commandLoop devNo lba buf secCnt (fuel + 1) secsDone =
        c :: commandLoop devNo lba buf secCnt fuel next ∧
      next.toNat = secsDone.toNat + secsOp secCnt.toNat secsDone.toNat ∧
      c.regs.drive = (if devNo = 1 then 1 else 0) ∧
      c.regs.lba = lba.toNat + secsDone.toNat ∧ c.addr.toNat = buf.toNat + secsDone.toNat * 512 ∧
      c.regs.sects = secsOp secCnt.toNat secsDone.toNat ∧
      c.sizeInByte = sizeInByte (UInt8.ofNat (secsOp secCnt.toNat secsDone.toNat)) := by
  obtain ⟨op, hop⟩ : ∃ op, secsOp32 secCnt secsDone = op := ⟨_, rfl⟩
  obtain ⟨hpos, hle, hsum⟩ := secsOp_le _ _ h
  have hopNat := toNat_secsOp32 (by omega) h
  rw [hop] at hopNat
  have hadd : (lba + secsDone).toNat = lba.toNat + secsDone.toNat := by
    rw [UInt32.toNat_add]
    omega
  have hbyte : op.toUInt8 = UInt8.ofNat op.toNat := by
    simp
  have hlt : (lba + secsDone).toNat < 2 ^ 28 := by omega
  refine ⟨⟨selectSector devNo (lba + secsDone) op.toUInt8, buf + secsDone * 512, sizeInByte op.toUInt8⟩,
    secsDone + op, by rw [commandLoop, if_pos (UInt32.lt_iff_toNat_lt.mpr h), hop], ?_,
    (selectSector_dev devNo hlt _).2, (selectSector_lba devNo hlt _).trans hadd, ?_, ?_,
    by rw [hbyte, hopNat]⟩
  · rw [UInt32.toNat_add]
    omega
  · simp only [UInt32.toNat_add, UInt32.toNat_mul, UInt32.reduceToNat]
    omega
  · have hsize := sizeInByte_secsOp h
    rw [← hopNat, sizeInByte_eq] at hsize
    rw [← hopNat]
    exact Nat.eq_of_mul_eq_mul_right (by decide) hsize

include hlba hbuf in
lemma commandLoop_spec (devNo : UInt8) (fuel : Nat) (hd : secsDone.toNat ≤ secCnt.toNat)
    (hf : secCnt.toNat ≤ fuel + secsDone.toNat) :
    let cs := commandLoop devNo lba buf secCnt fuel secsDone
    (∀ c ∈ cs, c.regs.drive = (if devNo = 1 then 1 else 0) ∧ c.sizeInByte = 512 * c.regs.sects) ∧
      cs.flatMap SectorCommand.sectors = (List.range (secCnt.toNat - secsDone.toNat)).map (fun k =>
        (lba.toNat + (secsDone.toNat + k), buf.toNat + 512 * (secsDone.toNat + k))) ∧
      (∀ disk mem, cs.foldl (SectorCommand.read disk) mem =
        ideTransfer mem buf.toNat disk (512 * lba.toNat) secCnt.toNat fuel secsDone.toNat) ∧
      ∀ mem disk, cs.foldl (SectorCommand.write mem) disk =
        ideTransfer disk (512 * lba.toNat) mem buf.toNat secCnt.toNat fuel secsDone.toNat := by
  induction fuel generalizing secsDone with
  | zero => simp [commandLoop, ideTransfer, show secCnt.toNat - secsDone.toNat = 0 by omega]
  | succ fuel ih =>
    rcases Nat.lt_or_ge secsDone.toNat secCnt.toNat with hlt | hge
    · obtain ⟨c, next, hcs, hnext, hdrive, hclba, haddr, hsects, hsize⟩ :=
        commandLoop_succ hlba hbuf devNo hlt fuel
      obtain ⟨hpos, -, hsum⟩ := secsOp_le _ _ hlt
      have hle : next.toNat ≤ secCnt.toNat := by omega
      obtain ⟨hall, hcovers, hread, hwrite⟩ := ih hle (by omega)
      intro cs
      have hcs : cs = _ := hcs
      rw [hcs]
      refine ⟨List.forall_mem_cons.mpr ⟨⟨hdrive, ?_⟩, hall⟩, ?_, fun disk mem => ?_, fun mem disk => ?_⟩
      · rw [hsize, sizeInByte_secsOp hlt, hsects, Nat.mul_comm]
      · have hlen : secCnt.toNat - secsDone.toNat =
            secsOp secCnt.toNat secsDone.toNat + (secCnt.toNat - next.toNat) := by omega
        rw [List.flatMap_cons, hcovers, hlen, List.range_add, List.map_append, List.map_map,
          SectorCommand.sectors, hclba, haddr, hsects]
        congr 1
        · refine List.map_congr_left fun k _ => ?_
          rw [Nat.add_assoc, Nat.add_assoc, Nat.mul_add, Nat.mul_comm 512 secsDone.toNat]
        · refine List.map_congr_left fun k _ => ?_
          rw [hnext, Function.comp_apply, Nat.add_assoc]
      · rw [List.foldl_cons, hread, ideTransfer, if_pos hlt, SectorCommand.read, hclba, haddr, hsize, hnext,
          Nat.mul_add, Nat.mul_comm 512 secsDone.toNat]
      · rw [List.foldl_cons, hwrite, ideTransfer, if_pos hlt, SectorCommand.write, hclba, haddr, hsize, hnext,
          Nat.mul_add, Nat.mul_comm 512 secsDone.toNat]
    · have hnil : commandLoop devNo lba buf secCnt (fuel + 1) secsDone = [] :=
        if_neg fun h => absurd (UInt32.lt_iff_toNat_lt.mp h) (by omega)
      simp [hnil, ideTransfer, show secCnt.toNat - secsDone.toNat = 0 by omega, Nat.not_lt.mpr hge]

include hlba hbuf in
/-- `ide_read` and `ide_write` transfer the sectors that were asked for and no others. -/
theorem transfersExactly_ideCommands (devNo : UInt8) :
    TransfersExactly (ideCommands devNo lba buf secCnt) devNo lba.toNat buf.toNat secCnt.toNat := by
  have hzero : (0 : UInt32).toNat ≤ secCnt.toNat := Nat.zero_le _
  obtain ⟨hall, hcovers, hread, hwrite⟩ :=
    commandLoop_spec hlba hbuf devNo secCnt.toNat hzero (Nat.le_add_right _ _)
  have hread' : ∀ disk mem, (ideCommands devNo lba buf secCnt).foldl (SectorCommand.read disk) mem =
      mem.copy buf.toNat disk (512 * lba.toNat) (512 * secCnt.toNat) :=
    fun disk mem => (hread disk mem).trans (ideRead_eq disk lba.toNat mem buf.toNat secCnt.toNat)
  have hwrite' : ∀ mem disk, (ideCommands devNo lba buf secCnt).foldl (SectorCommand.write mem) disk =
      disk.copy (512 * lba.toNat) mem buf.toNat (512 * secCnt.toNat) :=
    fun mem disk => (hwrite mem disk).trans (ideWrite_eq disk lba.toNat mem buf.toNat secCnt.toNat)
  refine ⟨fun c hc => (hall c hc).1, fun c hc => (hall c hc).2, ?_, hread', hwrite', ?_⟩
  · simpa [ideCommands] using hcovers
  · intro disk mem mem' k hk
    rw [hwrite', hread', Bytes.copy_inside _ _ (by omega), Bytes.copy_inside _ _ (by omega)]
    congr 1
    omega

end Loop

/-- The sectors 1000 to 1256 of the second drive, whose first command has a count of 0. -/
theorem transfersExactly_two_commands : ((1000 : UInt32).toNat + (257 : UInt32).toNat ≤ 2 ^ 28 ∧
      (0xc0200000 : UInt32).toNat + 512 * (257 : UInt32).toNat ≤ 2 ^ 32) ∧
    TransfersExactly (ideCommands 1 1000 0xc0200000 257) 1 1000 0xc0200000 257 :=
  ⟨by decide, transfersExactly_ideCommands (by decide) (by decide) 1⟩

end SimpleOs
