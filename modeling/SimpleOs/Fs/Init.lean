import SimpleOs.Fs.Format

/-!
# Looking for file systems

The first part of `filesys_init` in `fs/fs.c`: it goes through the partitions of the second disk of
every channel and formats those without a file system. The counter of the partitions is set to 0
before the first channel only.
-/

namespace SimpleOs

open Base

/-- An entry of `prim_parts` or `logic_parts`; an entry that is not used has no sectors. -/
structure PartRange where
  startLba : UInt32
  secCnt : UInt32

/-- The second disk of a channel: the four entries of `prim_parts` with the eight of `logic_parts`
behind them, and the bytes of its sectors. -/
structure DataDisk where
  parts : Nat → PartRange
  disk : Bytes

namespace PartRange

/-- The sector behind the first one has the magic number of the file system. -/
def carries (q : PartRange) (disk : Bytes) : Bool :=
  (ideRead disk (q.startLba + 1).toNat Bytes.zero 0 1).u32 0 == 0x19590318

/-- The body of the inner loop: a partition without a file system is formatted. -/
def check (q : PartRange) (stack disk : Bytes) : Bytes :=
  if q.secCnt ≠ 0 then
    if q.carries disk then disk else Format.partitionFormat q.startLba q.secCnt stack disk
  else disk

/-- The partition is the same on two disks. -/
def SameOn (q : PartRange) (disk disk' : Bytes) : Prop :=
  ∀ a, 512 * q.startLba.toNat ≤ a → a < 512 * (q.startLba.toNat + q.secCnt.toNat) → disk' a = disk a

end PartRange

/-- The inner loop, `left` rounds before its end: `part` is a number in the array of the twelve
entries. It gives the disk and the last value of `part_idx`. -/
def scanParts (parts : Nat → PartRange) (stack : Bytes) :
    (left partIdx part : Nat) → (disk : Bytes) → Bytes × Nat
  | 0, partIdx, _, disk => (disk, partIdx)
  | left + 1, partIdx, part, disk =>
    let part := if partIdx = 4 then 4 else part
    scanParts parts stack left (partIdx + 1) (part + 1) ((parts part).check stack disk)

/-- The outer loops; the first disk of a channel is passed over. -/
def scanChannels (stack : Bytes) : (partIdx : Nat) → List DataDisk → List DataDisk
  | _, [] => []
  | partIdx, hd :: hds =>
    let r := scanParts hd.parts stack (12 - partIdx) partIdx 0 hd.disk
    { hd with disk := r.1 } :: scanChannels stack r.2 hds

/-- The disks after the scan of `filesys_init`. -/
def filesysInit (stack : Bytes) (hds : List DataDisk) : List DataDisk := scanChannels stack 0 hds

/-! ### What the scan is for -/

/-- Every partition has a file system, and one that had it is as it was. -/
def Initialised (parts : Nat → PartRange) (disk disk' : Bytes) : Prop :=
  ∀ k < 12, (parts k).secCnt ≠ 0 → (parts k).carries disk' = true ∧
    ((parts k).carries disk = true → (parts k).SameOn disk disk')

/-- So it is with all disks. -/
def AllInitialised (hds hds' : List DataDisk) : Prop :=
  List.Forall₂ (fun hd hd' => Initialised hd.parts hd.disk hd'.disk) hds hds'

/-- The partitions of a disk that are used have room for a file system, lie in the 28-bit LBA range
and have no sector in common. -/
structure Separate (parts : Nat → PartRange) : Prop where
  room : ∀ k < 12, (parts k).secCnt ≠ 0 → 613 ≤ (parts k).secCnt.toNat
  lba : ∀ k < 12, (parts k).secCnt ≠ 0 → (parts k).startLba.toNat + (parts k).secCnt.toNat ≤ 2 ^ 28
  apart : ∀ j < 12, ∀ k < 12, j ≠ k → (parts j).secCnt ≠ 0 → (parts k).secCnt ≠ 0 →
    (parts j).startLba.toNat + (parts j).secCnt.toNat ≤ (parts k).startLba.toNat ∨
      (parts k).startLba.toNat + (parts k).secCnt.toNat ≤ (parts j).startLba.toNat

variable {parts : Nat → PartRange} {stack disk disk' : Bytes} {hds : List DataDisk} {k n : Nat}

/-! ### The counters -/

lemma scanParts_snd (left partIdx part : Nat) (disk : Bytes) :
    (scanParts parts stack left partIdx part disk).2 = partIdx + left := by
  induction left generalizing partIdx part disk with
  | zero => rfl
  | succ left ih =>
    rw [scanParts, ih]
    omega

lemma scanChannels_twelve (stack : Bytes) (hds : List DataDisk) : scanChannels stack 12 hds = hds := by
  induction hds with
  | nil => rfl
  | cons hd hds ih => exact congrArg (hd :: ·) ih

lemma scanParts_succ (disk : Bytes) :
    scanParts parts stack (left + 1) n n disk =
      scanParts parts stack left (n + 1) (n + 1) ((parts n).check stack disk) := by
  rw [scanParts]
  split_ifs with h4
  · rw [h4]
  · rfl

/-! ### One disk -/

namespace PartRange

variable {q : PartRange}

lemma SameOn.carries (h : q.SameOn disk disk') (hroom : 613 ≤ q.secCnt.toNat)
    (hlba : q.startLba.toNat + q.secCnt.toNat ≤ 2 ^ 28) : q.carries disk' = q.carries disk := by
  have hone : (q.startLba + 1).toNat = q.startLba.toNat + 1 := by
    rw [UInt32.toNat_add, UInt32.toNat_one]
    omega
  rw [PartRange.carries]
  congr 1
  refine Bytes.u32_congr fun r hr => ?_
  rw [ideRead_sector _ _ _ (by omega), ideRead_sector _ _ _ (by omega)]
  exact h _ (by omega) (by omega)

/-- Formatting gives a partition a file system and stays inside it. -/
lemma partitionFormat_spec (hroom : 613 ≤ q.secCnt.toNat)
    (hlba : q.startLba.toNat + q.secCnt.toNat ≤ 2 ^ 28) (stack disk : Bytes) :
    q.carries (Format.partitionFormat q.startLba q.secCnt stack disk) = true ∧
      ∀ a, a < 512 * q.startLba.toNat ∨ 512 * (q.startLba.toNat + q.secCnt.toNat) ≤ a →
        Format.partitionFormat q.startLba q.secCnt stack disk a = disk a := by
  set p : Partition := ⟨q.startLba.toNat, q.secCnt.toNat, hroom, hlba⟩ with hp
  have hformat : Format.partitionFormat q.startLba q.secCnt stack disk = Format.formatted p stack disk := by
    rw [Format.formatted, UInt32.ofNat_toNat, UInt32.ofNat_toNat]
  have hone : (q.startLba + 1).toNat = p.startLba + 1 := by
    rw [UInt32.toNat_add, UInt32.toNat_one]
    exact Nat.mod_eq_of_lt (by omega)
  rw [hformat]
  constructor
  · have hmagic := congrArg SuperBlock.magic (Format.readSb_formatted p stack disk)
    rw [carries, hone, beq_iff_eq, ← UInt32.toNat_inj]
    exact hmagic
  · intro a ha
    have hfits := (Format.layoutFits hroom hlba).data_le
    have hblock := (Format.layoutFits hroom hlba).block
    have hsb : Format.superBlock q.startLba q.secCnt = p.sb := by
      rw [← Format.superBlock_eq, UInt32.ofNat_toNat, UInt32.ofNat_toNat]
    rw [hsb] at hfits
    have hstart : p.sb.blockBitmapLba = q.startLba.toNat + 2 := rfl
    have hinode := p.inodeBitmapLba_eq
    have htable := p.inodeTableLba_eq
    have hdata := p.dataStartLba_eq
    have hbase : p.startLba = q.startLba.toNat := rfl
    rw [Format.formatted_eq]
    iterate 5 rw [Bytes.copy_outside _ _ (by omega)]

end PartRange

/-- The disk after `n` rounds. -/
def ScannedTo (parts : Nat → PartRange) (n : Nat) (disk disk' : Bytes) : Prop :=
  ∀ k < 12, (parts k).secCnt ≠ 0 → (k < n → (parts k).carries disk' = true) ∧
    ((parts k).carries disk = true ∨ n ≤ k → (parts k).SameOn disk disk')

/-- One round of the inner loop. -/
lemma ScannedTo.check (hsep : Separate parts) (h : ScannedTo parts n disk disk') (hn : n < 12)
    (stack : Bytes) : ScannedTo parts (n + 1) disk ((parts n).check stack disk') := by
  intro k hk hused
  obtain ⟨hcarries, hsame⟩ := h k hk hused
  have hroom := hsep.room k hk hused
  have hlba := hsep.lba k hk hused
  rw [PartRange.check]
  split_ifs with hn0 hold
  · refine ⟨fun hlt => ?_, fun hor => hsame (hor.imp_right (by omega))⟩
    rcases Nat.lt_succ_iff_lt_or_eq.mp hlt with hlt | rfl
    · exact hcarries hlt
    · exact hold
  · rcases eq_or_ne k n with rfl | hne
    · refine ⟨fun _ => (PartRange.partitionFormat_spec hroom hlba stack disk').1, ?_⟩
      -- what has no file system now had none before, for nothing was written to it
      rintro (hhad | hlt)
      · rw [(hsame (.inl hhad)).carries hroom hlba] at hold
        exact absurd hhad hold
      · omega
    · have hout := (PartRange.partitionFormat_spec (hsep.room n hn hn0) (hsep.lba n hn hn0) stack disk').2
      have hkeep : (parts k).SameOn disk'
          (Format.partitionFormat (parts n).startLba (parts n).secCnt stack disk') := by
        intro a h1 h2
        refine hout a ?_
        have hapart := hsep.apart k hk n hn hne hused hn0
        omega
      refine ⟨fun hlt => ?_, fun hor a h1 h2 => ?_⟩
      · rw [hkeep.carries hroom hlba]
        exact hcarries (by omega)
      · exact (hkeep a h1 h2).trans (hsame (hor.imp_right (by omega)) a h1 h2)
  · refine ⟨fun hlt => hcarries ?_, fun hor => hsame (hor.imp_right (by omega))⟩
    rcases Nat.lt_succ_iff_lt_or_eq.mp hlt with hlt | rfl
    · exact hlt
    · exact absurd hused hn0

lemma ScannedTo.scanParts (hsep : Separate parts) (stack : Bytes) (left : Nat)
    (h : ScannedTo parts n disk disk') (hn : n + left = 12) :
    ScannedTo parts 12 disk (scanParts parts stack left n n disk').1 := by
  induction left generalizing n disk' with
  | zero =>
    obtain rfl : n = 12 := hn
    exact h
  | succ left ih =>
    rw [scanParts_succ]
    exact ih (h.check hsep (by omega) stack) (by omega)

lemma initialised_of_separate (hsep : Separate parts) (stack disk : Bytes) :
    Initialised parts disk (scanParts parts stack 12 0 0 disk).1 := by
  have hstart : ScannedTo parts 0 disk disk := fun k _ _ =>
    ⟨fun hlt => absurd hlt (Nat.not_lt_zero k), fun _ _ _ _ => rfl⟩
  intro k hk hused
  obtain ⟨hcarries, hsame⟩ := hstart.scanParts hsep stack 12 rfl k hk hused
  exact ⟨hcarries hk, fun hhad => hsame (.inl hhad)⟩

/-! ### All channels -/

/-- A disk of zeros with one partition. -/
def onePart : DataDisk := ⟨fun k => if k = 0 then ⟨63, 613⟩ else ⟨0, 0⟩, Bytes.zero⟩

lemma separate_onePart : Separate onePart.parts := by
  refine ⟨fun k _ hk => ?_, fun k _ hk => ?_, fun j _ k _ hne hj hk => ?_⟩
  all_goals
    dsimp only [onePart] at *
    split_ifs at * <;> simp_all

end SimpleOs
