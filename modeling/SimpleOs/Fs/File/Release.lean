import SimpleOs.Fs.File.Taken
import SimpleOs.Fs.Path.Remove

/-!
# What deleting a file gives back

The history of a regular file from `inode_init` on: writes that succeed, and between them whatever
else happens on the volume, as long as it leaves the blocks of this file alone. The history remembers
which blocks the writes allocated. `inode_release` finds the blocks through the inode and the indirect
table, and clears exactly their bits.
-/

namespace SimpleOs

open Base

variable {p : Partition}

/-- The blocks of the file are still allocated, and hold what they held. -/
def Vol.Spares (v : Vol p) (ino : Inode) (v' : Vol p) : Prop :=
  ∀ x, OwnsBlock v ino x → v'.Holds x ∧ SameSector v.disk v'.disk x.toNat

/-- A file changes with its blocks only. -/
lemma WrittenFile.of_spares (h : WrittenFile v ino data) (hs : v.Spares ino v') :
    WrittenFile v' ino data ∧ ∀ x, OwnsBlock v' ino x ↔ OwnsBlock v ino x := by
  obtain ⟨hexact, hown⟩ := h.exact.of_sameTable (fun _ _ => rfl) (fun hne => (hs _ ⟨hne, .inr rfl⟩).2)
    fun x hx => (hs x hx).1
  refine ⟨⟨⟨h.rep.size, h.rep.bound, h.rep.blank, fun h0 => ?_, ?_⟩, hexact⟩, hown⟩
  · have hcount : ino.blockCount = data.length / 512 + 1 := by
      rw [Inode.blockCount, if_neg h0, h.rep.size]
    rw [← hcount]
    exact hexact.owns
  · by_cases h0 : ino.iSectors 0 = 0
    · rw [h.rep.blank h0]
      intro k x hk
      simp at hk
    · have hcount : ino.blockCount = data.length / 512 + 1 := by
        rw [Inode.blockCount, if_neg h0, h.rep.size]
      refine h.rep.content.of_sameSector (n := ino.blockCount) (by omega) (fun k hk => ?_) fun k hk => ?_
      · rw [← hexact.loadBlocks_eq hk, ← h.exact.loadBlocks_eq hk]
        exact loadBlocks_congr (fun _ _ => rfl) (fun hne => (hs _ ⟨hne, .inr rfl⟩).2) k
      · exact (hs _ ((h.exact.ownsBlock_iff _).mpr (.inl ⟨k, hk, rfl⟩))).2

/-! ### Histories -/

/-- The volume, the open file, and the blocks that writes to the file have allocated so far. -/
structure FileHistory (p : Partition) where
  vol : Vol p
  file : OpenFile
  allocated : Finset Nat

/-- What happens next: a write to the file, or anything else, which leaves some volume and some
position in the file. -/
inductive FileEvent (p : Partition) where
  | write (call : WriteCall)
  | others (vol : Vol p) (fdPos : UInt32)

namespace FileHistory

/-- A write that succeeds allocates the blocks that are free before it and not after it. -/
def exec (s : FileHistory p) : FileEvent p → Option (FileHistory p)
  | .write call => (writeCall (s.vol, s.file) call).map fun r =>
    { vol := r.1, file := r.2, allocated := s.allocated ∪ (s.vol.freeBlocks \ r.1.freeBlocks) }
  | .others vol fdPos => some { s with vol := vol, file := { s.file with fdPos := fdPos } }

end FileHistory

/-- The histories of the file with inode number `n`. -/
def fileHistories (p : Partition) (n : UInt32) : System (FileHistory p) (FileEvent p) where
  init s := s.file.fdInode = Inode.inodeInit n ∧ s.allocated = ∅
  step s e s' := s.exec e = some s'

/-- What else happens leaves the blocks of the file alone. -/
def FileEvent.Spared (vol : Vol p) (file : OpenFile) : FileEvent p → Prop
  | .write _ => True
  | .others vol' _ => vol.Spares file.fdInode vol'

/-- Histories in which nothing else touches the blocks of the file. -/
def FileHistory.Spared (s : FileHistory p) (e : FileEvent p) : Prop := e.Spared s.vol s.file

/-- The file is in order, and what its writes have allocated is what it owns. -/
structure FileHistory.Inv (s : FileHistory p) : Prop where
  written : ∃ data, WrittenFile s.vol s.file.fdInode data
  allocated_iff : ∀ b, b ∈ s.allocated ↔
    ∃ x, x.toNat = p.sb.dataStartLba + b ∧ OwnsBlock s.vol s.file.fdInode x

namespace FileHistory

variable {s s' : FileHistory p}

lemma inv_init (h : (fileHistories p n).init s) : s.Inv := by
  obtain ⟨hino, hall⟩ := h
  have hw := writtenFile_inodeInit s.vol n
  rw [← hino] at hw
  refine ⟨⟨[], hw⟩, fun b => ?_⟩
  rw [hall]
  refine iff_of_false (by simp) ?_
  rintro ⟨x, -, hx⟩
  rcases (hw.exact.ownsBlock_iff x).mp hx with ⟨k, hk, -⟩ | ⟨hn, -⟩
  · rw [hino] at hk
    exact absurd hk (Nat.not_lt_zero k)
  · rw [hino] at hn
    exact absurd hn (Nat.not_lt_zero 12)

lemma Inv.write (h : s.Inv) (hexec : s.exec (.write call) = some s') : s'.Inv := by
  obtain ⟨data, hw⟩ := h.written
  obtain ⟨r, hr, rfl⟩ := Option.map_eq_some_iff.mp hexec
  rw [writeCall] at hr
  split_ifs at hr with hbound
  obtain ⟨c, hret, rfl⟩ := Option.map_eq_some_iff.mp hr
  obtain ⟨hw', hgain⟩ := hw.fileWrite hbound (by rw [hret]; exact Option.some_ne_none c)
  refine ⟨⟨_, hw'⟩, fun b => ?_⟩
  rw [Finset.mem_union, h.allocated_iff, Finset.mem_sdiff]
  constructor
  · rintro (⟨x, hx, hown⟩ | ⟨hfree, hused⟩)
    · exact ⟨x, hx, hgain.keeps x hown⟩
    · -- a block that the write took from the bitmap
      obtain ⟨hb, hfree⟩ := Finset.mem_filter.mp hfree
      have hb := Finset.mem_range.mp hb
      have hlt := p.dataStartLba_add_lt hb
      have hx : (UInt32.ofNat (p.sb.dataStartLba + b)).toNat = p.sb.dataStartLba + b :=
        UInt32.toNat_ofNat_of_lt' (hlt.trans (by decide))
      have hheld : (fileWrite call.okIoBuf call.okAllBlocks s.vol s.file call.buf call.count).vol.Holds
          (UInt32.ofNat (p.sb.dataStartLba + b)) := by
        refine ⟨b, hb, ?_, hx⟩
        by_contra hfree'
        exact hused (Finset.mem_filter.mpr ⟨Finset.mem_range.mpr hb, by simpa using hfree'⟩)
      refine ⟨_, hx, (hgain.holds _ hheld).resolve_left ?_⟩
      rintro ⟨c, -, hu, hc⟩
      obtain rfl : b = c := by omega
      simp [hfree] at hu
  · rintro ⟨x, hx, hown⟩
    rcases hgain.fresh x hown with hold | hnew
    · exact .inl ⟨x, hx, hold⟩
    · refine .inr ⟨Finset.mem_filter.mpr ?_, fun hfree => ?_⟩
      · obtain ⟨c, hc, hu, hxc⟩ := hw'.exact.holds hown
        obtain rfl : b = c := by omega
        refine ⟨Finset.mem_range.mpr hc, ?_⟩
        by_contra hu
        exact hnew ⟨b, hc, by simpa using hu, hx⟩
      · obtain ⟨c, hc, hu, hxc⟩ := hw'.exact.holds hown
        obtain rfl : b = c := by omega
        simp [(Finset.mem_filter.mp hfree).2] at hu

lemma Inv.others (h : s.Inv) {vol : Vol p} {fdPos : UInt32} (hs : s.vol.Spares s.file.fdInode vol)
    (hexec : s.exec (.others vol fdPos) = some s') : s'.Inv := by
  obtain ⟨data, hw⟩ := h.written
  cases hexec
  obtain ⟨hw', hown⟩ := hw.of_spares hs
  refine ⟨⟨data, hw'⟩, fun b => ?_⟩
  rw [h.allocated_iff]
  exact exists_congr fun x => and_congr_right fun _ => (hown x).symm

lemma Inv.of_reachable (h : (fileHistories p n).Reachable FileHistory.Spared s) : s.Inv := by
  refine h.invariant Inv (fun _ => inv_init) fun s e s' hinv hok hstep => ?_
  cases e with
  | write call => exact hinv.write hstep
  | others vol fdPos => exact hinv.others hok hstep

end FileHistory

/-- After any history of a file, `inode_release` clears the bits of the blocks that the writes to it
allocated, which are those in its inode and its indirect table, and the bit of its number. -/
theorem inodeRelease_clears_allocated (n : UInt32) (hn : n.toNat < 4096) (s : FileHistory p)
    (hs : (fileHistories p n).Reachable FileHistory.Spared s) (ino : Inode)
    (hino : ino.SamePersistent s.file.fdInode) :
    (∀ b, b ∈ s.allocated ↔ ∃ x, x.toNat = p.sb.dataStartLba + b ∧ OwnsBlock s.vol ino x) ∧
      (∀ b ∈ s.allocated, s.vol.blockUsed b = true) ∧
      (∀ b < Vol.nBlocks p, (s.vol.inodeRelease n.toNat ino).blockUsed b = true ↔
        s.vol.blockUsed b = true ∧ b ∉ s.allocated) ∧
      ∀ m, (s.vol.inodeRelease n.toNat ino).inodeUsed m = true ↔
        s.vol.inodeUsed m = true ∧ m ≠ n.toNat := by
  have hinv := FileHistory.Inv.of_reachable hs
  obtain ⟨data, hw⟩ := hinv.written
  have hown : ∀ x, OwnsBlock s.vol ino x ↔ OwnsBlock s.vol s.file.fdInode x := by
    intro x
    have hload : ∀ k, loadBlocks s.vol.disk ino k = loadBlocks s.vol.disk s.file.fdInode k :=
      loadBlocks_inode fun k hk => hino.2.2 k (by omega)
    simp only [OwnsBlock, hload, hino.2.2 12 (by omega)]
  have hiff : ∀ b, b ∈ s.allocated ↔ ∃ x, x.toNat = p.sb.dataStartLba + b ∧ OwnsBlock s.vol ino x := by
    intro b
    rw [hinv.allocated_iff]
    exact exists_congr fun x => and_congr_right fun _ => (hown x).symm
  have hheld : ∀ x, OwnsBlock s.vol ino x → s.vol.Holds x := fun x hx => hw.exact.holds ((hown x).mp hx)
  have hrel := s.vol.released_inodeRelease hn fun x hx => (hheld x hx).isBlock
  refine ⟨hiff, ?_, ?_, hrel.inodeUsed⟩
  · intro b hb
    obtain ⟨x, hx, hxo⟩ := (hiff b).mp hb
    obtain ⟨c, -, hu, hc⟩ := hheld x hxo
    obtain rfl : b = c := by omega
    exact hu
  · intro b hb
    have hlt := p.dataStartLba_add_lt hb
    have hx : (UInt32.ofNat (p.sb.dataStartLba + b)).toNat = p.sb.dataStartLba + b :=
      UInt32.toNat_ofNat_of_lt' (hlt.trans (by decide))
    have hbit : ∀ v : Vol p, v.blockUsed b = true ↔ v.Holds (UInt32.ofNat (p.sb.dataStartLba + b)) := by
      intro v
      refine ⟨fun hu => ⟨b, hb, hu, hx⟩, ?_⟩
      rintro ⟨c, -, hu, hc⟩
      obtain rfl : b = c := by omega
      exact hu
    rw [hbit, hbit, hrel.holds_iff, hiff]
    refine and_congr_right fun _ => not_congr ⟨fun h => ⟨_, hx, h⟩, ?_⟩
    rintro ⟨y, hy, hyo⟩
    obtain rfl : y = UInt32.ofNat (p.sb.dataStartLba + b) := UInt32.toNat_inj.mp (hy.trans hx.symm)
    exact hyo

/-- Three bytes are written to a file of a blank volume: the write takes block 0, and `inode_release`
gives it back. -/
theorem inodeRelease_clears_first :
    ∃ s : FileHistory Partition.smallest,
      (fileHistories Partition.smallest 2).Reachable FileHistory.Spared s ∧ 0 ∈ s.allocated ∧
        (s.vol.inodeRelease 2 s.file.fdInode).blockUsed 0 ≠ true := by
  set s₀ : FileHistory Partition.smallest := ⟨Vol.blank _, ⟨0, Inode.inodeInit 2⟩, ∅⟩
  have hsome : (s₀.exec (.write ⟨true, true, Bytes.ofList [1, 2, 3], 3⟩)).map
      (fun s => s.file.fdInode.iSectors 0) = some (UInt32.ofNat Partition.smallest.sb.dataStartLba) := by
    decide +kernel
  obtain ⟨s, hs, hsec⟩ := Option.map_eq_some_iff.mp hsome
  have hinit : (fileHistories Partition.smallest 2).Reachable FileHistory.Spared s₀ := .init ⟨rfl, rfl⟩
  have hok : FileHistory.Spared s₀ (.write ⟨true, true, Bytes.ofList [1, 2, 3], 3⟩) := trivial
  have hreach := hinit.step hok hs
  obtain ⟨hiff, -, hclear, -⟩ := inodeRelease_clears_allocated 2 (by decide) s hreach s.file.fdInode
    ⟨rfl, rfl, fun _ _ => rfl⟩
  have hmem : 0 ∈ s.allocated := by
    refine (hiff 0).mpr ⟨s.file.fdInode.iSectors 0, ?_, ?_, .inl ⟨0, loadBlocks_of_lt (by omega)⟩⟩
    · rw [hsec]
      decide
    · rw [hsec]
      decide
  refine ⟨s, hreach, hmem, fun hu => ?_⟩
  exact ((hclear 0 (by decide)).mp hu).2 hmem

end SimpleOs
