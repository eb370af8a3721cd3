import SimpleOs.Fs.Fd.Slots

/-!
# Writers

`write_deny` is to keep a file from being opened for writing twice. But `file_open` leaves the slot of
an opening that it refuses in use, with its flag, and `file_close` clears the mark whoever closes. What
keeps a file to a single writer is that nobody asks to write it while a slot is open for writing.
-/

namespace SimpleOs

open Base Function Option

/-! ### The counts of inodes, with forks and closes in any order -/

/-- The count of each inode is at least the number of slots that hold it, and at most `m` more. -/
structure SlotsCounted (table : Nat → File) (inode : Nat → Option Inode) (m : Nat) : Prop where
  slot : ∀ g b, (table g).fdInode = some b → g < maxFileOpen ∧ ∃ a, b = .inode (.kernel a)
  low : ∀ a, slotShares table (fun _ => 0) a ≤ openCnts (inode a)
  high : ∀ a, openCnts (inode a) ≤ slotShares table (fun _ => 0) a + m

/-- The slot is open for writing on the inode with number `n`. -/
def Writer (table : Nat → File) (inode : Nat → Option Inode) (g : Nat) (n : UInt32) : Prop :=
  FdState.wantsWrite (table g).fdFlag = true ∧
    ∃ a i, (table g).fdInode = some (.inode (.kernel a)) ∧ inode a = some i ∧ i.iNo = n

namespace SlotsCounted

variable {table : Nat → File} {inode inode' : Nat → Option Inode} {g a m : Nat}

variable (h : SlotsCounted table inode m)
include h

lemma exists_inode (hg : (table g).fdInode = some (.inode (.kernel a))) :
    ∃ i, inode a = some i := by
  have hlow := (one_le_slotShares (h.slot g _ hg).1 hg).trans (h.low a)
  cases hi : inode a with
  | none => simp [hi, openCnts] at hlow
  | some i => exact ⟨i, rfl⟩

/-- One slot and the inodes change, and the counts of the inodes with it. -/
lemma set (hlt : g < maxFileOpen) (hok : ∀ b, file.fdInode = some b → ∃ a, b = .inode (.kernel a))
    (hcounts : ∀ a, openCnts (inode' a) + slotShare (table g) 0 a =
      openCnts (inode a) + slotShare file 0 a) :
    SlotsCounted (update table g file) inode' m := by
  have hall : ∀ a, slotShares (update table g file) (fun _ => 0) a +
      slotShare (table g) 0 a = slotShares table (fun _ => 0) a + slotShare file 0 a := by
    intro a
    have hupdate := slotShares_update table (fun _ => 0) hlt file 0 a
    rwa [show update (fun _ : Nat => 0) g 0 = fun _ => 0 from update_eq_self g _] at hupdate
  refine ⟨fun g' b hb => ?_, fun a => ?_, fun a => ?_⟩
  · by_cases hg : g' = g
    · rw [hg, update_self] at hb
      exact ⟨hg ▸ hlt, hok b hb⟩
    · rw [update_of_ne hg] at hb
      exact h.slot g' b hb
  · have h1 := hall a
    have h2 := hcounts a
    have h3 := h.low a
    omega
  · have h1 := hall a
    have h2 := hcounts a
    have h3 := h.high a
    omega

lemma congr
    (hsame : ∀ g, (table' g).fdInode = (table g).fdInode) : SlotsCounted table' inode m := by
  have hshares : slotShares table' (fun _ => 0) = slotShares table fun _ => 0 := by
    funext a
    simp only [slotShares, slotShare, hsame]
  refine ⟨fun g b hb => h.slot g b ((hsame g).symm.trans hb), ?_, ?_⟩
  · rw [hshares]
    exact h.low
  · rw [hshares]
    exact h.high

lemma share (hcounts : ∀ a, openCnts (inode a) ≤ openCnts (inode' a) ∧
      openCnts (inode' a) ≤ openCnts (inode a) + 1) : SlotsCounted table inode' (m + 1) := by
  refine ⟨h.slot, fun a => (h.low a).trans (hcounts a).1, fun a => ?_⟩
  have h1 := (hcounts a).2
  have h2 := h.high a
  omega

lemma count_le (hm : m ≤ 5120) (hi : inode a = some i) : i.iOpenCnts.toNat ≤ 5152 := by
  have hshares := slotShares_le table (fun _ => 0) a
  have hhigh := h.high a
  rw [hi] at hhigh
  have hmax : maxFileOpen = 32 := rfl
  simp only [openCnts, Finset.sum_const_zero] at hhigh hshares
  omega

lemma writer_iff (h' : SlotsCounted table' inode' m') (hsame : table' g = table g)
    (hiNo : ∀ a i i', inode a = some i → inode' a = some i' → i'.iNo = i.iNo) :
    Writer table' inode' g n ↔ Writer table inode g n := by
  simp only [Writer, hsame]
  refine and_congr_right fun _ => ⟨?_, ?_⟩
  · rintro ⟨a, i', ha, hi', rfl⟩
    obtain ⟨i, hi⟩ := h.exists_inode ha
    exact ⟨a, i, ha, hi, (hiNo a i i' hi hi').symm⟩
  · rintro ⟨a, i, ha, hi, rfl⟩
    obtain ⟨i', hi'⟩ := h'.exists_inode (hsame ▸ ha)
    exact ⟨a, i', ha, hi', hiNo a i i' hi hi'⟩

end SlotsCounted

/-! ### The invariant -/

namespace FdState

/-- The slot `g` is open for writing on the inode with number `n`, as the process `p` sees it. -/
def Writes (s : FdState) (p g : Nat) (n : UInt32) : Prop :=
  wantsWrite (s.fileTable g).fdFlag = true ∧
    ∃ a i, (s.fileTable g).fdInode = some (.inode a) ∧ (s.cache p).inode a = some i ∧ i.iNo = n

/-- At most one slot is open for writing on each inode number. -/
def SingleWriter (s : FdState) : Prop :=
  ∀ p ∈ s.procs, ∀ n g g', s.Writes p g n → s.Writes p g' n → g = g'

/-- The number is taken in the bitmap of inodes. -/
def Allocated (s : FdState) (k : Nat) : Prop := k < 4096 ∧ s.inodeBitmap.bitmapScanTest k = true

/-- All inodes are the kernel's and their counts cover the slots; what is open for writing has a number
that is taken, and no other slot with it. -/
structure WriterInv (s : FdState) (D : Finset (Nat × Nat)) : Prop where
  counted : SlotsCounted s.fileTable s.kernelInode D.card
  list : ∀ y ∈ s.openInodes, ∃ a, y = .kernel a
  len : s.inodeBitmap.btmpBytesLen = 512
  named : ∀ path n, s.names path = .file n → s.Allocated n
  alloc : ∀ g n, Writer s.fileTable s.kernelInode g n → ∃ k, n = UInt32.ofNat k ∧ s.Allocated k
  single : ∀ n g g', Writer s.fileTable s.kernelInode g n → Writer s.fileTable s.kernelInode g' n → g = g'
  within : D ⊆ pids ×ˢ Finset.Ico 3 8

variable {s s' : FdState} {p fd g : Nat}

section

variable (h : s.WriterInv D)
include h

lemma WriterInv.writes_iff : s.Writes p g n ↔ Writer s.fileTable s.kernelInode g n := by
  refine and_congr_right fun _ => ⟨?_, ?_⟩
  · rintro ⟨a, i, ha, hi, hn⟩
    obtain ⟨-, b, hb⟩ := h.counted.slot g _ ha
    obtain rfl := FdPtr.inode.inj hb
    exact ⟨b, i, ha, hi, hn⟩
  · tauto

lemma WriterInv.singleWriter : s.SingleWriter :=
  fun _ _ n g g' hg hg' => h.single n g g' (h.writes_iff.mp hg) (h.writes_iff.mp hg')

/-- The invariant is about the slots, the inodes and the names only. -/
lemma WriterInv.congr (htable : s'.fileTable = s.fileTable)
    (hinode : s'.kernelInode = s.kernelInode) (hlist : s'.openInodes = s.openInodes)
    (hnames : s'.names = s.names) (hbitmap : s'.inodeBitmap = s.inodeBitmap) : s'.WriterInv D := by
  refine ⟨?_, ?_, ?_, ?_, ?_, ?_, h.within⟩
  · rw [htable, hinode]
    exact h.counted
  · rw [hlist]
    exact h.list
  · rw [hbitmap]
    exact h.len
  · rw [hnames]
    unfold Allocated
    rw [hbitmap]
    exact h.named
  · rw [htable, hinode]
    unfold Allocated
    rw [hbitmap]
    exact h.alloc
  · rw [htable, hinode]
    exact h.single

/-- One slot changes. What it is open for, if for writing, has a number that is taken and that no other
slot is open for. -/
lemma WriterInv.set (htable : s'.fileTable = update s.fileTable g file)
    (hcounted : SlotsCounted s'.fileTable s'.kernelInode D'.card)
    (hiNo : ∀ a i i', s.kernelInode a = some i → s'.kernelInode a = some i' → i'.iNo = i.iNo)
    (hlist : ∀ y ∈ s'.openInodes, ∃ a, y = .kernel a)
    (hlen : s'.inodeBitmap.btmpBytesLen = 512)
    (hkeep : ∀ k, s.Allocated k → s'.Allocated k)
    (hnamed : ∀ path n, s'.names path = .file n → s'.Allocated n)
    (hnew : ∀ n, Writer s'.fileTable s'.kernelInode g n →
      (∃ k, n = UInt32.ofNat k ∧ s'.Allocated k) ∧
        ∀ g', g' ≠ g → ¬Writer s.fileTable s.kernelInode g' n)
    (hwithin : D' ⊆ pids ×ˢ Finset.Ico 3 8) : s'.WriterInv D' := by
  have hother : ∀ g' n, g' ≠ g →
      (Writer s'.fileTable s'.kernelInode g' n ↔ Writer s.fileTable s.kernelInode g' n) := by
    intro g' n hne
    refine h.counted.writer_iff hcounted ?_ hiNo
    rw [htable, update_of_ne hne]
  refine ⟨hcounted, hlist, hlen, hnamed, fun g' n hw => ?_, fun n g1 g2 h1 h2 => ?_, hwithin⟩
  · by_cases hg : g' = g
    · exact (hnew n (hg ▸ hw)).1
    · obtain ⟨k, hk, halloc⟩ := h.alloc g' n ((hother g' n hg).mp hw)
      exact ⟨k, hk, hkeep k halloc⟩
  · by_cases hg1 : g1 = g
    · by_contra hne
      have hg2 : g2 ≠ g := fun heq => hne (hg1.trans heq.symm)
      exact (hnew n (hg1 ▸ h1)).2 g2 hg2 ((hother g2 n hg2).mp h2)
    · by_cases hg2 : g2 = g
      · exact absurd ((hother g1 n hg1).mp h1) ((hnew n (hg2 ▸ h2)).2 g1 hg1)
      · exact h.single n g1 g2 ((hother g1 n hg1).mp h1) ((hother g2 n hg2).mp h2)

end

/-! ### `sys_open` -/

/-- A free slot has been filled with an inode of the kernel, whose count has gone up. -/
structure Filled (s s' : FdState) (g a : Nat) (i : Inode) (flag : UInt32) : Prop where
  free : s.getFreeSlotInGlobal = some g
  table : s'.fileTable = update s.fileTable g ⟨0, flag, some (.inode (.kernel a))⟩
  inode : s'.kernelInode = update s.kernelInode a (some i)
  iNo : ∀ i', s.kernelInode a = some i' → i.iNo = i'.iNo
  count : i.iOpenCnts.toNat = openCnts (s.kernelInode a) + 1
  list : ∀ y ∈ s'.openInodes, ∃ a, y = .kernel a
  procs : s'.procs = s.procs

variable {a : Nat} {i : Inode} {flag : UInt32}

lemma Filled.counted (hf : s.Filled s' g a i flag) (h : s.WriterInv D) :
    SlotsCounted s'.fileTable s'.kernelInode D.card := by
  obtain ⟨-, hlt, hnone⟩ := getFreeSlotInGlobal_eq_some hf.free
  rw [hf.table, hf.inode]
  refine h.counted.set hlt (fun b hb => ⟨a, (some.inj hb).symm⟩) fun a' => ?_
  by_cases haa : a' = a
  · subst haa
    simp [slotShare, hnone, openCnts, hf.count]
  · simp [slotShare, hnone, haa, Ne.symm haa]

lemma Filled.iNo_eq (hf : s.Filled s' g a i flag) :
    ∀ a i i', s.kernelInode a = some i → s'.kernelInode a = some i' → i'.iNo = i.iNo := by
  rw [hf.inode]
  exact iNo_update fun i1 i2 h1 h2 => by rw [← some.inj h2, hf.iNo i1 h1]

lemma WriterInv.filled (h : s.WriterInv D) (hf : s.Filled s' g a i flag)
    (hlen : s'.inodeBitmap.btmpBytesLen = 512) (hkeep : ∀ k, s.Allocated k → s'.Allocated k)
    (hnamed : ∀ path n, s'.names path = .file n → s'.Allocated n)
    (hnew : wantsWrite flag = true → (∃ k, i.iNo = UInt32.ofNat k ∧ s'.Allocated k) ∧
      ∀ g', ¬Writer s.fileTable s.kernelInode g' i.iNo) : s'.WriterInv D := by
  refine h.set hf.table (hf.counted h) hf.iNo_eq hf.list hlen hkeep hnamed ?_ h.within
  rintro n ⟨hwrite, b, j, hb, hj, rfl⟩
  rw [hf.table, update_self] at hwrite hb
  obtain rfl : a = b := by simpa using hb
  rw [hf.inode, update_self] at hj
  cases hj
  exact ⟨(hnew hwrite).1, fun g' _ => (hnew hwrite).2 g'⟩

/-- The new slot is a second one for writing, if there is one already. -/
lemma Filled.not_singleWriter (hf : s.Filled s' g a i flag) (h : s.WriterInv D) (hp : p ∈ s.procs)
    (hflag : wantsWrite flag = true) (hg' : Writer s.fileTable s.kernelInode g' i.iNo) :
    ¬s'.SingleWriter := by
  intro hsingle
  obtain ⟨-, -, hnone⟩ := getFreeSlotInGlobal_eq_some hf.free
  have hne : g' ≠ g := by
    rintro rfl
    obtain ⟨-, b, j, hb, -⟩ := hg'
    rw [hnone] at hb
    cases hb
  have hsame : s'.fileTable g' = s.fileTable g' := by rw [hf.table, update_of_ne hne]
  obtain ⟨hwrite, b, j, hb, hj, hn⟩ := (h.counted.writer_iff (hf.counted h) hsame hf.iNo_eq).mpr hg'
  refine hne (hsingle p (hf.procs ▸ hp) i.iNo g' g ⟨hwrite, .kernel b, j, hb, hj, hn⟩
    ⟨?_, .kernel a, i, ?_, ?_, rfl⟩)
  · rw [hf.table, update_self]
    exact hflag
  · rw [hf.table, update_self]
  · show s'.kernelInode a = some i
    rw [hf.inode, update_self]

section

variable (h : s.WriterInv D)
include h

/-- What `file_open` does while all inodes are the kernel's. -/
lemma WriterInv.fileOpen_filled {inodeNo : Nat} {flag : UInt8}
    (hopen : s.fileOpen p inodeNo flag new = some (o, s')) :
    (s.getFreeSlotInGlobal = none ∧ s' = s) ∨
      ∃ g a i, s.Filled s' g a i flag.toUInt32 ∧ s'.names = s.names ∧ s'.inodeBitmap = s.inodeBitmap ∧
        ((s.disk inodeNo).iNo = UInt32.ofNat inodeNo → i.iNo = UInt32.ofNat inodeNo) := by
  obtain ⟨hnone, rfl⟩ | ⟨g, b, c, i, hfree, hinode, hlist, hiNo, hcount, hnumber, s1, rfl, hs'⟩ :=
    fileOpen_kernel h.list (fun _ _ => h.counted.count_le (card_le_of_subset h.within)) hopen
  · exact .inl ⟨hnone, rfl⟩
  refine .inr ⟨g, b, i, ?_⟩
  obtain rfl | rfl := hs'
  · exact ⟨⟨hfree, rfl, kernelInode_withCache hinode, hiNo, hcount, hlist, rfl⟩, rfl, rfl, hnumber⟩
  · have hinst := installed_pcbFdInstall (((s.withCache p c).setSlot g
      ⟨0, flag.toUInt32, some (.inode (.kernel b))⟩).record g (.inode i.iNo)) p g
    refine ⟨⟨hfree, hinst.fileTable, hinst.kernelInode.trans (kernelInode_withCache hinode), hiNo, hcount,
      ?_, hinst.procs⟩, hinst.names, hinst.inodeBitmap, hnumber⟩
    rw [hinst.openInodes]
    exact hlist

lemma WriterInv.not_writer_of_clear (hlt : k < 4096)
    (hclear : s.inodeBitmap.bitmapScanTest k = false) (g : Nat) :
    ¬Writer s.fileTable s.kernelInode g (UInt32.ofNat k) := by
  intro hw
  obtain ⟨j, hj, hjlt, hset⟩ := h.alloc g _ hw
  obtain rfl : k = j := by
    have hnat := congrArg UInt32.toNat hj
    simp only [UInt32.toNat_ofNat'] at hnat
    omega
  rw [hclear] at hset
  cases hset

/-- `file_create` in a kernel thread: the number is new. -/
lemma WriterInv.fileCreate {flag : UInt8} {fate : CreateFate} (hkernel : s.pgdir p = false)
    (hcreate : s.fileCreate p path flag fate new = some (o, s')) : s'.WriterInv D := by
  have hptr : s.newPtr p new = .kernel new := by simp [newPtr, hkernel]
  obtain rfl | ⟨k, s0, hscan, hs0, hs'⟩ := fileCreate_eq_some hcreate
  · exact h
  obtain ⟨hlt, hclear, -⟩ := Bitmap.bitmapScan_one_eq_some hscan
  rw [h.len] at hlt
  obtain rfl : s0 = s := by rw [hs0, Bitmap.bitmapSet_true_false hclear]
  obtain rfl | ⟨g, hfree, rfl | ⟨hnone, s1, c, hs1, hc, hopen, heq⟩⟩ := hs'
  · exact h
  · obtain ⟨-, hlt, hg⟩ := getFreeSlotInGlobal_eq_some hfree
    have hcounted : SlotsCounted (update s0.fileTable g ⟨0, 0, none⟩) s0.kernelInode D.card :=
      h.counted.set hlt (fun b hb => by cases hb) (fun _ => by simp [slotShare, hg])
    refine h.set rfl hcounted iNo_same h.list h.len (fun _ => id) h.named ?_ h.within
    rintro n ⟨-, b, j, hb, -⟩
    simp [setSlot] at hb
  · rw [hptr] at hnone hc hopen heq
    have hnone : s0.kernelInode new = none := hnone
    have hlist : ∀ y ∈ c.openInodes, ∃ a, y = .kernel a := by
      intro y hy
      rw [hopen] at hy
      obtain rfl | hy := List.mem_cons.mp hy
      · exact ⟨new, rfl⟩
      · exact h.list y hy
    have hset : ∀ j, s1.Allocated j ↔ j = k ∨ s0.Allocated j := by
      intro j
      simp only [hs1, Allocated, inodeSync, Bitmap.bitmapScanTest_bitmapSet]
      by_cases hj : j = k
      · simpa [hj] using hlt
      · simp [hj]
    have hkernel : (s1.withCache p c).kernelInode = update s0.kernelInode new
        (some { Inode.inodeInit (UInt32.ofNat k) with iOpenCnts := 1 }) := by
      rw [kernelInode_withCache (s := s1) (by rw [hc, hs1]; rfl), hs1]
      rfl
    have hinst := installed_pcbFdInstall (((s1.withCache p c).setSlot g
      ⟨0, flag.toUInt32, some (.inode (.kernel new))⟩).record g (.inode (UInt32.ofNat k))) p g
    rw [← heq] at hinst
    have hfilled : s0.Filled s' g new { Inode.inodeInit (UInt32.ofNat k) with iOpenCnts := 1 }
        flag.toUInt32 := by
      refine ⟨hfree, hinst.fileTable.trans ?_, hinst.kernelInode.trans hkernel, fun i' hi' => ?_, ?_, ?_,
        hinst.procs.trans ?_⟩
      · rw [hs1]
        rfl
      · rw [hnone] at hi'
        cases hi'
      · rw [hnone]
        rfl
      · rw [hinst.openInodes]
        exact hlist
      · rw [hs1]
        rfl
    have halloc : ∀ j, s'.Allocated j ↔ j = k ∨ s0.Allocated j := by
      intro j
      rw [← hset, Allocated, hinst.inodeBitmap]
      rfl
    refine h.filled hfilled ?_ (fun j hj => (halloc j).mpr (.inr hj)) (fun path' j hj => ?_)
      fun _ => ⟨⟨k, rfl, (halloc k).mpr (.inl rfl)⟩, h.not_writer_of_clear hlt hclear⟩
    · rw [hinst.inodeBitmap, ← h.len, hs1]
      rfl
    · rw [halloc]
      have hj : update s0.names path (.file k) path' = .file j := by
        rw [← hj, hinst.names, hs1]
        rfl
      by_cases hpath : path' = path
      · rw [hpath, update_self] at hj
        exact .inl (Lookup.file.inj hj).symm
      · rw [update_of_ne hpath] at hj
        exact .inr (h.named path' j hj)

/-! ### `sys_close` and `sys_fork` -/

lemma WriterInv.setPos (g : Nat) (pos : UInt32) :
    (s.setSlot g { s.fileTable g with fdPos := pos }).WriterInv D := by
  have hsame : ∀ g', ((s.setSlot g { s.fileTable g with fdPos := pos }).fileTable g').fdInode =
      (s.fileTable g').fdInode ∧ ((s.setSlot g { s.fileTable g with fdPos := pos }).fileTable g').fdFlag =
      (s.fileTable g').fdFlag := by
    intro g'
    by_cases hg : g' = g
    · simp [setSlot, hg]
    · simp [setSlot, hg]
  have hwriter : ∀ g' n, Writer (s.setSlot g { s.fileTable g with fdPos := pos }).fileTable
      s.kernelInode g' n ↔ Writer s.fileTable s.kernelInode g' n := by
    intro g' n
    simp only [Writer, hsame]
  exact ⟨h.counted.congr fun g' => (hsame g').1, h.list, h.len, h.named,
    fun g' n hw => h.alloc g' n ((hwriter g' n).mp hw),
    fun n g1 g2 h1 h2 => h.single n g1 g2 ((hwriter g1 n).mp h1) ((hwriter g2 n).mp h2), h.within⟩

lemma WriterInv.fileClose (hclose : s.fileClose p g = some s') : s'.WriterInv D := by
  cases hb : (s.fileTable g).fdInode with
  | none => simp [FdState.fileClose, hb] at hclose
  | some b =>
    obtain ⟨hlt, a, rfl⟩ := h.counted.slot g _ hb
    obtain ⟨i, hi⟩ := h.counted.exists_inode hb
    have hpos : 1 ≤ i.iOpenCnts.toNat := by
      have hlow := (one_le_slotShares hlt hb).trans (h.counted.low a)
      rwa [hi] at hlow
    obtain ⟨c, x, rfl, hkernel, hcount, hiNo, hlist⟩ := fileClose_kernel hb hi hpos hclose
    have hcounted : SlotsCounted (update s.fileTable g { s.fileTable g with fdInode := none })
        (s.withCache p c).kernelInode D.card := by
      rw [hkernel]
      refine h.counted.set hlt (fun b hb => by cases hb) fun a' => ?_
      by_cases haa : a' = a
      · subst haa
        rw [update_self, hi, slotShare, if_pos hb]
        exact hcount
      · simp [slotShare, hb, haa, Ne.symm haa]
    refine h.set rfl hcounted ?_ (fun y hy => h.list y (hlist y hy)) h.len (fun _ => id) h.named ?_ h.within
    · show ∀ a i i', _ → (s.withCache p c).kernelInode a = some i' → _
      rw [hkernel]
      exact iNo_update hiNo
    · rintro n ⟨-, b, j, hb, -⟩
      simp [setSlot] at hb

lemma WriterInv.closeSlot
    (hclose : (if s.isPipe g then s.dropPipe g else s.fileClose p g) = some s') : s'.WriterInv D := by
  split_ifs at hclose
  · simp only [dropPipe] at hclose
    split_ifs at hclose
    · split at hclose
      · rename_i a ha
        obtain ⟨-, b, hb⟩ := h.counted.slot g _ ha
        cases hb
      · cases hclose
    · cases hclose
      exact h.setPos g _
  · exact h.fileClose hclose

lemma WriterInv.sysClose {fd : Int} (hclose : s.sysClose p fd = some (o, s')) : s'.WriterInv D := by
  by_cases hfd : 2 < fd
  · obtain ⟨g, s1, -, -, hs1, rfl⟩ := sysClose_eq_some hfd hclose
    exact (h.closeSlot hs1).congr rfl rfl rfl rfl rfl
  · rw [FdState.sysClose, if_neg hfd] at hclose
    cases hclose
    exact h

/-- One more descriptor may have been counted in an inode. -/
lemma WriterInv.share (hx : x ∉ D) (hmem : x ∈ pids ×ˢ Finset.Ico 3 8)
    (hcounts : ∀ a, openCnts (s.kernelInode a) ≤ openCnts (inode a) ∧
      openCnts (inode a) ≤ openCnts (s.kernelInode a) + 1)
    (hiNo : ∀ a i i', s.kernelInode a = some i → inode a = some i' → i'.iNo = i.iNo)
    (htable : s'.fileTable = s.fileTable) (hinode : s'.kernelInode = inode)
    (hlist : s'.openInodes = s.openInodes) (hnames : s'.names = s.names)
    (hbitmap : s'.inodeBitmap = s.inodeBitmap) : s'.WriterInv (insert x D) := by
  have hcounted := h.counted.share hcounts
  have hwriter : ∀ g n, Writer s.fileTable inode g n ↔ Writer s.fileTable s.kernelInode g n :=
    fun g n => h.counted.writer_iff hcounted rfl hiNo
  have h' : ({ s with kernelInode := inode } : FdState).WriterInv (insert x D) :=
    ⟨by rwa [Finset.card_insert_of_notMem hx], h.list, h.len, h.named,
      fun g n hw => h.alloc g n ((hwriter g n).mp hw),
      fun n g1 g2 h1 h2 => h.single n g1 g2 ((hwriter g1 n).mp h1) ((hwriter g2 n).mp h2),
      Finset.insert_subset hmem h.within⟩
  exact h'.congr htable hinode hlist hnames hbitmap

/-- A round of the loop in `sys_fork`. -/
lemma WriterInv.shareFd (hx : x ∉ D)
    (hmem : x ∈ pids ×ˢ Finset.Ico 3 8) (hshare : s.shareFd p fd = some s') :
    s'.WriterInv (insert x D) := by
  -- rounds that do not change an inode
  have hsame : ∀ s : FdState, s.WriterInv D → s.WriterInv (insert x D) := fun s h =>
    h.share hx hmem (fun a => ⟨le_rfl, Nat.le_succ _⟩) iNo_same rfl rfl rfl rfl rfl
  simp only [FdState.shareFd] at hshare
  split at hshare
  · cases hshare
    exact hsame s h
  · rename_i g hg
    split_ifs at hshare
    · cases hshare
      exact hsame _ (h.setPos g _)
    · split at hshare
      · rename_i b hb
        obtain ⟨-, a, heq⟩ := h.counted.slot g _ hb
        obtain rfl := FdPtr.inode.inj heq
        obtain ⟨i, hi, rfl⟩ := map_eq_some_iff.mp hshare
        have hi : s.kernelInode a = some i := hi
        have hsucc := toNat_succ (h.counted.count_le (card_le_of_subset h.within) hi)
        refine h.share hx hmem (fun a' => ?_) (iNo_update fun i1 i2 h1 h2 => ?_) rfl
          (kernelInode_withCache rfl) rfl rfl rfl
        · by_cases haa : a' = a
          · subst haa
            rw [update_self, hi]
            simp only [openCnts, hsucc]
            omega
          · rw [update_of_ne haa]
            exact ⟨le_rfl, Nat.le_succ _⟩
        · rw [← some.inj h2, some.inj (hi.symm.trans h1)]
      · cases hshare

end

lemma WriterInv.sysFork (h : s.WriterInv s.live) (hp : p ∈ s.procs)
    (hchild : child ∉ s.procs) (hpid : child ∈ pids) (hfork : s.sysFork p child = some s') :
    s'.WriterInv s'.live := by
  refine (sysFork_induction (fun s D => s.WriterInv D) (fun _ _ _ h => h.congr rfl rfl rfl rfl rfl)
    (fun s s' D fd h hp hc _ hs => h.shareFd hc ?_ hs) hp hchild (h.congr rfl rfl rfl rfl rfl) hfork).1
  have hmem := h.within hp
  rw [Finset.mem_product] at hmem ⊢
  exact ⟨hpid, hmem.2⟩

lemma writerInv_of_init (h : fdSystem.init s) : s.WriterInv s.live := by
  obtain ⟨hslots, -, hprocs, hkernel, -, hlist, -, hlen, hnames⟩ := h
  have hnone : ∀ g n, ¬Writer s.fileTable s.kernelInode g n := by
    rintro g n ⟨-, a, i, ha, -⟩
    rw [hslots] at ha
    cases ha
  refine ⟨⟨fun g b hb => ?_, fun a => ?_, fun a => ?_⟩, fun y hy => ?_, hlen, hnames,
    fun g n hw => absurd hw (hnone g n), fun n g _ hw => absurd hw (hnone g n),
    Finset.product_subset_product_left hprocs⟩
  · rw [hslots] at hb
    cases hb
  · simp [slotShares, slotShare, hslots]
  · rw [hkernel]
    exact Nat.zero_le _
  · rw [hlist] at hy
    cases hy

end FdState

/-! ### Runs -/

/-- The calls on files: `sys_open`, `sys_close` and `sys_fork`. Files are created by kernel threads,
because the inode that a user process creates is in its own heap, where no other process can follow
`open_inodes`. A file is opened for writing only if its inode on disk has its number, which `inode_sync`
does not see to from the number 256 on. -/
def FdAct.OnFiles (s : FdState) : FdAct → Prop
  | .sysOpen p path flags _ _ =>
    (s.names path = .absent → flags &&& oCreat ≠ 0 → s.pgdir p = false) ∧
      ∀ n, s.names path = .file n → FdState.wantsWrite flags.toUInt32 = true →
        (s.disk n).iNo = UInt32.ofNat n
  | .sysClose .. => True
  | .sysFork .. => True
  | _ => False

/-- Nobody asks to write a file while a slot is open for writing on it, unless all slots are in use. -/
def WriteSafe (s : FdState) : FdAct → Prop
  | .sysOpen p path flags _ _ =>
    ∀ n, s.names path = .file n → flags &&& oCreat = 0 → FdState.wantsWrite flags.toUInt32 = true →
      s.getFreeSlotInGlobal ≠ none → ∀ g, ¬s.Writes p g (UInt32.ofNat n)
  | _ => True

/-- `sys_open` keeps the invariant if it is safe, and makes a second writer if it is not. -/
lemma FdState.WriterInv.sysOpen {s s' : FdState} {p : Nat} {flags : UInt8}
    {fate : FdState.CreateFate} (h : s.WriterInv s.live) (hp : p ∈ s.procs)
    (ha : (FdAct.sysOpen p path flags fate new).OnFiles s)
    (hopen : s.sysOpen p path flags fate new = some (o, s')) :
    (WriteSafe s (.sysOpen p path flags fate new) → s'.WriterInv s'.live) ∧
      (¬WriteSafe s (.sysOpen p path flags fate new) → ¬s'.SingleWriter) := by
  have hsafe : s'.WriterInv s.live → s'.procs = s.procs →
      WriteSafe s (.sysOpen p path flags fate new) →
      (WriteSafe s (.sysOpen p path flags fate new) → s'.WriterInv s'.live) ∧
        (¬WriteSafe s (.sysOpen p path flags fate new) → ¬s'.SingleWriter) := by
    intro h' hprocs hs
    refine ⟨fun _ => ?_, fun hns => absurd hs hns⟩
    rw [live, hprocs]
    exact h'
  rw [FdState.sysOpen] at hopen
  split at hopen
  · rename_i hrefused
    cases hopen
    refine hsafe h rfl fun n hn => ?_
    rw [hrefused] at hn
    cases hn
  · rename_i habsent
    have hs : WriteSafe s (.sysOpen p path flags fate new) := fun n hn => by
      rw [habsent] at hn
      cases hn
    split_ifs at hopen with hcreat
    · cases hopen
      exact hsafe h rfl hs
    · exact hsafe (h.fileCreate (ha.1 habsent hcreat) hopen) (procs_fileCreate hopen) hs
  · rename_i inodeNo hname
    split_ifs at hopen with hcreat
    · obtain ⟨hnone, rfl⟩ | ⟨g, a, i, hf, hnames, hbitmap, hnumber⟩ := h.fileOpen_filled hopen
      · exact hsafe h rfl fun _ _ _ _ hfree => absurd hnone hfree
      · have hiNo (hwrite : wantsWrite flags.toUInt32 = true) : i.iNo = UInt32.ofNat inodeNo :=
          hnumber (ha.2 inodeNo hname hwrite)
        have halloc : ∀ k, s'.Allocated k ↔ s.Allocated k := fun k => by
          rw [Allocated, hbitmap]
          rfl
        refine ⟨fun hs => ?_, fun hns hsingle => hns fun n hn _ hwrite _ g' hg' => ?_⟩
        · rw [live, hf.procs]
          refine h.filled hf (hbitmap ▸ h.len) (fun k => (halloc k).mpr) (fun path' k hk => ?_)
            fun hwrite => ⟨⟨inodeNo, hiNo hwrite, (halloc _).mpr (h.named path _ hname)⟩, fun g' hg' => ?_⟩
          · rw [halloc]
            exact h.named path' k (hnames ▸ hk)
          · rw [hiNo hwrite] at hg'
            exact hs inodeNo hname hcreat hwrite (by simp [hf.free]) g' (h.writes_iff.mpr hg')
        · obtain rfl := Lookup.file.inj (hname.symm.trans hn)
          have hwriter : Writer s.fileTable s.kernelInode g' i.iNo := by
            rw [hiNo hwrite]
            exact h.writes_iff.mp hg'
          exact hf.not_singleWriter h hp hwrite hwriter hsingle
    · cases hopen
      exact hsafe h rfl fun _ _ hcreat' => absurd hcreat' hcreat

lemma FdState.WriterInv.step {s s' : FdState} {a : FdAct} (h : s.WriterInv s.live)
    (ha : a.OnFiles s) (hstep : fdSystem.step s a s') :
    (WriteSafe s a → s'.WriterInv s'.live) ∧ (¬WriteSafe s a → ¬s'.SingleWriter) := by
  obtain ⟨⟨hcaller, hguard⟩, hexec⟩ := hstep
  cases a with
  | sysOpen p path flags fate new =>
    obtain ⟨⟨o, s1⟩, hopen, rfl⟩ := map_eq_some_iff.mp hexec
    exact h.sysOpen hcaller ha hopen
  | sysClose p fd =>
    obtain ⟨⟨o, s1⟩, hclose, rfl⟩ := map_eq_some_iff.mp hexec
    refine ⟨fun _ => ?_, fun hns => absurd trivial hns⟩
    rw [live, procs_sysClose hclose]
    exact h.sysClose hclose
  | sysFork p child =>
    exact ⟨fun _ => h.sysFork hcaller hguard.2.1 hguard.2.2 hexec, fun hns => absurd trivial hns⟩
  | sysExit | sysPipe | sysLseek | sysRead | sysWrite => exact absurd ha id

/-- As long as nobody asks to write a file while a slot is open for writing on it, no two slots are
open for writing on one inode number; and the first call that does so makes two. -/
theorem single_writer_of_reachable {s : FdState}
    (h : fdSystem.Reachable (fun s a => a.OnFiles s ∧ WriteSafe s a) s) :
    s.SingleWriter ∧
      ∀ a s', a.OnFiles s → fdSystem.step s a s' → (s'.SingleWriter ↔ WriteSafe s a) := by
  have hinv : s.WriterInv s.live := h.invariant (fun s : FdState => s.WriterInv s.live)
    (fun _ => FdState.writerInv_of_init) (fun _ _ _ hs hok hstep => (hs.step hok.1 hstep).1 hok.2)
  refine ⟨hinv.singleWriter, fun a s' ha hstep => ?_⟩
  obtain ⟨hsafe, hunsafe⟩ := hinv.step ha hstep
  exact ⟨fun hsingle => by_contra fun hns => hunsafe hns hsingle, fun hs => (hsafe hs).singleWriter⟩

/-- The init process opens `/f` for writing and then once more for reading. -/
theorem single_writer_reader :
    ∃ s : FdState, s.Writes 1 3 1 ∧ s.fdTable 1 4 = some 4 ∧ s.SingleWriter := by
  have hrun : ((FdAct.sysOpen 1 [47, 102] oWronly.toUInt8 .done 0).exec .mounted).bind (fun s₁ =>
      ((FdAct.sysOpen 1 [47, 102] 0 .done 1).exec s₁).map fun s =>
        ((decide (1 ∈ s₁.procs), s.fdTable 1 4), FdState.wantsWrite (s.fileTable 3).fdFlag,
          (s.fileTable 3).fdInode, (s.kernelInode 0).map (·.iNo))) =
      some ((true, some 4), true, some (.inode (.kernel 0)), some 1) := by
    decide +kernel
  obtain ⟨s₁, hs₁, hrun⟩ := bind_eq_some_iff.mp hrun
  obtain ⟨s, hs, hrun⟩ := map_eq_some_iff.mp hrun
  simp only [Prod.mk.injEq, decide_eq_true_eq, map_eq_some_iff] at hrun
  obtain ⟨⟨hproc, hfd⟩, hwrite, hslot, i, hi, hiNo⟩ := hrun
  have h₁ : fdSystem.Reachable (fun s a => a.OnFiles s ∧ WriteSafe s a) s₁ := by
    have hfiles : (FdAct.sysOpen 1 [47, 102] oWronly.toUInt8 .done 0).OnFiles .mounted :=
      ⟨fun habsent => absurd habsent (by decide), fun _ _ _ => rfl⟩
    refine (System.Reachable.init init_mounted).step ⟨hfiles, ?_⟩ ⟨⟨by decide, trivial⟩, hs₁⟩
    rintro n - - - - g ⟨-, a, j, ha, -⟩
    cases ha
  have hfiles : (FdAct.sysOpen 1 [47, 102] 0 .done 1).OnFiles s₁ :=
    ⟨fun _ hcreat => absurd rfl hcreat, fun _ _ hw => absurd hw (by decide)⟩
  have h₂ := h₁.step ⟨hfiles, fun _ _ _ hw => absurd hw (by decide)⟩ ⟨⟨hproc, trivial⟩, hs⟩
  exact ⟨s, ⟨hwrite, .kernel 0, i, hslot, hi, hiNo⟩, hfd, (single_writer_of_reachable h₂).1⟩

/-- The init process opens `/f` for writing twice. The second call is refused, but leaves the slot 4
open for writing. -/
theorem not_single_writer_of_refused :
    ¬∀ s, fdSystem.Reachable (fun _ a => match a with
      | .sysOpen .. | .sysClose .. | .sysFork .. => True
      | _ => False) s → s.SingleWriter := by
  intro hall
  have hrun : ((FdState.play (fun _ a => match a with
        | .sysOpen .. => true
        | _ => false) [.sysOpen 1 [47, 102] oWronly.toUInt8 .done 0,
          .sysOpen 1 [47, 102] oWronly.toUInt8 .done 1]).map
      fun s => ((decide (1 ∈ s.procs), (s.kernelInode 0).map (·.iNo)),
        (FdState.wantsWrite (s.fileTable 3).fdFlag, (s.fileTable 3).fdInode),
        FdState.wantsWrite (s.fileTable 4).fdFlag, (s.fileTable 4).fdInode)) =
      some ((true, some 1), (true, some (.inode (.kernel 0))), true, some (.inode (.kernel 0))) := by
    decide +kernel
  obtain ⟨s, hs, hrun⟩ := map_eq_some_iff.mp hrun
  simp only [Prod.mk.injEq, decide_eq_true_eq, map_eq_some_iff] at hrun
  obtain ⟨⟨hproc, i, hi, hiNo⟩, ⟨hwrite₃, hslot₃⟩, hwrite₄, hslot₄⟩ := hrun
  have hsingle := hall s (reachable_of_fdPlay (fun s a hok => by
    cases a with
    | sysOpen => exact trivial
    | sysFork | sysClose | sysPipe | sysExit | sysLseek | sysRead | sysWrite => cases hok) hs)
  have heq := hsingle 1 hproc 1 3 4 ⟨hwrite₃, .kernel 0, i, hslot₃, hi, hiNo⟩
    ⟨hwrite₄, .kernel 0, i, hslot₄, hi, hiNo⟩
  exact absurd heq (by decide)

end SimpleOs
