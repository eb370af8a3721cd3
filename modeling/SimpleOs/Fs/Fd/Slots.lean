import Mathlib
import SimpleOs.Fs.Fd.Refs

/-!
# Slots and what they hold

What has to be true of `file_table`, of the inodes in memory and of the pipes, given how many
descriptors refer to each slot, and the changes that keep it true. The number in an inode is the number
of descriptors that refer to its slots, where a slot without a descriptor counts as one.
-/

namespace SimpleOs

open Base Function Option

/-- What a slot adds to the count of the inode at `a`, if it holds it and `n` descriptors refer to it. -/
def slotShare (file : File) (n a : Nat) : Nat :=
  if file.fdInode = some (.inode (.kernel a)) then max 1 n else 0

/-- What all slots add to the count of the inode at `a`. -/
def slotShares (table : Nat → File) (r : Nat → Nat) (a : Nat) : Nat :=
  ∑ g ∈ Finset.range maxFileOpen, slotShare (table g) (r g) a

/-- How often the inode at an address is open. -/
def openCnts : Option Inode → Nat
  | none => 0
  | some i => i.iOpenCnts.toNat

lemma openCnts_close {i j : Inode} (hpos : 1 ≤ i.iOpenCnts.toNat) (hj : j.iOpenCnts = i.iOpenCnts - 1) :
    openCnts (if i.iOpenCnts - 1 = 0 then none else some j) + 1 = i.iOpenCnts.toNat := by
  have hsub := FdState.toNat_sub_one hpos
  split_ifs with hzero
  · rw [hzero, UInt32.toNat_zero] at hsub
    show 0 + 1 = _
    omega
  · show j.iOpenCnts.toNat + 1 = _
    rw [hj]
    omega

/-- What a slot to which `n` descriptors refer must be like. -/
def SlotOk (file : File) (inode : Nat → Option Inode) (pipe : Nat → Option UInt32) (o : Opening)
    (n : Nat) : FdPtr → Prop
  | .page a => file.fdFlag = pipeFlag ∧ o.target = .pipe a ∧ pipe a ≠ none ∧
      n ≤ file.fdPos.toNat ∧ file.fdPos.toNat ≤ n + 2
  | .inode (.kernel a) => file.fdFlag ≠ pipeFlag ∧ ∃ i, inode a = some i ∧ o.target = .inode i.iNo
  | .inode (.user _) => False

/-- The slots, with the number `r` of descriptors that refer to each. -/
structure SlotsOk (table : Nat → File) (inode : Nat → Option Inode) (pipe : Nat → Option UInt32)
    (o : Nat → Opening) (r : Nat → Nat) : Prop where
  used : ∀ g, 0 < r g → (table g).fdInode ≠ none
  slot : ∀ g b, (table g).fdInode = some b → g < maxFileOpen ∧ SlotOk (table g) inode pipe (o g) (r g) b
  inj : ∀ g g' a, (table g).fdInode = some (.page a) → (table g').fdInode = some (.page a) → g = g'
  counts : ∀ a, openCnts (inode a) = slotShares table r a

/-! ### Sums over the slots -/

lemma sum_update_add {S : Finset Nat} (hg : g ∈ S) (v : Nat) :
    ∑ k ∈ S, update f g v k + f g = ∑ k ∈ S, f k + v := by
  rw [Finset.sum_update_of_mem hg, ← Finset.add_sum_erase S f hg, Finset.sdiff_singleton_eq_erase]
  omega

/-- How a change of one slot changes the shares. -/
lemma slotShares_update (table : Nat → File) (r : Nat → Nat) (hg : g < maxFileOpen)
    (file : File) (n a : Nat) :
    slotShares (update table g file) (update r g n) a + slotShare (table g) (r g) a =
      slotShares table r a + slotShare file n a := by
  have hfun : (fun k => slotShare (update table g file k) (update r g n k) a) =
      update (fun k => slotShare (table k) (r k) a) g (slotShare file n a) := by
    funext k
    by_cases hk : k = g
    · simp [hk]
    · simp [hk]
  have h := sum_update_add (f := fun k => slotShare (table k) (r k) a) (Finset.mem_range.mpr hg)
    (slotShare file n a)
  rw [← hfun] at h
  exact h

lemma one_le_slotShares (hg : g < maxFileOpen)
    (hslot : (table g).fdInode = some (.inode (.kernel a))) : 1 ≤ slotShares table r a := by
  have hshare : 1 ≤ slotShare (table g) (r g) a := by
    rw [slotShare, if_pos hslot]
    exact le_max_left _ _
  exact hshare.trans (Finset.single_le_sum (f := fun k => slotShare (table k) (r k) a)
    (fun _ _ => Nat.zero_le _) (Finset.mem_range.mpr hg))

lemma slotShares_le (table : Nat → File) (r : Nat → Nat) (a : Nat) :
    slotShares table r a ≤ maxFileOpen + ∑ g ∈ Finset.range maxFileOpen, r g := by
  have hle : ∀ g ∈ Finset.range maxFileOpen, slotShare (table g) (r g) a ≤ 1 + r g := by
    intro g _
    simp only [slotShare]
    split_ifs <;> omega
  calc slotShares table r a
      ≤ ∑ g ∈ Finset.range maxFileOpen, (1 + r g) := Finset.sum_le_sum hle
    _ = maxFileOpen + ∑ g ∈ Finset.range maxFileOpen, r g := by
        rw [Finset.sum_add_distrib, Finset.sum_const, Finset.card_range, smul_eq_mul, Nat.mul_one]

lemma iNo_same {inode : Nat → Option Inode} (a : Nat) (i i' : Inode) (hi : inode a = some i)
    (hi' : inode a = some i') : i'.iNo = i.iNo := by
  rw [some.inj (hi.symm.trans hi')]

lemma iNo_update
    (h : ∀ i i', inode a = some i → x = some i' → i'.iNo = i.iNo) (a' : Nat) (i i' : Inode)
    (hi : inode a' = some i) (hi' : update inode a x a' = some i') : i'.iNo = i.iNo := by
  by_cases haa : a' = a
  · subst haa
    rw [update_self] at hi'
    exact h i i' hi hi'
  · rw [update_of_ne haa, hi] at hi'
    rw [some.inj hi']

namespace SlotsOk

variable {o : Nat → Opening} {n : Nat} {file : File}

variable (h : SlotsOk table inode pipe o r)
include h

lemma pipe_ne_none (hg : (table g).fdInode = some (.page a)) : pipe a ≠ none := (h.slot g _ hg).2.2.2.1

/-- One slot is changed, and with it perhaps an inode or a page that no other slot has. -/
lemma set (hlt : g < maxFileOpen) (file : File)
    (inode' : Nat → Option Inode) (pipe' : Nat → Option UInt32) (op : Opening) (n : Nat)
    (hused : 0 < n → file.fdInode ≠ none)
    (hok : ∀ b, file.fdInode = some b → SlotOk file inode' pipe' op n b)
    (hnew : ∀ a, file.fdInode = some (.page a) → ∀ g', (table g').fdInode = some (.page a) → g' = g)
    (hpipe : ∀ g' a, g' ≠ g → (table g').fdInode = some (.page a) → pipe' a ≠ none)
    (hiNo : ∀ a i i', inode a = some i → inode' a = some i' → i'.iNo = i.iNo)
    (hcounts : ∀ a, openCnts (inode' a) + slotShare (table g) (r g) a =
      openCnts (inode a) + slotShare file n a) :
    SlotsOk (update table g file) inode' pipe' (update o g op)
      (update r g n) := by
  have hall : ∀ a, openCnts (inode' a) =
      slotShares (update table g file) (update r g n) a := by
    intro a
    have h1 := slotShares_update table r hlt file n a
    have h2 := hcounts a
    have h3 := h.counts a
    omega
  refine ⟨fun g' hr => ?_, fun g' b hb => ?_, ?_, hall⟩
  · by_cases hg : g' = g
    · subst hg
      rw [update_self] at hr ⊢
      exact hused hr
    · rw [update_of_ne hg] at hr ⊢
      exact h.used g' hr
  · by_cases hg : g' = g
    · subst hg
      rw [update_self] at hb
      simpa only [update_self] using ⟨hlt, hok b hb⟩
    · have hb' := hb
      rw [update_of_ne hg] at hb'
      obtain ⟨hlt', hslot⟩ := h.slot g' b hb'
      refine ⟨hlt', ?_⟩
      simp only [update_of_ne hg]
      -- the other slots keep what they hold
      match b, hslot with
      | .page a, hslot => exact ⟨hslot.1, hslot.2.1, hpipe g' a hg hb', hslot.2.2.2⟩
      | .inode (.kernel a), ⟨hflag, i, hi, htarget⟩ =>
        have hpos := one_le_slotShares (r := update r g n) hlt' hb
        rw [← hall] at hpos
        cases hi' : inode' a with
        | none => simp [hi', openCnts] at hpos
        | some i' => exact ⟨hflag, i', hi', by rw [hiNo a i i' hi hi', htarget]⟩
  · refine unique_of_fresh g h.inj (fun g' a hne hg' => by rwa [update_of_ne hne] at hg') fun g' a hg => ?_
    rw [update_self] at hg
    exact hnew a hg g'

/-- A slot keeps what it holds, while its other fields and the number of its descriptors change. -/
lemma modify (hg : (table g).fdInode = some b)
    (file : File) (hsame : file.fdInode = some b) (inode' : Nat → Option Inode) (n : Nat)
    (hok : SlotOk file inode' pipe (o g) n b)
    (hiNo : ∀ a i i', inode a = some i → inode' a = some i' → i'.iNo = i.iNo)
    (hcounts : ∀ a, openCnts (inode' a) + slotShare (table g) (r g) a =
      openCnts (inode a) + slotShare file n a) :
    SlotsOk (update table g file) inode' pipe o (update r g n) := by
  obtain ⟨hlt, -⟩ := h.slot g b hg
  have hset := h.set hlt file inode' pipe (o g) n (fun _ => by simp [hsame])
    (fun b' hb' => some.inj (hsame.symm.trans hb') ▸ hok)
    (fun a ha g' hg' => h.inj g' g a hg' (hg.trans (hsame.symm.trans ha)))
    (fun _ _ _ => h.pipe_ne_none) hiNo hcounts
  rwa [update_eq_self] at hset

lemma setPos (hg : (table g).fdInode = some (.page a))
    (hle : n ≤ pos.toNat) (hge : pos.toNat ≤ n + 2) :
    SlotsOk (update table g { table g with fdPos := pos }) inode pipe o (update r g n) := by
  obtain ⟨-, hflag, htarget, hpage, -, -⟩ := h.slot g _ hg
  exact h.modify hg { table g with fdPos := pos } hg inode n ⟨hflag, htarget, hpage, hle, hge⟩ iNo_same
    (fun _ => by simp [slotShare, hg])

/-- Nobody refers to a pipe any more, and slot and page are free. -/
lemma freePage (hg : (table g).fdInode = some (.page a)) (hfile : file.fdInode = none) :
    SlotsOk (update table g file) inode (update pipe a none) o
      (update r g 0) := by
  obtain ⟨hlt, -⟩ := h.slot g _ hg
  have hset := h.set hlt file inode (update pipe a none) (o g) 0 (fun hn => absurd hn (by simp))
    (fun b hb => by rw [hfile] at hb; cases hb) (fun a' ha' => by rw [hfile] at ha'; cases ha')
    (fun g' a' hne hg' => by
      have haa : a' ≠ a := fun heq => hne (h.inj g' g a (heq ▸ hg') hg)
      rw [update_of_ne haa]
      exact h.pipe_ne_none hg')
    iNo_same (fun _ => by simp [slotShare, hg, hfile])
  rwa [update_eq_self] at hset

/-- A pipe is put into a free slot. -/
lemma makePipe (hlt : g < maxFileOpen)
    (hg : (table g).fdInode = none) (ha : pipe a = none) (word : UInt32) (serial : Nat) :
    SlotsOk (update table g ⟨2, pipeFlag, some (.page a)⟩) inode
      (update pipe a (some word)) (update o g ⟨serial, .pipe a⟩) r := by
  have hr : r g = 0 := Nat.eq_zero_of_not_pos fun hpos => h.used g hpos hg
  have hold : ∀ g' a', (table g').fdInode = some (.page a') → a' ≠ a := by
    rintro g' a' hg' rfl
    exact h.pipe_ne_none hg' ha
  have hset := h.set hlt ⟨2, pipeFlag, some (.page a)⟩ inode (update pipe a (some word))
    ⟨serial, .pipe a⟩ 0 (fun _ => by simp)
    (fun b hb => by
      cases hb
      exact ⟨rfl, rfl, by simp, Nat.zero_le _, Nat.le_refl 2⟩)
    (fun a' ha' g' hg' => by
      obtain rfl := FdPtr.page.inj (some.inj ha')
      exact absurd rfl (hold g' _ hg'))
    (fun g' a' _ hg' => by
      rw [update_of_ne (hold g' a' hg')]
      exact h.pipe_ne_none hg')
    iNo_same (fun _ => by simp [slotShare, hg])
  rwa [← hr, update_eq_self] at hset

/-- A regular file is put into a free slot, with a count that is one higher. -/
lemma fill (hlt : g < maxFileOpen) (hg : (table g).fdInode = none)
    (hfile : file.fdInode = some (.inode (.kernel a))) (hflag : file.fdFlag ≠ pipeFlag) {i : Inode}
    (hiNo : ∀ i', inode a = some i' → i.iNo = i'.iNo)
    (hcount : i.iOpenCnts.toNat = openCnts (inode a) + 1) (serial : Nat) :
    SlotsOk (update table g file) (update inode a (some i)) pipe
      (update o g ⟨serial, .inode i.iNo⟩) r := by
  have hr : r g = 0 := Nat.eq_zero_of_not_pos fun hpos => h.used g hpos hg
  have hset := h.set hlt file (update inode a (some i)) pipe ⟨serial, .inode i.iNo⟩ 0
    (fun _ => by simp [hfile])
    (fun b hb => by
      obtain rfl := some.inj (hfile.symm.trans hb)
      exact ⟨hflag, i, by simp, rfl⟩)
    (fun a' ha' => by rw [hfile] at ha'; cases ha')
    (fun _ _ _ => h.pipe_ne_none)
    (iNo_update fun i1 i2 h1 h2 => some.inj h2 ▸ hiNo i1 h1)
    (fun a' => by
      by_cases haa : a' = a
      · subst haa
        simp [slotShare, hg, hfile, openCnts, hcount]
      · simp [slotShare, hg, hfile, haa, Ne.symm haa])
  rwa [← hr, update_eq_self] at hset

/-- The inode behind a slot changes, but neither its number nor its count. -/
lemma touch (hg : (table g).fdInode = some (.inode (.kernel a)))
    (hi : inode a = some i) (hiNo : j.iNo = i.iNo) (hcount : j.iOpenCnts = i.iOpenCnts)
    (pos : UInt32) :
    SlotsOk (update table g { table g with fdPos := pos }) (update inode a (some j)) pipe o r := by
  obtain ⟨-, hflag, k, hk, htarget⟩ := h.slot g _ hg
  obtain rfl := some.inj (hi.symm.trans hk)
  have hmod := h.modify hg { table g with fdPos := pos } hg (update inode a (some j)) (r g)
    ⟨hflag, j, by simp, by rw [htarget, hiNo]⟩
    (iNo_update fun i1 i2 h1 h2 => by
      rw [← some.inj h2, hiNo, some.inj (hi.symm.trans h1)])
    (fun a' => by
      by_cases haa : a' = a
      · subst haa
        simp [slotShare, openCnts, hi, hcount]
      · simp [slotShare, haa])
  rwa [update_eq_self] at hmod

lemma setPages (hpages : ∀ a, pipe a ≠ none → pipe' a ≠ none) : SlotsOk table inode pipe' o r := by
  refine ⟨h.used, fun g b hb => ?_, h.inj, h.counts⟩
  obtain ⟨hlt, hslot⟩ := h.slot g b hb
  refine ⟨hlt, ?_⟩
  match b, hslot with
  | .page a, ⟨hflag, htarget, hpage, hcount⟩ => exact ⟨hflag, htarget, hpages a hpage, hcount⟩
  | .inode (.kernel a), hslot => exact hslot

/-- One more descriptor refers to a pipe whose count allows for it, or the first one to a file. -/
lemma install (hg : (table g).fdInode = some b)
    (hroom : ∀ a, b = .page a → r g + 1 ≤ (table g).fdPos.toNat)
    (hfirst : ∀ a, b = .inode a → r g = 0) :
    SlotsOk table inode pipe o (update r g (r g + 1)) := by
  obtain ⟨hlt, hslot⟩ := h.slot g b hg
  have hok : SlotOk (table g) inode pipe (o g) (r g + 1) b := by
    match b, hslot with
    | .page a, ⟨hflag, htarget, hpage, hle, hge⟩ =>
      exact ⟨hflag, htarget, hpage, hroom a rfl, by omega⟩
    | .inode (.kernel a), hslot => exact hslot
  have hmod := h.modify hg (table g) hg inode (r g + 1) hok
    iNo_same (fun a => by
      simp only [slotShare]
      split_ifs with ha
      · rw [hfirst (.kernel a) (some.inj (hg.symm.trans ha))]
        rfl
      · rfl)
  rwa [update_eq_self] at hmod

/-- One more descriptor refers to a file that some refer to already. -/
lemma shareInode (hg : (table g).fdInode = some (.inode (.kernel a)))
    (hr : 0 < r g) (hi : inode a = some i) (hiNo : i'.iNo = i.iNo)
    (hcount : i'.iOpenCnts.toNat = i.iOpenCnts.toNat + 1) :
    SlotsOk table (update inode a (some i')) pipe o (update r g (r g + 1)) := by
  obtain ⟨-, hflag, j, hj, htarget⟩ := h.slot g _ hg
  obtain rfl := some.inj (hi.symm.trans hj)
  have hmod := h.modify hg (table g) hg (update inode a (some i')) (r g + 1)
    ⟨hflag, i', by simp, by rw [htarget, hiNo]⟩
    (iNo_update fun i1 i2 h1 h2 => by
      rw [← some.inj h2, hiNo, some.inj (hi.symm.trans h1)])
    (fun a' => by
      by_cases haa : a' = a
      · subst haa
        simp only [slotShare, if_pos hg, openCnts, update_self, hi, hcount]
        omega
      · have hne : ¬(table g).fdInode = some (.inode (.kernel a')) := by
          rw [hg]
          simpa using Ne.symm haa
        simp only [slotShare, if_neg hne, update_of_ne haa])
  rwa [update_eq_self] at hmod

/-- The only descriptor of a file is closed. -/
lemma close (hg : (table g).fdInode = some (.inode (.kernel a)))
    (hr : r g ≤ 1) (hfile : file.fdInode = none)
    (hiNo : ∀ i i', inode a = some i → x = some i' → i'.iNo = i.iNo)
    (hcount : openCnts x + 1 = openCnts (inode a)) :
    SlotsOk (update table g file) (update inode a x) pipe o
      (update r g 0) := by
  obtain ⟨hlt, -⟩ := h.slot g _ hg
  have hset := h.set hlt file (update inode a x) pipe (o g) 0 (fun hn => absurd hn (by simp))
    (fun b hb => by rw [hfile] at hb; cases hb) (fun a' ha' => by rw [hfile] at ha'; cases ha')
    (fun _ _ _ => h.pipe_ne_none)
    (iNo_update hiNo)
    (fun a' => by
      by_cases haa : a' = a
      · subst haa
        simp only [slotShare, if_pos hg, hfile, update_self]
        simp only [reduceCtorEq, if_false]
        omega
      · have hne : ¬(table g).fdInode = some (.inode (.kernel a')) := by
          rw [hg]
          simpa using Ne.symm haa
        simp [slotShare, if_neg hne, hfile, haa])
  rwa [update_eq_self] at hset

end SlotsOk

/-! ### `file_open` and `file_close`, while all inodes are the kernel's -/

namespace FdState

variable {s s' : FdState}

lemma fileOpen_kernel (hlist : ∀ y ∈ s.openInodes, ∃ a, y = .kernel a)
    (hle : ∀ a i, s.kernelInode a = some i → i.iOpenCnts.toNat ≤ 5152)
    (h : s.fileOpen p inodeNo flag new = some (o, s')) :
    (s.getFreeSlotInGlobal = none ∧ s' = s) ∨ ∃ g a c, ∃ i : Inode, s.getFreeSlotInGlobal = some g ∧
      c.inode = update (s.cache p).inode (.kernel a) (some i) ∧
      (∀ y ∈ c.openInodes, ∃ a, y = .kernel a) ∧ (∀ i', s.kernelInode a = some i' → i.iNo = i'.iNo) ∧
      i.iOpenCnts.toNat = openCnts (s.kernelInode a) + 1 ∧
      ((s.disk inodeNo).iNo = UInt32.ofNat inodeNo → i.iNo = UInt32.ofNat inodeNo) ∧
      ∃ s1, s1 = ((s.withCache p c).setSlot g ⟨0, flag.toUInt32, some (.inode (.kernel a))⟩).record g
          (.inode i.iNo) ∧
        (s' = s1 ∨ s' = (s1.pcbFdInstall p g).2) := by
  obtain ⟨hnone, rfl⟩ | ⟨g, a, c, i, i', hfree, hopen, hi, hi', s1, rfl, hs'⟩ := fileOpen_eq_some h
  · exact .inl ⟨hnone, rfl⟩
  have hsame : i'.iNo = i.iNo ∧ i'.iOpenCnts = i.iOpenCnts := by
    obtain rfl | rfl := hi' <;> exact ⟨rfl, rfl⟩
  rw [← hsame.1] at hs'
  obtain ⟨j, hmem, hj, hno, rfl⟩ | ⟨rfl, hnone, -, rfl⟩ := InodeCache.inodeOpen_eq_some hopen
  · obtain ⟨a, rfl⟩ := hlist a hmem
    obtain rfl : { j with iOpenCnts := j.iOpenCnts + 1 } = i := by simpa using hi
    have hj : s.kernelInode a = some j := hj
    refine .inr ⟨g, a, _, i', hfree, update_idem .., hlist, fun j' hj' => ?_, ?_,
      fun _ => hsame.1.trans hno, _, rfl, hs'⟩
    · rw [hsame.1, some.inj (hj.symm.trans hj')]
    · rw [hsame.2, hj]
      exact toNat_succ (hle a j hj)
  · obtain rfl : { s.disk inodeNo with iOpenCnts := 1 } = i := by simpa [InodeCache.set] using hi
    have hnone : s.kernelInode new = none := hnone
    refine .inr ⟨g, new, _, i', hfree, update_idem .., fun y hy => ?_, fun j' hj' => ?_, ?_,
      fun hdisk => hsame.1.trans hdisk, _, rfl, hs'⟩
    · obtain rfl | hy := List.mem_cons.mp hy
      · exact ⟨new, rfl⟩
      · exact hlist y hy
    · rw [hnone] at hj'
      cases hj'
    · rw [hsame.2, hnone]
      rfl

lemma fileClose_kernel (hg : (s.fileTable g).fdInode = some (.inode (.kernel a)))
    (hi : s.kernelInode a = some i) (hpos : 1 ≤ i.iOpenCnts.toNat) (h : s.fileClose p g = some s') :
    ∃ c x, s' = (s.withCache p c).setSlot g { s.fileTable g with fdInode := none } ∧
      (s.withCache p c).kernelInode = update s.kernelInode a x ∧ openCnts x + 1 = i.iOpenCnts.toNat ∧
      (∀ j j', s.kernelInode a = some j → x = some j' → j'.iNo = j.iNo) ∧
      ∀ y ∈ c.openInodes, y ∈ s.openInodes := by
  simp only [fileClose, hg] at h
  obtain ⟨j, hj, h⟩ := bind_eq_some_iff.mp h
  obtain rfl : i = j := some.inj (hi.symm.trans hj)
  obtain ⟨c, hc, rfl⟩ := map_eq_some_iff.mp h
  obtain ⟨k, hk, hinode, hlist⟩ := InodeCache.inodeClose_eq_some hc
  obtain rfl : k = { i with writeDeny := false } := by simpa [InodeCache.set] using hk.symm
  refine ⟨c, _, rfl, kernelInode_withCache (hinode.trans (update_idem _ _ _)), openCnts_close hpos rfl,
    fun j j' h1 h2 => ?_, fun y hy => ?_⟩
  · obtain rfl := some.inj (hi.symm.trans h1)
    split_ifs at h2
    rw [← some.inj h2]
  · rw [hlist] at hy
    split_ifs at hy
    · exact List.mem_of_mem_erase hy
    · exact hy

end FdState

end SimpleOs
