import Mathlib
import SimpleOs.Fs.Dir.Delete
import SimpleOs.Fs.Dir.Read

/-!
# Directories with direct blocks only

What `sync_dir_entry` and `delete_dir_entry` do to the slots of a directory that has no indirect table,
whatever bytes stand in the entries: the one fills a slot, the other empties one, and a block that loses
its last entry is given back.
-/

namespace SimpleOs

open Base Finset

variable {p : Partition}

variable {ino ino' : Inode} {i idx i₀ j₀ k : Nat} {v v' : Vol p} {m : Nat → UInt32}
  {new : Nat → Nat → Option Bytes}

namespace Inode

/-- Slot `i` of block `k` of a directory is in use. -/
def Live (disk : Bytes) (ino : Inode) (k i : Nat) : Prop :=
  loadBlocks disk ino k ≠ 0 ∧ i < 21 ∧ disk.u32 (entryAddr (loadBlocks disk ino k) i + 20) ≠ 0

instance (disk : Bytes) (ino : Inode) (k i : Nat) : Decidable (ino.Live disk k i) :=
  inferInstanceAs (Decidable (_ ∧ _ ∧ _))

/-- The entry in slot `i` of block `k` has the given name. -/
def NamedAt (disk : Bytes) (ino : Inode) (k i : Nat) (name : List UInt8) : Prop :=
  sameName disk (entryAddr (loadBlocks disk ino k) i) name = true

instance (disk : Bytes) (ino : Inode) (k i : Nat) (name : List UInt8) :
    Decidable (ino.NamedAt disk k i name) :=
  inferInstanceAs (Decidable (_ = _))

/-- The slots that are in use. -/
def liveSet (disk : Bytes) (ino : Inode) : Finset (ℕ × ℕ) :=
  (Finset.range 140 ×ˢ Finset.range 21).filter fun x => ino.Live disk x.1 x.2

variable {disk : Bytes}

lemma Live.lt (h : ino.Live disk k i) : k < 140 := lt_of_loadBlocks h.1

@[simp] lemma mem_liveSet : (k, i) ∈ ino.liveSet disk ↔ ino.Live disk k i := by
  rw [liveSet, mem_filter, mem_product, mem_range, mem_range]
  exact ⟨fun h => h.2, fun h => ⟨⟨h.lt, h.2.1⟩, h⟩⟩

end Inode

/-- The live entries of a directory are as many as its slots in use. -/
lemma Inode.length_liveEntries (disk : Bytes) (ino : Inode) :
    (ino.liveEntries disk).length = (ino.liveSet disk).card := by
  set m := loadBlocks disk ino with hm
  have hlen : ∀ n k, (SimpleOs.liveEntries disk m n k).length = ∑ j ∈ Finset.Ico k (k + n),
      ((Finset.range 21).filter fun i => m j ≠ 0 ∧ i < 21 ∧ disk.u32 (entryAddr (m j) i + 20) ≠ 0).card := by
    intro n
    induction n with
    | zero => simp [SimpleOs.liveEntries]
    | succ n ih =>
      intro k
      have hlt : k < k + 1 + n := by omega
      rw [show k + (n + 1) = k + 1 + n by omega, sum_eq_sum_Ico_succ_bot hlt, ← ih,
        liveEntries_succ, List.length_append]
      congr 1
      split_ifs with h0
      · simp [h0]
      · rw [List.length_map]
        show ((Finset.range 21).filter fun i => disk.u32 (entryAddr (m k) i + 20) ≠ 0).card = _
        refine congrArg Finset.card (filter_congr fun i hi => ?_)
        simp [h0, mem_range.mp hi]
  rw [Inode.liveEntries, hlen, liveSet, card_filter, sum_product, Nat.zero_add,
    ← Finset.range_eq_Ico]
  refine sum_congr rfl fun j _ => ?_
  rw [card_filter]
  rfl

lemma Inode.card_liveSet_le (ino : Inode) (disk : Bytes) : (ino.liveSet disk).card ≤ 2940 := by
  exact (card_filter_le _ _).trans (by simp)

-- its members are all that is needed from here on
attribute [irreducible] Inode.liveSet

/-- A directory without an indirect table that is as large as its live entries, with "." in slot `i₀`
and ".." in slot `j₀` of its first block and nowhere else. -/
structure DirectDir (v : Vol p) (ino : Inode) (i₀ j₀ : Nat) : Prop where
  table : ino.iSectors 12 = 0
  held : ∀ k < 12, ino.iSectors k ≠ 0 → v.Holds (ino.iSectors k)
  inj : ∀ j < 12, ∀ k < 12, ino.iSectors j ≠ 0 → ino.iSectors j = ino.iSectors k → j = k
  size : ino.iSize.toNat = 24 * (ino.liveSet v.disk).card
  blocks : ∀ k, 0 < k → k < 12 → ino.iSectors k ≠ 0 → ∃ i, ino.Live v.disk k i
  dot : ino.Live v.disk 0 i₀ ∧ ino.NamedAt v.disk 0 i₀ dotName
  dotDot : ino.Live v.disk 0 j₀ ∧ ino.NamedAt v.disk 0 j₀ dotDotName
  others : ∀ k i, ino.Live v.disk k i → (k, i) ≠ (0, i₀) → (k, i) ≠ (0, j₀) →
    ¬ ino.NamedAt v.disk k i dotName ∧ ¬ ino.NamedAt v.disk k i dotDotName

/-- The bytes of an entry in use that is not called "." or "..". -/
def OrdinaryBytes (pDe : Bytes) : Prop :=
  pDe.u32 20 ≠ 0 ∧ sameName pDe 0 dotName = false ∧ sameName pDe 0 dotDotName = false

instance (pDe : Bytes) : Decidable (OrdinaryBytes pDe) := inferInstanceAs (Decidable (_ ∧ _ ∧ _))

namespace SameSlot

variable {d d' : Bytes}

lemma namedAt_iff (h : SameSlot d ino d' ino' k i) (hlen : name.length < 24) :
    ino'.NamedAt d' k i name ↔ ino.NamedAt d k i name := by
  rw [Inode.NamedAt, Inode.NamedAt, sameName_congr fun r hr => h r (by omega)]

lemma live_iff (h : SameSlot d ino d' ino' k i) (hb : loadBlocks d' ino' k = loadBlocks d ino k) :
    ino'.Live d' k i ↔ ino.Live d k i := by
  have hword : d'.u32 (entryAddr (loadBlocks d' ino' k) i + 20) =
      d.u32 (entryAddr (loadBlocks d ino k) i + 20) := by
    apply Bytes.u32_congr
    intro r hr
    rw [Nat.add_assoc, Nat.add_assoc]
    exact h (20 + r) (by omega)
  rw [Inode.Live, Inode.Live, hword, hb]

end SameSlot

namespace Rewritten

lemma live_iff (h : Rewritten v ino v' ino' m new) (hn : new k i = none) (hk : m k ≠ 0) :
    ino'.Live v'.disk k i ↔ ino.Live v.disk k i := by
  by_cases hi : i < 21
  · have heq := (h.kept k i hn hk hi).1
    exact (h.sameSlot hn hk hi).live_iff (by rw [h.blocks, heq])
  · exact iff_of_false (fun hl => hi hl.2.1) fun hl => hi hl.2.1

lemma not_live (h : Rewritten v ino v' ino' m new) (hn : new k i = some Bytes.zero) :
    ¬ ino'.Live v'.disk k i := by
  rintro ⟨hk, hi, hlive⟩
  rw [h.blocks] at hk hlive
  exact hlive (blankAt_of_zero (h.written k i _ hn hk hi)).fType

end Rewritten

namespace DirectDir

section

variable (h : DirectDir v ino i₀ j₀)
include h

lemma loadBlocks_eq (hk : loadBlocks v.disk ino k ≠ 0) :
    k < 12 ∧ loadBlocks v.disk ino k = ino.iSectors k := by
  by_cases hlt : k < 12
  · exact ⟨hlt, loadBlocks_of_lt hlt⟩
  · exact absurd (loadBlocks_of_table_eq_zero h.table (by omega)) hk

lemma first_ne_zero : ino.iSectors 0 ≠ 0 := by
  have hb := h.dot.1.1
  rwa [loadBlocks_of_lt (by omega)] at hb

lemma owned : BlocksOwned v (loadBlocks v.disk ino) (ino.iSectors 12) := by
  refine ⟨fun k hk => ?_, fun j k hj hjk => ?_, fun ht => absurd h.table ht, fun ht => absurd h.table ht⟩
  · obtain ⟨hlt, heq⟩ := h.loadBlocks_eq hk
    rw [heq] at hk ⊢
    exact h.held k hlt hk
  · obtain ⟨hj12, hj'⟩ := h.loadBlocks_eq hj
    obtain ⟨hk12, hk'⟩ := h.loadBlocks_eq (hjk ▸ hj)
    rw [hj'] at hj
    rw [hj', hk'] at hjk
    exact h.inj j hj12 k hk12 hj hjk

end

variable (h : DirectDir v ino i₀ j₀)
include h

/-- An operation that keeps the two special entries and adds no more of them. -/
lemma of_rewritten (hw : Rewritten v ino v' ino' m new)
    (htable : ino'.iSectors 12 = 0) (hsize : ino'.iSize.toNat = 24 * (ino'.liveSet v'.disk).card)
    (hblocks : ∀ k, 0 < k → k < 12 → ino'.iSectors k ≠ 0 → ∃ i, ino'.Live v'.disk k i)
    (hdots : ino'.Live v'.disk 0 i₀ ∧ ino'.Live v'.disk 0 j₀)
    (hkept : ∀ k i, ino.Live v.disk k i → ino'.Live v'.disk k i → new k i = none)
    (hnew : ∀ k i, ino'.Live v'.disk k i → ¬ ino.Live v.disk k i →
      ¬ ino'.NamedAt v'.disk k i dotName ∧ ¬ ino'.NamedAt v'.disk k i dotDotName) :
    DirectDir v' ino' i₀ j₀ := by
  have hname : ∀ k i name, name.length < 24 → ino.Live v.disk k i → ino'.Live v'.disk k i →
      (ino'.NamedAt v'.disk k i name ↔ ino.NamedAt v.disk k i name) := by
    intro k i name hlen hl hl'
    have hk := hl'.1
    rw [hw.blocks] at hk
    exact (hw.sameSlot (hkept k i hl hl') hk hl'.2.1).namedAt_iff hlen
  have hload : ∀ k < 12, m k = ino'.iSectors k := fun k hk => by rw [← hw.blocks, loadBlocks_of_lt hk]
  refine ⟨htable, fun k hk hk0 => ?_, fun j hj k hk hj0 hjk => ?_, hsize, hblocks, ⟨hdots.1, ?_⟩,
    ⟨hdots.2, ?_⟩, fun k i hl' h1 h2 => ?_⟩
  · rw [← hload k hk] at hk0 ⊢
    exact hw.owned.held k hk0
  · rw [← hload j hj] at hj0 hjk
    rw [← hload k hk] at hjk
    exact hw.owned.inj j k hj0 hjk
  · exact (hname 0 i₀ _ (by decide) h.dot.1 hdots.1).mpr h.dot.2
  · exact (hname 0 j₀ _ (by decide) h.dotDot.1 hdots.2).mpr h.dotDot.2
  · by_cases hl : ino.Live v.disk k i
    · rw [hname k i _ (by decide) hl hl', hname k i _ (by decide) hl hl']
      exact h.others k i hl h1 h2
    · exact hnew k i hl' hl

/-! ### Insertion -/

/-- One more entry, with the bytes `pDe`, in a block that was there or in a new one. -/
lemma put (hpDe : OrdinaryBytes pDe)
    (hw : Rewritten v ino v' ino' m new) (htable : ino'.iSectors 12 = 0)
    (hsize : ino'.iSize = ino.iSize + 24) (hk : m k ≠ 0) (hidx : idx < 21) (hslot : new k idx = some pDe)
    (hfree : ¬ ino.Live v.disk k idx)
    (hzero : ∀ j i b, new j i = some b → ¬ (j = k ∧ i = idx) → b = Bytes.zero ∧ loadBlocks v.disk ino j = 0)
    (hm : ∀ j, j ≠ k → m j = loadBlocks v.disk ino j) : DirectDir v' ino' i₀ j₀ := by
  obtain ⟨htype, hdot, hdotDot⟩ := hpDe
  have hbytes := hw.written k idx pDe hslot hk hidx
  have hname : ∀ name : List UInt8, name.length < 24 → sameName pDe 0 name = false →
      ¬ ino'.NamedAt v'.disk k idx name := by
    intro name hlen hne
    rw [Inode.NamedAt, hw.blocks, sameName_congr (t := pDe) (b := 0) fun r hr => by
      rw [hbytes r (by omega), Nat.zero_add], hne]
    exact Bool.false_ne_true
  -- a slot in use is not written
  have hkept : ∀ j i, ino.Live v.disk j i → new j i = none := by
    intro j i hl
    cases hn : new j i with
    | none => rfl
    | some b =>
      by_cases hji : j = k ∧ i = idx
      · obtain ⟨rfl, rfl⟩ := hji
        exact absurd hl hfree
      · exact absurd (hzero j i b hn hji).2 hl.1
  have hlive : ∀ j i, ino'.Live v'.disk j i ↔ ino.Live v.disk j i ∨ j = k ∧ i = idx := by
    intro j i
    by_cases hji : j = k ∧ i = idx
    · refine iff_of_true ?_ (.inr hji)
      obtain ⟨rfl, rfl⟩ := hji
      have hword : v'.disk.u32 (entryAddr (m j) i + 20) = pDe.u32 20 := by
        apply Bytes.u32_congr
        intro r hr
        rw [Nat.add_assoc, hbytes (20 + r) (by omega)]
      rw [Inode.Live, hw.blocks, hword]
      exact ⟨hk, hidx, htype⟩
    · rw [or_iff_left hji]
      cases hn : new j i with
      | none =>
        by_cases hj : m j = 0
        · have hj' : loadBlocks v.disk ino j = 0 := by rwa [← hm j fun hjk => hk (hjk ▸ hj)]
          rw [Inode.Live, Inode.Live, hw.blocks, hj, hj']
          simp
        · exact hw.live_iff hn hj
      | some b =>
        obtain ⟨rfl, hj⟩ := hzero j i b hn hji
        exact iff_of_false (hw.not_live hn) fun hl => hl.1 hj
  have hset : ino'.liveSet v'.disk = insert (k, idx) (ino.liveSet v.disk) := by
    ext ⟨j, i⟩
    rw [mem_insert, Inode.mem_liveSet, Inode.mem_liveSet, hlive, or_comm, Prod.mk.injEq]
  have hcard : (ino'.liveSet v'.disk).card = (ino.liveSet v.disk).card + 1 := by
    rw [hset, card_insert_of_notMem (by rwa [Inode.mem_liveSet])]
  refine h.of_rewritten hw htable ?_ (fun j hj hj12 hj0 => ?_)
    ⟨(hlive 0 i₀).mpr (.inl h.dot.1), (hlive 0 j₀).mpr (.inl h.dotDot.1)⟩ (fun j i hl _ => hkept j i hl)
    fun j i hl' hl => ?_
  · have hle := ino.card_liveSet_le v.disk
    rw [hsize, UInt32.toNat_add, h.size]
    simp only [UInt32.reduceToNat]
    omega
  · by_cases hjk : j = k
    · exact ⟨idx, (hlive j idx).mpr (.inr ⟨hjk, rfl⟩)⟩
    · rw [← loadBlocks_of_lt hj12 (d := v'.disk), hw.blocks, hm j hjk, loadBlocks_of_lt hj12] at hj0
      obtain ⟨i, hi⟩ := h.blocks j hj hj12 hj0
      exact ⟨i, (hlive j i).mpr (.inl hi)⟩
  · obtain ⟨rfl, rfl⟩ := ((hlive j i).mp hl').resolve_left hl
    exact ⟨hname _ (by decide) hdot, hname _ (by decide) hdotDot⟩

/-- `sync_dir_entry` as long as the direct blocks are enough. -/
lemma syncDirEntry (hpDe : OrdinaryBytes pDe) (hroom : ¬ DirectFull v ino) (ioBuf : Bytes) :
    DirectDir (SimpleOs.syncDirEntry v ino pDe ioBuf).vol (SimpleOs.syncDirEntry v ino pDe ioBuf).inode
      i₀ j₀ := by
  cases hok : (SimpleOs.syncDirEntry v ino pDe ioBuf).ok with
  | false =>
    rcases syncDirEntry_fail_cases hok with ⟨-, heq⟩ | ⟨-, -, -, -, hfull⟩
    · rw [heq]
      exact h
    · exact absurd hfull hroom
  | true =>
    obtain ⟨hsize, ⟨k, idx, -, hidx, hk0, hfree, h12, hw⟩ | ⟨k, lba, -, hk0, hlba, h12, hw⟩ | ⟨-, hfull, -⟩⟩ :=
      syncDirEntry_rewritten h.owned hok
    · refine h.put hpDe hw (h12.trans h.table) hsize hk0 hidx (oneSlot_eq_some.mpr ⟨⟨rfl, rfl⟩, rfl⟩)
        (fun hl => hl.2.2 hfree) (fun j i b hn hji => ?_) fun _ _ => rfl
      exact absurd (oneSlot_eq_some.mp hn).1 hji
    · refine h.put hpDe hw (h12.trans h.table) hsize (by rwa [setEntry_self]) (show 0 < 21 by omega)
        (newRow_eq_some.mpr ⟨rfl, rfl⟩) (fun hl => hl.1 hk0) (fun j i b hn hji => ?_)
        fun j hjk => setEntry_of_ne _ _ hjk
      obtain ⟨rfl, rfl⟩ := newRow_eq_some.mp hn
      exact ⟨if_neg fun hi => hji ⟨rfl, hi⟩, hk0⟩
    · exact absurd hfull hroom

/-! ### Deletion -/

/-- A directory does not change while its blocks do not. -/
lemma of_sameSector (hsec : ∀ k ≤ 12, ino'.iSectors k = ino.iSectors k)
    (hsize : ino'.iSize = ino.iSize)
    (hx : ∀ k < 12, ino.iSectors k ≠ 0 →
      v'.Holds (ino.iSectors k) ∧ SameSector v.disk v'.disk (ino.iSectors k).toNat) :
    DirectDir v' ino' i₀ j₀ := by
  have hw : Rewritten v ino v' ino' (loadBlocks v.disk ino) fun _ _ => none := by
    refine .of_sameSector h.owned hsec ?_
    rintro x ⟨hx0, ⟨k, rfl⟩ | rfl⟩
    · obtain ⟨hk, heq⟩ := h.loadBlocks_eq hx0
      rw [heq] at hx0 ⊢
      exact hx k hk hx0
    · exact absurd h.table hx0
  have hlive : ∀ j i, ino'.Live v'.disk j i ↔ ino.Live v.disk j i := by
    intro j i
    by_cases hj : loadBlocks v.disk ino j = 0
    · simp only [Inode.Live, hw.blocks, hj]
      simp
    · exact hw.live_iff rfl hj
  have hset : ino'.liveSet v'.disk = ino.liveSet v.disk := by
    ext ⟨j, i⟩
    rw [Inode.mem_liveSet, Inode.mem_liveSet, hlive]
  refine h.of_rewritten hw ((hsec 12 le_rfl).trans h.table) ?_ (fun k hk hk12 hk0 => ?_)
    ⟨(hlive 0 i₀).mpr h.dot.1, (hlive 0 j₀).mpr h.dotDot.1⟩ (fun _ _ _ _ => rfl)
    fun k i hl' hl => absurd ((hlive k i).mp hl') hl
  · rw [hsize, hset, h.size]
  · rw [hsec k (by omega)] at hk0
    obtain ⟨i, hi⟩ := h.blocks k hk hk12 hk0
    exact ⟨i, (hlive k i).mpr hi⟩

lemma shrink (hw : Rewritten v ino v' ino' m new) (htable : ino'.iSectors 12 = ino.iSectors 12)
    (hsize : ino'.iSize = ino.iSize - 24) (hused : ino.Live v.disk k idx)
    (hord : ¬ ino.NamedAt v.disk k idx dotName ∧ ¬ ino.NamedAt v.disk k idx dotDotName)
    (hlive : ∀ j i, ino'.Live v'.disk j i ↔ ino.Live v.disk j i ∧ ¬ (j = k ∧ i = idx))
    (hnew : ∀ j i, ¬ (j = k ∧ i = idx) → new j i = none)
    (hblocks : ino'.iSectors k ≠ 0 → ∃ i, i ≠ idx ∧ ino.Live v.disk k i)
    (hm : ∀ j, m j ≠ 0 → m j = loadBlocks v.disk ino j) : DirectDir v' ino' i₀ j₀ := by
  have hset : ino'.liveSet v'.disk = (ino.liveSet v.disk).erase (k, idx) := by
    ext ⟨j, i⟩
    rw [mem_erase, Inode.mem_liveSet, Inode.mem_liveSet, hlive, and_comm, ne_eq, Prod.mk.injEq]
  have hmem : (k, idx) ∈ ino.liveSet v.disk := by rwa [Inode.mem_liveSet]
  have hcard : (ino'.liveSet v'.disk).card + 1 = (ino.liveSet v.disk).card := by
    rw [hset, card_erase_add_one hmem]
  refine h.of_rewritten hw (htable.trans h.table) ?_ (fun j hj hj12 hj0 => ?_) ⟨?_, ?_⟩
    (fun j i _ hl' => hnew j i ((hlive j i).mp hl').2) fun j i hl' hl => absurd ((hlive j i).mp hl').1 hl
  · have hsz := h.size
    have h24 : (24 : UInt32) ≤ ino.iSize := by
      rw [UInt32.le_iff_toNat_le]
      simp only [UInt32.reduceToNat]
      omega
    rw [hsize, UInt32.toNat_sub_of_le _ _ h24]
    simp only [UInt32.reduceToNat]
    omega
  · by_cases hjk : j = k
    · subst hjk
      obtain ⟨i, hne, hi⟩ := hblocks hj0
      exact ⟨i, (hlive j i).mpr ⟨hi, fun hji => hne hji.2⟩⟩
    · rw [← loadBlocks_of_lt hj12 (d := v'.disk), hw.blocks] at hj0
      rw [hm j hj0, loadBlocks_of_lt hj12] at hj0
      obtain ⟨i, hi⟩ := h.blocks j hj hj12 hj0
      exact ⟨i, (hlive j i).mpr ⟨hi, fun hji => hjk hji.1⟩⟩
  · refine (hlive 0 i₀).mpr ⟨h.dot.1, ?_⟩
    rintro ⟨rfl, rfl⟩
    exact hord.1 h.dot.2
  · refine (hlive 0 j₀).mpr ⟨h.dotDot.1, ?_⟩
    rintro ⟨rfl, rfl⟩
    exact hord.2 h.dotDot.2

end DirectDir

lemma sameName_ideRead (disk : Bytes) (b : UInt32) (buf : Bytes) (hi : i < 21)
    (hlen : name.length < 24) :
    sameName (ideRead disk b.toNat buf 0 1) (24 * i) name = sameName disk (entryAddr b i) name := by
  refine sameName_congr fun r hr => ?_
  rw [ideRead_sector _ _ _ (by omega), entryAddr, Nat.add_assoc]

namespace DirectDir

variable {inodeNo : UInt32}

lemma ordinarySlot_iff (hk : loadBlocks v.disk ino k ≠ 0) (hidx : idx < 21) :
    OrdinarySlot (ideRead v.disk (loadBlocks v.disk ino k).toNat Bytes.zero 0 1) idx ↔
      ino.Live v.disk k idx ∧ ¬ ino.NamedAt v.disk k idx dotName ∧
        ¬ ino.NamedAt v.disk k idx dotDotName := by
  rw [OrdinarySlot, entryFType_ideRead _ _ _ hidx, sameName_ideRead _ _ _ hidx (by decide),
    sameName_ideRead _ _ _ hidx (by decide), Inode.Live, Inode.NamedAt, Inode.NamedAt]
  simp [hk, hidx]

lemma inodeSync (h : DirectDir v ino i₀ j₀) (inode : Inode) (buf : Bytes) :
    DirectDir (v.inodeSync inode buf) ino i₀ j₀ :=
  h.of_sameSector (fun _ _ => rfl) rfl fun k hk hk0 =>
    ⟨h.held k hk hk0, (v.sameData_inodeSync inode buf).sameSector (h.held k hk hk0).ge⟩

/-- `delete_dir_entry` on a directory with direct blocks only. -/
lemma deleteDirEntry (h : DirectDir v ino i₀ j₀)
    (hr : SimpleOs.deleteDirEntry v ino inodeNo = some r) : DirectDir r.vol r.inode i₀ j₀ := by
  rcases deleteDirEntry_rewritten h.owned hr with ⟨rfl, -⟩ | ⟨-, -, hsize, k, idx, hk0, hfound, hcase⟩
  · exact h
  have hcount := countOf_scanSector v.disk (loadBlocks v.disk ino k) inodeNo
  obtain ⟨hidx, hslot, -⟩ := hcount.found idx hfound
  obtain ⟨hused, hord⟩ := (ordinarySlot_iff hk0 hidx).mp hslot
  obtain ⟨hk12, hload⟩ := h.loadBlocks_eq hk0
  set buf := ideRead v.disk (loadBlocks v.disk ino k).toNat Bytes.zero 0 1 with hbuf
  have hmem : idx ∈ (Finset.range 21).filter (OrdinarySlot buf) :=
    mem_filter.mpr ⟨mem_range.mpr hidx, hslot⟩
  rcases hcase with ⟨hnot, h12, hw⟩ | ⟨hone, hfirst, -, h12, hw⟩ | ⟨-, hge, -⟩
  · -- something is left in the block
    have hmore : ∃ i, i ≠ idx ∧ ino.Live v.disk k i := by
      by_cases hone : (scanSector v.disk (loadBlocks v.disk ino k) inodeNo).dirEntryCnt = 1
      · have hfirst : (scanSector v.disk (loadBlocks v.disk ino k) inodeNo).isDirFirstBlock = true := by
          rw [← Bool.not_eq_false]
          exact fun hf => hnot ⟨hone, hf⟩
        obtain ⟨i, hi, htype, hdot⟩ := hcount.first.mp hfirst
        rw [entryFType_ideRead _ _ _ hi] at htype
        rw [sameName_ideRead _ _ _ hi (by decide)] at hdot
        refine ⟨i, ?_, hk0, hi, htype⟩
        rintro rfl
        exact hord.1 hdot
      · have hcard : 1 < ((Finset.range 21).filter (OrdinarySlot buf)).card := by
          have hpos := card_pos.mpr ⟨idx, hmem⟩
          have hcnt := hcount.cnt
          omega
        obtain ⟨i, hi, hne⟩ := Finset.exists_mem_ne hcard idx
        obtain ⟨hi21, hslot'⟩ := mem_filter.mp hi
        exact ⟨i, hne, ((ordinarySlot_iff hk0 (mem_range.mp hi21)).mp hslot').1⟩
    refine h.shrink hw h12 hsize hused hord (fun j i => ?_) (fun j i hji => oneSlot_eq_none.mpr hji)
      (fun _ => hmore) fun _ _ => rfl
    by_cases hji : j = k ∧ i = idx
    · obtain ⟨rfl, rfl⟩ := hji
      exact iff_of_false (hw.not_live (oneSlot_eq_some.mpr ⟨⟨rfl, rfl⟩, rfl⟩)) fun hl => hl.2 ⟨rfl, rfl⟩
    · rw [and_iff_left hji]
      by_cases hj : loadBlocks v.disk ino j = 0
      · simp only [Inode.Live, hw.blocks, hj]
        simp
      · exact hw.live_iff (oneSlot_eq_none.mpr hji) hj
  · -- the entry is the only one that counts, and "." is not in the block, so neither is ".."
    have hk : k ≠ 0 := by
      rintro rfl
      have hdot : (scanSector v.disk (loadBlocks v.disk ino 0) inodeNo).isDirFirstBlock = true := by
        refine hcount.first.mpr ⟨i₀, h.dot.1.2.1, ?_, ?_⟩
        · rw [entryFType_ideRead _ _ _ h.dot.1.2.1]
          exact h.dot.1.2.2
        · rw [sameName_ideRead _ _ _ h.dot.1.2.1 (by decide)]
          exact h.dot.2
      rw [hfirst] at hdot
      cases hdot
    have honly : ∀ i, ino.Live v.disk k i → i = idx := by
      intro i hl
      have hord' := h.others k i hl (fun heq => hk (Prod.mk.inj heq).1) fun heq => hk (Prod.mk.inj heq).1
      have hi : i ∈ (Finset.range 21).filter (OrdinarySlot buf) :=
        mem_filter.mpr ⟨mem_range.mpr hl.2.1, (ordinarySlot_iff hk0 hl.2.1).mpr ⟨hl, hord'⟩⟩
      exact card_le_one.mp (hcount.cnt.symm.trans hone).le i hi idx hmem
    have hgone : loadBlocks r.vol.disk r.inode k = 0 := by rw [hw.blocks, setEntry_self]
    have hm : ∀ j, j ≠ k → setEntry (loadBlocks v.disk ino) k 0 j = loadBlocks v.disk ino j :=
      fun j hjk => setEntry_of_ne _ _ hjk
    refine h.shrink hw h12 hsize hused hord (fun j i => ?_) (fun _ _ _ => rfl) (fun hk' => ?_)
      fun j hj => hm j ?_
    · by_cases hjk : j = k
      · subst hjk
        exact iff_of_false (fun hl => hl.1 hgone) fun hl => hl.2 ⟨rfl, honly i hl.1⟩
      · rw [and_iff_left fun hji => hjk hji.1]
        by_cases hj : loadBlocks v.disk ino j = 0
        · simp only [Inode.Live, hw.blocks, hm j hjk, hj]
          simp
        · exact hw.live_iff rfl (by rwa [hm j hjk])
    · exact absurd ((loadBlocks_of_lt hk12).symm.trans hgone) hk'
    · rintro rfl
      exact hj (setEntry_self _ _ _)
  · omega

end DirectDir

end SimpleOs
