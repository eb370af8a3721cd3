import SimpleOs.Fs.Dir.Delete
import SimpleOs.Fs.Path.Search

/-!
# Removing an inode

`sys_unlink` and `sys_rmdir` end alike: `delete_dir_entry` takes the entry out of the directory and
`inode_release` gives the blocks and the number back. When the entry was that of a leaf of the tree and
the directory was written back to its own slot, what is left is the tree without the leaf.
-/

namespace SimpleOs

open Base Option Bytes DirTree

variable {p : Partition}

variable {v v' : Vol p} {i ino ino' j parent : Inode} {c d lba n : UInt32} {t : DirTree}
  {σ σ' τ : SlotTable} {idx k m : Nat} {e : Entry} {r : DirResult p}

/-! ### `inode_release` -/

/-- What giving blocks back does. -/
structure Vol.FreedAll (v v' : Vol p) (S : UInt32 → Prop) : Prop where
  holds_iff : ∀ x, v'.Holds x ↔ v.Holds x ∧ ¬ S x
  sameDisk : ∀ a, 512 * p.sb.inodeTableLba ≤ a → v'.disk a = v.disk a
  inodeUsed : ∀ i, v'.inodeUsed i = v.inodeUsed i

/-- What giving inode `n` and its blocks back does. -/
structure Vol.Released (v : Vol p) (n : Nat) (ino : Inode) (v' : Vol p) : Prop where
  holds_iff : ∀ x, v'.Holds x ↔ v.Holds x ∧ ¬ OwnsBlock v ino x
  sameData : v.SameData v'
  slot : ∀ m, m ≠ n → v'.slot m = v.slot m
  inodeUsed : ∀ m, v'.inodeUsed m = true ↔ v.inodeUsed m = true ∧ m ≠ n

namespace Vol

variable {v₁ : Vol p} {n : Nat}

lemma Freed.cons {S : UInt32 → Prop} (hf : v.Freed v₁ lba) (h : v₁.FreedAll v' S) :
    v.FreedAll v' fun x => x = lba ∨ S x where
  holds_iff x := by
    rw [h.holds_iff, hf.holds_iff, not_or, and_assoc]
  sameDisk a ha := (h.sameDisk a ha).trans (hf.sameDisk a ha)
  inodeUsed i := (h.inodeUsed i).trans (hf.inodeUsed i)

lemma FreedAll.congr {S S' : UInt32 → Prop} (h : v.FreedAll v' S) (hS : ∀ x, S x ↔ S' x) :
    v.FreedAll v' S' := by
  obtain rfl : S = S' := funext fun x => propext (hS x)
  exact h

lemma freedAll_releaseBlocks
    (h : ∀ k, allBlocks k ≠ 0 → IsBlock p (allBlocks k)) (n k : Nat) (v : Vol p) :
    v.FreedAll (v.releaseBlocks allBlocks n k) fun x => x ≠ 0 ∧ ∃ j, k ≤ j ∧ j < k + n ∧ allBlocks j = x := by
  induction n generalizing k v with
  | zero =>
    refine ⟨fun x => ?_, fun _ _ => rfl, fun _ => rfl⟩
    rw [releaseBlocks, iff_self_and]
    omega
  | succ n ih =>
    rw [releaseBlocks]
    have hsplit : ∀ x, (∃ j, k ≤ j ∧ j < k + (n + 1) ∧ allBlocks j = x) ↔
        allBlocks k = x ∨ ∃ j, k + 1 ≤ j ∧ j < k + 1 + n ∧ allBlocks j = x := by
      intro x
      constructor
      · rintro ⟨j, hle, hlt, rfl⟩
        rcases Nat.eq_or_lt_of_le hle with rfl | hgt
        · exact .inl rfl
        · exact .inr ⟨j, hgt, by omega, rfl⟩
      · rintro (rfl | ⟨j, hle, hlt, rfl⟩)
        · exact ⟨k, le_rfl, by omega, rfl⟩
        · exact ⟨j, by omega, by omega, rfl⟩
    by_cases hk : allBlocks k ≠ 0
    · rw [if_pos hk]
      refine ((v.freed_freeBlock (h k hk)).cons (ih (k + 1) _)).congr fun x => ?_
      rw [hsplit]
      constructor
      · rintro (rfl | ⟨hx, hj⟩)
        · exact ⟨hk, .inl rfl⟩
        · exact ⟨hx, .inr hj⟩
      · tauto
    · rw [if_neg hk]
      refine (ih (k + 1) v).congr fun x => ?_
      rw [hsplit]
      refine and_congr_right fun hx => ⟨.inr, fun h => h.resolve_left ?_⟩
      rintro rfl
      exact hk hx

lemma disk_inodeDelete (v : Vol p) (n : Nat) (ioBuf : Bytes) :
    (v.inodeDelete n ioBuf).disk = v.disk.copy (slotAddr p n) Bytes.zero 0 76 := by
  obtain ⟨haddr, hfit⟩ := inodeLocate_fits p n
  have hfill : ∀ s : Bytes, s.fill (inodeLocate p n).offSize 0 76 =
      s.copy (0 + (inodeLocate p n).offSize) Bytes.zero 0 76 := by
    intro s
    rw [Nat.zero_add]
    rfl
  simp only [inodeDelete, disk_setDisk, ideRead_eq, ideWrite_eq, Inode.inodeSize, hfill]
  rw [copy_copy_back _ _ _ hfit, haddr]

/-- `inode_release` of an inode whose blocks are data blocks. -/
lemma released_inodeRelease (v : Vol p) (hn : n < 4096) (hblocks : ∀ x, OwnsBlock v ino x → IsBlock p x) :
    v.Released n ino (v.inodeRelease n ino) := by
  have hmap : ∀ k, loadBlocks v.disk ino k ≠ 0 → IsBlock p (loadBlocks v.disk ino k) :=
    fun k hk => hblocks _ (DirRep.ownsBlock hk)
  obtain ⟨v₁, hv1, hfreed⟩ : ∃ v₁, v₁ = (if ino.iSectors 12 ≠ 0 then
      (v.freeBlock (ino.iSectors 12)).releaseBlocks (loadBlocks v.disk ino) 140 0
      else v.releaseBlocks (loadBlocks v.disk ino) 12 0) ∧ v.FreedAll v₁ (OwnsBlock v ino) := by
    refine ⟨_, rfl, ?_⟩
    split_ifs with ht
    · refine ((v.freed_freeBlock (hblocks _ ⟨ht, .inr rfl⟩)).cons
        (freedAll_releaseBlocks hmap 140 0 _)).congr fun x => ?_
      constructor
      · rintro (rfl | ⟨hx, j, -, -, rfl⟩)
        · exact ⟨ht, .inr rfl⟩
        · exact ⟨hx, .inl ⟨j, rfl⟩⟩
      · rintro ⟨hx, ⟨j, rfl⟩ | rfl⟩
        · exact .inr ⟨hx, j, Nat.zero_le j, lt_of_loadBlocks hx, rfl⟩
        · exact .inl rfl
    · refine (freedAll_releaseBlocks hmap 12 0 v).congr fun x => ?_
      rw [not_not] at ht
      refine and_congr_right fun hx => ?_
      constructor
      · tauto
      · rintro (⟨j, rfl⟩ | rfl)
        · refine ⟨j, Nat.zero_le j, ?_, rfl⟩
          by_contra hge
          exact hx (loadBlocks_of_table_eq_zero ht (by omega))
        · exact absurd ht hx
  have heq : v.inodeRelease n ino =
      ((v₁.setInodeBit n false).bitmapSync n .inodeBitmap).inodeDelete n Bytes.zero := by
    rw [hv1, inodeRelease]
  have hdisk : ∀ a, 512 * p.sb.inodeTableLba ≤ a →
      ((v₁.setInodeBit n false).bitmapSync n .inodeBitmap).disk a = v.disk a := by
    intro a ha
    rw [disk_bitmapSync_inode_of_ge _ hn ha]
    exact hfreed.sameDisk a ha
  rw [heq]
  refine ⟨fun x => ?_, fun a ha => ?_, fun m hm => ?_, fun m => ?_⟩
  · have hused : ∀ b, (((v₁.setInodeBit n false).bitmapSync n .inodeBitmap).inodeDelete n
        Bytes.zero).blockUsed b = v₁.blockUsed b := by
      intro b
      rw [inodeDelete, blockUsed_setDisk, blockUsed_bitmapSync, blockUsed_setInodeBit]
    rw [← hfreed.holds_iff]
    simp only [Holds, hused]
  · have hlt := slotAddr_lt p hn
    have := p.dataStartLba_eq
    rw [disk_inodeDelete, copy_outside _ _ (by omega)]
    exact hdisk a (by omega)
  · rw [slot, slot, slice_eq_slice_iff]
    intro k hk
    rw [disk_inodeDelete, copy_outside _ _ (slotAddr_disjoint p hm hk)]
    exact hdisk _ (by rw [slotAddr]; omega)
  · have hused : (((v₁.setInodeBit n false).bitmapSync n .inodeBitmap).inodeDelete n Bytes.zero).inodeUsed m =
        if m = n then false else v₁.inodeUsed m := by
      rw [inodeDelete, inodeUsed_setDisk, inodeUsed_bitmapSync, inodeUsed_setInodeBit]
    rw [hused, hfreed.inodeUsed]
    split_ifs with hm
    · simp [hm]
    · simp [hm]

end Vol

/-! ### The tree without a leaf -/

namespace DirTree

/-- The slots of a directory without the entry of inode `n`. -/
def eraseSlots (n : UInt32) (σ : SlotTable) : SlotTable :=
  fun k idx => (σ k idx).filter fun e => ¬ (e.Ordinary ∧ e.iNo = n)

/-- The tree without inode `n` and its entry. -/
def erase (t : DirTree) (n : UInt32) : DirTree where
  slots d := if d = n then none else (t.slots d).map (eraseSlots n)
  parent := t.parent
  rank := t.rank

/-- Nothing is in directory `n`. -/
def IsLeaf (t : DirTree) (n : UInt32) : Prop := ∀ k idx e, t.At n k idx e → ¬ e.Ordinary

/-- Directory `d` has the slots `σ`, and the entry in slot `idx` of block `k` is that of a leaf. -/
structure LeafAt (t : DirTree) (d : UInt32) (σ : SlotTable) (k idx : Nat) (e : Entry) : Prop where
  slots : t.slots d = some σ
  entry : σ k idx = some e
  ordinary : e.Ordinary
  leaf : t.IsLeaf e.iNo

lemma isDir_of_slots (h : t.slots d = some σ) : t.IsDir d := by
  rw [IsDir, h]
  exact some_ne_none σ

lemma LeafAt.at (h : t.LeafAt d σ k idx e) : t.At d k idx e := ⟨σ, h.slots, h.entry⟩

lemma LeafAt.isDir (h : t.LeafAt d σ k idx e) : t.IsDir d := isDir_of_slots h.slots

lemma LeafAt.ne (h : t.LeafAt d σ k idx e) : d ≠ e.iNo := by
  intro heq
  have hat := h.at
  rw [heq] at hat
  exact h.leaf k idx e hat h.ordinary

lemma isDir_erase : (t.erase n).IsDir d ↔ t.IsDir d ∧ d ≠ n := by
  simp only [IsDir, erase]
  split_ifs with h
  · simp [h]
  · simp [h]

lemma slots_erase :
    (t.erase n).slots d = some σ ↔ d ≠ n ∧ ∃ σ', t.slots d = some σ' ∧ eraseSlots n σ' = σ := by
  simp only [erase]
  split_ifs with h
  · simp [h]
  · simp [h]

lemma eraseSlots_eq_some :
    eraseSlots n σ k idx = some e ↔ σ k idx = some e ∧ ¬ (e.Ordinary ∧ e.iNo = n) := by
  rw [eraseSlots, Option.filter_eq_some_iff, decide_eq_true_iff]

lemma at_erase : (t.erase n).At d k idx e ↔ t.At d k idx e ∧ d ≠ n ∧ ¬ (e.Ordinary ∧ e.iNo = n) := by
  constructor
  · rintro ⟨σ, hσ, he⟩
    obtain ⟨hd, σ', hσ', rfl⟩ := slots_erase.mp hσ
    obtain ⟨he, hne⟩ := eraseSlots_eq_some.mp he
    exact ⟨⟨σ', hσ', he⟩, hd, hne⟩
  · rintro ⟨⟨σ, hσ, he⟩, hd, hne⟩
    exact ⟨_, slots_erase.mpr ⟨hd, σ, hσ, rfl⟩, eraseSlots_eq_some.mpr ⟨he, hne⟩⟩

end DirTree

/-- What taking inode `n` out of directory `d` and giving it back does; `σ` is what is left in the
directory. -/
structure Vol.Removed (v : Vol p) (d n : UInt32) (σ : SlotTable) (v' : Vol p) : Prop where
  inodeUsed : ∀ m, v'.inodeUsed m = true ↔ v.inodeUsed m = true ∧ m ≠ n.toNat
  inode : ∀ m < 4096, m ≠ d.toNat → m ≠ n.toNat → v'.inodeLoad m = v.inodeLoad m
  others : ∀ x, v.Holds x → ¬ OwnsBlock v (v.inodeLoad d.toNat) x → ¬ OwnsBlock v (v.inodeLoad n.toNat) x →
    v'.Holds x ∧ SameSector v.disk v'.disk x.toNat
  rep : DirRep v' (v'.inodeLoad d.toNat) σ
  fresh : ∀ x, OwnsBlock v' (v'.inodeLoad d.toNat) x → OwnsBlock v (v.inodeLoad d.toNat) x ∨ ¬ v.Holds x
  iNo : (v'.inodeLoad d.toNat).iNo = (v.inodeLoad d.toNat).iNo
  iSize : (v'.inodeLoad d.toNat).iSize = (v.inodeLoad d.toNat).iSize - 24

lemma ownsBlock_congr
    (h : ino.iSectors 12 ≠ 0 → SameSector v.disk v'.disk (ino.iSectors 12).toNat) (x : UInt32) :
    OwnsBlock v' ino x ↔ OwnsBlock v ino x := by
  simp only [OwnsBlock, loadBlocks_congr (fun _ _ => rfl) h]

namespace SlotTable

lemma count_erase (hk : k < 140) (hidx : idx < 21)
    (he : σ k idx ≠ none) (hσ' : ∀ j i, σ' j i ≠ none ↔ σ j i ≠ none ∧ ¬ (j = k ∧ i = idx)) :
    σ'.count + 1 = σ.count := by
  have hset : ∀ S : Finset (ℕ × ℕ), (S.filter fun x => (σ' x.1 x.2).isSome) =
      (S.filter fun x => (σ x.1 x.2).isSome).erase (k, idx) := by
    intro S
    ext ⟨j, i⟩
    simp only [Finset.mem_filter, Finset.mem_erase, Option.isSome_iff_ne_none, hσ', ne_eq, Prod.mk.injEq]
    rw [and_comm (a := ¬ (j = k ∧ i = idx)), and_assoc]
  rw [count, count, hset, Finset.card_erase_add_one]
  rw [Finset.mem_filter, Finset.mem_product, Finset.mem_range, Finset.mem_range, Option.isSome_iff_ne_none]
  exact ⟨⟨hk, hidx⟩, he⟩

end SlotTable

namespace Vol.IsTree

lemma eraseSlots_of_ne (h : v.IsTree t) (he : t.At d k idx e) (ho : e.Ordinary) (hσ : t.slots c = some σ)
    (hcd : c ≠ d) : eraseSlots e.iNo σ = σ := by
  funext k' idx'
  cases he' : σ k' idx' with
  | none => rw [eraseSlots, he', Option.filter_none]
  | some e' =>
    refine eraseSlots_eq_some.mpr ⟨he', fun hne => hcd ?_⟩
    exact (h.entry_inj _ _ _ _ _ _ _ _ ⟨σ, hσ, he'⟩ he hne.1 ho hne.2).1

lemma eraseSlots_eq_set (h : v.IsTree t) (hσ : t.slots d = some σ) (he : σ k idx = some e)
    (ho : e.Ordinary) : eraseSlots e.iNo σ = σ.set k idx none := by
  funext k' idx'
  rw [SlotTable.set]
  split_ifs with hat
  · rw [hat.1, hat.2, eraseSlots, he]
    simp [ho]
  · cases he' : σ k' idx' with
    | none => rw [eraseSlots, he', Option.filter_none]
    | some e' =>
      refine eraseSlots_eq_some.mpr ⟨he', fun hne => hat ?_⟩
      exact (h.entry_inj _ _ _ _ _ _ _ _ ⟨σ, hσ, he'⟩ ⟨σ, hσ, he⟩ hne.1 ho hne.2).2

lemma count_eraseSlots (h : v.IsTree t) (hσ : t.slots d = some σ) (he : σ k idx = some e)
    (ho : e.Ordinary) : (SlotTable.count (eraseSlots e.iNo σ)) + 1 = σ.count := by
  obtain ⟨hk, hidx, -⟩ := (h.rep d σ hσ).some_inv he
  refine SlotTable.count_erase (lt_of_loadBlocks hk) hidx (by simp [he]) fun j i => ?_
  rw [h.eraseSlots_eq_set hσ he ho, SlotTable.set]
  split_ifs with hat
  · simp [hat]
  · simp [hat]

end Vol.IsTree

namespace Vol.Consistent

variable (h : v.Consistent t)
include h

lemma dir_used (hd : t.IsDir d) : v.inodeUsed d.toNat = true := by
  by_cases h0 : d = 0
  · rw [h0]
    exact h.root_used
  · obtain ⟨k, idx, e, he, ho, rfl⟩ := h.dir_named d hd h0
    exact h.used _ k idx e he ho

/-- The other inodes keep their blocks. -/
lemma others_keep (hl : t.LeafAt d σ k idx e)
    (hr : v.Removed d e.iNo τ v') (hm : m < 4096) (hu : v.inodeUsed m = true)
    (hmd : m ≠ d.toNat) (hmn : m ≠ e.iNo.toNat) :
    (∀ x, OwnsBlock v (v.inodeLoad m) x → v'.Holds x ∧ SameSector v.disk v'.disk x.toNat) ∧
      ∀ x, OwnsBlock v' (v'.inodeLoad m) x ↔ OwnsBlock v (v.inodeLoad m) x := by
  have hkeep : ∀ x, OwnsBlock v (v.inodeLoad m) x → v'.Holds x ∧ SameSector v.disk v'.disk x.toNat := by
    intro x hx
    refine hr.others x (h.held m hm hu x hx) ?_ ?_
    · exact h.disjoint m hm d.toNat (h.lt d hl.isDir) hu (h.dir_used hl.isDir) hmd x hx
    · exact h.disjoint m hm e.iNo.toNat (h.entry d k idx e hl.at hl.ordinary).iNo_lt hu
        (h.used d k idx e hl.at hl.ordinary) hmn x hx
  refine ⟨hkeep, ?_⟩
  rw [hr.inode m hm hmd hmn]
  exact ownsBlock_congr fun ht => (hkeep _ ⟨ht, .inr rfl⟩).2

/-- The directories that are left are a tree. -/
lemma isTree_removed (hl : t.LeafAt d σ k idx e)
    (hr : v.Removed d e.iNo (eraseSlots e.iNo σ) v') : v'.IsTree (t.erase e.iNo) := by
  have hin := h.entry d k idx e hl.at hl.ordinary
  have hother : ∀ c, t.IsDir c → c ≠ d → c ≠ e.iNo → v'.inodeLoad c.toNat = v.inodeLoad c.toNat :=
    fun c hc hcd hcn => hr.inode _ (h.lt c hc) (fun heq => hcd (UInt32.toNat_inj.mp heq))
      fun heq => hcn (UInt32.toNat_inj.mp heq)
  refine ⟨?_, h.parent_root, ?_, ?_, ?_, ?_, ?_, ?_, ?_, ?_, ?_, ?_⟩
  · exact isDir_erase.mpr ⟨h.root, hin.iNo_ne.symm⟩
  · -- a directory in the leaf would be an entry of it
    intro c hc
    obtain ⟨hc, hcn⟩ := isDir_erase.mp hc
    refine isDir_erase.mpr ⟨h.parent c hc, fun heq => ?_⟩
    have heq : t.parent c = e.iNo := heq
    by_cases h0 : c = 0
    · rw [h0, h.parent_root] at heq
      exact hin.iNo_ne heq.symm
    · obtain ⟨k', idx', e', he', ho', -⟩ := h.dir_named c hc h0
      rw [heq] at he'
      exact hl.leaf k' idx' e' he' ho'
  · exact fun c hc => h.lt c (isDir_erase.mp hc).1
  · intro c hc
    obtain ⟨hc, hcn⟩ := isDir_erase.mp hc
    by_cases hcd : c = d
    · rw [hcd, hr.iNo]
      exact h.iNo d hl.isDir
    · rw [hother c hc hcd hcn]
      exact h.iNo c hc
  · intro c τ hτ
    obtain ⟨hcn, τ', hτ', rfl⟩ := slots_erase.mp hτ
    by_cases hcd : c = d
    · subst hcd
      obtain rfl := some.inj (hl.slots.symm.trans hτ')
      exact hr.rep
    · have hc : t.IsDir c := isDir_of_slots hτ'
      rw [h.eraseSlots_of_ne hl.at hl.ordinary hτ' hcd, hother c hc hcd hcn]
      obtain ⟨hkeep, -⟩ := h.others_keep hl hr (h.lt c hc) (h.dir_used hc)
        (fun heq => hcd (UInt32.toNat_inj.mp heq)) fun heq => hcn (UInt32.toNat_inj.mp heq)
      exact ((h.rep c τ' hτ').of_sameSector (fun _ _ => rfl) hkeep).2
  · intro c τ hτ
    obtain ⟨-, τ', hτ', rfl⟩ := slots_erase.mp hτ
    exact eraseSlots_eq_some.mpr ⟨h.dot c τ' hτ', fun hne => hne.1.1 rfl⟩
  · intro c τ hτ
    obtain ⟨-, τ', hτ', rfl⟩ := slots_erase.mp hτ
    exact eraseSlots_eq_some.mpr ⟨h.dotDot c τ' hτ', fun hne => hne.1.2 rfl⟩
  · exact fun c k' idx' e' he' => h.ordinary c k' idx' e' (at_erase.mp he').1
  · intro c k' idx' e' he' ho'
    obtain ⟨he', -, hne⟩ := at_erase.mp he'
    have hin' := h.entry c k' idx' e' he' ho'
    refine ⟨hin'.slash, hin'.iNo_ne, hin'.iNo_lt, ?_, hin'.parent, hin'.rank⟩
    rw [hin'.isDir, isDir_erase, and_iff_left fun heq => hne ⟨ho', heq⟩]
  · exact fun c k1 i1 e1 k2 i2 e2 h1 h2 => h.name_inj c k1 i1 e1 k2 i2 e2 (at_erase.mp h1).1
      (at_erase.mp h2).1
  · exact fun c1 k1 i1 e1 c2 k2 i2 e2 h1 h2 => h.entry_inj c1 k1 i1 e1 c2 k2 i2 e2
      (at_erase.mp h1).1 (at_erase.mp h2).1

/-- Taking a leaf out of a consistent tree leaves the tree without it. -/
lemma removed (hl : t.LeafAt d σ k idx e)
    (hr : v.Removed d e.iNo (eraseSlots e.iNo σ) v') : v'.Consistent (t.erase e.iNo) := by
  have hd : t.IsDir d := hl.isDir
  have hin := h.entry d k idx e hl.at hl.ordinary
  -- an entry of another inode is still there
  have hkept : ∀ c k' idx' e', t.At c k' idx' e' → e'.Ordinary → e'.iNo ≠ e.iNo →
      (t.erase e.iNo).At c k' idx' e' := by
    intro c k' idx' e' he' ho' hno
    refine at_erase.mpr ⟨he', ?_, fun hboth => hno hboth.2⟩
    rintro rfl
    exact hl.leaf k' idx' e' he' ho'
  refine ⟨h.isTree_removed hl hr, ?_, ?_, ?_, ?_, ?_, ?_, ?_, ?_⟩
  · intro c τ hτ
    obtain ⟨hcn, τ', hτ', rfl⟩ := slots_erase.mp hτ
    by_cases hcd : c = d
    · subst hcd
      obtain rfl := some.inj (hl.slots.symm.trans hτ')
      have hsize := h.size c σ hl.slots
      have hcount := h.count_eraseSlots hl.slots hl.entry hl.ordinary
      have hle : 24 ≤ (v.inodeLoad c.toNat).iSize := UInt32.le_iff_toNat_le.mpr (by
        simp only [UInt32.reduceToNat]
        omega)
      rw [hr.iSize, UInt32.toNat_sub_of_le _ _ hle]
      simp only [UInt32.reduceToNat]
      omega
    · have hlt := h.lt c (isDir_of_slots hτ')
      rw [h.eraseSlots_of_ne hl.at hl.ordinary hτ' hcd, hr.inode c.toNat hlt
        (fun heq => hcd (UInt32.toNat_inj.mp heq)) fun heq => hcn (UInt32.toNat_inj.mp heq)]
      exact h.size c τ' hτ'
  · refine (hr.inodeUsed 0).mpr ⟨h.root_used, fun heq => hin.iNo_ne ?_⟩
    exact UInt32.toNat_inj.mp heq.symm
  · intro c k' idx' e' he' ho'
    obtain ⟨he', -, hno⟩ := at_erase.mp he'
    refine (hr.inodeUsed _).mpr ⟨h.used c k' idx' e' he' ho', fun heq => hno ⟨ho', ?_⟩⟩
    exact UInt32.toNat_inj.mp heq
  · intro m hm hu hm0
    obtain ⟨hu, hmn⟩ := (hr.inodeUsed _).mp hu
    obtain ⟨c, k', idx', e', he', ho', rfl⟩ := h.named m hm hu hm0
    exact ⟨c, k', idx', e', hkept c k' idx' e' he' ho' fun heq => hmn (heq ▸ rfl), ho', rfl⟩
  · intro c hc hc0
    obtain ⟨hc, hcn⟩ := isDir_erase.mp hc
    obtain ⟨k', idx', e', he', ho', rfl⟩ := h.dir_named c hc hc0
    exact ⟨k', idx', e', hkept _ k' idx' e' he' ho' hcn, ho', rfl⟩
  · intro m hm hu
    obtain ⟨hu, hmn⟩ := (hr.inodeUsed _).mp hu
    by_cases hmd : m = d.toNat
    · rw [hmd, hr.iNo, h.iNo d hd]
    · rw [hr.inode m hm hmd hmn]
      exact h.inode_iNo m hm hu
  · intro m hm hu x hx
    obtain ⟨hu, hmn⟩ := (hr.inodeUsed _).mp hu
    by_cases hmd : m = d.toNat
    · rw [hmd] at hx
      exact hr.rep.owned.holds hx
    · obtain ⟨hkeep, hiff⟩ := h.others_keep hl hr hm hu hmd hmn
      exact (hkeep x ((hiff x).mp hx)).1
  · -- what the directory owns it has owned before, or nobody has
    have hfirst : ∀ m < 4096, v.inodeUsed m = true → m ≠ d.toNat → m ≠ e.iNo.toNat → ∀ x,
        OwnsBlock v' (v'.inodeLoad d.toNat) x → ¬ OwnsBlock v' (v'.inodeLoad m) x := by
      intro m hm hu hmd hmn x hx hxm
      rw [(h.others_keep hl hr hm hu hmd hmn).2] at hxm
      rcases hr.fresh x hx with hx | hx
      · exact h.disjoint d.toNat (h.lt d hd) m hm (h.dir_used hd) hu (Ne.symm hmd) x hx hxm
      · exact hx (h.held m hm hu x hxm)
    intro m hm m' hm' hu hu' hmm x hx hx'
    obtain ⟨hu, hmn⟩ := (hr.inodeUsed _).mp hu
    obtain ⟨hu', hmn'⟩ := (hr.inodeUsed _).mp hu'
    by_cases hmd : m = d.toNat
    · subst hmd
      exact hfirst m' hm' hu' (Ne.symm hmm) hmn' x hx hx'
    by_cases hmd' : m' = d.toNat
    · subst hmd'
      exact hfirst m hm hu hmd hmn x hx' hx
    rw [(h.others_keep hl hr hm hu hmd hmn).2] at hx
    rw [(h.others_keep hl hr hm' hu' hmd' hmn').2] at hx'
    exact h.disjoint m hm m' hm' hu hu' hmm x hx hx'

end Vol.Consistent

/-! ### `delete_dir_entry` -/

/-- The entry of `n` can be taken out of directory `d`: the number of the directory fits a byte, and if
the entry stands in a block behind the indirect table, it is not alone there, or the table is full and
there is no other entry behind it. -/
structure Vol.Removable (v : Vol p) (t : DirTree) (d n : UInt32) : Prop where
  number : d.toNat < 256
  block : ∀ k idx e, t.At d k idx e → e.Ordinary → e.iNo = n → 12 ≤ k →
    (∃ idx' e', idx' ≠ idx ∧ t.At d k idx' e') ∨
      (∀ j, 12 ≤ j → j < 140 → loadBlocks v.disk (v.inodeLoad d.toNat) j ≠ 0) ∧
        ∀ j idx' e', 12 ≤ j → t.At d j idx' e' → j = k ∧ idx' = idx

namespace Vol.IsTree

variable (h : v.IsTree t)
include h

lemma ordinary_of_ne_zero (he : t.At d k idx e) (hk : k ≠ 0) : e.Ordinary :=
  (h.ordinary d k idx e he).resolve_left fun hdots => hk hdots.1

variable (hσ : t.slots d = some σ)
include hσ

lemma found_block (hs : σ k idx = some e) (ho : e.Ordinary)
    (hrep : DirRep v parent σ) {j i : Nat} (hj : loadBlocks v.disk parent j ≠ 0)
    (hfound : (scanSector v.disk (loadBlocks v.disk parent j) e.iNo).dirEntryFound = some i) : j = k ∧ i = idx := by
  obtain ⟨-, e', he', ho', hno⟩ := (hrep.scanOf hj e.iNo).found_some i hfound
  exact (h.entry_inj _ _ _ _ _ _ _ _ ⟨σ, hσ, he'⟩ ⟨σ, hσ, hs⟩ ho' ho hno).2

lemma alone_of_cnt (hs : σ k idx = some e) (ho : e.Ordinary) (hrep : DirRep v parent σ) (hk : k ≠ 0)
    (hcnt : (scanSector v.disk (loadBlocks v.disk parent k) e.iNo).dirEntryCnt = 1) :
    ∀ i e', σ k i = some e' → i = idx := by
  obtain ⟨hk0, hidx, -⟩ := hrep.some_inv hs
  intro i e' he'
  exact (hrep.scanOf hk0 e.iNo).cnt_one hcnt i (hrep.some_inv he').2.1 idx hidx e' e he' hs
    (h.ordinary_of_ne_zero ⟨σ, hσ, he'⟩ hk) ho

lemma deleteDirEntry_none (hs : σ k idx = some e)
    (ho : e.Ordinary) (hrep : DirRep v parent σ) (hnone : deleteDirEntry v parent e.iNo = none) :
    12 ≤ k ∧ (∀ i e', σ k i = some e' → i = idx) ∧
      ∃ j, 12 ≤ j ∧ j < 140 ∧ loadBlocks v.disk parent j = 0 := by
  obtain ⟨j, i, hj, hfound, hcnt, hrelease⟩ := deleteBlocks_eq_none hnone
  obtain ⟨rfl, rfl⟩ := h.found_block hσ hs ho hrep hj hfound
  obtain ⟨hge, hfree⟩ := releaseBlock_eq_none hrelease
  exact ⟨hge, h.alone_of_cnt hσ hs ho hrep (by omega) hcnt, hfree⟩

lemma deleteDirEntry_alone (hs : σ k idx = some e)
    (ho : e.Ordinary) (hrep : DirRep v parent σ) (hk : 12 ≤ k) (halone : ∀ i e', σ k i = some e' → i = idx)
    (hr : deleteDirEntry v parent e.iNo = some r) :
    (∀ j, 12 ≤ j → j < 140 → loadBlocks v.disk parent j ≠ 0) ∧ r.inode.iSectors 12 = 0 := by
  exact hrep.deleteDirEntry_alone hs ho rfl (fun j i e' he' ho' hno =>
    (h.entry_inj _ _ _ _ _ _ _ _ ⟨σ, hσ, he'⟩ ⟨σ, hσ, hs⟩ ho' ho hno).2) hk halone hr

/-- What is left when the deletion of an entry returns. -/
lemma deleteDirEntry_some (hs : σ k idx = some e)
    (ho : e.Ordinary) (hrep : DirRep v parent σ) (hr : deleteDirEntry v parent e.iNo = some r) :
    DeleteFrame v parent r.vol r.inode ∧ r.inode.iSize = parent.iSize - 24 ∧
      (DirRep r.vol r.inode (eraseSlots e.iNo σ) ∨
        12 ≤ k ∧ (∀ i e', σ k i = some e' → i = idx) ∧ DirRep r.vol r.inode σ.direct) := by
  rcases hrep.deleteDirEntry hr with ⟨-, hall⟩ | ⟨-, hframe, hsize, k', idx', e', he', ho', hno, hcase⟩
  · exact absurd rfl (hall k idx e hs ho)
  obtain ⟨-, rfl, rfl⟩ := h.entry_inj _ _ _ _ _ _ _ _ ⟨σ, hσ, he'⟩ ⟨σ, hσ, hs⟩ ho' ho hno
  refine ⟨hframe, hsize, ?_⟩
  rcases hcase with hset | ⟨honly, hdot, hblock⟩ | ⟨⟨hall, j, hge, hlt, hfound, hcnt⟩, hdirect⟩
  · rw [h.eraseSlots_eq_set hσ hs ho]
    exact .inl hset
  · -- a block without "." is not the first one
    have hk : k' ≠ 0 := by
      rintro rfl
      exact hdot 0 _ (h.dot d σ hσ) rfl
    have heq : eraseSlots e.iNo σ = σ.setBlock k' fun _ => none := by
      rw [h.eraseSlots_eq_set hσ hs ho]
      funext j i
      rw [SlotTable.set, SlotTable.setBlock]
      by_cases hj : j = k'
      · subst hj
        rw [if_pos rfl]
        split_ifs with hi
        · rfl
        · rw [Option.eq_none_iff_forall_ne_some]
          intro e1 he1
          exact hi ⟨rfl, honly i e1 he1 (h.ordinary_of_ne_zero ⟨σ, hσ, he1⟩ hk)⟩
      · rw [if_neg (fun hboth => hj hboth.1), if_neg hj]
    rw [heq]
    exact .inl hblock
  · obtain ⟨i, hi⟩ := Option.ne_none_iff_exists'.mp hfound
    obtain ⟨rfl, -⟩ := h.found_block hσ hs ho hrep (hall j hge hlt) hi
    exact .inr ⟨hge, h.alone_of_cnt hσ hs ho hrep (by omega) hcnt, hdirect⟩

end Vol.IsTree

/-! ### The inode table after a deletion -/

namespace DeleteFrame

variable (h : DeleteFrame v parent v' ino')
include h

lemma slot_of_ne (hm : m < 4096) (hne : m ≠ parent.iNo.toNat % 256) : v'.slot m = v.slot m := by
  obtain ⟨v₁, hsame, rfl⟩ := h.sameTable
  rw [Vol.slot_inodeSync_of_ne _ _ _ (by rwa [h.iNo]), Vol.slot, Vol.slot, slice_eq_slice_iff]
  intro k hk
  have := slotAddr_lt p hm
  exact hsame _ (by rw [slotAddr]; omega) (by omega)

lemma inodeLoad_of_ne (hm : m < 4096)
    (hne : m ≠ parent.iNo.toNat % 256) : v'.inodeLoad m = v.inodeLoad m :=
  Vol.inodeLoad_congr (h.slot_of_ne hm hne)

lemma inodeLoad_self : (v'.inodeLoad (parent.iNo.toNat % 256)).SamePersistent ino' := by
  obtain ⟨v₁, -, rfl⟩ := h.sameTable
  rw [← h.iNo]
  exact v₁.samePersistent_inodeLoad_inodeSync ino' Bytes.zero

end DeleteFrame

lemma Inode.SamePersistent.ownsBlock_iff (h : i.SamePersistent j) (x : UInt32) :
    OwnsBlock v i x ↔ OwnsBlock v j x := by
  rw [OwnsBlock, OwnsBlock, h.loadBlocks_eq, h.2.2 12 (by decide)]

namespace Vol.Consistent

variable (h : v.Consistent t)
include h

lemma rep_of_same (hσ : t.slots d = some σ)
    (hp : parent.SamePersistent (v.inodeLoad d.toNat)) : DirRep v parent σ :=
  ((h.rep d σ hσ).of_sameSector (fun k hk => hp.2.2 k (by omega)) fun _ hx =>
    ⟨(h.rep d σ hσ).owned.holds hx, fun _ _ => rfl⟩).2

variable (hl : t.LeafAt d σ k idx e)
include hl

/-- The blocks of the inode that is removed are the same after the deletion of its entry. -/
lemma ownsBlock_delete
    (hp : parent.SamePersistent (v.inodeLoad d.toNat)) (hframe : DirFrame v parent r.vol r.inode)
    (hino : ino.SamePersistent (v.inodeLoad e.iNo.toNat)) (x : UInt32) :
    OwnsBlock r.vol ino x ↔ OwnsBlock v (v.inodeLoad e.iNo.toNat) x := by
  rw [← hino.ownsBlock_iff]
  refine ownsBlock_congr (fun ht => ?_) x
  have hown : OwnsBlock v (v.inodeLoad e.iNo.toNat) (ino.iSectors 12) :=
    (hino.ownsBlock_iff _).mp ⟨ht, .inr rfl⟩
  have hlt := (h.entry d k idx e hl.at hl.ordinary).iNo_lt
  have hused := h.used d k idx e hl.at hl.ordinary
  refine (hframe.others _ (h.held _ hlt hused _ hown) ?_).2
  rw [hp.ownsBlock_iff]
  exact h.disjoint _ hlt _ (h.lt d hl.isDir) hused (h.dir_used hl.isDir)
    (fun heq => hl.ne (UInt32.toNat_inj.mp heq).symm) _ hown

/-- `delete_dir_entry` of a leaf and `inode_release` after it, when the directory is written back to its
own slot and keeps its other entries. -/
lemma removed_of_delete (hp : parent.SamePersistent (v.inodeLoad d.toNat)) (hd : d.toNat < 256)
    (hframe : DeleteFrame v parent r.vol r.inode) (hsize : r.inode.iSize = parent.iSize - 24)
    (hrep : DirRep r.vol r.inode (eraseSlots e.iNo σ))
    (hino : ino.SamePersistent (v.inodeLoad e.iNo.toNat)) :
    v.Removed d e.iNo (eraseSlots e.iNo σ) (r.vol.inodeRelease e.iNo.toNat ino) ∧
      ((r.vol.inodeRelease e.iNo.toNat ino).inodeLoad d.toNat).SamePersistent r.inode := by
  have hlt := (h.entry d k idx e hl.at hl.ordinary).iNo_lt
  have hused := h.used d k idx e hl.at hl.ordinary
  have hne : e.iNo.toNat ≠ d.toNat := fun heq => hl.ne (UInt32.toNat_inj.mp heq).symm
  have hno : parent.iNo = d := hp.1.trans (h.iNo d hl.isDir)
  have hbyte : parent.iNo.toNat % 256 = d.toNat := by
    rw [hno]
    omega
  have hown : ∀ x, OwnsBlock r.vol ino x ↔ OwnsBlock v (v.inodeLoad e.iNo.toNat) x :=
    h.ownsBlock_delete hl hp hframe.toDirFrame hino
  have hrel : r.vol.Released e.iNo.toNat ino (r.vol.inodeRelease e.iNo.toNat ino) :=
    r.vol.released_inodeRelease hlt fun x hx => (h.held _ hlt hused x ((hown x).mp hx)).isBlock
  -- the directory on disk is the one in memory
  have hload : (r.vol.inodeRelease e.iNo.toNat ino).inodeLoad d.toNat = r.vol.inodeLoad d.toNat :=
    inodeLoad_congr (hrel.slot _ (Ne.symm hne))
  have hsame : (r.vol.inodeLoad d.toNat).SamePersistent r.inode := by
    have := hframe.inodeLoad_self
    rwa [hbyte] at this
  -- and none of its blocks is given back
  have hkeep : ∀ x, OwnsBlock r.vol r.inode x → (r.vol.inodeRelease e.iNo.toNat ino).Holds x ∧
      SameSector r.vol.disk (r.vol.inodeRelease e.iNo.toNat ino).disk x.toNat := by
    intro x hx
    have hheld := hrep.owned.holds hx
    refine ⟨(hrel.holds_iff x).mpr ⟨hheld, fun hx' => ?_⟩, hrel.sameData.sameSector hheld.ge⟩
    rw [hown] at hx'
    rcases hframe.fresh x hx with hx | hx
    · rw [hp.ownsBlock_iff] at hx
      exact h.disjoint _ hlt _ (h.lt d hl.isDir) hused (h.dir_used hl.isDir) hne x hx' hx
    · exact hx (h.held _ hlt hused x hx')
  obtain ⟨hmap, hrep'⟩ := hrep.of_sameSector (fun k hk => hsame.2.2 k (by omega)) hkeep
  refine ⟨⟨?_, ?_, ?_, ?_, ?_, ?_, ?_⟩, by rwa [hload]⟩
  · intro m
    rw [hrel.inodeUsed, hframe.inodeUsed]
  · intro m hm hmd hmn
    rw [inodeLoad_congr (hrel.slot m hmn)]
    exact hframe.inodeLoad_of_ne hm (by rwa [hbyte])
  · intro x hx hxd hxn
    obtain ⟨hheld, hsec⟩ := hframe.others x hx (by rwa [hp.ownsBlock_iff])
    refine ⟨(hrel.holds_iff x).mpr ⟨hheld, ?_⟩, hsec.trans (hrel.sameData.sameSector hheld.ge)⟩
    rwa [hown]
  · rw [hload]
    exact hrep'
  · intro x hx
    rw [hload] at hx
    have hx' : OwnsBlock r.vol r.inode x := by
      simpa only [OwnsBlock, hmap, hsame.2.2 12 (by decide)] using hx
    rcases hframe.fresh x hx' with hx | hx
    · exact .inl ((hp.ownsBlock_iff x).mp hx)
    · exact .inr hx
  · rw [hload, hsame.1, hframe.iNo, hp.1]
  · rw [hload, hsame.2.1, hsize, hp.2.1]

/-- An entry that can be taken out is taken out, and the tree is left without it. -/
lemma remove (hp : parent.SamePersistent (v.inodeLoad d.toNat)) (hrem : v.Removable t d e.iNo) :
    ∃ r, deleteDirEntry v parent e.iNo = some r ∧ DeleteFrame v parent r.vol r.inode ∧
      ∀ ino : Inode, ino.SamePersistent (v.inodeLoad e.iNo.toNat) →
        v.Removed d e.iNo (eraseSlots e.iNo σ) (r.vol.inodeRelease e.iNo.toNat ino) ∧
          ((r.vol.inodeRelease e.iNo.toNat ino).inodeLoad d.toNat).SamePersistent r.inode := by
  have hrep := h.rep_of_same hl.slots hp
  have hblock := hrem.block k idx e hl.at hl.ordinary rfl
  cases hr : deleteDirEntry v parent e.iNo with
  | none =>
    obtain ⟨hk, halone, j, hj, hj', hj0⟩ := h.deleteDirEntry_none hl.slots hl.entry hl.ordinary hrep hr
    rcases hblock hk with ⟨idx', e', hidx, σ', hσ', he'⟩ | ⟨hfull, -⟩
    · obtain rfl := some.inj (hl.slots.symm.trans hσ')
      exact absurd (halone idx' e' he') hidx
    · rw [hp.loadBlocks_eq] at hj0
      exact absurd hj0 (hfull j hj hj')
  | some r =>
    obtain ⟨hframe, hsize, hcase⟩ := h.deleteDirEntry_some hl.slots hl.entry hl.ordinary hrep hr
    refine ⟨r, rfl, hframe, fun ino hino => ?_⟩
    refine h.removed_of_delete hl hp hrem.number hframe hsize ?_ hino
    rcases hcase with hrest | ⟨hk, halone, hdirect⟩
    · exact hrest
    rcases hblock hk with ⟨idx', e', hidx, σ', hσ', he'⟩ | ⟨-, honly⟩
    · obtain rfl := some.inj (hl.slots.symm.trans hσ')
      exact absurd (halone idx' e' he') hidx
    -- nothing else is behind the table
    have heq : eraseSlots e.iNo σ = σ.direct := by
      rw [h.eraseSlots_eq_set hl.slots hl.entry hl.ordinary]
      funext j i
      rw [SlotTable.set, SlotTable.direct]
      split_ifs with hat hj hj
      · omega
      · rfl
      · rfl
      · rw [Option.eq_none_iff_forall_ne_some]
        exact fun e' he' => hat (honly j i e' (by omega) ⟨σ, hl.slots, he'⟩)
    rw [heq]
    exact hdirect

lemma not_consistent_of_size
    (hload : v'.inodeLoad d.toNat = v.inodeLoad d.toNat) : ¬ v'.Consistent (t.erase e.iNo) := by
  intro h'
  have hsize := h'.size d _ (slots_erase.mpr ⟨hl.ne, σ, hl.slots, rfl⟩)
  rw [hload, h.size d σ hl.slots] at hsize
  have hcount := h.count_eraseSlots hl.slots hl.entry hl.ordinary
  omega

/-- After the deletion of its entry the inode has data blocks only, whether it is read from disk again
or not. -/
lemma isBlock_delete
    (hp : parent.SamePersistent (v.inodeLoad d.toNat)) (hr : deleteDirEntry v parent e.iNo = some r)
    (hino : ino.SamePersistent (v.inodeLoad e.iNo.toNat) ∨
      ino.SamePersistent (r.vol.inodeLoad e.iNo.toNat)) (x : UInt32) (hx : OwnsBlock r.vol ino x) :
    IsBlock p x := by
  have hlt := (h.entry d k idx e hl.at hl.ordinary).iNo_lt
  have hused := h.used d k idx e hl.at hl.ordinary
  obtain ⟨hframe, -, hcase⟩ :=
    h.deleteDirEntry_some hl.slots hl.entry hl.ordinary (h.rep_of_same hl.slots hp) hr
  have hsame : ∀ i : Inode, i.SamePersistent (v.inodeLoad e.iNo.toNat) → OwnsBlock r.vol i x → IsBlock p x := by
    intro i hi hx
    rw [h.ownsBlock_delete hl hp hframe.toDirFrame hi] at hx
    exact (h.held _ hlt hused x hx).isBlock
  rcases hino with hino | hino
  · exact hsame ino hino hx
  rw [hino.ownsBlock_iff] at hx
  by_cases hbyte : e.iNo.toNat = parent.iNo.toNat % 256
  · -- the slot holds the inode of the directory now
    rw [hbyte, hframe.inodeLoad_self.ownsBlock_iff] at hx
    rcases hcase with hrest | ⟨-, -, hrest⟩
    · exact (hrest.owned.holds hx).isBlock
    · exact (hrest.owned.holds hx).isBlock
  · rw [hframe.inodeLoad_of_ne hlt hbyte] at hx
    exact hsame _ (.refl _) hx

/-- An entry that cannot be taken out leaves no consistent tree behind. -/
lemma not_consistent_of_not_removable
    (hp : parent.SamePersistent (v.inodeLoad d.toNat)) (hrem : ¬ v.Removable t d e.iNo)
    (hr : deleteDirEntry v parent e.iNo = some r)
    (hino : ino.SamePersistent (v.inodeLoad e.iNo.toNat) ∨
      ino.SamePersistent (r.vol.inodeLoad e.iNo.toNat)) :
    ¬ (r.vol.inodeRelease e.iNo.toNat ino).Consistent (t.erase e.iNo) := by
  have hrep := h.rep_of_same hl.slots hp
  have hlt := (h.entry d k idx e hl.at hl.ordinary).iNo_lt
  have hne : d.toNat ≠ e.iNo.toNat := fun heq => hl.ne (UInt32.toNat_inj.mp heq)
  have hno : parent.iNo = d := hp.1.trans (h.iNo d hl.isDir)
  have hrel : r.vol.Released e.iNo.toNat ino (r.vol.inodeRelease e.iNo.toNat ino) :=
    r.vol.released_inodeRelease hlt (h.isBlock_delete hl hp hr hino)
  have hload := inodeLoad_congr (hrel.slot _ hne)
  obtain ⟨hframe, -, -⟩ := h.deleteDirEntry_some hl.slots hl.entry hl.ordinary hrep hr
  by_cases hd : d.toNat < 256
  swap
  · -- another slot is written
    refine h.not_consistent_of_size hl (hload.trans ?_)
    exact hframe.inodeLoad_of_ne (h.lt d hl.isDir) (by rw [hno]; omega)
  intro h'
  refine hrem ⟨hd, fun k' idx' e' he' ho' hno' hk => ?_⟩
  obtain ⟨-, rfl, rfl⟩ := h.entry_inj _ _ _ _ _ _ _ _ he' hl.at ho' hl.ordinary hno'
  by_cases halone : ∀ i e1, σ k' i = some e1 → i = idx'
  · obtain ⟨hfull, htable⟩ := h.deleteDirEntry_alone hl.slots hl.entry hl.ordinary hrep hk halone hr
    rw [hp.loadBlocks_eq] at hfull
    refine .inr ⟨hfull, fun j i e1 hj he1 => ?_⟩
    by_contra hat
    -- the other entry has no block any more
    have hleft : (t.erase e.iNo).At d j i e1 := by
      refine at_erase.mpr ⟨he1, hl.ne, fun hboth => hat ?_⟩
      exact (h.entry_inj _ _ _ _ _ _ _ _ he1 hl.at hboth.1 hl.ordinary hboth.2).2
    obtain ⟨τ, hτ, he1⟩ := hleft
    obtain ⟨hj0, -⟩ := (h'.rep d τ hτ).some_inv he1
    refine hj0 (loadBlocks_of_table_eq_zero ?_ hj)
    have hself := hframe.inodeLoad_self
    rw [hno, Nat.mod_eq_of_lt hd] at hself
    rw [hload, hself.2.2 12 (by decide)]
    exact htable
  · obtain ⟨i, hi⟩ := not_forall.mp halone
    obtain ⟨e1, hi⟩ := not_forall.mp hi
    obtain ⟨he1, hi⟩ := Classical.not_imp.mp hi
    exact .inl ⟨i, e1, hi, σ, hl.slots, he1⟩

end Vol.Consistent

end SimpleOs
