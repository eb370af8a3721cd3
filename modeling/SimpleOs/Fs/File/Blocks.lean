import SimpleOs.Base.Fallible
import SimpleOs.Fs.Synced

/-!
# The blocks of a file

Which data blocks a file owns, and what the allocation part of `file_write` does to them. All cases in
which a file grows are one: a preparation, a loop that takes blocks, and the indirect table written
back. Whether it succeeds or not, what the loop takes is fresh; if it succeeds, the file has the blocks
it had, followed by the new ones.
-/

namespace SimpleOs

open Base

variable {p : Partition}

variable {v v' : Vol p} {t : Option UInt32}

/-- The address of block `k` of a file: from the inode, or from the indirect table. -/
def Vol.blockOf (v : Vol p) (ino : Inode) (k : Nat) : UInt32 :=
  if k < 12 then ino.iSectors k
  else v.disk.u32 (512 * (ino.iSectors 12).toNat + 4 * (k - 12))

/-- The first `n` blocks of `m` are distinct allocated blocks, and none of them is the block of the
indirect table. -/
structure Owns (v : Vol p) (m : Nat → UInt32) (n : Nat) (table : Option UInt32) : Prop where
  held : ∀ k < n, v.Holds (m k)
  inj : ∀ j < n, ∀ k < n, m j = m k → j = k
  table_held : ∀ t ∈ table, v.Holds t
  table_ne : ∀ t ∈ table, ∀ k < n, m k ≠ t

/-- A file of `n` blocks owns them, and its indirect table if it needs one. -/
def OwnsFile (v : Vol p) (ino : Inode) (n : Nat) : Prop :=
  Owns v (v.blockOf ino) n (if 12 < n then some (ino.iSectors 12) else none)

lemma Owns.mono (h : Owns v m n t) (hmono : ∀ x, v.Holds x → v'.Holds x) : Owns v' m n t :=
  ⟨fun k hk => hmono _ (h.held k hk), h.inj, fun t ht => hmono t (h.table_held t ht), h.table_ne⟩

lemma Owns.congr (h : Owns v m n t) (hm : ∀ k < n, m' k = m k) : Owns v m' n t where
  held k hk := by rw [hm k hk]; exact h.held k hk
  inj j hj k hk heq := h.inj j hj k hk (by rw [← hm j hj, ← hm k hk, heq])
  table_held := h.table_held
  table_ne t ht k hk := by rw [hm k hk]; exact h.table_ne t ht k hk

lemma ownsFile_one (h : v.Holds (ino.iSectors 0)) : OwnsFile v ino 1 where
  held k hk := by
    obtain rfl : k = 0 := by omega
    exact h
  inj j hj k hk _ := by omega
  table_held := by simp
  table_ne := by simp

/-- Taking a block adds it to the allocated ones. -/
lemma Vol.holds_alloc_iff (h : v.blockBitmapAlloc = some (lba, v'))
    (x : UInt32) : v'.Holds x ↔ v.Holds x ∨ x = UInt32.ofNat lba := by
  have ha := (Vol.allocated_of_alloc h).1
  refine ⟨?_, ?_⟩
  · obtain ⟨b, hb, -, rfl, rfl⟩ := Vol.blockBitmapAlloc_eq_some h
    rintro ⟨c, hc, hu, hx⟩
    rw [Vol.blockUsed_setBlockBit] at hu
    split_ifs at hu with hcb
    · have hlt := p.dataStartLba_add_lt hb
      refine .inr (UInt32.toNat_inj.mp ?_)
      rw [UInt32.toNat_ofNat_of_lt' (hlt.trans (by decide)), hx, hcb]
    · exact .inl ⟨c, hc, hu, hx⟩
  · rintro (hx | rfl)
    · exact hx.mono ha.mono
    · exact ha.holds

lemma Vol.holds_bitmapSync (v : Vol p) (i : Nat) (t : BitmapType) (x : UInt32) :
    (v.bitmapSync i t).Holds x ↔ v.Holds x := by
  simp only [Vol.Holds, Vol.blockUsed_bitmapSync]

namespace WriteState

variable {st st₁ st' : WriteState p} {n' k m : Nat}

/-! ### The allocation loops -/

/-- The block map `file_write` is building: the inode for the direct blocks, `all_blocks` for the
others. -/
def map (st : WriteState p) (k : Nat) : UInt32 :=
  if k < 12 then st.inode.iSectors k else st.allBlocks k

lemma map_record (st : WriteState p) (k : Nat) (lba : UInt32) :
    (st.record (decide (k < 12)) k lba).map = setEntry st.map k lba := by
  funext j
  by_cases hk : k < 12
  · simp only [map, record, setEntry, hk, decide_true, if_true]
    split_ifs <;> rfl
  · simp only [map, record, setEntry, hk, decide_false, Bool.false_eq_true, if_false]
    split_ifs <;> first | rfl | omega

lemma iSectors_record_12 (st : WriteState p) (k : Nat) (lba : UInt32) :
    (st.record (decide (k < 12)) k lba).inode.iSectors 12 = st.inode.iSectors 12 := by
  by_cases hk : k < 12
  · have hne : 12 ≠ k := by omega
    simp [record, hk, setEntry_of_ne _ _ hne]
  · simp [record, hk]

lemma iSize_record (st : WriteState p) (direct : Bool) (k : Nat) (lba : UInt32) :
    (st.record direct k lba).inode.iSize = st.inode.iSize := by
  cases direct <;> rfl

lemma allBlocks_record (st : WriteState p) (direct : Bool) (k : Nat) (lba : UInt32) :
    (st.record direct k lba).allBlocks = setEntry st.allBlocks k lba := rfl

/-- The state in which a part of `file_write` ends, one way or the other. -/
def outcome : Except (WriteState p) (WriteState p) → WriteState p
  | .error st => st
  | .ok st => st

/-- What an allocation loop does to the block map and the bitmap, whether or not it ends early: the
entries `[k, k + m)` get fresh blocks, and these are the blocks it takes. -/
structure Takes (st st' : WriteState p) (k m : Nat) : Prop where
  map_other : ∀ j, j < k ∨ k + m ≤ j → st'.map j = st.map j
  fresh : ∀ j, k ≤ j → j < k + m → ¬ st.vol.Holds (st'.map j)
  inj : ∀ i j, k ≤ i → i < j → j < k + m → st'.map i ≠ st'.map j
  holds_iff : ∀ x, st'.vol.Holds x ↔
    st.vol.Holds x ∨ ∃ j, k ≤ j ∧ j < k + m ∧ st'.map j = x
  allBlocks_lt : ∀ j < k, st'.allBlocks j = st.allBlocks j
  allBlocks_eq : ∀ j, k ≤ j → j < k + m → st'.allBlocks j = st'.map j
  table : st'.inode.iSectors 12 = st.inode.iSectors 12
  iSize : st'.inode.iSize = st.inode.iSize
  sameData : st.vol.SameData st'.vol

lemma Takes.refl (st : WriteState p) (k : Nat) : st.Takes st k 0 where
  map_other _ _ := rfl
  fresh j h1 h2 := by omega
  inj i j h1 h2 h3 := by omega
  holds_iff x := by
    refine ⟨.inl, ?_⟩
    rintro (hx | ⟨j, h1, h2, -⟩)
    · exact hx
    · omega
  allBlocks_lt _ _ := rfl
  allBlocks_eq j h1 h2 := by omega
  table := rfl
  iSize := rfl
  sameData _ _ := rfl

/-- One more block in front of what the rest of the loop takes. -/
lemma Takes.cons {lba : UInt32} (hfresh : ¬ st.vol.Holds lba)
    (hholds : ∀ x, v.Holds x ↔ st.vol.Holds x ∨ x = lba) (hdata : st.vol.SameData v)
    (h : (({ st with vol := v } : WriteState p).record (decide (k < 12)) k lba).Takes st' (k + 1) m) :
    st.Takes st' k (m + 1) := by
  have hmap := map_record { st with vol := v } k lba
  have hk : st'.map k = lba := by rw [h.map_other k (.inl (by omega)), hmap, setEntry_self]
  refine ⟨?_, ?_, ?_, ?_, ?_, ?_, ?_, ?_, hdata.trans h.sameData⟩
  · intro j hj
    rw [h.map_other j (by omega), hmap, setEntry_of_ne _ _ (by omega)]
    rfl
  · intro j h1 h2
    rcases Nat.eq_or_lt_of_le h1 with rfl | hlt
    · rw [hk]
      exact hfresh
    · exact fun hx => h.fresh j hlt (by omega) ((hholds _).mpr (.inl hx))
  · intro i j h1 h2 h3 heq
    rcases Nat.eq_or_lt_of_le h1 with rfl | hlt
    · exact h.fresh j (by omega) (by omega) ((hholds _).mpr (.inr (heq.symm.trans hk)))
    · exact h.inj i j hlt h2 (by omega) heq
  · intro x
    refine (h.holds_iff x).trans ((or_congr_left (hholds x)).trans (or_assoc.trans (or_congr_right ⟨?_, ?_⟩)))
    · rintro (rfl | ⟨j, h1, h2, hj⟩)
      · exact ⟨k, le_rfl, by omega, hk⟩
      · exact ⟨j, by omega, by omega, hj⟩
    · rintro ⟨j, h1, h2, rfl⟩
      rcases Nat.eq_or_lt_of_le h1 with rfl | hlt
      · exact .inl hk
      · exact .inr ⟨j, hlt, by omega, rfl⟩
  · intro j hj
    rw [h.allBlocks_lt j (by omega), allBlocks_record, setEntry_of_ne _ _ (by omega)]
  · intro j h1 h2
    rcases Nat.eq_or_lt_of_le h1 with rfl | hlt
    · rw [h.allBlocks_lt k (by omega), allBlocks_record, setEntry_self, hk]
    · exact h.allBlocks_eq j hlt (by omega)
  · rw [h.table, iSectors_record_12]
  · rw [h.iSize, iSize_record]

/-- An allocation loop takes as many blocks as it needs, or all there are. -/
lemma allocBlocks_takes (n k : Nat) (st : WriteState p) :
    st.Takes (outcome (allocBlocks (fun k => decide (k < 12)) n k st)) k (min n st.vol.freeBlocks.card) := by
  induction n generalizing k st with
  | zero =>
    rw [Nat.zero_min]
    exact .refl st k
  | succ n ih =>
    rw [allocBlocks]
    cases halloc : st.vol.blockBitmapAlloc with
    | none =>
      rw [Vol.blockBitmapAlloc_eq_none_iff.mp halloc]
      exact .refl st k
    | some r =>
      obtain ⟨lba, v⟩ := r
      have ha := (Vol.allocated_of_alloc halloc).2
      rw [← Vol.card_freeBlocks_alloc halloc, Nat.add_min_add_right,
        ← v.card_freeBlocks_bitmapSync (lba - p.sb.dataStartLba) .blockBitmap]
      refine Takes.cons (fun hx => ha.fresh _ hx rfl) (fun x => ?_) ha.sameData (ih (k + 1) _)
      exact (Vol.holds_bitmapSync _ _ _ x).trans (Vol.holds_alloc_iff halloc x)

lemma allocBlocks_ok_iff (direct : Nat → Bool) (n k : Nat) (st : WriteState p) :
    (∃ st', allocBlocks direct n k st = .ok st') ↔ n ≤ st.vol.freeBlocks.card := by
  induction n generalizing k st with
  | zero => exact iff_of_true ⟨st, rfl⟩ (Nat.zero_le _)
  | succ n ih =>
    rw [allocBlocks]
    cases halloc : st.vol.blockBitmapAlloc with
    | none =>
      have hcard := Vol.blockBitmapAlloc_eq_none_iff.mp halloc
      refine iff_of_false ?_ (by omega)
      rintro ⟨st', h⟩
      cases h
    | some r =>
      have hcard := Vol.card_freeBlocks_alloc halloc
      rw [ih, WriteState.record, Vol.card_freeBlocks_bitmapSync]
      omega

/-- What a loop takes belongs to a file as its other blocks do. -/
lemma Takes.owns (ht : st.Takes st' k m) (h : Owns st.vol st.map k t) :
    Owns st'.vol st'.map (k + m) t := by
  have hne : ∀ i j, i < j → j < k + m → st'.map i ≠ st'.map j := by
    intro i j hij hj heq
    by_cases hik : i < k
    · rw [ht.map_other i (.inl hik)] at heq
      by_cases hjk : j < k
      · rw [ht.map_other j (.inl hjk)] at heq
        exact hij.ne (h.inj i hik j hjk heq)
      · exact ht.fresh j (by omega) hj (heq ▸ h.held i hik)
    · exact ht.inj i j (by omega) hij hj heq
  have hmono : ∀ x, st.vol.Holds x → st'.vol.Holds x := fun x hx => (ht.holds_iff x).mpr (.inl hx)
  refine ⟨fun j hj => ?_, fun i hi j hj heq => ?_, fun x hx => hmono x (h.table_held x hx), fun x hx j hj => ?_⟩
  · by_cases hjk : j < k
    · rw [ht.map_other j (.inl hjk)]
      exact hmono _ (h.held j hjk)
    · exact (ht.holds_iff _).mpr (.inr ⟨j, by omega, hj, rfl⟩)
  · rcases Nat.lt_trichotomy i j with hlt | rfl | hgt
    · exact absurd heq (hne i j hlt hj)
    · rfl
    · exact absurd heq.symm (hne j i hgt hi)
  · by_cases hjk : j < k
    · rw [ht.map_other j (.inl hjk)]
      exact h.table_ne x hx j hjk
    · exact fun heq => ht.fresh j (by omega) hj (heq ▸ h.table_held x hx)

/-! ### Before and after the loops -/

/-- What a file that grows needs before it gets new blocks: the block it ends in, a block for its
indirect table, or the indirect table it has. -/
def prepare (st : WriteState p) (hasUsed willUse : Nat) : Except (WriteState p) (WriteState p) :=
  if willUse ≤ 12 then .ok (st.lastBlock hasUsed)
  else if hasUsed ≤ 12 then (st.lastBlock hasUsed).allocTable
  else .ok st.readTable

/-- The indirect table is written in the end, if there is one. -/
def finish (st : WriteState p) (willUse : Nat) : WriteState p :=
  if willUse ≤ 12 then st else st.writeTable

lemma allocBlocks_congr (st : WriteState p) (h : ∀ j, k ≤ j → j < k + n → direct j = direct' j) :
    allocBlocks direct n k st = allocBlocks direct' n k st := by
  induction n generalizing k st with
  | zero => rfl
  | succ n ih =>
    simp only [allocBlocks, h k le_rfl (by omega)]
    split
    · rfl
    · exact ih _ fun j h1 h2 => h j (by omega) (by omega)

lemma mapBlocks_of_ne (st : WriteState p) (hne : n' ≠ n) :
    st.mapBlocks n n' = st.prepare n n' >>= fun st =>
      allocBlocks (fun k => decide (k < 12)) (n' - n) n st >>= fun st => .ok (st.finish n') := by
  rw [mapBlocks, if_neg hne, prepare]
  split_ifs with h12 hn
  · rw [ok_bind, allocBlocks_congr _ fun j h1 h2 => (decide_eq_true (show j < 12 by omega)).symm]
    simp only [finish, if_pos h12]
    cases allocBlocks (fun k => decide (k < 12)) (n' - n) n (st.lastBlock n) <;> rfl
  · simp only [finish, if_neg h12]
  · rw [ok_bind, allocBlocks_congr _ fun j h1 h2 => (decide_eq_false (show ¬ j < 12 by omega)).symm]
    simp only [finish, if_neg h12]

lemma iSectors_eq_map (st : WriteState p) (hk : k < 12) : st.inode.iSectors k = st.map k := by
  rw [map, if_pos hk]

lemma map_eq_blockOf (st : WriteState p) (hk : k < 12) : st.map k = st.vol.blockOf st.inode k := by
  rw [map, Vol.blockOf, if_pos hk, if_pos hk]

lemma map_lastBlock (st : WriteState p) (hn : n ≤ 12) (k : Nat) : (st.lastBlock n).map k = st.map k := by
  by_cases hk : k < 12
  · simp [map, lastBlock, hk]
  · simp [map, lastBlock, hk, setEntry_of_ne _ _ (show k ≠ n - 1 by omega)]

lemma map_readTable (st : WriteState p) (hk : k < 140) :
    st.readTable.map k = st.vol.blockOf st.inode k := by
  by_cases h : k < 12
  · simp [map, Vol.blockOf, readTable, h]
  · have : 12 ≤ k := by omega
    simp [map, Vol.blockOf, readTable, h, this, hk]

/-- The block of the indirect table is a fresh one, and becomes no block of the map. -/
lemma allocTable_gives (h : st.allocTable = .ok st₁) :
    ¬ st.vol.Holds (st₁.inode.iSectors 12) ∧
      (∀ x, st₁.vol.Holds x ↔ st.vol.Holds x ∨ x = st₁.inode.iSectors 12) ∧
      (∀ k, st₁.map k = st.map k) ∧ st₁.allBlocks = st.allBlocks ∧ st₁.inode.iSize = st.inode.iSize ∧
      st.vol.SameData st₁.vol ∧ st₁.vol.freeBlocks.card + 1 = st.vol.freeBlocks.card := by
  rw [allocTable] at h
  cases halloc : st.vol.blockBitmapAlloc with
  | none =>
    rw [halloc] at h
    cases h
  | some r =>
    obtain ⟨lba, v⟩ := r
    rw [halloc] at h
    cases h
    have ha := (Vol.allocated_of_alloc halloc).1
    have h12 := setEntry_self st.inode.iSectors 12 (UInt32.ofNat lba)
    simp only [h12]
    refine ⟨fun hx => ha.fresh _ hx rfl, Vol.holds_alloc_iff halloc, fun k => ?_, trivial, trivial,
      ha.sameData, Vol.card_freeBlocks_alloc halloc⟩
    by_cases hk : k < 12
    · simp [map, hk, setEntry_of_ne _ _ (show k ≠ 12 by omega)]
    · simp [map, hk]

lemma allocTable_eq_error (h : st.allocTable = .error st₁) :
    st₁ = st ∧ st.vol.blockBitmapAlloc = none := by
  rw [allocTable] at h
  cases halloc : st.vol.blockBitmapAlloc with
  | none =>
    rw [halloc] at h
    exact ⟨(Except.error.inj h).symm, rfl⟩
  | some r =>
    rw [halloc] at h
    cases h

/-- After the preparation the map has the blocks of the file. A block is taken for the indirect table
if the file gets one. -/
structure Prepared (st st₁ : WriteState p) (n n' : Nat) : Prop where
  map : ∀ k < 140, st₁.map k = if 12 < n then st.vol.blockOf st.inode k else st.map k
  last : ∀ k, k + 1 = n → st₁.allBlocks k = st₁.map k
  holds_iff : ∀ x, st₁.vol.Holds x ↔
    st.vol.Holds x ∨ (n ≤ 12 ∧ 12 < n') ∧ x = st₁.inode.iSectors 12
  fresh : n ≤ 12 → 12 < n' → ¬ st.vol.Holds (st₁.inode.iSectors 12)
  table : 12 < n ∨ n' ≤ 12 → st₁.inode.iSectors 12 = st.inode.iSectors 12
  iSize : st₁.inode.iSize = st.inode.iSize
  sameData : st.vol.SameData st₁.vol
  card : st₁.vol.freeBlocks.card + (if n ≤ 12 ∧ 12 < n' then 1 else 0) = st.vol.freeBlocks.card

lemma prepared_of_prepare (hnn : n ≤ n') (h : st.prepare n n' = .ok st₁) : st.Prepared st₁ n n' := by
  have hlast : n ≤ 12 → ∀ k, k + 1 = n → (st.lastBlock n).allBlocks k = st.map k := by
    rintro hn k rfl
    simp [lastBlock, WriteState.map, show k < 12 by omega]
  have hsame {c : Prop} (hc : ¬ c) (x : UInt32) : st.vol.Holds x ↔ st.vol.Holds x ∨ c ∧ x = st₁.inode.iSectors 12 :=
    (or_iff_left fun hx => hc hx.1).symm
  rw [prepare] at h
  split_ifs at h with h12 hn
  · cases h
    have hn : n ≤ 12 := by omega
    refine ⟨fun k _ => ?_, fun k hk => ?_, hsame (by omega), by omega, fun _ => rfl, rfl, fun _ _ => rfl, ?_⟩
    · rw [if_neg (by omega), map_lastBlock st hn]
    · rw [hlast hn k hk, map_lastBlock st hn]
    · rw [if_neg (by omega)]
      rfl
  · obtain ⟨hfresh, hholds, hmap, hall, hsize, hdata, hcard⟩ := allocTable_gives h
    refine ⟨fun k _ => ?_, fun k hk => ?_, fun x => ?_, fun _ _ => hfresh, by omega, hsize, hdata, ?_⟩
    · rw [if_neg (by omega), hmap, map_lastBlock st hn]
    · rw [hall, hlast hn k hk, hmap, map_lastBlock st hn]
    · rw [hholds, and_iff_right ⟨hn, by omega⟩]
      rfl
    · rw [if_pos ⟨hn, by omega⟩]
      exact hcard
  · cases h
    refine ⟨fun k hk => ?_, fun k hk => ?_, hsame (by omega), by omega, fun _ => rfl, rfl, fun _ _ => rfl, ?_⟩
    · rw [if_pos (by omega), st.map_readTable hk]
    · rw [WriteState.map, if_neg (by omega)]
    · rw [if_neg (by omega)]
      rfl

lemma prepare_eq_error (h : st.prepare n n' = .error st₁) :
    (n ≤ 12 ∧ 12 < n') ∧ st.vol.freeBlocks.card = 0 ∧ st₁ = st.lastBlock n := by
  rw [prepare] at h
  split_ifs at h with h12 hn
  obtain ⟨rfl, hnone⟩ := allocTable_eq_error h
  exact ⟨⟨hn, by omega⟩, Vol.blockBitmapAlloc_eq_none_iff.mp hnone, rfl⟩

lemma mapBlocks_self (hok : st.mapBlocks n n = .ok st') :
    st'.vol = st.vol ∧ st'.inode = st.inode ∧
      ∀ k, k + 1 = n → k < 140 → st'.allBlocks k = st.vol.blockOf st.inode k := by
  rw [mapBlocks, if_pos rfl] at hok
  split_ifs at hok with h12
  · cases hok
    refine ⟨rfl, rfl, fun k hk _ => ?_⟩
    subst hk
    simp [lastBlock, Vol.blockOf, show k < 12 by omega]
  · cases hok
    refine ⟨rfl, rfl, fun k hk hk' => ?_⟩
    rw [← st.map_readTable hk', map, if_neg (by omega)]

lemma mapBlocks_eq_ok (hlt : n < n') (hok : st.mapBlocks n n' = .ok st') :
    ∃ st₁ st2, st.Prepared st₁ n n' ∧ st₁.Takes st2 n (n' - n) ∧ st' = st2.finish n' := by
  rw [mapBlocks_of_ne st hlt.ne'] at hok
  obtain ⟨st₁, hprep, hok⟩ := except_bind_eq_ok.mp hok
  obtain ⟨st2, halloc, hok⟩ := except_bind_eq_ok.mp hok
  have ht := allocBlocks_takes (n' - n) n st₁
  rw [halloc, Nat.min_eq_left ((allocBlocks_ok_iff _ _ _ _).mp ⟨st2, halloc⟩)] at ht
  exact ⟨st₁, st2, prepared_of_prepare hlt.le hprep, ht, (Except.ok.inj hok).symm⟩

/-- How it fails: there is no block for the indirect table, or too few for the data. -/
lemma mapBlocks_eq_error (herr : st.mapBlocks n n' = .error st') :
    n < n' ∧ ((n ≤ 12 ∧ 12 < n') ∧ st.vol.freeBlocks.card = 0 ∧ st' = st.lastBlock n ∨
      ∃ st₁, st.Prepared st₁ n n' ∧ st₁.vol.freeBlocks.card < n' - n ∧
        st₁.Takes st' n st₁.vol.freeBlocks.card) := by
  have hne : n' ≠ n := by
    rintro rfl
    rw [mapBlocks, if_pos rfl] at herr
    split_ifs at herr
  rw [mapBlocks_of_ne st hne] at herr
  cases hprep : st.prepare n n' with
  | error st₁ =>
    rw [hprep] at herr
    obtain rfl := Except.error.inj herr
    have h := prepare_eq_error hprep
    exact ⟨by omega, .inl h⟩
  | ok st₁ =>
    rw [hprep, ok_bind] at herr
    have ht := allocBlocks_takes (n' - n) n st₁
    have hiff := allocBlocks_ok_iff (fun k => decide (k < 12)) (n' - n) n st₁
    cases halloc : allocBlocks (fun k => decide (k < 12)) (n' - n) n st₁ with
    | ok st2 =>
      rw [halloc] at herr
      cases herr
    | error st2 =>
      rw [halloc] at herr ht hiff
      obtain rfl := Except.error.inj herr
      have hfew : st₁.vol.freeBlocks.card < n' - n := by
        by_contra hle
        obtain ⟨_, h⟩ := hiff.mpr (by omega)
        cases h
      rw [Nat.min_eq_right hfew.le] at ht
      exact ⟨by omega, .inr ⟨st₁, prepared_of_prepare (by omega) hprep, hfew, ht⟩⟩

/-- The block map part needs the blocks that the file grows by, and one for the indirect table. -/
lemma mapBlocks_ok_iff (st : WriteState p) (hasUsed willUse : Nat) :
    (∃ st', st.mapBlocks hasUsed willUse = .ok st') ↔
      (willUse - hasUsed) + (if hasUsed ≤ 12 ∧ 12 < willUse then 1 else 0) ≤
        st.vol.freeBlocks.card := by
  cases hmap : st.mapBlocks hasUsed willUse with
  | ok st' =>
    refine iff_of_true ⟨st', rfl⟩ ?_
    by_cases hlt : hasUsed < willUse
    · rw [mapBlocks_of_ne st hlt.ne'] at hmap
      obtain ⟨st₁, hprep, hmap⟩ := except_bind_eq_ok.mp hmap
      obtain ⟨st2, halloc, -⟩ := except_bind_eq_ok.mp hmap
      have hcard := (prepared_of_prepare hlt.le hprep).card
      have henough := (allocBlocks_ok_iff _ _ _ _).mp ⟨st2, halloc⟩
      omega
    · rw [if_neg (by omega)]
      omega
  | error st' =>
    obtain ⟨hlt, ⟨hgets, hzero, -⟩ | ⟨st₁, hprep, hfew, -⟩⟩ := mapBlocks_eq_error hmap
    · refine iff_of_false (by rintro ⟨_, h⟩; cases h) ?_
      omega
    · refine iff_of_false (by rintro ⟨_, h⟩; cases h) ?_
      have hcard := hprep.card
      omega

/-! ### The blocks of the file afterwards -/

lemma Prepared.map_lt (h : st.Prepared st₁ n n') (hk : k < n) (hk' : k < 140) :
    st₁.map k = st.vol.blockOf st.inode k := by
  rw [h.map k hk']
  split_ifs
  · rfl
  · exact st.map_eq_blockOf (by omega)

lemma Prepared.owns (h : st.Prepared st₁ n n') (hn : n ≤ 140) (howns : OwnsFile st.vol st.inode n) :
    Owns st₁.vol st₁.map n (if 12 < n' then some (st₁.inode.iSectors 12) else none) := by
  have hmono : ∀ x, st.vol.Holds x → st₁.vol.Holds x := fun x hx => (h.holds_iff x).mpr (.inl hx)
  have hmap : ∀ k < n, st₁.map k = st.vol.blockOf st.inode k := fun k hk => h.map_lt hk (by omega)
  have hold := (Owns.mono howns hmono).congr hmap
  split_ifs with h12
  · have htab : st₁.vol.Holds (st₁.inode.iSectors 12) ∧ ∀ k < n, st₁.map k ≠ st₁.inode.iSectors 12 := by
      by_cases hn12 : 12 < n
      · rw [h.table (.inl hn12)]
        exact ⟨hold.table_held _ (by simp [hn12]), hold.table_ne _ (by simp [hn12])⟩
      · refine ⟨(h.holds_iff _).mpr (.inr ⟨⟨by omega, h12⟩, rfl⟩), fun k hk heq => ?_⟩
        rw [hmap k hk] at heq
        exact h.fresh (by omega) h12 (heq ▸ Owns.held howns k hk)
    exact ⟨hold.held, hold.inj, by simpa using htab.1, by simpa using htab.2⟩
  · exact ⟨hold.held, hold.inj, by simp, by simp⟩

/-- After the indirect table is written back the map is the file's block map. -/
lemma blockOf_writeTable (st : WriteState p) (hk : k < 140) :
    st.writeTable.vol.blockOf st.writeTable.inode k = st.map k := by
  by_cases h : k < 12
  · simp [map, Vol.blockOf, writeTable, h]
  · simp only [map, Vol.blockOf, writeTable, if_neg h, Vol.disk_setDisk, ideWrite_eq]
    have hw := Bytes.u32_setWords Bytes.zero 0 (fun j => st.allBlocks (12 + j)) (n := 128)
      (j := k - 12) (by omega)
    rw [show 12 + (k - 12) = k by omega] at hw
    rw [← hw]
    apply Bytes.u32_congr
    intro r hr
    rw [Bytes.copy_inside _ _ (by omega)]
    congr 1
    omega

lemma blockOf_finish (st : WriteState p) (hk : k < n') (hn' : n' ≤ 140) :
    (st.finish n').vol.blockOf (st.finish n').inode k = st.map k := by
  rw [finish]
  split_ifs
  · exact (st.map_eq_blockOf (by omega)).symm
  · exact st.blockOf_writeTable (by omega)

lemma inode_finish (st : WriteState p) (n' : Nat) : (st.finish n').inode = st.inode := by
  rw [finish]
  split_ifs <;> rfl

lemma allBlocks_finish (st : WriteState p) (n' : Nat) : (st.finish n').allBlocks = st.allBlocks := by
  rw [finish]
  split_ifs <;> rfl

lemma holds_finish (st : WriteState p) (n' : Nat) (x : UInt32) :
    (st.finish n').vol.Holds x ↔ st.vol.Holds x := by
  rw [finish]
  split_ifs <;> rfl

lemma sameSector_finish (st : WriteState p) (hx : 12 < n' → x ≠ st.inode.iSectors 12) :
    SameSector st.vol.disk (st.finish n').vol.disk x.toNat := by
  rw [finish]
  split_ifs with h12
  · exact fun _ _ => rfl
  · exact sameSector_ideWrite _ _ fun heq => hx (by omega) (UInt32.toNat_inj.mp heq)

/-- What the block map part of `file_write` leaves behind: the file owns `n'` blocks, the first `n`
of them are those it had and hold what they held, and `all_blocks` has the blocks from the last of
the old ones on. -/
structure Mapped (st st' : WriteState p) (n n' : Nat) : Prop where
  owns : OwnsFile st'.vol st'.inode n'
  blockOf_lt : ∀ k < n, st'.vol.blockOf st'.inode k = st.vol.blockOf st.inode k
  allBlocks_eq : ∀ k, n ≤ k + 1 → k < n' → st'.allBlocks k = st'.vol.blockOf st'.inode k
  iSize : st'.inode.iSize = st.inode.iSize
  sameSector : ∀ k < n, SameSector st.vol.disk st'.vol.disk (st.vol.blockOf st.inode k).toNat

/-- The block map part of `file_write` gives the file the blocks it needs. -/
lemma mapBlocks_mapped (hpos : 0 < n) (hnn : n ≤ n') (hle : n' ≤ 140) (h : OwnsFile st.vol st.inode n)
    (hok : st.mapBlocks n n' = .ok st') : st.Mapped st' n n' := by
  obtain rfl | hlt := Nat.eq_or_lt_of_le hnn
  · obtain ⟨hvol, hinode, hlast⟩ := mapBlocks_self hok
    refine ⟨?_, ?_, ?_, by rw [hinode], ?_⟩ <;> rw [hvol]
    · rw [hinode]
      exact h
    · tauto
    · rw [hinode]
      exact fun k h1 h2 => hlast k (by omega) (by omega)
    · exact fun _ _ _ _ => rfl
  · obtain ⟨st₁, st2, hprep, ht, rfl⟩ := mapBlocks_eq_ok hlt hok
    have howns := ht.owns (hprep.owns (by omega) h)
    rw [Nat.add_sub_cancel' hnn, ← ht.table] at howns
    have hb : ∀ k < n', (st2.finish n').vol.blockOf (st2.finish n').inode k = st2.map k :=
      fun k hk => st2.blockOf_finish hk hle
    have hold : ∀ k < n, st2.map k = st.vol.blockOf st.inode k :=
      fun k hk => (ht.map_other k (.inl hk)).trans (hprep.map_lt hk (by omega))
    refine ⟨?_, fun k hk => (hb k (by omega)).trans (hold k hk), fun k h1 h2 => ?_, ?_, fun k hk => ?_⟩
    · rw [inode_finish]
      rw [inode_finish] at hb
      exact (howns.mono fun x hx => (st2.holds_finish n' x).mpr hx).congr hb
    · rw [hb k h2, allBlocks_finish]
      by_cases hk : k < n
      · rw [ht.allBlocks_lt k hk, ht.map_other k (.inl hk), hprep.last k (by omega)]
      · exact ht.allBlocks_eq k (by omega) (by omega)
    · rw [inode_finish, ht.iSize, hprep.iSize]
    · refine ((hprep.sameData.trans ht.sameData).sameSector (Owns.held h k hk).ge).trans ?_
      rw [← hold k hk]
      exact st2.sameSector_finish fun h12 => howns.table_ne _ (by simp [h12]) k (by omega)

end WriteState

end SimpleOs
