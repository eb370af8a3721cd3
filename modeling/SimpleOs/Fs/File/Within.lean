import SimpleOs.Fs.File.Release

/-!
# The bounds of the block map

`file_write` checks the size a file would get, and computes from the same sum how many blocks the file
will use; its table `all_blocks` has 140 entries. The two agree on all sums but the largest one it
accepts. The sum is one of 32-bit numbers. A write that runs out of blocks gives up before it has
written the indirect table.
-/

namespace SimpleOs

open Base List WriteState

variable {p : Partition}

variable {count j k n n' written : Nat} {st st' : WriteState p} {f file : OpenFile} {old : Inode}

/-! ### The entries of `all_blocks` that are used -/

/-- The entries an allocation loop writes. -/
def allocIndices : (n k : Nat) → Vol p → List Nat
  | 0, _, _ => []
  | n + 1, k, v =>
    match v.blockBitmapAlloc with
    | none => []
    | some (lba, v) => k :: allocIndices n (k + 1) (v.bitmapSync (lba - p.sb.dataStartLba) .blockBitmap)

/-- A sector is transferred to or from `all_blocks + 12`. -/
def tableIndices : List Nat := List.range' 12 128

/-- The entries the block map part uses. The indirect table is written after a loop that ends as it
should. -/
def WriteState.mapIndices (st : WriteState p) (hasUsed willUse : Nat) : List Nat :=
  if willUse = hasUsed then
    if willUse ≤ 12 then [hasUsed - 1] else tableIndices
  else if willUse ≤ 12 then (hasUsed - 1) :: allocIndices (willUse - hasUsed) hasUsed st.vol
  else if hasUsed ≤ 12 then
    match st.vol.blockBitmapAlloc with
    | none => [hasUsed - 1]
    | some (_, v) =>
      (hasUsed - 1) :: allocIndices (willUse - hasUsed) hasUsed v ++
        if willUse - hasUsed ≤ v.freeBlocks.card then tableIndices else []
  else
    tableIndices ++ allocIndices (willUse - hasUsed) hasUsed st.vol ++
      if willUse - hasUsed ≤ st.vol.freeBlocks.card then tableIndices else []

/-- The entries the data loop reads: in each round that of the block the file ends in. -/
def copyIndices (count : Nat) : (fuel written : Nat) → (iSize : UInt32) → List Nat
  | 0, _, _ => []
  | fuel + 1, written, iSize =>
    if written < count then
      let chunk := chunkSize (count - written) iSize.toNat
      iSize.toNat / 512 :: copyIndices count fuel (written + chunk) (iSize + UInt32.ofNat chunk)
    else []

/-- The entries of `all_blocks` that `file_write` uses. -/
def allBlocksIndices (vol : Vol p) (file : OpenFile) (call : WriteCall) : List Nat :=
  if (file.fdInode.iSize + call.count).toNat > 512 * 140 then []
  else if !call.okIoBuf then []
  else if !call.okAllBlocks then []
  else match firstBlock { vol, inode := file.fdInode, allBlocks := fun _ => 0 } with
    | .error _ => []
    | .ok st =>
      let hasUsed := st.inode.iSize.toNat / 512 + 1
      let willUse := (st.inode.iSize + call.count).toNat / 512 + 1
      st.mapIndices hasUsed willUse ++
        match st.mapBlocks hasUsed willUse with
        | .error _ => []
        | .ok st => copyIndices call.count.toNat call.count.toNat 0 st.inode.iSize

lemma allocIndices_eq (n k : Nat) (v : Vol p) :
    allocIndices n k v = List.range' k (min n v.freeBlocks.card) := by
  induction n generalizing k v with
  | zero => rw [Nat.zero_min, range'_zero, allocIndices]
  | succ n ih =>
    rw [allocIndices]
    cases halloc : v.blockBitmapAlloc with
    | none => rw [Vol.blockBitmapAlloc_eq_none_iff.mp halloc, Nat.min_zero, range'_zero]
    | some r =>
      have hcard := Vol.card_freeBlocks_alloc halloc
      rw [← hcard, Nat.add_min_add_right, range'_succ]
      simp only [ih, Vol.card_freeBlocks_bitmapSync]

lemma forall_allocIndices_lt_iff (v : Vol p) (hk : k ≤ 140) (hn : k + n ≤ 141) :
    (∀ i ∈ allocIndices n k v, i < 140) ↔ k + n ≤ 140 ∨ v.freeBlocks.card < n := by
  rw [allocIndices_eq]
  simp only [mem_range'_1]
  constructor
  · intro h
    by_contra hcon
    have := h 140 ⟨by omega, by omega⟩
    omega
  · omega

lemma forall_tableIndices_lt : ∀ i ∈ tableIndices, i < 140 := by
  intro i hi
  rw [tableIndices, mem_range'_1] at hi
  omega

/-- The block map part stays within `all_blocks` unless the file is to have a block too many, and gets
it. -/
lemma WriteState.forall_mapIndices_lt_iff (st : WriteState p) (hpos : 0 < n) (hn : n ≤ 140)
    (hnn : n ≤ n') (hn' : n' ≤ 141) :
    (∀ i ∈ st.mapIndices n n', i < 140) ↔ n' ≤ 140 ∨
      st.vol.freeBlocks.card < (n' - n) + if n ≤ 12 ∧ 12 < n' then 1 else 0 := by
  have hlast : n - 1 < 140 := by omega
  have htab : ∀ b : Prop, [Decidable b] → ∀ i ∈ (if b then tableIndices else []), i < 140 := by
    intro b _ i hi
    split_ifs at hi
    · exact forall_tableIndices_lt i hi
    · cases hi
  rw [mapIndices]
  by_cases heq : n' = n
  · refine iff_of_true ?_ (.inl (by omega))
    split_ifs
    · simpa using hlast
    · exact forall_tableIndices_lt
  rw [if_neg heq]
  by_cases h12 : n' ≤ 12
  · rw [if_pos h12, forall_mem_cons, forall_allocIndices_lt_iff _ hn (by omega)]
    exact iff_of_true ⟨hlast, .inl (by omega)⟩ (.inl (by omega))
  rw [if_neg h12]
  by_cases hn12 : n ≤ 12
  · rw [if_pos hn12, if_pos ⟨hn12, by omega⟩]
    cases halloc : st.vol.blockBitmapAlloc with
    | none =>
      have hcard := Vol.blockBitmapAlloc_eq_none_iff.mp halloc
      simp only [forall_mem_singleton]
      exact iff_of_true hlast (.inr (by omega))
    | some r =>
      have hcard := Vol.card_freeBlocks_alloc halloc
      simp only [forall_mem_append, forall_mem_cons]
      rw [forall_allocIndices_lt_iff _ hn (by omega)]
      constructor
      · omega
      · intro h
        exact ⟨⟨hlast, by omega⟩, htab _⟩
  · rw [if_neg hn12, if_neg (show ¬ (n ≤ 12 ∧ 12 < n') by omega)]
    simp only [forall_mem_append]
    rw [forall_allocIndices_lt_iff _ hn (by omega)]
    constructor
    · omega
    · intro h
      exact ⟨⟨forall_tableIndices_lt, by omega⟩, htab _⟩

lemma forall_copyIndices_lt (fuel : Nat) (hsum : iSize.toNat + (count - written) ≤ 71680) :
    ∀ i ∈ copyIndices count fuel written iSize, i < 140 := by
  induction fuel generalizing written iSize with
  | zero => simp [copyIndices]
  | succ fuel ih =>
    rw [copyIndices]
    split_ifs with hlt
    · have hle := chunkSize_le (count - written) iSize.toNat
      rw [forall_mem_cons]
      refine ⟨by omega, ih ?_⟩
      rw [UInt32.toNat_add, UInt32.toNat_ofNat']
      omega
    · simp

/-! ### Where blocks are recorded -/

/-- Block `x` is recorded: in the inode, or in the indirect table on disk. A block that was taken for
the table holds old bytes until the write fills it; `old` is the inode before the write. -/
def WriteResult.Records (r : WriteResult p) (old : Inode) (x : UInt32) : Prop :=
  (∃ k < 13, r.file.fdInode.iSectors k = x) ∨
    r.file.fdInode.iSectors 12 ≠ 0 ∧ (old.iSectors 12 ≠ 0 ∨ r.ret ≠ none) ∧
      ∃ j < 128, r.vol.disk.u32 (512 * (r.file.fdInode.iSectors 12).toNat + 4 * j) = x

lemma WriteResult.records_of_ownsBlock {r : WriteResult p} (hret : r.ret ≠ none) (old : Inode)
    {x : UInt32} (hx : OwnsBlock r.vol r.file.fdInode x) : r.Records old x := by
  obtain ⟨h0, ⟨k, rfl⟩ | rfl⟩ := hx
  · by_cases hk : k < 12
    · exact .inl ⟨k, by omega, (loadBlocks_of_lt hk).symm⟩
    · rw [loadBlocks] at h0 ⊢
      split_ifs at h0 ⊢ with ht
      · exact .inr ⟨ht.1, .inr hret, k - 12, by omega, rfl⟩
      · exact absurd rfl h0
  · exact .inl ⟨12, by omega, rfl⟩

namespace WriteState

variable {st₁ st₂ : WriteState p} {m : Nat}

/-- A block that is taken for an entry past the direct ones is recorded nowhere. -/
lemma Takes.not_records (ht : st₁.Takes st₂ n m)
    (hprep : st.Prepared st₁ n n') (h : ExactlyOwns st.vol st.inode n)
    (hold : old.iSectors 12 = st.inode.iSectors 12) (hj : n ≤ j) (h12 : 12 ≤ j)
    (hjm : j < n + m) (hn' : 12 < n') : ¬ (st₂.failed file).Records old (st₂.map j) := by
  have hfresh := ht.fresh j hj hjm
  have hne : st₂.map j ≠ 0 := ((ht.holds_iff _).mpr (.inr ⟨j, hj, hjm, rfl⟩)).ne_zero
  have howns := hprep.owns h.le h.owns
  rw [if_pos hn'] at howns
  rintro (⟨k, hk, heq⟩ | ⟨-, htable | hret, i, hi, heq⟩)
  · simp only [failed] at heq
    by_cases hk12 : k < 12
    · have hmapk : st₂.map k = st₂.map j := by rw [← heq, map, if_pos hk12]
      by_cases hkn : k < n
      · apply hfresh
        rw [← hmapk, ht.map_other k (.inl hkn)]
        exact howns.held k hkn
      · exact ht.inj k j (by omega) (by omega) hjm hmapk
    · obtain rfl : k = 12 := by omega
      apply hfresh
      rw [← heq, ht.table]
      exact howns.table_held _ rfl
  · -- the indirect table is the old one, and lists old blocks only
    rw [hold] at htable
    have hn : 12 < n := by
      by_contra hn
      exact htable (h.table (by omega))
    simp only [failed] at heq
    rw [ht.table, hprep.table (.inl hn),
      ((hprep.sameData.trans ht.sameData).sameSector (h.table_holds hn).ge).u32 hi] at heq
    have hload : loadBlocks st.vol.disk st.inode (12 + i) = st₂.map j := by
      rw [loadBlocks, if_neg (by omega), if_pos ⟨htable, by omega⟩, Nat.add_sub_cancel_left, heq]
    exact hfresh ((hprep.holds_iff _).mpr (.inl (h.holds ⟨hne, .inl ⟨12 + i, hload⟩⟩)))
  · exact hret rfl

/-- When the block map part fails, all the blocks it has taken are recorded exactly if they fit into the
inode. -/
lemma failed_records_iff (file : OpenFile) (h : ExactlyOwns st.vol st.inode n)
    (hold : old.iSectors 12 = st.inode.iSectors 12) (herr : st.mapBlocks n n' = .error st') :
    (∀ x, ¬ st.vol.Holds x → st'.vol.Holds x → (st'.failed file).Records old x) ↔
      st.vol.freeBlocks.card ≤ 13 - n := by
  obtain ⟨hlt, ⟨-, hzero, rfl⟩ | ⟨st₁, hprep, hfew, ht⟩⟩ := mapBlocks_eq_error herr
  · exact iff_of_true (fun x hx hx' => absurd hx' hx) (by omega)
  have hcard : (n ≤ 12 ∧ 12 < n') ∧ st₁.vol.freeBlocks.card + 1 = st.vol.freeBlocks.card ∨
      ¬(n ≤ 12 ∧ 12 < n') ∧ st₁.vol.freeBlocks.card = st.vol.freeBlocks.card := by
    have hcard := hprep.card
    split_ifs at hcard with hgets
    · exact .inl ⟨hgets, hcard⟩
    · exact .inr ⟨hgets, hcard⟩
  constructor
  · intro hrec
    by_contra hmany
    -- then the loop gets past the direct blocks
    have hn' : 12 < n' := by omega
    have hj : max n 12 < n + st₁.vol.freeBlocks.card := by omega
    have hnew := (ht.holds_iff (st'.map (max n 12))).mpr (.inr ⟨_, le_max_left _ _, hj, rfl⟩)
    refine ht.not_records hprep h hold (le_max_left _ _) (le_max_right _ _) hj hn' (hrec _ ?_ hnew)
    exact fun hx => ht.fresh _ (le_max_left _ _) hj ((hprep.holds_iff _).mpr (.inl hx))
  · intro hall x hx hx'
    rcases (ht.holds_iff x).mp hx' with hx' | ⟨j, h1, h2, rfl⟩
    · obtain ⟨-, rfl⟩ := ((hprep.holds_iff x).mp hx').resolve_left hx
      exact .inl ⟨12, by omega, ht.table⟩
    · exact .inl ⟨j, by omega, iSectors_eq_map st' (by omega)⟩

end WriteState

/-! ### One write -/

/-- The call of `file_write`. -/
def WriteCall.exec (call : WriteCall) (vol : Vol p) (file : OpenFile) : WriteResult p :=
  fileWrite call.okIoBuf call.okAllBlocks vol file call.buf call.count

/-- A write that `file_write` accepts uses entries of `all_blocks` only, records every block it takes, and
does not make the file larger than the check allows. -/
def WriteWithin (vol : Vol p) (file : OpenFile) (call : WriteCall) : Prop :=
  (file.fdInode.iSize + call.count).toNat ≤ 71680 →
    (∀ i ∈ allBlocksIndices vol file call, i < 140) ∧
      (∀ x, ¬ vol.Holds x → (call.exec vol file).vol.Holds x →
        (call.exec vol file).Records file.fdInode x) ∧
      file.fdInode.iSize.toNat + call.count.toNat ≤ 71680

/-- How many blocks a file can still record in its inode. -/
def Inode.recordable (ino : Inode) : Nat :=
  (if ino.iSectors 0 = 0 then 1 else 0) + (13 - (ino.iSize.toNat / 512 + 1))

/-- The sum of size and count does not wrap around; and the write has no buffers, or there are so few free
blocks that all of them can be recorded in the inode, or there are enough of them and the file does not
become as large as the check allows. -/
def WriteFits (vol : Vol p) (file : OpenFile) (call : WriteCall) : Prop :=
  (file.fdInode.iSize + call.count).toNat ≤ 71680 →
    file.fdInode.iSize.toNat + call.count.toNat ≤ 71680 ∧
      (call.okIoBuf = false ∨ call.okAllBlocks = false ∨
        vol.freeBlocks.card ≤ file.fdInode.recordable ∨
        file.fdInode.iSize.toNat + call.count.toNat < 71680 ∧
          blocksNeeded file.fdInode call.count ≤ vol.freeBlocks.card)

section

variable {v : Vol p} {data : List UInt8} {call : WriteCall}

/-- Without its buffers a write does nothing. -/
lemma writeWithin_of_no_buffers (hbuf : call.okIoBuf = false ∨ call.okAllBlocks = false)
    (hsum : f.fdInode.iSize.toNat + call.count.toNat ≤ 71680) : WriteWithin v f call := by
  intro hacc
  have hle : ¬ (f.fdInode.iSize + call.count).toNat > 512 * 140 := by omega
  have hvol : (call.exec v f).vol = v ∧ allBlocksIndices v f call = [] := by
    rw [WriteCall.exec, fileWrite, allBlocksIndices, if_neg hle, if_neg hle]
    rcases hbuf with h | h
    · rw [h]
      exact ⟨rfl, rfl⟩
    · rw [h]
      cases call.okIoBuf <;> exact ⟨rfl, rfl⟩
  rw [hvol.1, hvol.2]
  exact ⟨by simp, fun x hx hx' => absurd hx' hx, hsum⟩

/-- The first block of a file is recorded in its inode. -/
lemma WriteState.firstBlock_card (hok : st.firstBlock = .ok st') :
    st'.vol.freeBlocks.card + (if st.inode.iSectors 0 = 0 then 1 else 0) = st.vol.freeBlocks.card ∧
      st'.inode.iSectors 12 = st.inode.iSectors 12 ∧
      ∀ x, st'.vol.Holds x → st.vol.Holds x ∨ st'.inode.iSectors 0 = x := by
  by_cases h0 : st.inode.iSectors 0 = 0
  · obtain ⟨lba, -, hholds, hsec, -⟩ := firstBlock_gives h0 hok
    rw [hsec, if_pos h0]
    refine ⟨?_, rfl, fun x hx => ((hholds x).mp hx).imp_right Eq.symm⟩
    rw [firstBlock, if_pos h0] at hok
    cases halloc : st.vol.blockBitmapAlloc with
    | none =>
      rw [halloc] at hok
      cases hok
    | some r =>
      rw [halloc] at hok
      cases hok
      rw [Vol.card_freeBlocks_bitmapSync]
      exact Vol.card_freeBlocks_alloc halloc
  · rw [firstBlock, if_neg h0] at hok
    cases hok
    rw [if_neg h0]
    exact ⟨rfl, rfl, fun x hx => .inl hx⟩

/-- The block numbers that a write computes when the first block of the file is there. -/
lemma WrittenFile.blocks_of_first (h : WrittenFile v f.fdInode data)
    (hsum : f.fdInode.iSize.toNat + call.count.toNat ≤ 71680)
    (hfirst : firstBlock { vol := v, inode := f.fdInode, allBlocks := fun _ => 0 } = .ok st) :
    st.inode.iSize = f.fdInode.iSize ∧
      (f.fdInode.iSize + call.count).toNat = f.fdInode.iSize.toNat + call.count.toNat ∧
      ExactlyOwns st.vol st.inode (f.fdInode.iSize.toNat / 512 + 1) := by
  have hsize := h.rep.size
  obtain ⟨-, hsz, -⟩ := firstBlock_owns h.rep hfirst
  obtain ⟨hone, -, -⟩ := firstBlock_gains h.exact hfirst
  refine ⟨hsz, ?_, ?_⟩
  · rw [UInt32.toNat_add]
    omega
  · have hmax : max f.fdInode.blockCount 1 = f.fdInode.iSize.toNat / 512 + 1 := by
      rw [Inode.blockCount]
      split_ifs with h0
      · rw [hsize, h.rep.blank h0]
        rfl
      · omega
    rwa [hmax] at hone

lemma allBlocksIndices_of_first (hle : (f.fdInode.iSize + call.count).toNat ≤ 71680)
    (hio : call.okIoBuf = true) (hall : call.okAllBlocks = true)
    (hfirst : firstBlock { vol := v, inode := f.fdInode, allBlocks := fun _ => 0 } = .ok st) :
    allBlocksIndices v f call =
      st.mapIndices (st.inode.iSize.toNat / 512 + 1) ((st.inode.iSize + call.count).toNat / 512 + 1) ++
        match st.mapBlocks (st.inode.iSize.toNat / 512 + 1)
            ((st.inode.iSize + call.count).toNat / 512 + 1) with
        | .error _ => []
        | .ok st => copyIndices call.count.toNat call.count.toNat 0 st.inode.iSize := by
  rw [allBlocksIndices, if_neg (by omega), hio, hall]
  simp only [Bool.not_true, Bool.false_eq_true, if_false, hfirst]

variable (h : WrittenFile v f.fdInode data)
include h

lemma writeWithin_error_iff
    (hsum : f.fdInode.iSize.toNat + call.count.toNat ≤ 71680) (hio : call.okIoBuf = true)
    (hall : call.okAllBlocks = true)
    (hfirst : firstBlock { vol := v, inode := f.fdInode, allBlocks := fun _ => 0 } = .ok st)
    (hmap : st.mapBlocks (st.inode.iSize.toNat / 512 + 1)
      ((st.inode.iSize + call.count).toNat / 512 + 1) = .error st') :
    WriteWithin v f call ↔ WriteFits v f call := by
  obtain ⟨hsz, hadd, hone⟩ := h.blocks_of_first hsum hfirst
  obtain ⟨hcard, htable, hblock⟩ := firstBlock_card hfirst
  simp only at hcard htable hblock
  have hexec : call.exec v f = st'.failed f := by
    rw [WriteCall.exec, fileWrite, if_neg (by omega), hio, hall]
    simp only [Bool.not_true, Bool.false_eq_true, if_false, hfirst, ok_bind, hmap, failed]
  have hidx := allBlocksIndices_of_first (by omega) hio hall hfirst
  rw [hmap] at hidx
  simp only [hsz, hadd, append_nil] at hmap hidx
  have hbound := hone.le
  have hfails := mt (mapBlocks_ok_iff st _ _).mpr (by rw [hmap]; rintro ⟨_, h⟩; cases h)
  have hrec := failed_records_iff f hone htable.symm hmap
  -- there are too few blocks, so all that is left is whether those taken are recorded
  have hfits : WriteFits v f call ↔ st.vol.freeBlocks.card ≤ 13 - (f.fdInode.iSize.toNat / 512 + 1) := by
    rw [WriteFits, Inode.recordable, blocksNeeded, hio, hall]
    simp only [hadd, Bool.true_eq_false, false_or]
    constructor
    · omega
    · omega
  rw [hfits, ← hrec, WriteWithin, hexec, hidx, hadd]
  constructor
  · intro hw x hx hx'
    obtain ⟨-, hr, -⟩ := hw hsum
    have hgain := (firstBlock_gains h.exact hfirst).2.1
    exact hr x (fun hx0 => hx (hgain.mono x hx0)) hx'
  · intro hr _
    refine ⟨?_, fun x hx hx' => ?_, hsum⟩
    · exact (st.forall_mapIndices_lt_iff (by omega) hbound (by omega) (by omega)).mpr
        (.inr (not_le.mp hfails))
    · by_cases hx1 : st.vol.Holds x
      · refine .inl ⟨0, by omega, ?_⟩
        exact ((mapBlocks_spared hmap).iSectors 0 (by omega) (by omega)).trans ((hblock x hx1).resolve_left hx)
      · exact hr x hx1 hx'

lemma writeWithin_ok_iff
    (hsum : f.fdInode.iSize.toNat + call.count.toNat ≤ 71680) (hio : call.okIoBuf = true)
    (hall : call.okAllBlocks = true)
    (hfirst : firstBlock { vol := v, inode := f.fdInode, allBlocks := fun _ => 0 } = .ok st)
    (hmap : st.mapBlocks (st.inode.iSize.toNat / 512 + 1)
      ((st.inode.iSize + call.count).toNat / 512 + 1) = .ok st') :
    WriteWithin v f call ↔ WriteFits v f call := by
  obtain ⟨hsz, hadd, hone⟩ := h.blocks_of_first hsum hfirst
  have hcard := (firstBlock_card hfirst).1
  simp only at hcard
  have hret : (call.exec v f).ret ≠ none := by
    rw [WriteCall.exec, fileWrite, if_neg (by omega), hio, hall]
    simp only [Bool.not_true, Bool.false_eq_true, if_false, hfirst, ok_bind, hmap]
    exact Option.some_ne_none _
  have hidx := allBlocksIndices_of_first (by omega) hio hall hfirst
  rw [hmap] at hidx
  simp only [hsz, hadd] at hmap hidx
  have hbound := hone.le
  have henough := (mapBlocks_ok_iff st _ _).mp ⟨st', hmap⟩
  have hnn : f.fdInode.iSize.toNat / 512 + 1 ≤ (f.fdInode.iSize.toNat + call.count.toNat) / 512 + 1 := by
    omega
  have hmapIdx := st.forall_mapIndices_lt_iff (by omega) hbound hnn (by omega)
  have hfits : WriteFits v f call ↔ f.fdInode.iSize.toNat + call.count.toNat < 71680 := by
    rw [WriteFits, Inode.recordable, blocksNeeded, hio, hall]
    simp only [hadd, Bool.true_eq_false, false_or]
    constructor
    · omega
    · omega
  rw [hfits, WriteWithin, hidx]
  simp only [forall_mem_append, hmapIdx]
  constructor
  · omega
  · intro hlt _
    have hm := mapBlocks_mapped (by omega) (by omega) (by omega) hone.owns hmap
    refine ⟨⟨.inl (by omega), ?_⟩, fun x hx hx' => ?_, hsum⟩
    · refine forall_copyIndices_lt _ ?_
      rw [hm.iSize, hsz]
      omega
    · have hgain := (h.fileWrite (by omega) hret).2
      exact WriteResult.records_of_ownsBlock hret _ ((hgain.holds x hx').resolve_left hx)

/-- A write to a file in order stays within the block map exactly when it fits. -/
lemma writeWithin_iff : WriteWithin v f call ↔ WriteFits v f call := by
  by_cases hacc : (f.fdInode.iSize + call.count).toNat ≤ 71680
  swap
  · exact iff_of_true (fun h => absurd h hacc) fun h => absurd h hacc
  by_cases hsum : f.fdInode.iSize.toNat + call.count.toNat ≤ 71680
  swap
  · exact iff_of_false (fun h => hsum (h hacc).2.2) fun h => hsum (h hacc).1
  by_cases hbuf : call.okIoBuf = false ∨ call.okAllBlocks = false
  · refine iff_of_true (writeWithin_of_no_buffers hbuf hsum) fun _ => ⟨hsum, ?_⟩
    rcases hbuf with hbuf | hbuf
    · exact .inl hbuf
    · exact .inr (.inl hbuf)
  rw [not_or, Bool.not_eq_false, Bool.not_eq_false] at hbuf
  obtain ⟨hio, hall⟩ := hbuf
  cases hfirst : firstBlock { vol := v, inode := f.fdInode, allBlocks := fun _ => 0 } with
  | error st =>
    -- not even the first block can be had
    have hnone : v.blockBitmapAlloc = none ∧ st = { vol := v, inode := f.fdInode, allBlocks := fun _ => 0 } := by
      rw [firstBlock] at hfirst
      split_ifs at hfirst
      cases halloc : v.blockBitmapAlloc with
      | none =>
        rw [halloc] at hfirst
        exact ⟨rfl, (Except.error.inj hfirst).symm⟩
      | some r =>
        rw [halloc] at hfirst
        cases hfirst
    have hexec : (call.exec v f).vol = v ∧ allBlocksIndices v f call = [] := by
      have hle : ¬ (f.fdInode.iSize + call.count).toNat > 512 * 140 := by omega
      rw [WriteCall.exec, fileWrite, allBlocksIndices, if_neg hle, if_neg hle, hio, hall, hfirst]
      exact ⟨congrArg vol hnone.2, rfl⟩
    have hcard := Vol.blockBitmapAlloc_eq_none_iff.mp hnone.1
    refine iff_of_true (fun _ => ?_) fun _ => ⟨hsum, .inr (.inr (.inl (by omega)))⟩
    rw [hexec.1, hexec.2]
    exact ⟨by simp, fun x hx hx' => absurd hx' hx, hsum⟩
  | ok st =>
    cases hmap : st.mapBlocks (st.inode.iSize.toNat / 512 + 1)
        ((st.inode.iSize + call.count).toNat / 512 + 1) with
    | error st' => exact writeWithin_error_iff h hsum hio hall hfirst hmap
    | ok st' => exact writeWithin_ok_iff h hsum hio hall hfirst hmap

end

/-! ### Sequences of writes -/

/-- A write that succeeds, of any count; or whatever else happens. -/
def FileEvent.exec (s : Vol p × OpenFile) : FileEvent p → Option (Vol p × OpenFile)
  | .write call => (call.exec s.1 s.2).ret.map fun _ => ((call.exec s.1 s.2).vol, (call.exec s.1 s.2).file)
  | .others vol fdPos => some (vol, { s.2 with fdPos := fdPos })

/-- What holds of the writes of a run. -/
def FileEvent.OfWrites (P : Vol p → OpenFile → WriteCall → Prop) (s : Vol p × OpenFile) : FileEvent p → Prop
  | .write call => P s.1 s.2 call
  | .others _ _ => True

/-- The writes of a run from a fresh inode on, the last of which may fail, all stay within the block map
exactly when each of them fits. -/
theorem along_writeWithin_iff (n fdPos : UInt32) (v : Vol p) (events : List (FileEvent p))
    (hspared : System.Along FileEvent.exec (fun s e => e.Spared s.1 s.2) (v, ⟨fdPos, Inode.inodeInit n⟩)
      events) :
    System.Along FileEvent.exec (FileEvent.OfWrites WriteWithin) (v, ⟨fdPos, Inode.inodeInit n⟩) events ↔
      System.Along FileEvent.exec (FileEvent.OfWrites WriteFits) (v, ⟨fdPos, Inode.inodeInit n⟩) events := by
  refine System.along_iff (fun s => ∃ data, WrittenFile s.1 s.2.fdInode data) ?_ ?_
    ⟨[], writtenFile_inodeInit v n⟩ hspared
  · rintro ⟨vol, file⟩ e ⟨data, h⟩ -
    cases e with
    | write call => exact writeWithin_iff h
    | others vol' pos => exact Iff.rfl
  · rintro ⟨vol, file⟩ e s' ⟨data, h⟩ hok hfits hexec
    cases e with
    | write call =>
      obtain ⟨c, hret, rfl⟩ := Option.map_eq_some_iff.mp hexec
      have hne : (call.exec vol file).ret ≠ none := by
        rw [hret]
        exact Option.some_ne_none c
      obtain ⟨hacc, hio, hall, hneed⟩ := (fileWrite_succeeds_iff _ _ _ _ _ _).mp hne
      have h : WrittenFile vol file.fdInode data := h
      have hfits : WriteFits vol file call := hfits
      obtain ⟨hsum, hfew⟩ := hfits hacc
      rw [hio, hall, Inode.recordable] at hfew
      simp only [Bool.true_eq_false, false_or] at hfew
      have hbound := h.rep.bound
      have hsize := h.rep.size
      have hadd : (file.fdInode.iSize + call.count).toNat = file.fdInode.iSize.toNat + call.count.toNat := by
        rw [UInt32.toNat_add]
        omega
      rw [blocksNeeded, hadd] at hneed hfew
      exact ⟨_, (h.fileWrite (by omega) hne).1⟩
    | others vol' pos =>
      cases hexec
      exact ⟨data, (h.of_spares hok).1⟩

lemma Vol.card_freeBlocks_blank (p : Partition) : (Vol.blank p).freeBlocks.card = Vol.nBlocks p := by
  rw [Vol.freeBlocks, Finset.filter_true_of_mem fun b _ => ?_, Finset.card_range]
  simp [Vol.blockUsed, Vol.blank, Bitmap.bitmapScanTest, Bytes.zero]

/-- Three bytes are written to a fresh file of a blank volume. -/
theorem along_writeWithin_three :
    System.Along FileEvent.exec (FileEvent.OfWrites WriteWithin)
      (Vol.blank Partition.smallest, ⟨0, Inode.inodeInit 2⟩)
      [.write ⟨true, true, Bytes.ofList [1, 2, 3], 3⟩] := by
  have hspared : System.Along FileEvent.exec (fun s e => e.Spared s.1 s.2)
      (Vol.blank Partition.smallest, ⟨0, Inode.inodeInit 2⟩)
      [.write ⟨true, true, Bytes.ofList [1, 2, 3], 3⟩] := ⟨trivial, fun _ _ => trivial⟩
  refine (along_writeWithin_iff 2 0 _ _ hspared).mpr ⟨fun _ => ?_, fun _ _ => trivial⟩
  refine ⟨by decide, .inr (.inr (.inr ⟨by decide, ?_⟩))⟩
  rw [Vol.card_freeBlocks_blank]
  decide

/-- One write fills a file up to the size that the check allows. It takes a block for an entry that
`all_blocks` does not have. -/
theorem not_forall_along_writeWithin :
    ¬ ∀ (p : Partition) (n fdPos : UInt32) (v : Vol p) (events : List (FileEvent p)),
      System.Along FileEvent.exec (fun s e => e.Spared s.1 s.2) (v, ⟨fdPos, Inode.inodeInit n⟩) events →
      System.Along FileEvent.exec (FileEvent.OfWrites WriteWithin) (v, ⟨fdPos, Inode.inodeInit n⟩)
        events := by
  intro h
  obtain ⟨hwithin, -⟩ := h Partition.smallest 2 0 (Vol.blank _) [.write ⟨true, true, Bytes.zero, 71680⟩]
    ⟨trivial, fun _ _ => trivial⟩
  obtain ⟨-, hfits⟩ := (writeWithin_iff (writtenFile_inodeInit _ 2)).mp hwithin (by decide)
  rw [Vol.card_freeBlocks_blank] at hfits
  revert hfits
  decide

end SimpleOs
