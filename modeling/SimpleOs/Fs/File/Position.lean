import SimpleOs.Base.Transition
import SimpleOs.Fs.File.Taken

/-!
# The position in an open file

`file_write`, `sys_lseek` and `file_read` all set `fd_pos`, with unsigned arithmetic: a write sets it
back by one before it adds the count, and a read compares the sum of position and count with the size
of the file. The runs here mix the three calls in any order; a call may also fail.
-/

namespace SimpleOs

open Base List WriteState

variable {p : Partition}

variable {v vol : Vol p} {f file : OpenFile} {buf mem : Bytes} {count : UInt32} {data : List UInt8}

/-! ### The blocks that a read looks up -/

/-- The blocks from the first to the last one, as the block map part of `file_read` looks them up: those
below 12 in the inode, the others in the indirect table. -/
def lookupIndices (startIdx endIdx : Nat) : List Nat :=
  if startIdx = endIdx then [endIdx]
  else if endIdx < 12 then List.range' startIdx (endIdx + 1 - startIdx)
  else if startIdx < 12 then List.range' startIdx (12 - startIdx) ++ List.range' 12 (endIdx + 1 - 12)
  else List.range' startIdx (endIdx + 1 - startIdx)

/-- The entries of `all_blocks` that the data loop of `file_read` uses. -/
def readIndices (size : Nat) : (fuel pos done : Nat) → List Nat
  | 0, _, _ => []
  | fuel + 1, pos, done =>
    if done < size then
      let chunk := chunkSize (size - done) pos
      pos / 512 :: readIndices size fuel (pos + chunk) (done + chunk)
    else []

/-- The block indices `file_read` looks up, if it gets its work blocks. -/
def fileReadIndices (okWork : Bool) (file : OpenFile) (count : UInt32) : List Nat :=
  let size := file.readSize count
  if file.AtEnd count then []
  else if !okWork then []
  else
    lookupIndices (file.fdPos.toNat / 512) ((file.fdPos + size).toNat / 512) ++
      readIndices size.toNat size.toNat file.fdPos.toNat 0

lemma fileRead_none : fileRead none vol file mem dst count = ⟨none, file, mem⟩ := by
  simp only [fileRead, ite_self]

lemma le_of_mem_lookupIndices (hle : startIdx ≤ endIdx)
    (hi : i ∈ lookupIndices startIdx endIdx) : i ≤ endIdx := by
  rw [lookupIndices] at hi
  split_ifs at hi
  · rw [mem_singleton] at hi
    omega
  · rw [mem_range'_1] at hi
    omega
  · rw [mem_append, mem_range'_1, mem_range'_1] at hi
    omega
  · rw [mem_range'_1] at hi
    omega

lemma le_of_mem_readIndices (hi : i ∈ readIndices size fuel pos done) :
    i ≤ (pos + (size - done)) / 512 := by
  induction fuel generalizing pos done with
  | zero => cases hi
  | succ fuel ih =>
    rw [readIndices] at hi
    split_ifs at hi with hlt
    · have hle := chunkSize_le (size - done) pos
      rcases mem_cons.mp hi with rfl | hi
      · exact Nat.div_le_div_right (Nat.le_add_right _ _)
      · have hrest := ih hi
        rwa [show pos + chunkSize (size - done) pos + (size - (done + chunkSize (size - done) pos)) =
          pos + (size - done) by omega] at hrest
    · cases hi

/-- A read returns no byte from past the end of the file, and looks up blocks of the file only. -/
def ReadWithin (vol : Vol p) (file : OpenFile) (count : UInt32) : Prop :=
  ∀ (work : Option WorkBlocks) (mem : Bytes) (dst : Nat),
    (∀ n, (fileRead work vol file mem dst count).ret = some n →
      file.fdPos.toNat + n ≤ file.fdInode.iSize.toNat) ∧
    ∃ n, OwnsFile vol file.fdInode n ∧ ∀ i ∈ fileReadIndices work.isSome file count, i < n

/-- The sum of position and count does not wrap around, and an empty read is from a file that has a
block. -/
def ReadFits (file : OpenFile) (count : UInt32) : Prop :=
  file.fdPos.toNat + count.toNat < 2 ^ 32 ∧ (count = 0 → file.fdInode.iSectors 0 ≠ 0)

section

lemma ReadFits.size (h : ReadFits f count) (hpos : f.fdPos.toNat ≤ f.fdInode.iSize.toNat) :
    f.fdPos.toNat + (f.readSize count).toNat ≤ f.fdInode.iSize.toNat := by
  have hadd : (f.fdPos + count).toNat = f.fdPos.toNat + count.toNat := by
    exact Nat.mod_eq_of_lt h.1
  rw [OpenFile.readSize]
  split_ifs with hgt
  · rw [UInt32.toNat_sub_of_le _ _ (UInt32.le_iff_toNat_le.mpr hpos)]
    omega
  · rw [gt_iff_lt, UInt32.lt_iff_toNat_lt] at hgt
    omega

/-- A read that fits, from a position inside the file. -/
lemma ReadFits.within (h : ReadFits f count) (hrep : FileRep v f.fdInode data)
    (hpos : f.fdPos.toNat ≤ f.fdInode.iSize.toNat) : ReadWithin v f count := by
  intro work mem dst
  have hnone : OwnsFile v f.fdInode 0 := ⟨by simp, by simp, by simp, by simp⟩
  by_cases hend : f.AtEnd count
  · rw [fileRead_atEnd hend, fileReadIndices, if_pos hend]
    exact ⟨nofun, 0, hnone, by simp⟩
  cases work with
  | none =>
    rw [fileRead_none, fileReadIndices]
    exact ⟨nofun, 0, hnone, by simp⟩
  | some w =>
    have hsize := h.size hpos
    have hrs := hrep.size
    -- a file without a block has no byte, and a read of some bytes from it is cut down to nothing
    have hblock : f.fdInode.iSectors 0 ≠ 0 := by
      intro h0
      have hzero : f.fdInode.iSize.toNat = 0 := by rw [hrs, hrep.blank h0, length_nil]
      have hs0 : f.readSize count = 0 := UInt32.toNat_inj.mp (by rw [UInt32.toNat_zero]; omega)
      refine hend ⟨?_, hs0⟩
      by_contra hle
      rw [OpenFile.readSize, if_neg hle] at hs0
      exact h.2 hs0 h0
    refine ⟨fun n hn => ?_, data.length / 512 + 1, hrep.owns hblock, fun i hi => ?_⟩
    · rw [(fileRead_some hend).1] at hn
      cases hn
      exact hsize
    · have hadd := toNat_fdPos_add hsize
      rw [fileReadIndices, if_neg hend] at hi
      rcases mem_append.mp hi with hi | hi
      · have := le_of_mem_lookupIndices (by omega) hi
        omega
      · have := le_of_mem_readIndices hi
        omega

/-- From a position inside a file a read stays inside exactly if it fits. -/
lemma readWithin_iff (hrep : FileRep v f.fdInode data) (hpos : f.fdPos.toNat ≤ f.fdInode.iSize.toNat) :
    ReadWithin v f count ↔ ReadFits f count := by
  refine ⟨fun hw => ?_, fun h => h.within hrep hpos⟩
  obtain ⟨hret, n, howns, hidx⟩ := hw (some .firstPages) Bytes.zero 0
  have hrs := hrep.size
  have hbound := hrep.bound
  refine ⟨?_, ?_⟩
  · -- a sum that wraps around is not larger than the size, and the count is not cut down
    by_contra hwrap
    have hlt := count.toNat_lt
    have hadd : (f.fdPos + count).toNat + 2 ^ 32 = f.fdPos.toNat + count.toNat := by
      rw [UInt32.toNat_add]
      omega
    have hnot : ¬ f.fdPos + count > f.fdInode.iSize := by
      rw [gt_iff_lt, UInt32.lt_iff_toNat_lt]
      omega
    have hsize : f.readSize count = count := if_neg hnot
    have := hret count.toNat (by rw [(fileRead_some fun h => hnot h.1).1, hsize])
    omega
  · rintro rfl h0
    have hzero : f.fdInode.iSize.toNat = 0 := by rw [hrs, hrep.blank h0, length_nil]
    have hpos0 : f.fdPos = 0 := UInt32.toNat_inj.mp (by rw [UInt32.toNat_zero]; omega)
    have hmem : 0 ∈ fileReadIndices true f 0 := by
      simp [fileReadIndices, OpenFile.AtEnd, OpenFile.readSize, hpos0, lookupIndices]
    have hheld := Owns.held howns 0 (hidx 0 hmem)
    exact hheld.ne_zero h0

end

/-! ### Writes -/

namespace CopyState

/-- The data loop moves the position and the end of the file alike. -/
lemma fdPos_writeLoop {allBlocks : Nat → UInt32} {count : Nat} (fuel : Nat) (first : Bool)
    (written : Nat) {c : CopyState p} (h : c.file.fdPos = c.file.fdInode.iSize - 1) :
    (writeLoop allBlocks buf count fuel first written c).file.fdPos =
      (writeLoop allBlocks buf count fuel first written c).file.fdInode.iSize - 1 := by
  induction fuel generalizing first written c with
  | zero => exact h
  | succ fuel ih =>
    rw [writeLoop]
    split_ifs
    · simp only [writeChunk, h]
      grind
    · exact h

end CopyState

section

variable {okIo okAll : Bool}

/-- A write that fails leaves everything as it is, or gives up in its block map part. -/
lemma fileWrite_eq_of_none (hret : (fileWrite okIo okAll v f buf count).ret = none) :
    fileWrite okIo okAll v f buf count = ⟨none, v, f⟩ ∨
      ∃ st st', firstBlock { vol := v, inode := f.fdInode, allBlocks := fun _ => 0 } = .ok st ∧
        st.mapBlocks (st.inode.iSize.toNat / 512 + 1) ((st.inode.iSize + count).toNat / 512 + 1) =
          .error st' ∧
        fileWrite okIo okAll v f buf count = st'.failed f := by
  revert hret
  rw [fileWrite]
  split_ifs
  · exact fun _ => .inl rfl
  · exact fun _ => .inl rfl
  · exact fun _ => .inl rfl
  · cases hfirst : firstBlock { vol := v, inode := f.fdInode, allBlocks := fun _ => 0 } with
    | error st =>
      intro _
      have hst : st = { vol := v, inode := f.fdInode, allBlocks := fun _ => 0 } := by
        rw [firstBlock] at hfirst
        split_ifs at hfirst
        cases halloc : v.blockBitmapAlloc with
        | none =>
          rw [halloc] at hfirst
          exact (Except.error.inj hfirst).symm
        | some r =>
          rw [halloc] at hfirst
          cases hfirst
      rw [hst]
      exact .inl rfl
    | ok st =>
      rw [ok_bind]
      cases hmap : st.mapBlocks (st.inode.iSize.toNat / 512 + 1)
          ((st.inode.iSize + count).toNat / 512 + 1) with
      | error st' => exact fun _ => .inr ⟨st, st', rfl, hmap, rfl⟩
      | ok st' => exact fun hret => by cases hret

/-- A write that fails leaves the bytes of the file and the position. -/
lemma FileRep.failedWrite (h : FileRep v f.fdInode data)
    (hret : (fileWrite okIo okAll v f buf count).ret = none) :
    FileRep (fileWrite okIo okAll v f buf count).vol (fileWrite okIo okAll v f buf count).file.fdInode
        data ∧ (fileWrite okIo okAll v f buf count).file.fdPos = f.fdPos := by
  rcases fileWrite_eq_of_none hret with heq | ⟨st, st', hfirst, hmap, heq⟩
  · rw [heq]
    exact ⟨h, rfl⟩
  rw [heq]
  refine ⟨?_, rfl⟩
  have hbound := h.bound
  obtain ⟨howns, hsz, hcont, -⟩ := firstBlock_owns h hfirst
  rw [hsz, h.size] at hmap
  have hs := mapBlocks_spared hmap
  have htab : 12 < data.length / 512 + 1 →
      SameSector st.vol.disk st'.vol.disk (st.inode.iSectors 12).toNat := by
    intro hn
    exact hs.sameData.sameSector (Owns.table_held howns _ (by simp [hn])).ge
  have hb : ∀ k < data.length / 512 + 1, st'.vol.blockOf st'.inode k = st.vol.blockOf st.inode k := by
    intro k hk
    by_cases hk12 : k < 12
    · rw [Vol.blockOf, Vol.blockOf, if_pos hk12, if_pos hk12, hs.iSectors k hk hk12]
    · rw [Vol.blockOf, Vol.blockOf, if_neg hk12, if_neg hk12, hs.table (by omega)]
      exact (htab (by omega)).u32 (by omega)
  have hfirst0 : st'.inode.iSectors 0 ≠ 0 := by
    have hheld := (Owns.held howns 0 (by omega)).ne_zero
    rwa [← hb 0 (by omega), Vol.blockOf, if_pos (by omega)] at hheld
  have howns' : OwnsFile st'.vol st'.inode (data.length / 512 + 1) := by
    have hheld : Owns st'.vol (st.vol.blockOf st.inode) (data.length / 512 + 1)
        (if 12 < data.length / 512 + 1 then some (st'.inode.iSectors 12) else none) := by
      split_ifs with hn
      · rw [hs.table hn]
        rw [OwnsFile, if_pos hn] at howns
        exact ⟨fun k hk => hs.mono _ (howns.held k hk), howns.inj,
          fun t ht => hs.mono _ (howns.table_held t ht), howns.table_ne⟩
      · exact ⟨fun k hk => hs.mono _ (Owns.held howns k hk), Owns.inj howns, by simp, by simp⟩
    exact hheld.congr hb
  refine ⟨?_, hbound, fun h0 => absurd h0 hfirst0, fun _ => howns', ?_⟩
  · simp only [failed, hs.iSize, hsz, h.size]
  · exact hcont.of_sameSector (n := data.length / 512 + 1) (by omega) hb fun k hk =>
      hs.sameData.sameSector (Owns.held howns k hk).ge

end

/-! ### Runs -/

/-- A call on an open file. -/
inductive FileCall where
  | write (call : WriteCall)
  | lseek (offset : Int) (whence : Whence)
  | read (work : Option WorkBlocks) (mem : Bytes) (dst : Nat) (count : UInt32)

/-- What a call leaves, whether or not it succeeds. -/
def FileCall.exec (s : Vol p × OpenFile) : FileCall → Vol p × OpenFile
  | .write call =>
    let r := fileWrite call.okIoBuf call.okAllBlocks s.1 s.2 call.buf call.count
    (r.vol, r.file)
  | .lseek offset whence => (s.1, (sysLseek s.2 offset whence).2)
  | .read work mem dst count => (s.1, (fileRead work s.1 s.2 mem dst count).file)

/-- The calls on a file that has just been opened. -/
def fileCalls (p : Partition) : System (Vol p × OpenFile) FileCall where
  init s := s.2.fdPos = 0 ∧ ∃ data, FileRep s.1 s.2.fdInode data
  step s c s' := c.exec s = s'

/-- The write fails; or the sum of size and count is below the limit, without wrapping around, and the
write is not an empty one to an empty file. -/
def WriteKeepsPos (vol : Vol p) (file : OpenFile) (call : WriteCall) : Prop :=
  (fileWrite call.okIoBuf call.okAllBlocks vol file call.buf call.count).ret ≠ none →
    file.fdInode.iSize.toNat + call.count.toNat < 71680 ∧ (call.count = 0 → file.fdInode.iSize ≠ 0)

/-- What is asked of the calls. -/
def FileCall.Fits (s : Vol p × OpenFile) : FileCall → Prop
  | .write call => WriteKeepsPos s.1 s.2 call
  | .lseek _ _ => True
  | .read _ _ _ count => ReadFits s.2 count

/-- The position is in the file, or at its end. -/
structure PosInv (s : Vol p × OpenFile) : Prop where
  rep : ∃ data, FileRep s.1 s.2.fdInode data
  pos : s.2.fdPos.toNat ≤ s.2.fdInode.iSize.toNat

/-- `sys_lseek` leaves the position, or moves it to one before the end of the file. -/
lemma sysLseek_cases (f : OpenFile) (offset : Int) (whence : Whence) :
    (sysLseek f offset whence).2 = f ∨ ∃ newPos : Int, 0 ≤ newPos ∧
      newPos < int32 f.fdInode.iSize.toNat ∧
      (sysLseek f offset whence).2 = { f with fdPos := UInt32.ofNat newPos.toNat } := by
  simp only [sysLseek]
  split_ifs with hout
  · exact .inl rfl
  · exact .inr ⟨_, by omega, by omega, rfl⟩

namespace PosInv

lemma write (h : PosInv (v, f)) {call : WriteCall} (hfits : WriteKeepsPos v f call) :
    PosInv (FileCall.exec (v, f) (.write call)) := by
  obtain ⟨data, hrep⟩ := h.rep
  have hpos := h.pos
  simp only at hrep hpos
  by_cases hret : (fileWrite call.okIoBuf call.okAllBlocks v f call.buf call.count).ret = none
  · obtain ⟨hrep', hpos'⟩ := hrep.failedWrite hret
    refine ⟨⟨data, hrep'⟩, ?_⟩
    have hs := hrep'.size
    simp only [FileCall.exec]
    rw [hpos', hs, ← hrep.size]
    exact hpos
  · obtain ⟨hsum, hempty⟩ := hfits hret
    have hrep' := (fileWrite_rep hrep (by omega) hret).2.1
    refine ⟨⟨_, hrep'⟩, ?_⟩
    obtain ⟨st, st', -, -, heq⟩ := fileWrite_eq_of_ne_none hret
    have hs := hrep'.size
    have hp : (fileWrite call.okIoBuf call.okAllBlocks v f call.buf call.count).file.fdPos =
        (fileWrite call.okIoBuf call.okAllBlocks v f call.buf call.count).file.fdInode.iSize - 1 := by
      rw [heq]
      exact CopyState.fdPos_writeLoop _ _ _ rfl
    simp only [FileCall.exec]
    -- the new size is not zero, so one less is not more
    have hne : (1 : UInt32).toNat ≤ (fileWrite call.okIoBuf call.okAllBlocks v f call.buf call.count).file.fdInode.iSize.toNat := by
      rw [hs, length_append, Bytes.length_slice, ← hrep.size, UInt32.toNat_one]
      by_contra hlt
      refine hempty (UInt32.toNat_inj.mp ?_) (UInt32.toNat_inj.mp ?_)
      · rw [UInt32.toNat_zero]
        omega
      · rw [UInt32.toNat_zero]
        omega
    rw [hp, UInt32.toNat_sub_of_le _ _ (UInt32.le_iff_toNat_le.mpr hne)]
    omega

lemma lseek (h : PosInv (v, f)) (offset : Int) (whence : Whence) :
    PosInv (FileCall.exec (v, f) (.lseek offset whence)) := by
  obtain ⟨data, hrep⟩ := h.rep
  have hs : f.fdInode.iSize.toNat = data.length := hrep.size
  have hbound := hrep.bound
  have hint : int32 f.fdInode.iSize.toNat = f.fdInode.iSize.toNat := by
    simp only [int32, Int.bmod_def]
    split_ifs <;> omega
  rw [FileCall.exec]
  rcases sysLseek_cases f offset whence with heq | ⟨newPos, h0, hlt, heq⟩
  · rw [heq]
    exact h
  · rw [heq]
    refine ⟨⟨data, hrep⟩, ?_⟩
    simp only [UInt32.toNat_ofNat']
    omega

lemma read (h : PosInv (v, f)) (work : Option WorkBlocks) (mem : Bytes) (dst : Nat)
    (hfits : ReadFits f count) : PosInv (FileCall.exec (v, f) (.read work mem dst count)) := by
  obtain ⟨data, hrep⟩ := h.rep
  have hsize : f.fdPos.toNat + (f.readSize count).toNat ≤ f.fdInode.iSize.toNat := hfits.size h.pos
  rw [FileCall.exec]
  by_cases hend : f.AtEnd count
  · rw [fileRead_atEnd hend]
    exact h
  cases work with
  | none =>
    rw [fileRead_none]
    exact h
  | some w =>
    rw [(fileRead_some hend).2]
    refine ⟨⟨data, hrep⟩, ?_⟩
    simp only [toNat_fdPos_add hsize]
    exact hsize

lemma of_reachable (h : (fileCalls p).Reachable FileCall.Fits s) : PosInv s := by
  refine h.invariant PosInv ?_ ?_
  · rintro s ⟨hpos, hrep⟩
    refine ⟨hrep, ?_⟩
    rw [hpos]
    exact Nat.zero_le _
  · rintro ⟨v, f⟩ c s' hinv hok rfl
    cases c with
    | write call => exact hinv.write hok
    | lseek offset whence => exact hinv.lseek offset whence
    | read work mem dst count => exact hinv.read work mem dst hok

end PosInv

end SimpleOs
