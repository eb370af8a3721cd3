import SimpleOs.Fs.Dir.Insert
import SimpleOs.Fs.Path.Image

/-!
# Reading a directory

`dir_read` of `fs/dir.c`, which is `sys_readdir`. Every call goes through the blocks from the first one
on and skips as many live entries as lie below `dir_pos`. Only the size of the directory stops the
loop over the blocks, so a size that is too large sends it past the end of `all_blocks`.
-/

namespace SimpleOs

open Base Option

variable {p : Partition}

/-- `struct dir`, together with the inode it points to. -/
structure Dir where
  inode : Inode
  dirPos : UInt32
  dirBuf : Bytes

/-- The inner loop of `dir_read` over `n` entries from `idx` on: the entry it returns, if any, and
`cur_dir_entry_pos`. -/
def readSlots (buf : Bytes) (dirPos : UInt32) : (n idx : Nat) → UInt32 → Option Nat × UInt32
  | 0, _, curDirEntryPos => (none, curDirEntryPos)
  | n + 1, idx, curDirEntryPos =>
    if entryFType buf idx ≠ 0 then
      if curDirEntryPos < dirPos then readSlots buf dirPos n (idx + 1) (curDirEntryPos + 24)
      else (some idx, curDirEntryPos)
    else readSlots buf dirPos n (idx + 1) curDirEntryPos

/-- The loop of `dir_read` over `n` blocks from `k` on, while `dir_pos` is below the size: the entry it
returns and the sector it is in. It has no bound of its own; `none` stands for a read past the end of
`all_blocks`. -/
def readBlocks (disk : Bytes) (allBlocks : Nat → UInt32) (dirPos : UInt32) :
    (n k : Nat) → UInt32 → Bytes → Option (Nat × Bytes)
  | 0, _, _, _ => none
  | n + 1, k, curDirEntryPos, dirE =>
    if allBlocks k = 0 then readBlocks disk allBlocks dirPos n (k + 1) curDirEntryPos dirE
    else
      let dirE := ideRead disk (allBlocks k).toNat (dirE.fill 0 0 512) 0 1
      match readSlots dirE dirPos 21 0 curDirEntryPos with
      | (some idx, _) => some (idx, dirE)
      | (none, curDirEntryPos) => readBlocks disk allBlocks dirPos n (k + 1) curDirEntryPos dirE

namespace Dir

/-- `dir_read`: the index in `dir_buf` of the entry it returns, `none` there standing for `NULL`. -/
def dirRead (v : Vol p) (dir : Dir) : Option (Option Nat × Dir) :=
  if dir.dirPos < dir.inode.iSize then
    (readBlocks v.disk (loadBlocks v.disk dir.inode) dir.dirPos 140 0 0 dir.dirBuf).map fun r =>
      (some r.1, { dir with dirPos := dir.dirPos + 24, dirBuf := r.2 })
  else some (none, dir)

/-- `sys_rewinddir`. -/
def sysRewinddir (dir : Dir) : Dir := { dir with dirPos := 0 }

/-- The entries that `n` calls of `sys_readdir` return, as they stand in `dir_buf` when the call
returns. -/
def sysReaddirs (v : Vol p) : Nat → Dir → Option (List (Option (List UInt8)) × Dir)
  | 0, dir => some ([], dir)
  | n + 1, dir =>
    (dir.dirRead v).bind fun r =>
      (sysReaddirs v n r.2).map fun rest =>
        (r.1.map (fun idx => r.2.dirBuf.slice (24 * idx) 24) :: rest.1, rest.2)

end Dir

/-! ### The live entries -/

variable (disk : Bytes)

/-- The slots in use among `n` slots of block `b`, from `idx` on. -/
def liveSlots (b : UInt32) (n idx : Nat) : List Nat :=
  (List.range' idx n).filter fun i => disk.u32 (entryAddr b i + 20) ≠ 0

/-- The live entries of `n` blocks from `k` on, in the order of blocks and slots. -/
def liveEntries (allBlocks : Nat → UInt32) (n k : Nat) : List (List UInt8) :=
  (List.range' k n).flatMap fun j =>
    if allBlocks j = 0 then []
    else (liveSlots disk (allBlocks j) 21 0).map fun i => disk.slice (entryAddr (allBlocks j) i) 24

/-- The live entries of a directory. -/
def Inode.liveEntries (disk : Bytes) (ino : Inode) : List (List UInt8) :=
  SimpleOs.liveEntries disk (loadBlocks disk ino) 140 0

lemma liveSlots_succ (b : UInt32) (n idx : Nat) :
    liveSlots disk b (n + 1) idx =
      if disk.u32 (entryAddr b idx + 20) ≠ 0 then idx :: liveSlots disk b n (idx + 1)
      else liveSlots disk b n (idx + 1) := by
  simp [liveSlots, List.range'_succ, List.filter_cons]

lemma liveEntries_succ (allBlocks : Nat → UInt32) (n k : Nat) :
    liveEntries disk allBlocks (n + 1) k =
      (if allBlocks k = 0 then []
        else (liveSlots disk (allBlocks k) 21 0).map fun i =>
          disk.slice (entryAddr (allBlocks k) i) 24) ++ liveEntries disk allBlocks n (k + 1) := by
  simp [liveEntries, List.range'_succ]

lemma length_liveSlots_le (b : UInt32) (n idx : Nat) : (liveSlots disk b n idx).length ≤ n := by
  exact (List.length_filter_le _ _).trans (by simp)

lemma mem_liveSlots {disk : Bytes} {b : UInt32} {n idx i : Nat} :
    i ∈ liveSlots disk b n idx ↔ (idx ≤ i ∧ i < idx + n) ∧ disk.u32 (entryAddr b i + 20) ≠ 0 := by
  simp [liveSlots, List.mem_range'_1]

lemma length_liveEntries_le (allBlocks : Nat → UInt32) (n k : Nat) :
    (liveEntries disk allBlocks n k).length ≤ 21 * n := by
  induction n generalizing k with
  | zero => simp [liveEntries]
  | succ n ih =>
    have hrest := ih (k + 1)
    have hblock := length_liveSlots_le disk (allBlocks k) 21 0
    rw [liveEntries_succ, List.length_append]
    split_ifs
    · simp only [List.length_nil]
      omega
    · rw [List.length_map]
      omega

/-! ### The loops -/

/-- The inner loop skips live entries until it has counted up to `dir_pos`. -/
lemma readSlots_eq {disk : Bytes} {b : UInt32} {buf : Bytes} {dirPos cur : UInt32} {c d n idx : Nat}
    (hbuf : ∀ i < idx + n, entryFType buf i = disk.u32 (entryAddr b i + 20))
    (hpos : dirPos.toNat = 24 * d) (hcur : cur.toNat = 24 * c) (hle : c ≤ d) :
    (∃ i last, (liveSlots disk b n idx)[d - c]? = some i ∧
        readSlots buf dirPos n idx cur = (some i, last)) ∨
      ∃ last, c + (liveSlots disk b n idx).length ≤ d ∧
        last.toNat = 24 * (c + (liveSlots disk b n idx).length) ∧
        readSlots buf dirPos n idx cur = (none, last) := by
  induction n generalizing idx cur c with
  | zero => exact .inr ⟨cur, by simpa [liveSlots] using hle, by simpa [liveSlots] using hcur, rfl⟩
  | succ n ih =>
    have hbuf' : ∀ i < idx + 1 + n, entryFType buf i = disk.u32 (entryAddr b i + 20) :=
      fun i hi => hbuf i (by omega)
    rw [readSlots, liveSlots_succ, hbuf idx (by omega)]
    by_cases hlive : disk.u32 (entryAddr b idx + 20) ≠ 0
    · rw [if_pos hlive, if_pos hlive]
      by_cases hskip : c < d
      · have hlt : cur < dirPos := by
          rw [UInt32.lt_iff_toNat_lt]
          omega
        have hnext : (cur + 24).toNat = 24 * (c + 1) := by
          have := dirPos.toNat_lt
          rw [UInt32.toNat_add]
          simp only [UInt32.reduceToNat]
          omega
        have hlen : c + (idx :: liveSlots disk b n (idx + 1)).length =
            c + 1 + (liveSlots disk b n (idx + 1)).length := by
          rw [List.length_cons]
          omega
        rw [if_pos hlt, hlen, show d - c = d - (c + 1) + 1 by omega]
        exact ih hbuf' hnext hskip
      · have hlt : ¬ cur < dirPos := by
          rw [UInt32.lt_iff_toNat_lt]
          omega
        rw [if_neg hlt, show d - c = 0 by omega]
        exact .inl ⟨idx, cur, rfl, rfl⟩
    · rw [if_neg hlive, if_neg hlive]
      exact ih hbuf' hcur hle

/-- A sector in `dir_buf` shows the entries of its block. -/
lemma slice_ideRead (b : UInt32) (buf : Bytes) {i : Nat} (hi : i < 21) :
    (ideRead disk b.toNat buf 0 1).slice (24 * i) 24 = disk.slice (entryAddr b i) 24 := by
  rw [Bytes.slice_eq_slice_iff]
  intro r hr
  rw [ideRead_sector _ _ _ (by omega), entryAddr, Nat.add_assoc]

/-- The loop over the blocks finds the live entry at `dir_pos` when there is one. -/
lemma readBlocks_eq {disk : Bytes} {allBlocks : Nat → UInt32} {dirPos cur : UInt32} {c d n k : Nat}
    {e : List UInt8} (hpos : dirPos.toNat = 24 * d) (hcur : cur.toNat = 24 * c) (hle : c ≤ d)
    (he : (liveEntries disk allBlocks n k)[d - c]? = some e) (buf : Bytes) :
    ∃ idx buf', readBlocks disk allBlocks dirPos n k cur buf = some (idx, buf') ∧
      buf'.slice (24 * idx) 24 = e := by
  induction n generalizing k cur c buf with
  | zero => simp [liveEntries] at he
  | succ n ih =>
    rw [liveEntries_succ] at he
    rw [readBlocks]
    by_cases h0 : allBlocks k = 0
    · rw [if_pos h0] at he ⊢
      exact ih hcur hle he buf
    · rw [if_neg h0] at he ⊢
      set dirE := ideRead disk (allBlocks k).toNat (buf.fill 0 0 512) 0 1 with hdirE
      have hbuf : ∀ i < 0 + 21, entryFType dirE i = disk.u32 (entryAddr (allBlocks k) i + 20) :=
        fun i hi => entryFType_ideRead _ _ _ (by omega)
      rcases readSlots_eq hbuf hpos hcur hle with ⟨i, last, hi, hrun⟩ | ⟨last, hlen, hlast, hrun⟩
      · -- the entry is in this block
        obtain ⟨hlt, -⟩ := List.getElem?_eq_some_iff.mp hi
        rw [List.getElem?_append_left (by simpa using hlt), List.getElem?_map, hi] at he
        have hmem := mem_liveSlots.mp (List.mem_of_getElem? hi)
        refine ⟨i, dirE, by simp only [hrun], ?_⟩
        rw [slice_ideRead _ _ _ (by omega)]
        simpa using he
      · rw [List.getElem?_append_right (by rw [List.length_map]; omega), List.length_map,
          Nat.sub_sub] at he
        simp only [hrun]
        exact ih hlast hlen he dirE

/-! ### Runs of `sys_readdir` -/

namespace Dir

variable {v : Vol p} {dir : Dir}

/-- A call at position `d` of a directory of the right size returns its live entry number `d`, or `NULL`
when there are no more. -/
lemma dirRead_eq {d : Nat} (hsize : dir.inode.iSize.toNat = 24 * (dir.inode.liveEntries v.disk).length)
    (hpos : dir.dirPos.toNat = 24 * d) :
    (∃ e idx buf, (dir.inode.liveEntries v.disk)[d]? = some e ∧ buf.slice (24 * idx) 24 = e ∧
        dir.dirRead v = some (some idx, { dir with dirPos := dir.dirPos + 24, dirBuf := buf })) ∨
      (dir.inode.liveEntries v.disk).length ≤ d ∧ dir.dirRead v = some (none, dir) := by
  by_cases hlt : d < (dir.inode.liveEntries v.disk).length
  · have hbelow : dir.dirPos < dir.inode.iSize := by
      rw [UInt32.lt_iff_toNat_lt]
      omega
    have he := List.getElem?_eq_getElem hlt
    obtain ⟨idx, buf, hrun, hslice⟩ := readBlocks_eq hpos UInt32.toNat_zero (Nat.zero_le d) he dir.dirBuf
    refine .inl ⟨_, idx, buf, he, hslice, ?_⟩
    rw [dirRead, if_pos hbelow, hrun]
    rfl
  · have hend : ¬ dir.dirPos < dir.inode.iSize := by
      rw [UInt32.lt_iff_toNat_lt]
      omega
    exact .inr ⟨by omega, by rw [dirRead, if_neg hend]⟩

/-- The calls from position `d` on return the live entries from there on, and then `NULL`. -/
lemma sysReaddirs_from (n : Nat) {d : Nat}
    (hsize : dir.inode.iSize.toNat = 24 * (dir.inode.liveEntries v.disk).length)
    (hpos : dir.dirPos.toNat = 24 * d) :
    ∃ last, dir.sysReaddirs v n =
      some ((((dir.inode.liveEntries v.disk).drop d).map some ++ List.replicate n none).take n, last) := by
  induction n generalizing dir d with
  | zero => exact ⟨dir, by simp [sysReaddirs]⟩
  | succ n ih =>
    rcases dirRead_eq hsize hpos with ⟨e, idx, buf, he, hslice, hrun⟩ | ⟨hend, hrun⟩
    · obtain ⟨hlt, hget⟩ := List.getElem?_eq_some_iff.mp he
      have hnext : (dir.dirPos + 24).toNat = 24 * (d + 1) := by
        have := length_liveEntries_le v.disk (loadBlocks v.disk dir.inode) 140 0
        rw [Inode.liveEntries] at hlt
        rw [UInt32.toNat_add]
        simp only [UInt32.reduceToNat]
        omega
      obtain ⟨last, hlast⟩ :=
        @ih { dir with dirPos := dir.dirPos + 24, dirBuf := buf } (d + 1) hsize hnext
      refine ⟨last, ?_⟩
      have htake : ∀ l : List (List UInt8),
          ((l.map some ++ List.replicate (n + 1) none).take n : List (Option (List UInt8))) =
            (l.map some ++ List.replicate n none).take n := by
        intro l
        rw [List.take_append, List.take_append, List.take_replicate, List.take_replicate]
        congr 2
        omega
      rw [sysReaddirs, hrun, bind_some, hlast, map_some, List.drop_eq_getElem_cons hlt,
        List.map_cons, List.cons_append, List.take_succ_cons, htake, hget, map_some, hslice]
    · obtain ⟨last, hlast⟩ := ih hsize hpos
      rw [List.drop_eq_nil_of_le hend] at hlast ⊢
      rw [sysReaddirs, hrun, bind_some, hlast]
      simp [List.replicate_succ]

/-- From the start of a directory whose size is that of its live entries, the calls return every live
entry once, in the order of blocks and slots, and then `NULL` for ever. -/
theorem sysReaddirs_rewinddir (n : Nat)
    (hsize : dir.inode.iSize.toNat = 24 * (dir.inode.liveEntries v.disk).length) :
    ∃ last, dir.sysRewinddir.sysReaddirs v n =
      some (((dir.inode.liveEntries v.disk).map some ++ List.replicate n none).take n, last) := by
  have hrun := @sysReaddirs_from p v dir.sysRewinddir n 0 hsize rfl
  rwa [List.drop_zero] at hrun

/-- The root directory of the sample image, after another call has read in it. -/
def sampleRoot : Dir := ⟨(Image.sample.vol .smallest).inodeLoad 0, 48, Bytes.zero⟩

/-- Its entries are read once each, and then nothing. -/
theorem sysReaddirs_sampleRoot :
    (sampleRoot.inode.liveEntries (Image.sample.vol .smallest).disk).length = 4 ∧
      ∃ last, sampleRoot.sysRewinddir.sysReaddirs (Image.sample.vol .smallest) 6 =
        some (((sampleRoot.inode.liveEntries (Image.sample.vol .smallest).disk).map some ++
          List.replicate 6 none).take 6, last) :=
  ⟨by decide +kernel, sysReaddirs_rewinddir 6 (by decide +kernel)⟩

end Dir

end SimpleOs
