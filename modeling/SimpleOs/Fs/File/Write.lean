import SimpleOs.Fs.File.Blocks

/-!
# What `file_write` stores

A file represents the list of the bytes written to it, and `file_write` appends to that list.
-/

namespace SimpleOs

open Base Bytes

variable {p : Partition}

variable {v v' : Vol p} {ino ino' : Inode} {data : List UInt8} {chunk n sizeLeft written : Nat}
  {c : CopyState p} {buf : Bytes}

/-- Byte `k` of a file, found through its block map. -/
def Vol.byteAt (v : Vol p) (ino : Inode) (k : Nat) : UInt8 :=
  v.disk (512 * (v.blockOf ino (k / 512)).toNat + k % 512)

/-- The bytes of a file start with `data`. -/
def Vol.Contains (v : Vol p) (ino : Inode) (data : List UInt8) : Prop :=
  ∀ k x, data[k]? = some x → v.byteAt ino k = x

/-- The file with inode `ino` holds exactly `data`. A file that was never written has no block;
every other file has the block its next byte goes to. -/
structure FileRep (v : Vol p) (ino : Inode) (data : List UInt8) : Prop where
  size : ino.iSize.toNat = data.length
  bound : data.length / 512 + 1 ≤ 140
  blank : ino.iSectors 0 = 0 → data = []
  owns : ino.iSectors 0 ≠ 0 → OwnsFile v ino (data.length / 512 + 1)
  content : v.Contains ino data

lemma fileRep_inodeInit (v : Vol p) (n : UInt32) : FileRep v (Inode.inodeInit n) [] where
  size := rfl
  bound := by simp
  blank _ := rfl
  owns h := absurd rfl h
  content k x h := by simp at h

lemma Vol.Contains.of_sameSector (h : v.Contains ino data) (hn : data.length ≤ 512 * n)
    (hb : ∀ k < n, v'.blockOf ino' k = v.blockOf ino k)
    (hs : ∀ k < n, SameSector v.disk v'.disk (v.blockOf ino k).toNat) :
    v'.Contains ino' data := by
  intro k x hk
  obtain ⟨hlt, -⟩ := List.getElem?_eq_some_iff.mp hk
  rw [← h k x hk, Vol.byteAt, hb _ (by omega)]
  exact hs (k / 512) (by omega) (k % 512) (Nat.mod_lt _ (by omega))

lemma OwnsFile.blockOf_eq (hsec : ∀ k < 13, ino'.iSectors k = ino.iSectors k) (hn : n ≤ 140)
    (htab : 12 < n → SameSector v.disk v'.disk (ino.iSectors 12).toNat) :
    ∀ k < n, v'.blockOf ino' k = v.blockOf ino k := by
  intro k hk
  by_cases h12 : k < 12
  · simp [Vol.blockOf, h12, hsec k (by omega)]
  · simp only [Vol.blockOf, if_neg h12, hsec 12 (by omega)]
    exact (htab (by omega)).u32 (by omega)

lemma OwnsFile.transfer (h : OwnsFile v ino n)
    (hsec : ∀ k < 13, ino'.iSectors k = ino.iSectors k) (hn : n ≤ 140)
    (htab : 12 < n → SameSector v.disk v'.disk (ino.iSectors 12).toNat)
    (hmono : ∀ b, v.blockUsed b = true → v'.blockUsed b = true) : OwnsFile v' ino' n := by
  have hb := OwnsFile.blockOf_eq hsec hn htab
  rw [OwnsFile, hsec 12 (by omega)]
  exact (Owns.mono h fun _ hx => hx.mono hmono).congr hb

lemma OwnsFile.table_ne (h : OwnsFile v ino n) (hn : 12 < n)
    (hk : k < n) : (ino.iSectors 12).toNat ≠ (v.blockOf ino k).toNat := by
  intro heq
  exact Owns.table_ne h _ (by simp [hn]) k hk (UInt32.toNat_inj.mp heq.symm)

/-! ### The data loop -/

lemma chunkSize_le (sizeLeft pos : Nat) : chunkSize sizeLeft pos ≤ sizeLeft := by
  simp only [chunkSize]
  split_ifs <;> omega

lemma chunkSize_fits (sizeLeft pos : Nat) : pos % 512 + chunkSize sizeLeft pos ≤ 512 := by
  simp only [chunkSize]
  split_ifs <;> omega

lemma chunkSize_pos (pos : Nat) (h : 0 < sizeLeft) : 0 < chunkSize sizeLeft pos := by
  simp only [chunkSize]
  split_ifs <;> omega

lemma chunkSize_aligned (h : chunkSize sizeLeft pos < sizeLeft) :
    (pos + chunkSize sizeLeft pos) % 512 = 0 := by
  simp only [chunkSize] at h ⊢
  split_ifs at h ⊢ <;> omega

namespace CopyState

/-- The invariant of the data loop of `file_write`: the file has the block map `m`, and holds the
old data and the first `written` bytes of the buffer. -/
structure Inv (c : CopyState p) (m allBlocks : Nat → UInt32) (data : List UInt8) (buf : Bytes)
    (count written n : Nat) : Prop where
  owns : OwnsFile c.vol c.file.fdInode n
  bound : n ≤ 140
  room : (data.length + count) / 512 < n
  written_le : written ≤ count
  size : c.file.fdInode.iSize.toNat = data.length + written
  blocks : ∀ k < n, c.vol.blockOf c.file.fdInode k = m k
  lookup : ∀ k, data.length / 512 ≤ k → k < n → allBlocks k = m k
  content : c.vol.Contains c.file.fdInode (data ++ buf.slice 0 written)

/-- The sector a round of the data loop writes. -/
lemma disk_writeChunk (c : CopyState p) (allBlocks : Nat → UInt32) (buf : Bytes) (first : Bool)
    (hr : r < 512) :
    (c.writeChunk allBlocks buf first written chunk).vol.disk
        (512 * (allBlocks (c.file.fdInode.iSize.toNat / 512)).toNat + r) =
      if c.file.fdInode.iSize.toNat % 512 ≤ r ∧ r < c.file.fdInode.iSize.toNat % 512 + chunk then
        buf (written + (r - c.file.fdInode.iSize.toNat % 512))
      else if first then
        c.vol.disk (512 * (allBlocks (c.file.fdInode.iSize.toNat / 512)).toNat + r)
      else 0 := by
  simp only [writeChunk, Vol.disk_setDisk, ideWrite_eq, ideRead_eq]
  rw [copy_inside _ _ (by omega), Nat.add_sub_cancel_left, Nat.zero_add]
  by_cases hin : c.file.fdInode.iSize.toNat % 512 ≤ r ∧
      r < c.file.fdInode.iSize.toNat % 512 + chunk
  · rw [copy_inside _ _ hin, if_pos hin]
  · rw [copy_outside _ _ (by omega), if_neg hin]
    cases first
    · exact fill_inside _ (by omega)
    · simp only [if_true]
      rw [copy_inside _ _ (by omega), Nat.sub_zero]

/-- One round of the data loop keeps the invariant. -/
lemma Inv.writeChunk (h : c.Inv m allBlocks data buf count written n)
    (hlt : written < count) (hchunk : chunk = chunkSize (count - written) (data.length + written))
    (hfirst : first = false → (data.length + written) % 512 = 0) :
    (c.writeChunk allBlocks buf first written chunk).Inv m allBlocks data buf count
      (written + chunk) n := by
  have hle := chunkSize_le (count - written) (data.length + written)
  have hfits := chunkSize_fits (count - written) (data.length + written)
  rw [← hchunk] at hle hfits
  have hbound := h.bound
  have hroom := h.room
  have hsize := h.size
  -- the sector written is the block of the next byte
  have hk : c.file.fdInode.iSize.toNat / 512 < n := by omega
  have hlba : allBlocks (c.file.fdInode.iSize.toNat / 512) =
      c.vol.blockOf c.file.fdInode (c.file.fdInode.iSize.toNat / 512) := by
    rw [h.blocks _ hk, h.lookup _ (by omega) hk]
  set lba := (allBlocks (c.file.fdInode.iSize.toNat / 512)).toNat with hlbadef
  set c' := c.writeChunk allBlocks buf first written chunk with hc'
  have hother : ∀ x, x ≠ lba → SameSector c.vol.disk c'.vol.disk x := by
    intro x hx
    exact sameSector_ideWrite _ _ hx
  have hsec : ∀ k < 13, c'.file.fdInode.iSectors k = c.file.fdInode.iSectors k :=
    fun _ _ => rfl
  have htab : 12 < n → SameSector c.vol.disk c'.vol.disk (c.file.fdInode.iSectors 12).toNat := by
    intro hn
    apply hother
    rw [hlbadef, hlba]
    exact h.owns.table_ne hn hk
  have hb := OwnsFile.blockOf_eq hsec hbound htab
  refine ⟨h.owns.transfer hsec hbound htab fun _ hu => hu, hbound, hroom, by omega, ?_, ?_,
    h.lookup, ?_⟩
  · simp only [hc', CopyState.writeChunk, UInt32.toNat_add, UInt32.toNat_ofNat', hsize]
    omega
  · intro k hk'
    rw [hb k hk', h.blocks k hk']
  · intro k x hkx
    obtain ⟨hklt, -⟩ := List.getElem?_eq_some_iff.mp hkx
    simp only [List.length_append, length_slice] at hklt
    have hkn : k / 512 < n := by omega
    have hbk : c'.vol.byteAt c'.file.fdInode k =
        c'.vol.disk (512 * (c.vol.blockOf c.file.fdInode (k / 512)).toNat + k % 512) := by
      rw [Vol.byteAt, hb _ hkn]
    rw [hbk]
    by_cases hsame : k / 512 = c.file.fdInode.iSize.toNat / 512
    · -- a byte of the sector that is written
      rw [hsame, ← hlba]
      rw [disk_writeChunk c allBlocks buf first (Nat.mod_lt _ (by omega))]
      by_cases hnew : data.length + written ≤ k
      · rw [if_pos (by omega)]
        rw [List.getElem?_append_right (by omega), getElem?_slice _ (by omega)] at hkx
        simp only [Option.some.injEq, Nat.zero_add] at hkx
        rw [← hkx]
        congr 1
        omega
      · rw [if_neg (by omega)]
        cases first
        · have := hfirst rfl
          omega
        · simp only [if_true]
          rw [getElem?_append_slice _ _ (Nat.le_add_right _ _) (by omega)] at hkx
          rw [← h.content k x hkx, Vol.byteAt, hsame, ← hlba]
    · -- a byte of another sector
      rw [hother _ ?_ _ (Nat.mod_lt _ (by omega))]
      · rw [getElem?_append_slice _ _ (Nat.le_add_right _ _) (by omega)] at hkx
        rw [← h.content k x hkx, Vol.byteAt]
      · rw [hlbadef, hlba]
        intro heq
        exact hsame (Owns.inj h.owns _ hkn _ hk (UInt32.toNat_inj.mp heq))

/-- The data loop writes the whole buffer. -/
lemma Inv.writeLoop (h : c.Inv m allBlocks data buf count written n) (fuel : Nat) (first : Bool)
    (hfuel : count ≤ fuel + written)
    (hfirst : first = false → written < count → (data.length + written) % 512 = 0) :
    (writeLoop allBlocks buf count fuel first written c).Inv m allBlocks data buf count count n := by
  induction fuel generalizing c written first with
  | zero =>
    obtain rfl : written = count := by have := h.written_le; omega
    exact h
  | succ fuel ih =>
    simp only [CopyState.writeLoop]
    split_ifs with hlt
    · rw [h.size]
      have hpos := chunkSize_pos (data.length + written) (show 0 < count - written by omega)
      refine ih (h.writeChunk hlt rfl fun hf => hfirst hf hlt) false (by omega) ?_
      intro _ hmore
      rw [← Nat.add_assoc]
      exact chunkSize_aligned (by omega)
    · obtain rfl : written = count := by have := h.written_le; omega
      exact h

end CopyState

/-! ### `file_write` -/

/-- After its first block is allocated a file owns the block its next byte goes to. -/
lemma WriteState.firstBlock_owns {st st' : WriteState p}
    (h : FileRep st.vol st.inode data) (hok : st.firstBlock = .ok st') :
    OwnsFile st'.vol st'.inode (data.length / 512 + 1) ∧ st'.inode.iSize = st.inode.iSize ∧
      st'.vol.Contains st'.inode data ∧
      ∀ k, 512 * k < data.length → st'.vol.blockOf st'.inode k = st.vol.blockOf st.inode k := by
  simp only [firstBlock] at hok
  split_ifs at hok with h0
  · split at hok
    · cases hok
    · rename_i lba v hal
      cases hok
      obtain ⟨-, ha⟩ := Vol.allocated_of_alloc hal
      obtain rfl := h.blank h0
      refine ⟨?_, rfl, fun k x hk => by simp at hk, fun k hk => by simp at hk⟩
      refine ownsFile_one ?_
      simpa using ha.holds
  · cases hok
    exact ⟨h.owns h0, rfl, h.content, fun _ _ => rfl⟩

/-- A `file_write` that succeeds appends its buffer to the file and moves no block of it. -/
lemma fileWrite_rep {okIo okAll : Bool} {f : OpenFile}
    {count : UInt32} (h : FileRep v f.fdInode data)
    (hbound : (f.fdInode.iSize.toNat + count.toNat) / 512 + 1 ≤ 140)
    (hret : (fileWrite okIo okAll v f buf count).ret ≠ none) :
    (fileWrite okIo okAll v f buf count).ret = some count.toNat ∧
      FileRep (fileWrite okIo okAll v f buf count).vol
        (fileWrite okIo okAll v f buf count).file.fdInode (data ++ buf.slice 0 count.toNat) ∧
      ∀ k, 512 * k < data.length → (fileWrite okIo okAll v f buf count).vol.blockOf
        (fileWrite okIo okAll v f buf count).file.fdInode k = v.blockOf f.fdInode k := by
  have hsize := h.size
  have hsum : (f.fdInode.iSize + count).toNat = data.length + count.toNat := by
    rw [UInt32.toNat_add]
    omega
  revert hret
  simp only [fileWrite]
  split_ifs with h1 h2 h3
  · intro hret; exact absurd rfl hret
  · intro hret; exact absurd rfl hret
  · intro hret; exact absurd rfl hret
  · split
    · intro hret; exact absurd rfl hret
    · rename_i st' hst
      intro _
      refine ⟨rfl, ?_⟩
      obtain ⟨st, hfirst, hmap⟩ := except_bind_eq_ok.mp hst
      obtain ⟨howns, hsz, hcont, hold⟩ := WriteState.firstBlock_owns h hfirst
      rw [hsz, hsize, hsum] at hmap
      have hm := WriteState.mapBlocks_mapped (by omega) (Nat.add_le_add_right
        (Nat.div_le_div_right (Nat.le_add_right _ _)) 1) (by omega) howns hmap
      -- the data loop starts with the old data in place
      set c0 : CopyState p := ⟨st'.vol, ⟨st'.inode.iSize - 1, st'.inode⟩, Bytes.zero⟩ with hc0
      have hinv : c0.Inv (st'.vol.blockOf st'.inode) st'.allBlocks data buf count.toNat 0
          ((data.length + count.toNat) / 512 + 1) := by
        refine ⟨hm.owns, by omega, by omega, by omega, ?_, fun _ _ => rfl, ?_, ?_⟩
        · rw [hm.iSize, hsz, hsize, Nat.add_zero]
        · intro k hk1 hk2
          exact hm.allBlocks_eq k (by omega) hk2
        · have : buf.slice 0 0 = [] := rfl
          rw [this, List.append_nil]
          exact hcont.of_sameSector (n := data.length / 512 + 1) (by omega) hm.blockOf_lt
            hm.sameSector
      have hend := hinv.writeLoop count.toNat true (by omega) (by simp)
      set c := CopyState.writeLoop st'.allBlocks buf count.toNat count.toNat true 0 c0 with hc
      have hdata := c.vol.sameData_inodeSync c.file.fdInode c.ioBuf
      have hheld := Owns.held hend.owns
      have htab : 12 < (data.length + count.toNat) / 512 + 1 → SameSector c.vol.disk
          (c.vol.inodeSync c.file.fdInode c.ioBuf).disk (c.file.fdInode.iSectors 12).toNat := by
        intro hn
        exact hdata.sameSector (Owns.table_held hend.owns _ (by simp [hn])).ge
      have hb : ∀ k < (data.length + count.toNat) / 512 + 1,
          (c.vol.inodeSync c.file.fdInode c.ioBuf).blockOf c.file.fdInode k =
            c.vol.blockOf c.file.fdInode k :=
        OwnsFile.blockOf_eq (fun _ _ => rfl) (by omega) htab
      have hne : c.file.fdInode.iSectors 0 ≠ 0 := by
        have := (hheld 0 (by omega)).ne_zero
        simpa [Vol.blockOf] using this
      have hlen : (data ++ buf.slice 0 count.toNat).length = data.length + count.toNat := by simp
      refine ⟨⟨by rw [hlen]; exact hend.size, by rw [hlen]; omega, fun h0 => absurd h0 hne,
        fun _ => ?_, ?_⟩, fun k hk => ?_⟩
      · rw [hlen]
        exact hend.owns.transfer (fun _ _ => rfl) (by omega) htab fun _ hu => hu
      · exact hend.content.of_sameSector (by rw [hlen]; omega) hb
          fun k hk => hdata.sameSector (hheld k hk).ge
      · rw [hb k (by omega), hend.blocks k (by omega), hm.blockOf_lt k (by omega), hold k hk]

end SimpleOs
