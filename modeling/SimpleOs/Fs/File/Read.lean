import SimpleOs.Fs.File.Write

/-!
# What `file_read` delivers

`file_read` copies the bytes of the file, found through its block map, to a destination outside
the pages of its own work blocks. Together with `file_write` this is a round trip: what a sequence
of appends wrote is what is read back.
-/

namespace SimpleOs

open Base Option Bytes List

variable {p : Partition}

variable {w : WorkBlocks} {a dst : Nat} {v : Vol p} {mem mem0 : Bytes} {f : OpenFile}
  {data : List UInt8} {s s' : Vol p × OpenFile}

namespace WorkBlocks

/-- Address `a` is in neither of the two pages that `file_read` saves and restores. -/
def Clear (w : WorkBlocks) (a : Nat) : Prop := a / 4096 ≠ w.ioBuf / 4096 ∧ a / 4096 ≠ w.temp / 4096

/-- Address `a` is in no page of a work block. -/
def Outside (w : WorkBlocks) (a : Nat) : Prop := w.Clear a ∧ a / 4096 ≠ w.allBlocks / 4096

/-- Address `a` belongs to none of the work blocks. Other blocks can be in the pages of the first two;
the third is in a page of its own. -/
def Apart (w : WorkBlocks) (a : Nat) : Prop :=
  (a < w.ioBuf ∨ w.ioBuf + 512 ≤ a) ∧ (a < w.allBlocks ∨ w.allBlocks + 560 ≤ a) ∧
    a / 4096 ≠ w.temp / 4096

/-- Address `a` is in the page of the sector buffer. -/
def SamePage (w : WorkBlocks) (a : Nat) : Prop := a / 4096 = w.ioBuf / 4096

instance (w : WorkBlocks) (a : Nat) : Decidable (w.SamePage a) := inferInstanceAs (Decidable (_ = _))

lemma Outside.apart (h : w.Outside a) : w.Apart a ∧ ¬ w.SamePage a := by
  have h1 := w.ioBuf_fits
  have h2 := w.allBlocks_fits
  obtain ⟨⟨hio, htemp⟩, hall⟩ := h
  exact ⟨⟨by omega, by omega, htemp⟩, hio⟩

variable (w : WorkBlocks)

lemma clear_allBlocks (hr : r < 560) : w.Clear (w.allBlocks + r) := by
  have h1 := w.allBlocks_fits
  have h2 := w.ioBuf_ne_allBlocks
  have h3 := w.allBlocks_ne_temp
  constructor <;> omega

lemma restore_clear (ha : w.Clear a) (mem : Bytes) : w.restore mem a = mem a := by
  have h := ha.1
  apply copy_outside
  simp only [arena]
  omega

lemma savedRead_clear (ha : w.Clear a) (disk mem : Bytes) (lba : Nat)
    (hout : a < buf ∨ buf + 512 ≤ a) : w.savedRead disk mem lba buf a = mem a := by
  have h1 := ha.2
  have h2 := w.temp_start
  simp only [savedRead, ideRead_eq]
  rw [copy_outside _ _ (by omega), copy_outside _ _ (by simp only [temp1]; omega)]

lemma savedRead_inside (hr : r < 512) (disk mem : Bytes) (lba : Nat) :
    w.savedRead disk mem lba buf (buf + r) = disk (512 * lba + r) := by
  simp only [savedRead, ideRead_eq]
  rw [copy_inside _ _ (by omega)]
  congr 1
  omega

variable {w} in
lemma Apart.clear (h : w.Apart a) (hp : ¬ w.SamePage a) : w.Clear a := ⟨hp, h.2.2⟩

/-! ### The page of the sector buffer -/

lemma restore_samePage (ha : w.SamePage a) (mem : Bytes) :
    w.restore mem a = mem (w.temp1 + (a - w.arena)) := by
  have h : a / 4096 = w.ioBuf / 4096 := ha
  apply copy_inside
  simp only [arena]
  omega

/-- The page as it was before a sector was read to `buf`, and in the copy of the page. -/
lemma savedRead_saved (ha : w.SamePage a) (disk mem : Bytes) (lba : Nat)
    (hbuf : ∀ r < 512, (buf + r) / 4096 ≠ w.temp / 4096) :
    w.savedRead disk mem lba buf (w.temp1 + (a - w.arena)) = mem a := by
  have h1 : a / 4096 = w.ioBuf / 4096 := ha
  have h2 := w.temp_start
  have hin : (w.temp1 + (a - w.arena)) / 4096 = w.temp / 4096 := by
    simp only [temp1, arena]
    omega
  have hout : w.temp1 + (a - w.arena) < buf ∨ buf + 512 ≤ w.temp1 + (a - w.arena) := by
    by_contra hcon
    apply hbuf (w.temp1 + (a - w.arena) - buf) (by omega)
    rw [show buf + (w.temp1 + (a - w.arena) - buf) = w.temp1 + (a - w.arena) by omega]
    exact hin
  simp only [savedRead, ideRead_eq]
  rw [copy_outside _ _ (by omega), copy_inside _ _ (by simp only [arena]; omega)]
  congr 1
  simp only [arena]
  omega

/-! ### The block map -/

lemma lookDirect_outside (ino : Inode) (mem : Bytes)
    (ha : a < w.allBlocks + 4 * k ∨ w.allBlocks + 4 * (k + n) ≤ a) :
    w.lookDirect ino n k mem a = mem a := by
  induction n generalizing k mem with
  | zero => rfl
  | succ n ih =>
    rw [lookDirect, ih _ (by omega)]
    exact setU32_outside _ (by omega)

lemma lookDirect_inside (ino : Inode) (mem : Bytes) (hj : k ≤ j ∧ j < k + n) :
    (w.lookDirect ino n k mem).u32 (w.allBlocks + 4 * j) = ino.iSectors j := by
  induction n generalizing k mem with
  | zero => omega
  | succ n ih =>
    rw [lookDirect]
    by_cases hjk : j = k
    · subst hjk
      rw [← u32_setU32_self mem (w.allBlocks + 4 * j) (ino.iSectors j)]
      apply u32_congr
      intro r hr
      rw [w.lookDirect_outside ino _ (by omega), u32_setU32_self]
    · exact ih _ (by omega)

lemma lookTable_table (disk : Bytes) (ino : Inode) (mem : Bytes) (hk : 12 ≤ k)
    (hk' : k < 140) : (w.lookTable disk ino mem).u32 (w.allBlocks + 4 * k) =
      disk.u32 (512 * (ino.iSectors 12).toNat + 4 * (k - 12)) := by
  apply u32_congr
  intro r hr
  rw [lookTable, Nat.add_assoc, w.restore_clear (w.clear_allBlocks (by omega))]
  have hsplit : w.allBlocks + (4 * k + r) = w.allBlocks + 4 * 12 + (4 * (k - 12) + r) := by omega
  rw [hsplit, w.savedRead_inside (by omega), Nat.add_assoc]

lemma lookTable_direct (disk : Bytes) (ino : Inode) (mem : Bytes) (hk : k < 12) :
    (w.lookTable disk ino mem).u32 (w.allBlocks + 4 * k) = mem.u32 (w.allBlocks + 4 * k) := by
  apply u32_congr
  intro r hr
  rw [lookTable, Nat.add_assoc, w.restore_clear (w.clear_allBlocks (by omega)),
    w.savedRead_clear (w.clear_allBlocks (by omega)) _ _ _ (by omega)]

/-- All four cases of the block map part look up the same map. -/
lemma lookBlocks_u32 (v : Vol p) (ino : Inode) (mem : Bytes)
    (hend : endIdx < 140) (h1 : startIdx ≤ k) (h2 : k ≤ endIdx) :
    (w.lookBlocks v.disk ino startIdx endIdx mem).u32 (w.allBlocks + 4 * k) = v.blockOf ino k := by
  simp only [lookBlocks, Vol.blockOf]
  by_cases hk : k < 12
  · split_ifs with hse he he hs
    · exact w.lookDirect_inside ino _ (by omega)
    · omega
    · exact w.lookDirect_inside ino _ (by omega)
    · rw [w.lookTable_direct _ _ _ hk]
      exact w.lookDirect_inside ino _ (by omega)
    · omega
  · split_ifs with hse he he hs
    · omega
    · exact w.lookTable_table _ _ _ (by omega) (by omega)
    · omega
    · exact w.lookTable_table _ _ _ (by omega) (by omega)
    · exact w.lookTable_table _ _ _ (by omega) (by omega)

lemma lookTable_apart (ha : w.Apart a) (disk mem : Bytes) (ino : Inode) :
    w.lookTable disk ino mem a = mem a := by
  have h1 := w.allBlocks_fits
  have h2 := w.allBlocks_ne_temp
  have h3 := ha.2.1
  rw [lookTable]
  by_cases hp : w.SamePage a
  · rw [w.restore_samePage hp, w.savedRead_saved hp _ _ _ fun r hr => by omega]
  · rw [w.restore_clear (ha.clear hp), w.savedRead_clear (ha.clear hp) _ _ _ (by omega)]

lemma lookBlocks_apart (ha : w.Apart a) (disk mem : Bytes) (ino : Inode)
    (hend : endIdx < 140) (hle : startIdx ≤ endIdx) :
    w.lookBlocks disk ino startIdx endIdx mem a = mem a := by
  have h := ha.2.1
  have hdirect : ∀ n k mem, k + n ≤ 12 → w.lookDirect ino n k mem a = mem a :=
    fun n k mem hn => w.lookDirect_outside ino mem (by omega)
  have htable : ∀ mem, w.lookTable disk ino mem a = mem a := fun mem => w.lookTable_apart ha disk mem ino
  simp only [lookBlocks]
  split_ifs with hse he he hs
  · exact hdirect _ _ _ (by omega)
  · exact htable _
  · exact hdirect _ _ _ (by omega)
  · rw [htable, hdirect _ _ _ (by omega)]
  · exact htable _

/-! ### The data loop -/

lemma readChunk_frame (disk mem : Bytes) (ha : w.Clear a)
    (hout : a < dst ∨ dst + chunk ≤ a) : w.readChunk disk pos dst chunk mem a = mem a := by
  have hfits := w.ioBuf_fits
  have hne := ha.1
  simp only [readChunk]
  rw [w.restore_clear ha, copy_outside _ _ hout, w.savedRead_clear ha _ _ _ (by omega)]
  exact fill_outside _ (by omega)

lemma readChunk_data (disk mem : Bytes) (hj : j < chunk)
    (hfits : pos % 512 + chunk ≤ 512) (hclear : w.Clear (dst + j)) :
    w.readChunk disk pos dst chunk mem (dst + j) =
      disk (512 * (mem.u32 (w.allBlocks + 4 * (pos / 512))).toNat + (pos % 512 + j)) := by
  simp only [readChunk]
  rw [w.restore_clear hclear, copy_inside _ _ (by omega), Nat.add_sub_cancel_left,
    Nat.add_assoc, w.savedRead_inside (by omega)]

/-- A round of the data loop leaves the page of the sector buffer as it was, whatever it copied there. -/
lemma readChunk_samePage (ha : w.SamePage a) (hap : w.Apart a) (disk mem : Bytes)
    (hdst : ∀ j < chunk, w.Apart (dst + j)) : w.readChunk disk pos dst chunk mem a = mem a := by
  have h1 : a / 4096 = w.ioBuf / 4096 := ha
  have h2 := w.temp_start
  have h3 := w.ioBuf_fits
  have h4 := w.ioBuf_ne_temp
  have hin : (w.temp1 + (a - w.arena)) / 4096 = w.temp / 4096 := by
    simp only [temp1, arena]
    omega
  have hout : w.temp1 + (a - w.arena) < dst ∨ dst + chunk ≤ w.temp1 + (a - w.arena) := by
    by_contra hcon
    apply (hdst (w.temp1 + (a - w.arena) - dst) (by omega)).2.2
    rw [show dst + (w.temp1 + (a - w.arena) - dst) = w.temp1 + (a - w.arena) by omega]
    exact hin
  simp only [readChunk]
  rw [w.restore_samePage ha, copy_outside _ _ hout, w.savedRead_saved ha _ _ _ fun r hr => by omega]
  exact fill_outside _ hap.1

/-- The invariant of the data loop: the block map is in `all_blocks`, the first `done` bytes are delivered
unless they are in the page of the sector buffer, and nothing else has changed since `mem₀`. -/
structure Delivered (v : Vol p) (ino : Inode) (first last start dst done : Nat) (mem₀ mem : Bytes) : Prop where
  blocks : ∀ k, first ≤ k → k ≤ last → mem.u32 (w.allBlocks + 4 * k) = v.blockOf ino k
  data : ∀ j < done, ¬ w.SamePage (dst + j) → mem (dst + j) = v.byteAt ino (start + j)
  page : ∀ a, w.Apart a → w.SamePage a → mem a = mem₀ a
  frame : ∀ a, w.Apart a → a < dst ∨ dst + done ≤ a → mem a = mem₀ a

variable {w}

lemma Delivered.readChunk (h : w.Delivered v ino first last start dst done mem0 mem)
    (hlast : last < 140) (hdst : ∀ j < size, w.Apart (dst + j)) (hlt : done < size)
    (hfirst : first ≤ start / 512) (hsize : (start + size) / 512 ≤ last)
    (hchunk : chunk = chunkSize (size - done) (start + done)) :
    w.Delivered v ino first last start dst (done + chunk) mem0
      (w.readChunk v.disk (start + done) (dst + done) chunk mem) := by
  have hle := chunkSize_le (size - done) (start + done)
  have hfits := chunkSize_fits (size - done) (start + done)
  rw [← hchunk] at hle hfits
  have hdst' : ∀ j < chunk, w.Apart (dst + done + j) := by
    intro j hj
    rw [Nat.add_assoc]
    exact hdst (done + j) (by omega)
  refine ⟨?_, ?_, ?_, ?_⟩
  · intro k hk1 hk2
    rw [← h.blocks k hk1 hk2]
    apply u32_congr
    intro r hr
    -- the destination is no part of `all_blocks`
    have hout : ¬ (dst + done ≤ w.allBlocks + 4 * k + r ∧
        w.allBlocks + 4 * k + r < dst + done + chunk) := by
      rintro ⟨h1, h2⟩
      have := (hdst (w.allBlocks + 4 * k + r - dst) (by omega)).2.1
      omega
    rw [Nat.add_assoc] at hout ⊢
    exact w.readChunk_frame _ _ (w.clear_allBlocks (by omega)) (by omega)
  · intro j hj hp
    have hclear := (hdst j (by omega)).clear hp
    by_cases hnew : done ≤ j
    · obtain ⟨i, rfl⟩ := Nat.exists_eq_add_of_le hnew
      rw [← Nat.add_assoc] at hclear ⊢
      rw [w.readChunk_data _ _ (by omega) hfits hclear, h.blocks _ (by omega) (by omega), Vol.byteAt]
      have hdiv : (start + (done + i)) / 512 = (start + done) / 512 := by omega
      have hmod : (start + (done + i)) % 512 = (start + done) % 512 + i := by omega
      rw [hdiv, hmod]
    · rw [w.readChunk_frame _ _ hclear (by omega), h.data j (by omega) hp]
  · intro a ha hp
    rw [w.readChunk_samePage hp ha _ _ hdst', h.page a ha hp]
  · intro a ha hout
    by_cases hp : w.SamePage a
    · rw [w.readChunk_samePage hp ha _ _ hdst', h.page a ha hp]
    · rw [w.readChunk_frame _ _ (ha.clear hp) (by omega), h.frame a ha (by omega)]

lemma Delivered.readLoop
    (h : w.Delivered v ino first last start dst done mem0 mem) (size fuel : Nat) (hlast : last < 140)
    (hdst : ∀ j < size, w.Apart (dst + j)) (hdone : done ≤ size) (hfirst : first ≤ start / 512)
    (hsize : (start + size) / 512 ≤ last) (hfuel : size ≤ fuel + done) :
    w.Delivered v ino first last start dst size mem0
      (w.readLoop v.disk dst size fuel (start + done) done mem) := by
  induction fuel generalizing mem done with
  | zero =>
    obtain rfl : done = size := by omega
    exact h
  | succ fuel ih =>
    simp only [WorkBlocks.readLoop]
    split_ifs with hlt
    · have hpos := chunkSize_pos (start + done) (show 0 < size - done by omega)
      have hle := chunkSize_le (size - done) (start + done)
      rw [Nat.add_assoc]
      exact ih (h.readChunk hlast hdst hlt hfirst hsize rfl) (by omega) (by omega)
    · obtain rfl : done = size := by omega
      exact h

lemma resetTemp_apart (ha : w.Apart a) (mem : Bytes) : w.resetTemp mem a = mem a := by
  have h1 := ha.2.2
  have h2 := w.temp_start
  simp only [resetTemp, temp1]
  rw [setU32_outside _ (by omega), setU32_outside _ (by omega), setU32_outside _ (by omega)]

end WorkBlocks

/-! ### `file_read` -/

/-- `size` of `file_read`: the count, cut down at the end of the file. -/
def OpenFile.readSize (file : OpenFile) (count : UInt32) : UInt32 :=
  if file.fdPos + count > file.fdInode.iSize then file.fdInode.iSize - file.fdPos else count

/-- The read is past the end of the file, and nothing is left of it. -/
def OpenFile.AtEnd (file : OpenFile) (count : UInt32) : Prop :=
  file.fdPos + count > file.fdInode.iSize ∧ file.readSize count = 0

instance (file : OpenFile) (count : UInt32) : Decidable (file.AtEnd count) :=
  inferInstanceAs (Decidable (_ ∧ _))

section

variable {count : UInt32}

lemma fileRead_atEnd (h : f.AtEnd count) :
    fileRead work v f mem dst count = ⟨none, f, mem⟩ := if_pos h

/-- What `file_read` returns when it reads. -/
lemma fileRead_some (h : ¬ f.AtEnd count) :
    (fileRead (some w) v f mem dst count).ret = some (f.readSize count).toNat ∧
      (fileRead (some w) v f mem dst count).file = { f with fdPos := f.fdPos + f.readSize count } := by
  have heq : fileRead (some w) v f mem dst count = _ := if_neg h
  rw [heq]
  exact ⟨rfl, rfl⟩

lemma toNat_fdPos_add (h : f.fdPos.toNat + size.toNat ≤ f.fdInode.iSize.toNat) :
    (f.fdPos + size).toNat = f.fdPos.toNat + size.toNat := by
  have := f.fdInode.iSize.toNat_lt
  rw [UInt32.toNat_add]
  omega

/-- What a read from inside a file leaves in memory. -/
lemma fileRead_mem (mem : Bytes) (h : FileRep v f.fdInode data) (hend : ¬ f.AtEnd count)
    (hsize : f.fdPos.toNat + (f.readSize count).toNat ≤ f.fdInode.iSize.toNat)
    (hdst : ∀ j < (f.readSize count).toNat, w.Apart (dst + j)) :
    (∀ j < (f.readSize count).toNat, (fileRead (some w) v f mem dst count).mem (dst + j) =
        if w.SamePage (dst + j) then mem (dst + j) else v.byteAt f.fdInode (f.fdPos.toNat + j)) ∧
      ∀ a, w.Apart a → a < dst ∨ dst + (f.readSize count).toNat ≤ a →
        (fileRead (some w) v f mem dst count).mem a = mem a := by
  have hrs := h.size
  have hbound := h.bound
  have hadd := toNat_fdPos_add hsize
  set size := f.readSize count with hsz
  have hstart : w.Delivered v f.fdInode (f.fdPos.toNat / 512) ((f.fdPos + size).toNat / 512)
      f.fdPos.toNat dst 0 mem (w.lookBlocks v.disk f.fdInode (f.fdPos.toNat / 512)
        ((f.fdPos + size).toNat / 512) mem) := by
    have hlook : ∀ a, w.Apart a → w.lookBlocks v.disk f.fdInode (f.fdPos.toNat / 512)
        ((f.fdPos + size).toNat / 512) mem a = mem a :=
      fun a ha => w.lookBlocks_apart ha _ _ _ (by omega) (by omega)
    refine ⟨fun k h1 h2 => w.lookBlocks_u32 v _ mem (by omega) h1 h2, by simp, ?_, ?_⟩
    · exact fun a ha _ => hlook a ha
    · exact fun a ha _ => hlook a ha
  have hloop := hstart.readLoop size.toNat size.toNat (by omega) hdst (by omega) le_rfl (by rw [hadd])
    (by omega)
  have hmem : ∀ a, w.Apart a → (fileRead (some w) v f mem dst count).mem a =
      w.readLoop v.disk dst size.toNat size.toNat (f.fdPos.toNat + 0) 0
        (w.lookBlocks v.disk f.fdInode (f.fdPos.toNat / 512) ((f.fdPos + size).toNat / 512) mem) a := by
    intro a ha
    have heq : fileRead (some w) v f mem dst count = _ := if_neg hend
    rw [heq]
    exact WorkBlocks.resetTemp_apart ha _
  refine ⟨fun j hj => ?_, fun a ha hout => ?_⟩
  · rw [hmem _ (hdst j hj)]
    split_ifs with hp
    · exact hloop.page _ (hdst j hj) hp
    · exact hloop.data j hj hp
  · rw [hmem a ha]
    exact hloop.frame a ha hout

/-- The number of bytes that are read. -/
lemma toNat_readSize (hfits : f.fdPos.toNat + count.toNat < 2 ^ 32)
    (hpos : f.fdPos.toNat ≤ f.fdInode.iSize.toNat) :
    (f.readSize count).toNat = min count.toNat (f.fdInode.iSize.toNat - f.fdPos.toNat) := by
  have hadd : (f.fdPos + count).toNat = f.fdPos.toNat + count.toNat := by
    exact Nat.mod_eq_of_lt hfits
  rw [OpenFile.readSize]
  split_ifs with hgt
  · rw [gt_iff_lt, UInt32.lt_iff_toNat_lt] at hgt
    rw [UInt32.toNat_sub_of_le _ _ (UInt32.le_iff_toNat_le.mpr hpos)]
    omega
  · rw [gt_iff_lt, UInt32.lt_iff_toNat_lt] at hgt
    omega

/-- `file_read` from inside a file delivers its bytes up to the end of the file, when the destination is
outside the pages of its work blocks. -/
lemma fileRead_rep (h : FileRep v f.fdInode data) (mem : Bytes) (hpos : f.fdPos.toNat < data.length)
    (hcount : f.fdPos.toNat + count.toNat < 2 ^ 32)
    (hdst : ∀ j < count.toNat, w.Outside (dst + j)) :
    (fileRead (some w) v f mem dst count).ret =
        some (min count.toNat (data.length - f.fdPos.toNat)) ∧
      ∀ j < min count.toNat (data.length - f.fdPos.toNat),
        (fileRead (some w) v f mem dst count).mem (dst + j) =
          v.byteAt f.fdInode (f.fdPos.toNat + j) := by
  have hsize := h.size
  have hmin := toNat_readSize hcount (by omega)
  -- a read from inside the file is never empty at the end of the file
  have hend : ¬ f.AtEnd count := by
    rintro ⟨hgt, hz⟩
    rw [hz, UInt32.toNat_zero] at hmin
    obtain rfl : count = 0 := UInt32.toNat_inj.mp (by rw [UInt32.toNat_zero]; omega)
    rw [gt_iff_lt, UInt32.lt_iff_toNat_lt, UInt32.add_zero] at hgt
    omega
  obtain ⟨hdata, -⟩ := fileRead_mem mem h hend (by omega) fun j hj => (hdst j (by omega)).apart.1
  rw [← hsize, ← hmin]
  refine ⟨(fileRead_some hend).1, fun j hj => ?_⟩
  rw [hdata j hj, if_neg (hdst j (by omega)).apart.2]

end

/-! ### Appends and the round trip -/

/-- One call of `file_write`: whether its allocations succeed, and its arguments. -/
structure WriteCall where
  okIoBuf : Bool
  okAllBlocks : Bool
  buf : Bytes
  count : UInt32

/-- The bytes a call is given. -/
def WriteCall.bytes (c : WriteCall) : List UInt8 := c.buf.slice 0 c.count.toNat

/-- A call of `file_write` that keeps to its assertion `file_will_use_blocks <= 140` and does not
return `-1`. -/
def writeCall (s : Vol p × OpenFile) (c : WriteCall) : Option (Vol p × OpenFile) :=
  if (s.2.fdInode.iSize.toNat + c.count.toNat) / 512 + 1 ≤ 140 then
    let r := fileWrite c.okIoBuf c.okAllBlocks s.1 s.2 c.buf c.count
    r.ret.map fun _ => (r.vol, r.file)
  else none

/-- A sequence of such calls on one open file. -/
def writeCalls (s : Vol p × OpenFile) (calls : List WriteCall) : Option (Vol p × OpenFile) :=
  calls.foldlM writeCall s

lemma writeCall_rep (h : FileRep s.1 s.2.fdInode data) (hc : writeCall s c = some s') :
    FileRep s'.1 s'.2.fdInode (data ++ c.bytes) ∧
      ∀ k, 512 * k < data.length → s'.1.blockOf s'.2.fdInode k = s.1.blockOf s.2.fdInode k := by
  simp only [writeCall] at hc
  split_ifs at hc with hbound
  obtain ⟨n, hret, rfl⟩ := map_eq_some_iff.mp hc
  exact (fileWrite_rep h hbound (by simp [hret])).2

/-- A sequence of appends represents the concatenation of its buffers, and moves no block. -/
lemma writeCalls_rep (h : FileRep s.1 s.2.fdInode data) (hc : writeCalls s calls = some s') :
    FileRep s'.1 s'.2.fdInode (data ++ calls.flatMap WriteCall.bytes) ∧
      ∀ k, 512 * k < data.length → s'.1.blockOf s'.2.fdInode k = s.1.blockOf s.2.fdInode k := by
  induction calls generalizing s data with
  | nil =>
    obtain rfl : s = s' := by simpa [writeCalls] using hc
    simpa using h
  | cons c calls ih =>
    simp only [writeCalls, List.foldlM_cons, bind_eq_bind, bind_eq_some_iff] at hc
    obtain ⟨s1, hs1, hc⟩ := hc
    obtain ⟨hrep, hblk⟩ := writeCall_rep h hs1
    obtain ⟨hrep', hblk'⟩ := ih hrep hc
    rw [flatMap_cons, ← append_assoc]
    refine ⟨hrep', fun k hk => ?_⟩
    rw [hblk' k (by simp only [length_append]; omega), hblk k hk]

lemma sysLseek_seekSet (hpos : pos < f.fdInode.iSize.toNat)
    (hsize : f.fdInode.iSize.toNat < 2 ^ 31) :
    sysLseek f pos .seekSet = (some (UInt32.ofNat pos), { f with fdPos := UInt32.ofNat pos }) := by
  have hint : int32 f.fdInode.iSize.toNat = f.fdInode.iSize.toNat := by
    simp only [int32, Int.bmod_def]
    split_ifs <;> omega
  simp only [sysLseek, hint]
  rw [if_neg (by omega)]
  simp

/-- Work blocks at the start of three pages. -/
def WorkBlocks.firstPages : WorkBlocks where
  ioBuf := 4096 + 12
  allBlocks := 2 * 4096 + 12
  temp := 3 * 4096 + 12
  ioBuf_fits := by decide
  allBlocks_fits := by decide
  temp_start := by decide
  ioBuf_ne_allBlocks := by decide
  ioBuf_ne_temp := by decide
  allBlocks_ne_temp := by decide

end SimpleOs
