import SimpleOs.Fs.Dir.Direct
import SimpleOs.Fs.Path.Open

/-!
# How long a name may be

A name goes from a path to the buffer `name` of `search_file` (`path_parse`), from the path or from
that buffer to the field `filename` of an entry (`create_dir_entry`), and with the entry into the
directory (`sync_dir_entry`). Buffer and field have 16 bytes, and nobody adds an end or checks a
length. A name of up to 15 bytes is found again, and no other name finds its entry. A name of 16
bytes runs into what is behind the buffer, and in the entry into the inode number. A longer name is
written behind the buffer.
-/

namespace SimpleOs

open Base List

variable {p : Partition}

variable {a i idx j k : Nat} {behind s stack : List UInt8} {m : Nat → UInt32} {v v' : Vol p}
  {ino ino' : Inode} {e ioBuf pDe : Bytes}

/-! ### The name buffer -/

/-- The loop of `path_parse` that copies a name to `name_store`, at position `k`. The buffer is a part
of the stack, and its end does not stop the loop. -/
def storeName : (pathname : List UInt8) → (k : Nat) → (stack : List UInt8) → List UInt8
  | [], _, stack => stack
  | c :: pathname, k, stack =>
    if c = slash then stack else storeName pathname (k + 1) (stack.set k c)

/-- The string in the buffer `name` of `search_file` after `path_parse` has copied a name there. Before,
the 16 bytes of the buffer are zero; `behind` is what the stack has behind them. -/
def nameString (behind name : List UInt8) : List UInt8 :=
  (storeName name 0 (List.replicate maxFileNameLen 0 ++ behind)).takeWhile (· ≠ 0)

lemma storeName_of_le (h : stack.length ≤ k) : storeName n k stack = stack := by
  induction n generalizing k with
  | nil => rfl
  | cons c n ih =>
    rw [storeName, List.set_eq_of_length_le h, ih (by omega), ite_self]

/-- The bytes of the name take the place of those that were there. -/
lemma storeName_append (hn : slash ∉ n) (xs ys : List UInt8) :
    storeName n xs.length (xs ++ ys) = xs ++ n.take ys.length ++ ys.drop n.length := by
  induction n generalizing xs ys with
  | nil => simp [storeName]
  | cons c n ih =>
    rw [mem_cons, not_or] at hn
    rw [storeName, if_neg (Ne.symm hn.1)]
    cases ys with
    | nil =>
      rw [append_nil, List.set_eq_of_length_le le_rfl, storeName_of_le (by omega)]
      simp
    | cons y ys =>
      have hset : (xs ++ y :: ys).set xs.length c = (xs ++ [c]) ++ ys := by simp
      have hrec := ih hn.2 (xs ++ [c]) ys
      rw [length_append, length_singleton] at hrec
      rw [hset, hrec]
      simp

lemma storeName_eq (hn : slash ∉ n) (stack : List UInt8) :
    storeName n 0 stack = n.take stack.length ++ stack.drop n.length :=
  storeName_append hn [] stack

lemma nameString_eq (hn : slash ∉ n) (h0 : 0 ∉ n) (behind : List UInt8) :
    nameString behind n = n.take (16 + behind.length) ++
      ((List.replicate 16 0 ++ behind).drop n.length).takeWhile (· ≠ 0) := by
  have hlen : (List.replicate maxFileNameLen (0 : UInt8) ++ behind).length = 16 + behind.length := by
    rw [length_append, length_replicate, maxFileNameLen]
  rw [nameString, storeName_eq hn, hlen, List.takeWhile_append_of_pos]
  · rfl
  · intro c hc
    rw [decide_eq_true_eq]
    rintro rfl
    exact h0 (mem_of_mem_take hc)

lemma nameString_of_le (hn : slash ∉ n) (h0 : 0 ∉ n) (hlen : n.length ≤ 15)
    (behind : List UInt8) : nameString behind n = n := by
  obtain ⟨k, hk⟩ : ∃ k, 16 - n.length = k + 1 := ⟨15 - n.length, by omega⟩
  rw [nameString_eq hn h0, take_of_length_le (by omega), drop_append_of_le_length (by simp; omega),
    drop_replicate, hk, List.replicate_succ]
  simp

lemma nameString_of_eq (hn : slash ∉ n) (h0 : 0 ∉ n) (hlen : n.length = 16)
    (behind : List UInt8) : nameString behind n = n ++ behind.takeWhile (· ≠ 0) := by
  rw [nameString_eq hn h0, take_of_length_le (by omega), hlen, drop_left' (by simp)]

lemma zero_notMem_nameString (behind n : List UInt8) : 0 ∉ nameString behind n := by
  intro hmem
  simpa using mem_takeWhile_imp hmem

lemma eq_of_nameString_eq {m n : List UInt8} (hm : slash ∉ m) (hm0 : 0 ∉ m)
    (hlen : n.length ≤ 15) (heq : nameString behind m = n) : m = n := by
  by_cases hshort : m.length ≤ 15
  · rwa [nameString_of_le hm hm0 hshort] at heq
  · have hlong : 16 ≤ (nameString behind m).length := by
      rw [nameString_eq hm hm0, length_append, length_take]
      omega
    rw [heq] at hlong
    omega

/-! ### Lookup -/

/-- The bytes of a place with a given name. -/
lemma bytes_of_sameName {s : Bytes} {name : List UInt8} (h : sameName s a name = true) :
    (∀ j < name.length, s (a + j) = name.getD j 0) ∧ s (a + name.length) = 0 := by
  induction name generalizing a with
  | nil => exact ⟨nofun, by simpa [sameName] using h⟩
  | cons c cs ih =>
    rw [sameName, Bool.and_eq_true] at h
    obtain ⟨hbytes, hend⟩ := ih h.2
    refine ⟨fun j hj => ?_, ?_⟩
    · cases j with
      | zero => simpa using h.1
      | succ j =>
        have hj' : j < cs.length := by simpa using hj
        rw [show a + (j + 1) = a + 1 + j by omega, hbytes j hj']
        simp
    · rw [length_cons, show a + (cs.length + 1) = a + 1 + cs.length by omega]
      exact hend

/-- A string that does not end within a sector stands in none. -/
lemma searchDirEntry_of_long (hlen : 512 < s.length) (h0 : 0 ∉ s) (v : Vol p)
    (ino : Inode) : searchDirEntry true v ino s = none := by
  cases hr : searchDirEntry true v ino s with
  | none => rfl
  | some r =>
    obtain ⟨j, idx, -, hidx, hname, -⟩ := searchBlocks_eq_some hr
    have hj : 512 - 24 * idx < s.length := by omega
    have hbyte := (bytes_of_sameName hname).1 _ hj
    rw [List.getD_eq_getElem _ _ hj, ideRead_eq, Bytes.copy_outside _ _ (by omega)] at hbyte
    refine absurd (getElem_mem hj) ?_
    rw [← hbyte]
    exact h0

lemma name_of_searchDirEntry
    (h : searchDirEntry true v ino s = some e) (he : ∀ k < 24, e k = pDe k) (hs : 0 ∉ s) (hn : 0 ∉ n)
    (hlen : n.length < 24) (hname : sameName pDe 0 n = true) : s = n := by
  obtain ⟨j, idx, -, -, hfound, rfl⟩ := searchBlocks_eq_some h
  refine sameName_inj hs hn hfound ?_
  rw [← hname]
  refine sameName_congr fun r hr => ?_
  rw [Nat.zero_add, ← he r (by omega), Bytes.copy_inside _ _ (by omega), Nat.sub_zero]

/-! ### Insertion into any directory -/

/-- The entry `pDe` was put into slot `idx` of block `k`. Every other slot is as before or, in a new
block, zero. -/
structure Inserted (v : Vol p) (ino : Inode) (pDe : Bytes) (v' : Vol p) (ino' : Inode) (k idx : Nat) :
    Prop where
  block : loadBlocks v'.disk ino' k ≠ 0
  lt : idx < 21
  slot : ∀ r < 24, v'.disk (entryAddr (loadBlocks v'.disk ino' k) idx + r) = pDe r
  others : ∀ j i, loadBlocks v'.disk ino' j ≠ 0 → i < 21 → ¬ (j = k ∧ i = idx) →
    (∀ r < 24, v'.disk (entryAddr (loadBlocks v'.disk ino' j) i + r) = 0) ∨
      loadBlocks v.disk ino j ≠ 0 ∧ SameSlot v.disk ino v'.disk ino' j i

namespace Inserted

lemma of_rewritten (hw : Rewritten v ino v' ino' m new)
    (hk : m k ≠ 0) (hidx : idx < 21) (hslot : new k idx = some pDe)
    (hzero : ∀ j i b, new j i = some b → ¬ (j = k ∧ i = idx) → b = Bytes.zero) :
    Inserted v ino pDe v' ino' k idx := by
  refine ⟨by rwa [hw.blocks], hidx, fun r hr => ?_, fun j i hj hi hji => ?_⟩
  · rw [hw.blocks]
    exact hw.written k idx pDe hslot hk hidx r hr
  · rw [hw.blocks] at hj ⊢
    cases hn : new j i with
    | none => exact .inr ⟨(hw.kept j i hn hj hi).1 ▸ hj, hw.sameSlot hn hj hi⟩
    | some b =>
      obtain rfl := hzero j i b hn hji
      exact .inl (hw.written j i _ hn hj hi)

lemma of_newRow (hlba : lba ≠ 0)
    (hw : Rewritten v ino v' ino' (setEntry m k lba) (newRow k pDe)) : Inserted v ino pDe v' ino' k 0 := by
  refine of_rewritten hw (by rwa [setEntry_self]) (by omega) (newRow_eq_some.mpr ⟨rfl, rfl⟩)
    fun j i b hn hji => ?_
  obtain ⟨rfl, rfl⟩ := newRow_eq_some.mp hn
  exact if_neg fun hi => hji ⟨rfl, hi⟩

/-- Before the insertion no slot had the name, so afterwards the new slot alone has it. -/
lemma namedAt_iff (h : Inserted v ino pDe v' ino' k idx) (hne : n ≠ []) (h0 : 0 ∉ n)
    (hlen : n.length < 24) (hname : sameName pDe 0 n = true)
    (hnone : searchDirEntry true v ino n = none) (hj : loadBlocks v'.disk ino' j ≠ 0)
    (hi : i < 21) : ino'.NamedAt v'.disk j i n ↔ j = k ∧ i = idx := by
  constructor
  · intro hn
    by_contra hslot
    rcases h.others j i hj hi hslot with hzero | ⟨hj', hsame⟩
    · rw [Inode.NamedAt, (blankAt_of_zero hzero).sameName_eq_false hne h0] at hn
      cases hn
    · rw [hsame.namedAt_iff hlen] at hn
      have hlt := lt_of_loadBlocks hj'
      have hfalse := searchBlocks_eq_none (by simpa [searchDirEntry] using hnone) j (by omega) (by omega)
        hj' i hi
      rw [sameName_ideRead _ _ _ hi hlen, hn] at hfalse
      cases hfalse
  · rintro ⟨rfl, rfl⟩
    rw [Inode.NamedAt, ← hname]
    refine sameName_congr fun r hr => ?_
    rw [h.slot r (by omega), Nat.zero_add]

/-- A lookup of the name finds the entry. -/
lemma search_self (h : Inserted v ino pDe v' ino' k idx) (hne : n ≠ []) (h0 : 0 ∉ n)
    (hlen : n.length < 24) (hname : sameName pDe 0 n = true)
    (hnone : searchDirEntry true v ino n = none) :
    ∃ e, searchDirEntry true v' ino' n = some e ∧ ∀ r < 24, e r = pDe r := by
  have hiff := fun {j i : Nat} => h.namedAt_iff hne h0 hlen hname hnone (j := j) (i := i)
  cases hr : searchDirEntry true v' ino' n with
  | none =>
    have hlt := lt_of_loadBlocks h.block
    have hfalse := searchBlocks_eq_none (by simpa [searchDirEntry] using hr) k (by omega) (by omega)
      h.block idx h.lt
    rw [sameName_ideRead _ _ _ h.lt hlen, (hiff h.block h.lt).mpr ⟨rfl, rfl⟩] at hfalse
    cases hfalse
  | some e =>
    refine ⟨e, rfl, ?_⟩
    obtain ⟨j, i, hj, hi, hfound, rfl⟩ := searchBlocks_eq_some hr
    rw [sameName_ideRead _ _ _ hi hlen] at hfound
    obtain ⟨rfl, rfl⟩ := (hiff hj hi).mp hfound
    intro r hr
    rw [Bytes.copy_inside _ _ (by omega), Nat.sub_zero, ideRead_sector _ _ _ (by omega), ← h.slot r hr,
      entryAddr, Nat.add_assoc]

end Inserted

/-- A successful `sync_dir_entry` inserts the entry. -/
lemma inserted_syncDirEntry (h : BlocksOwned v (loadBlocks v.disk ino) (ino.iSectors 12))
    (hok : (syncDirEntry v ino pDe ioBuf).ok = true) :
    ∃ k idx, Inserted v ino pDe (syncDirEntry v ino pDe ioBuf).vol (syncDirEntry v ino pDe ioBuf).inode
      k idx := by
  obtain ⟨-, ⟨k, idx, -, hidx, hk0, -, -, hw⟩ | ⟨k, lba, -, -, hlba, -, hw⟩ | ⟨lba, -, hlba, hw⟩⟩ :=
    syncDirEntry_rewritten h hok
  · refine ⟨k, idx, .of_rewritten hw hk0 hidx (oneSlot_eq_some.mpr ⟨⟨rfl, rfl⟩, rfl⟩) fun j i b hn hji => ?_⟩
    exact absurd (oneSlot_eq_some.mp hn).1 hji
  · exact ⟨k, 0, .of_newRow hlba hw⟩
  · exact ⟨12, 0, .of_newRow hlba hw⟩

/-! ### Creating an entry -/

/-- The system calls that create an entry. -/
inductive Creator where
  | sysOpen
  | sysMkdir
deriving DecidableEq, Repr

/-- The type of the entry. -/
def Creator.fileType : Creator → FileType
  | .sysOpen => .regular
  | .sysMkdir => .directory

/-- The name that goes to the entry: `sys_open` takes it from the path it was given, `sys_mkdir` from
`searched_path`, which `search_file` has put together from its buffer. -/
def Creator.filename (parents n name : List UInt8) : Creator → Option (List UInt8)
  | .sysOpen => FsView.lastName (parents ++ slash :: n)
  | .sysMkdir => FsView.lastName (parents ++ slash :: name)

/-- The creation of an entry in directory `dir`, `parents` being the path to it. The volume is the one
the entry is put to; what the calls take between the lookup and that is not the directory's. -/
structure Creation (p : Partition) where
  creator : Creator
  vol : Vol p
  dir : Inode
  parents : List UInt8
  inodeNo : UInt32
  ioBuf : Bytes

/-- The outcome: the entry that was built, and how many bytes were copied to the buffer `name` and to
the field `filename`. -/
structure Created (p : Partition) where
  ok : Bool
  vol : Vol p
  dir : Inode
  newDirEntry : Bytes
  copied : List Nat

namespace Creation

variable (c : Creation p) (n : List UInt8)

/-- Creating an entry under `n`: `path_parse` and the lookup, which must not find anything, then
`create_dir_entry` and `sync_dir_entry`. -/
def run (behind : List UInt8) : Created p :=
  let name := nameString behind n
  match searchDirEntry true c.vol c.dir name, c.creator.filename c.parents n name with
  | none, some filename =>
    let newDirEntry := createDirEntry filename c.inodeNo c.creator.fileType Bytes.zero
    let r := syncDirEntry c.vol c.dir newDirEntry c.ioBuf
    ⟨r.ok, r.vol, r.inode, newDirEntry, [n.length, filename.length]⟩
  | _, _ => ⟨false, c.vol, c.dir, Bytes.zero, [n.length]⟩

/-- Name `n` is handled, whatever is on the stack now and at a later lookup: if the creation succeeds,
a lookup of `n` finds the entry and a lookup of another name does not; a name that is too long
is refused; and nothing is written behind the buffer or the field. -/
def NameHandled : Prop :=
  ∀ behind later,
    ((c.run n behind).ok = true →
      (∃ e, searchDirEntry true (c.run n behind).vol (c.run n behind).dir (nameString later n) = some e ∧
        ∀ k < 24, e k = (c.run n behind).newDirEntry k) ∧
      ∀ m, IsName m → 0 ∉ m → m ≠ n → ∀ e,
        searchDirEntry true (c.run n behind).vol (c.run n behind).dir (nameString later m) = some e →
          ∃ k < 24, e k ≠ (c.run n behind).newDirEntry k) ∧
    (maxFileNameLen < n.length → (c.run n behind).ok = false) ∧
    ∀ len ∈ (c.run n behind).copied, len ≤ maxFileNameLen

/-- The entry for `n`. -/
def newDirEntry : Bytes := createDirEntry n c.inodeNo c.creator.fileType Bytes.zero

/-- The directory has no room for the entry. -/
def NoRoom : Prop := (syncDirEntry c.vol c.dir (c.newDirEntry n) c.ioBuf).ok = false

variable {c : Creation p} {n : List UInt8}

lemma run_of_some (h : searchDirEntry true c.vol c.dir (nameString behind n) = some e) :
    c.run n behind = ⟨false, c.vol, c.dir, Bytes.zero, [n.length]⟩ := by
  simp only [run, h]

lemma run_of_none (h : searchDirEntry true c.vol c.dir (nameString behind n) = none)
    (hf : c.creator.filename c.parents n (nameString behind n) = some filename) :
    c.run n behind =
      ⟨(syncDirEntry c.vol c.dir (c.newDirEntry filename) c.ioBuf).ok,
        (syncDirEntry c.vol c.dir (c.newDirEntry filename) c.ioBuf).vol,
        (syncDirEntry c.vol c.dir (c.newDirEntry filename) c.ioBuf).inode,
        c.newDirEntry filename, [n.length, filename.length]⟩ := by
  simp only [run, h, hf, newDirEntry]

/-- `path_parse` has copied the whole name. -/
lemma length_mem_copied : n.length ∈ (c.run n behind).copied := by
  rw [run]
  split <;> simp

lemma sameName_newDirEntry (hne : n ≠ []) (h0 : 0 ∉ n) (hlen : n.length ≤ 15) :
    sameName (c.newDirEntry n) 0 n = true := by
  have hknown : c.creator.fileType ≠ .unknown := by
    cases c.creator <;> nofun
  have hvalid : Entry.Valid ⟨n, c.inodeNo, c.creator.fileType⟩ := ⟨hne, h0, hlen, hknown⟩
  exact (entryAt_createDirEntry hvalid).name

/-- Names of up to 15 bytes are handled. -/
lemma nameHandled_of_le (howned : BlocksOwned c.vol (loadBlocks c.vol.disk c.dir) (c.dir.iSectors 12))
    (hn : IsName n) (h0 : 0 ∉ n) (hlen : n.length ≤ 15) : c.NameHandled n := by
  obtain ⟨hne, hslash⟩ := hn
  have hbuf : ∀ behind, nameString behind n = n := nameString_of_le hslash h0 hlen
  intro behind later
  have hshort : ¬ maxFileNameLen < n.length := by
    rw [maxFileNameLen]
    omega
  cases hs : searchDirEntry true c.vol c.dir (nameString behind n) with
  | some e =>
    rw [run_of_some hs]
    exact ⟨nofun, fun hlong => absurd hlong hshort, by simpa using hshort⟩
  | none =>
    have hf : c.creator.filename c.parents n (nameString behind n) = some n := by
      rw [hbuf]
      cases c.creator <;> exact FsView.lastName_append hslash
    have hname := c.sameName_newDirEntry hne h0 hlen
    rw [run_of_none hs hf]
    rw [hbuf] at hs ⊢
    refine ⟨fun hok => ⟨?_, fun m hm hm0 hmn e he => ?_⟩, fun hlong => absurd hlong hshort,
      by simpa using hshort⟩
    · obtain ⟨k, idx, hins⟩ := inserted_syncDirEntry howned hok
      exact hins.search_self hne h0 (by omega) hname hs
    · by_contra hsame
      push Not at hsame
      have := name_of_searchDirEntry he hsame (zero_notMem_nameString later m) h0 (by omega) hname
      exact hmn (eq_of_nameString_eq hm.2 hm0 hlen this)

/-- Bytes behind the buffer that take a name of 16 bytes past the end of any sector. -/
def longTail : List UInt8 := List.replicate 512 1

/-- With them, the string in the buffer is in no directory. -/
lemma search_longTail (hslash : slash ∉ n) (h0 : 0 ∉ n) (hlen : n.length = 16) (v : Vol p) (ino : Inode) :
    slash ∉ nameString longTail n ∧ (nameString longTail n).length = 528 ∧
      searchDirEntry true v ino (nameString longTail n) = none := by
  have htail : longTail.takeWhile (· ≠ 0) = longTail := by
    rw [List.takeWhile_eq_self_iff]
    intro x hx
    rw [longTail, mem_replicate] at hx
    simp [hx.2]
  have heq : nameString longTail n = n ++ longTail := by
    rw [nameString_of_eq hslash h0 hlen, htail]
  have hlong : (n ++ longTail).length = 528 := by
    rw [length_append, hlen, longTail, length_replicate]
  have hzero := zero_notMem_nameString longTail n
  rw [heq] at hzero ⊢
  refine ⟨?_, hlong, searchDirEntry_of_long (by omega) hzero v ino⟩
  rw [mem_append, not_or, longTail, mem_replicate]
  exact ⟨hslash, fun h => absurd h.2 (by decide)⟩

/-- A directory made under a name of 16 bytes writes behind the field; a file created under one is not
found, unless nothing was created. -/
lemma NameHandled.of_eq (h : c.NameHandled n) (hslash : slash ∉ n) (h0 : 0 ∉ n) (hlen : n.length = 16) :
    c.creator = .sysOpen ∧ c.NoRoom n := by
  obtain ⟨hname, hlong, hnone⟩ := search_longTail hslash h0 hlen c.vol c.dir
  obtain ⟨hfound, -, hfits⟩ := h longTail longTail
  cases hc : c.creator with
  | sysMkdir =>
    have hf : c.creator.filename c.parents n (nameString longTail n) = some (nameString longTail n) := by
      rw [hc]
      exact FsView.lastName_append hname
    rw [run_of_none hnone hf] at hfits
    have := hfits _ (mem_cons_of_mem _ (mem_singleton.mpr rfl))
    rw [maxFileNameLen] at this
    omega
  | sysOpen =>
    refine ⟨rfl, ?_⟩
    have hf : c.creator.filename c.parents n (nameString longTail n) = some n := by
      rw [hc]
      exact FsView.lastName_append hslash
    rw [run_of_none hnone hf] at hfound
    rw [NoRoom, ← Bool.not_eq_true]
    intro hok
    obtain ⟨⟨e, he, -⟩, -⟩ := hfound hok
    rw [(search_longTail hslash h0 hlen _ _).2.2] at he
    cases he

/-- A creation that fails for want of room is harmless when the name fits. -/
lemma nameHandled_of_noRoom (hslash : slash ∉ n) (hlen : n.length = 16) (hc : c.creator = .sysOpen)
    (hroom : c.NoRoom n) : c.NameHandled n := by
  intro behind later
  have hfail : (c.run n behind).ok = false ∧ ∀ len ∈ (c.run n behind).copied, len ≤ maxFileNameLen := by
    cases hs : searchDirEntry true c.vol c.dir (nameString behind n) with
    | some e =>
      rw [run_of_some hs]
      exact ⟨rfl, by simp [hlen, maxFileNameLen]⟩
    | none =>
      have hf : c.creator.filename c.parents n (nameString behind n) = some n := by
        rw [hc]
        exact FsView.lastName_append hslash
      rw [run_of_none hs hf]
      exact ⟨hroom, by simp [hlen, maxFileNameLen]⟩
  refine ⟨fun hok => ?_, fun _ => hfail.1, hfail.2⟩
  rw [hfail.1] at hok
  cases hok

end Creation

/-- The creation of a file with inode 1 in a directory without entries. -/
def createFirst : Creation Partition.smallest := ⟨.sysOpen, Vol.blank _, Inode.inodeInit 0, [], 1, Bytes.zero⟩

lemma blocksOwned_inodeInit (v : Vol p) (inodeNo : UInt32) :
    BlocksOwned v (loadBlocks v.disk (Inode.inodeInit inodeNo)) ((Inode.inodeInit inodeNo).iSectors 12) := by
  have hzero : ∀ k, loadBlocks v.disk (Inode.inodeInit inodeNo) k = 0 := by
    intro k
    exact ite_self 0
  exact ⟨fun k hk => absurd (hzero k) hk, fun j k hj => absurd (hzero j) hj, fun ht => absurd rfl ht,
    fun ht => absurd rfl ht⟩

end SimpleOs
