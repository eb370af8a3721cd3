import SimpleOs.Fs.Dir.Basic

/-!
# Directory entries and the loops over them

An entry on disk and what the three loops of `fs/dir.c` find: the lookup finds the first slot with
a name, the insertion the first free slot or missing block, the deletion the first block with the
inode number.
-/

namespace SimpleOs

open Base Bytes

/-- A directory entry: the name, the inode number and the type. -/
structure Entry where
  name : List UInt8
  iNo : UInt32
  fType : FileType
deriving DecidableEq, Repr

/-- A name that can stand in an entry and be told from an empty slot. -/
structure Entry.Valid (e : Entry) : Prop where
  nonempty : e.name ≠ []
  no_nul : 0 ∉ e.name
  length_le : e.name.length ≤ 15
  known : e.fType ≠ .unknown

/-- Not one of the two entries every directory has. -/
def Entry.Ordinary (e : Entry) : Prop := e.name ≠ dotName ∧ e.name ≠ dotDotName

instance (e : Entry) : Decidable e.Ordinary := inferInstanceAs (Decidable (_ ∧ _))

/-- Entry `e` stands at address `a`. -/
structure EntryAt (s : Bytes) (a : Nat) (e : Entry) : Prop where
  name : sameName s a e.name = true
  iNo : s.u32 (a + 16) = e.iNo
  fType : s.u32 (a + 20) = e.fType.code

/-- The slot at address `a` is empty: no name and no type. -/
structure BlankAt (s : Bytes) (a : Nat) : Prop where
  name : s a = 0
  fType : s.u32 (a + 20) = 0

/-- The address of slot `idx` of block `b`. -/
def entryAddr (b : UInt32) (idx : Nat) : Nat := 512 * b.toNat + 24 * idx

/-! ### Names -/

lemma sameName_congr
    (h : ∀ j ≤ name.length, s (a + j) = t (b + j)) : sameName s a name = sameName t b name := by
  induction name generalizing a b with
  | nil =>
    have := h 0 (Nat.zero_le _)
    simp only [Nat.add_zero] at this
    simp only [sameName, this]
  | cons c cs ih =>
    have h0 := h 0 (Nat.zero_le _)
    simp only [Nat.add_zero] at h0
    simp only [sameName, h0]
    rw [ih]
    intro j hj
    have := h (j + 1) (by simp only [List.length_cons]; omega)
    rwa [show a + (j + 1) = a + 1 + j by omega, show b + (j + 1) = b + 1 + j by omega] at this

variable {s : Bytes}

variable {a : Nat}

/-- At one place there is one name. -/
lemma sameName_inj (hn : 0 ∉ name)
    (hn' : 0 ∉ name') (h : sameName s a name = true) (h' : sameName s a name' = true) :
    name = name' := by
  induction name generalizing a name' with
  | nil =>
    cases name' with
    | nil => rfl
    | cons c cs =>
      simp only [sameName, decide_eq_true_eq, Bool.and_eq_true] at h h'
      rw [h] at h'
      exact absurd (List.mem_cons.mpr (.inl h'.1)) hn'
  | cons d ds ih =>
    cases name' with
    | nil =>
      simp only [sameName, decide_eq_true_eq, Bool.and_eq_true] at h h'
      rw [h'] at h
      exact absurd (List.mem_cons.mpr (.inl h.1)) hn
    | cons c cs =>
      simp only [sameName, decide_eq_true_eq, Bool.and_eq_true] at h h'
      obtain ⟨h1, h2⟩ := h
      obtain ⟨h1', h2'⟩ := h'
      rw [h1.symm.trans h1', ih (fun hm => hn (List.mem_cons_of_mem _ hm))
        (fun hm => hn' (List.mem_cons_of_mem _ hm)) h2 h2']

lemma BlankAt.sameName_eq_false (h : BlankAt s a) {name : List UInt8}
    (hne : name ≠ []) (hn : 0 ∉ name) : sameName s a name = false := by
  cases name with
  | nil => exact absurd rfl hne
  | cons c cs =>
    simp only [sameName, h.name, Bool.and_eq_false_iff, decide_eq_false_iff_not]
    left
    rintro rfl
    simp at hn

lemma EntryAt.sameName_iff (h : EntryAt s a e) (hv : e.Valid)
    {name : List UInt8} (hn : 0 ∉ name) : sameName s a name = true ↔ name = e.name := by
  constructor
  · intro hs
    exact sameName_inj hn hv.no_nul hs h.name
  · rintro rfl
    exact h.name

lemma EntryAt.congr (h : EntryAt s a e) (hv : e.Valid)
    (heq : ∀ r < 24, t (b + r) = s (a + r)) : EntryAt t b e := by
  have hlen := hv.length_le
  have hw : ∀ w, w + 4 ≤ 24 → t.u32 (b + w) = s.u32 (a + w) := by
    intro w hw
    apply u32_congr
    intro r hr
    rw [Nat.add_assoc, Nat.add_assoc]
    exact heq (w + r) (by omega)
  refine ⟨?_, by rw [hw 16 (by omega), h.iNo], by rw [hw 20 (by omega), h.fType]⟩
  rw [← h.name]
  exact sameName_congr fun j hj => heq j (by omega)

lemma BlankAt.congr (h : BlankAt s a) (heq : ∀ r < 24, t (b + r) = s (a + r)) : BlankAt t b := by
  refine ⟨?_, ?_⟩
  · have := heq 0 (by omega)
    simp only [Nat.add_zero] at this
    rw [this, h.name]
  · rw [← h.fType]
    apply u32_congr
    intro r hr
    rw [Nat.add_assoc, Nat.add_assoc]
    exact heq (20 + r) (by omega)

lemma blankAt_of_zero (h : ∀ r < 24, s (a + r) = 0) : BlankAt s a := by
  have hz : BlankAt Bytes.zero 0 := ⟨rfl, by simp [u32, Bytes.zero]⟩
  exact hz.congr fun r hr => h r hr

lemma FileType.code_ne_zero {t : FileType} (h : t ≠ .unknown) : t.code ≠ 0 := by
  cases t
  · exact absurd rfl h
  · decide
  · decide

lemma EntryAt.fType_ne_zero (h : EntryAt s a e) (hv : e.Valid) : s.u32 (a + 20) ≠ 0 := by
  rw [h.fType]
  exact FileType.code_ne_zero hv.known

/-- The bytes of a name followed by a zero are that name. -/
lemma sameName_of_bytes
    (h : ∀ j < name.length, s (a + j) = name.getD j 0) (h0 : s (a + name.length) = 0) :
    sameName s a name = true := by
  induction name generalizing a with
  | nil => simpa [sameName] using h0
  | cons c cs ih =>
    simp only [sameName, Bool.and_eq_true, decide_eq_true_eq]
    refine ⟨by simpa using h 0 (by simp), ih ?_ ?_⟩
    · intro j hj
      have := h (j + 1) (by simpa using hj)
      rw [show a + (j + 1) = a + 1 + j by omega] at this
      simpa using this
    · rw [← h0]
      congr 1
      simp only [List.length_cons]
      omega

/-- What `create_dir_entry` builds in a zeroed structure. -/
lemma entryAt_createDirEntry (hv : e.Valid) :
    EntryAt (createDirEntry e.name e.iNo e.fType Bytes.zero) 0 e := by
  have hlen := hv.length_le
  refine ⟨?_, ?_, ?_⟩
  · have hbyte : ∀ k < 16, createDirEntry e.name e.iNo e.fType Bytes.zero k =
        (Bytes.zero.copy 0 (Bytes.ofList e.name) 0 e.name.length) k := by
      intro k hk
      rw [createDirEntry, setU32_outside _ (by omega), setU32_outside _ (by omega)]
    apply sameName_of_bytes
    · intro j hj
      rw [Nat.zero_add, hbyte j (by omega), copy_inside _ _ (by omega)]
      simp [Bytes.ofList]
    · rw [hbyte _ (by omega), copy_outside _ _ (by omega)]
      rfl
  · rw [createDirEntry, u32_setU32_of_ne _ _ (by omega), u32_setU32_self]
  · rw [createDirEntry, u32_setU32_self]

end SimpleOs
