import SimpleOs.Fs.Inode

/-!
# Inodes in memory

`inode_open` and `inode_close` of `fs/inode.c`. The inodes that are open are in the list
`open_inodes`, each with the number of times it is open; the last close takes it off the list and
frees it.
-/

namespace SimpleOs

open Function Option

/-- The inodes in the memory of a task, by their address, and the list `open_inodes`. -/
structure InodeCache (P : Type) where
  inode : P → Option Inode
  openInodes : List P

namespace InodeCache

variable {P : Type} {c c' : InodeCache P} {a : P} {inodeNo : UInt32}

/-- The search of `inode_open`. It fails at an address that has no inode. -/
def find (c : InodeCache P) (inodeNo : UInt32) : List P → Option (Option P)
  | [] => some none
  | a :: as =>
    match c.inode a with
    | none => none
    | some i => if i.iNo = inodeNo then some (some a) else c.find inodeNo as

lemma find_eq_some (h : c.find inodeNo l = some (some a)) :
    a ∈ l ∧ ∃ i, c.inode a = some i ∧ i.iNo = inodeNo := by
  induction l with
  | nil => cases h
  | cons b l ih =>
    rw [find] at h
    cases hb : c.inode b with
    | none => simp [hb] at h
    | some i =>
      simp only [hb] at h
      split_ifs at h with hno
      · obtain rfl := some.inj (some.inj h)
        exact ⟨List.mem_cons_self, i, hb, hno⟩
      · obtain ⟨hmem, hrest⟩ := ih h
        exact ⟨List.mem_cons_of_mem _ hmem, hrest⟩

lemma find_eq_none (h : c.find inodeNo l = some none) :
    ∀ b ∈ l, ∃ i, c.inode b = some i ∧ i.iNo ≠ inodeNo := by
  induction l with
  | nil =>
    intro b hb
    cases hb
  | cons b l ih =>
    rw [find] at h
    cases hb : c.inode b with
    | none => simp [hb] at h
    | some i =>
      simp only [hb] at h
      split_ifs at h with hno
      · cases h
      · rw [List.forall_mem_cons]
        exact ⟨⟨i, hb, hno⟩, ih h⟩

variable [DecidableEq P]

/-- Change the inode at an address. -/
def set (c : InodeCache P) (a : P) (i : Option Inode) : InodeCache P :=
  { c with inode := update c.inode a i }

@[simp] lemma inode_set_self (c : InodeCache P) (a : P) (i : Option Inode) : (c.set a i).inode a = i :=
  update_self ..

lemma inode_set_of_ne (c : InodeCache P) (h : b ≠ a) (i : Option Inode) :
    (c.set a i).inode b = c.inode b := update_of_ne h ..

@[simp] lemma openInodes_set (c : InodeCache P) (a : P) (i : Option Inode) :
    (c.set a i).openInodes = c.openInodes := rfl

/-- `inode_open`, with the memory that `sys_malloc` gives for a new inode and what it reads from
disk. -/
def inodeOpen (c : InodeCache P) (inodeNo : UInt32) (new : P) (disk : Inode) :
    Option (P × InodeCache P) :=
  match c.find inodeNo c.openInodes with
  | none => none
  | some (some a) =>
    (c.inode a).map fun i => (a, c.set a (some { i with iOpenCnts := i.iOpenCnts + 1 }))
  | some none =>
    if c.inode new = none then
      some (new, { c.set new (some { disk with iOpenCnts := 1 }) with openInodes := new :: c.openInodes })
    else none

/-- `inode_close`. -/
def inodeClose (c : InodeCache P) (a : P) : Option (InodeCache P) :=
  (c.inode a).map fun i =>
    if i.iOpenCnts - 1 = 0 then { c.set a none with openInodes := c.openInodes.erase a }
    else c.set a (some { i with iOpenCnts := i.iOpenCnts - 1 })

/-- `inode_open` finds an inode that is open, or reads one in. -/
lemma inodeOpen_eq_some (h : c.inodeOpen inodeNo new disk = some (a, c')) :
    (∃ i, a ∈ c.openInodes ∧ c.inode a = some i ∧ i.iNo = inodeNo ∧
      c' = c.set a (some { i with iOpenCnts := i.iOpenCnts + 1 })) ∨
    (a = new ∧ c.inode new = none ∧
      (∀ b ∈ c.openInodes, ∃ i, c.inode b = some i ∧ i.iNo ≠ inodeNo) ∧
      c' = { c.set new (some { disk with iOpenCnts := 1 }) with openInodes := new :: c.openInodes }) := by
  rw [inodeOpen] at h
  split at h
  · cases h
  · rename_i b hfind
    obtain ⟨hmem, i, hi, hno⟩ := find_eq_some hfind
    obtain ⟨j, hj, heq⟩ := map_eq_some_iff.mp h
    cases heq
    obtain rfl := some.inj (hi.symm.trans hj)
    exact .inl ⟨i, hmem, hi, hno, rfl⟩
  · rename_i hfind
    obtain ⟨hnew, heq⟩ := ite_none_right_eq_some.mp h
    cases heq
    exact .inr ⟨rfl, hnew, find_eq_none hfind, rfl⟩

/-- `inode_close` lowers the count, and the last one removes the inode. -/
lemma inodeClose_eq_some (h : c.inodeClose a = some c') :
    ∃ i, c.inode a = some i ∧
      c'.inode = update c.inode a
        (if i.iOpenCnts - 1 = 0 then none else some { i with iOpenCnts := i.iOpenCnts - 1 }) ∧
      c'.openInodes = if i.iOpenCnts - 1 = 0 then c.openInodes.erase a else c.openInodes := by
  obtain ⟨i, hi, rfl⟩ := map_eq_some_iff.mp h
  refine ⟨i, hi, ?_, ?_⟩
  · split_ifs <;> rfl
  · split_ifs <;> rfl

end InodeCache

end SimpleOs
