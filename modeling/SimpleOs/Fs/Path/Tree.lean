import SimpleOs.Fs.Dir.Table
import SimpleOs.Fs.Path.Calls

/-!
# Directory trees

When the directories of a partition are a tree, and what a name means in one of them. A tree gives the
slots of each directory, its parent, and a rank that grows from a directory to those in it.
-/

namespace SimpleOs

open Base Option

variable {p : Partition}

/-- A tree of directories. -/
structure DirTree where
  slots : UInt32 → Option SlotTable
  parent : UInt32 → UInt32
  rank : UInt32 → Nat

namespace DirTree

/-- `d` is the number of a directory. -/
def IsDir (t : DirTree) (d : UInt32) : Prop := t.slots d ≠ none

/-- Entry `e` stands in slot `idx` of block `k` of directory `d`. -/
def At (t : DirTree) (d : UInt32) (k idx : Nat) (e : Entry) : Prop :=
  ∃ σ, t.slots d = some σ ∧ σ k idx = some e

end DirTree

/-- What is right with an entry of directory `d` that is not "." or "..". -/
structure Entry.InTree (e : Entry) (t : DirTree) (d : UInt32) : Prop where
  slash : slash ∉ e.name
  iNo_ne : e.iNo ≠ 0
  iNo_lt : e.iNo.toNat < 4096
  isDir : e.fType = .directory ↔ t.IsDir e.iNo
  parent : e.fType = .directory → t.parent e.iNo = d
  rank : e.fType = .directory → t.rank d < t.rank e.iNo

/-- The directories of a partition are the tree `t`: each is on disk, has "." and ".." at its start,
and its other entries are its children. -/
structure Vol.IsTree (v : Vol p) (t : DirTree) : Prop where
  root : t.IsDir 0
  parent_root : t.parent 0 = 0
  parent : ∀ d, t.IsDir d → t.IsDir (t.parent d)
  lt : ∀ d, t.IsDir d → d.toNat < 4096
  iNo : ∀ d, t.IsDir d → (v.inodeLoad d.toNat).iNo = d
  rep : ∀ d σ, t.slots d = some σ → DirRep v (v.inodeLoad d.toNat) σ
  dot : ∀ d σ, t.slots d = some σ → σ 0 0 = some ⟨dotName, d, .directory⟩
  dotDot : ∀ d σ, t.slots d = some σ → σ 0 1 = some ⟨dotDotName, t.parent d, .directory⟩
  ordinary : ∀ d k idx e, t.At d k idx e → (k = 0 ∧ (idx = 0 ∨ idx = 1)) ∨ e.Ordinary
  entry : ∀ d k idx e, t.At d k idx e → e.Ordinary → e.InTree t d
  name_inj : ∀ d k idx e k' idx' e', t.At d k idx e → t.At d k' idx' e' → e.name = e'.name →
    k = k' ∧ idx = idx'
  entry_inj : ∀ d k idx e d' k' idx' e', t.At d k idx e → t.At d' k' idx' e' → e.Ordinary → e'.Ordinary →
    e.iNo = e'.iNo → d = d' ∧ k = k' ∧ idx = idx'

/-- How many entries there are in a directory. -/
def SlotTable.count (σ : SlotTable) : Nat :=
  ((Finset.range 140 ×ˢ Finset.range 21).filter fun x => (σ x.1 x.2).isSome).card

/-- The inodes that are in use are those of the tree: each but the root has its entry, and the blocks it
has are in use and its own. -/
structure Vol.Consistent (v : Vol p) (t : DirTree) : Prop extends v.IsTree t where
  size : ∀ d σ, t.slots d = some σ → (v.inodeLoad d.toNat).iSize.toNat = 24 * σ.count
  root_used : v.inodeUsed 0 = true
  used : ∀ d k idx e, t.At d k idx e → e.Ordinary → v.inodeUsed e.iNo.toNat = true
  named : ∀ n : UInt32, n.toNat < 4096 → v.inodeUsed n.toNat = true → n ≠ 0 →
    ∃ d k idx e, t.At d k idx e ∧ e.Ordinary ∧ e.iNo = n
  dir_named : ∀ d, t.IsDir d → d ≠ 0 → ∃ k idx e, t.At (t.parent d) k idx e ∧ e.Ordinary ∧ e.iNo = d
  inode_iNo : ∀ n < 4096, v.inodeUsed n = true → (v.inodeLoad n).iNo.toNat = n
  held : ∀ n < 4096, v.inodeUsed n = true → ∀ x, OwnsBlock v (v.inodeLoad n) x → v.Holds x
  disjoint : ∀ n < 4096, ∀ m < 4096, v.inodeUsed n = true → v.inodeUsed m = true → n ≠ m →
    ∀ x, OwnsBlock v (v.inodeLoad n) x → ¬ OwnsBlock v (v.inodeLoad m) x

/-- What a name stands for in directory `d`, and whether it is a directory. -/
def Vol.lookup (v : Vol p) (d : UInt32) (name : List UInt8) : Option (UInt32 × Bool) :=
  if name = [] ∨ 0 ∈ name then none
  else
    (searchDirEntry true v (v.inodeLoad d.toNat) name).map fun dirE =>
      (dirE.u32 16, dirE.u32 20 = FileType.directory.code)

/-- The directories of a partition as a hierarchy. -/
def Vol.hierarchy (v : Vol p) : Hierarchy UInt32 (List UInt8) where
  root := 0
  dot := dotName
  dotDot := dotDotName
  lookup := v.lookup

@[simp] lemma Vol.hierarchy_lookup (v : Vol p) (d : UInt32) (name : List UInt8) :
    v.hierarchy.lookup d name = v.lookup d name := rfl

/-- What is open is in memory as it is on disk, and counted; `n` more openings can be counted. -/
structure FsView.Coherent (n : Nat) (s : FsView p) : Prop where
  listed : ∀ a ∈ s.cache.openInodes, ∃ i, s.cache.inode a = some i ∧ 0 < i.iOpenCnts.toNat ∧
    i.iOpenCnts.toNat + n < 2 ^ 32 ∧ i.SamePersistent (s.vol.inodeLoad i.iNo.toNat)
  memory : ∀ a, s.cache.inode a ≠ none → a ∈ s.cache.openInodes
  nodup : s.cache.openInodes.Nodup
  root : ∃ i, s.cache.inode s.rootInode = some i ∧ i.iNo = 0
  files : ∀ g a, (s.fileTable g).fdInode = some (.inode a) → a ∈ s.cache.openInodes

/-! ### Names -/

lemma FileType.code_inj {f g : FileType} (h : f.code = g.code) : f = g := by
  cases f <;> cases g <;> first | rfl | exact absurd h (by decide)

namespace Vol.IsTree

variable {v : Vol p} {t : DirTree} {d c : UInt32} {name : List UInt8} {b : Bool}

variable (ht : v.IsTree t)
include ht

/-- What a name stands for in a directory. -/
lemma lookup_eq_some (hd : t.IsDir d) :
    v.lookup d name = some (c, b) ↔
      ∃ k idx e, t.At d k idx e ∧ e.name = name ∧ e.iNo = c ∧ b = decide (e.fType = .directory) := by
  obtain ⟨σ, hσ⟩ := Option.ne_none_iff_exists'.mp hd
  have hrep := ht.rep d σ hσ
  constructor
  · intro h
    rw [lookup] at h
    split_ifs at h with hname
    rw [not_or] at hname
    obtain ⟨r, hr, heq⟩ := map_eq_some_iff.mp h
    obtain ⟨k, idx, e, he, hen, hat⟩ := hrep.of_searchDirEntry_eq_some hname.1 hname.2 hr
    cases heq
    refine ⟨k, idx, e, ⟨σ, hσ, he⟩, hen, hat.iNo.symm, ?_⟩
    have htype : r.u32 20 = e.fType.code := hat.fType
    rw [htype, decide_eq_decide]
    exact ⟨FileType.code_inj, congrArg FileType.code⟩
  · rintro ⟨k, idx, e, ⟨σ', hσ', he⟩, rfl, rfl, rfl⟩
    obtain rfl := some.inj (hσ.symm.trans hσ')
    obtain ⟨-, -, hval⟩ := hrep.some_inv he
    rw [lookup, if_neg (not_or.mpr ⟨hval.nonempty, hval.no_nul⟩)]
    cases hr : searchDirEntry true v (v.inodeLoad d.toNat) e.name with
    | none => exact absurd rfl (hrep.of_searchDirEntry_eq_none hval.nonempty hval.no_nul hr he)
    | some r =>
      obtain ⟨k', idx', e', he', hen, hat⟩ :=
        hrep.of_searchDirEntry_eq_some hval.nonempty hval.no_nul hr
      -- there is one entry of that name
      obtain ⟨rfl, rfl⟩ := ht.name_inj d k idx e k' idx' e' ⟨σ, hσ, he⟩ ⟨σ, hσ, he'⟩ hen.symm
      obtain rfl := some.inj (he.symm.trans he')
      have hno : r.u32 16 = e.iNo := hat.iNo
      have htype : r.u32 20 = e.fType.code := hat.fType
      simp only [map_some, hno, htype, Option.some.injEq, Prod.mk.injEq, true_and, decide_eq_decide]
      exact ⟨FileType.code_inj, congrArg FileType.code⟩

lemma lookup_dot (hd : t.IsDir d) : v.lookup d dotName = some (d, true) := by
  obtain ⟨σ, hσ⟩ := Option.ne_none_iff_exists'.mp hd
  exact (ht.lookup_eq_some hd).mpr ⟨0, 0, _, ⟨σ, hσ, ht.dot d σ hσ⟩, rfl, rfl, rfl⟩

lemma lookup_dotDot (hd : t.IsDir d) : v.lookup d dotDotName = some (t.parent d, true) := by
  obtain ⟨σ, hσ⟩ := Option.ne_none_iff_exists'.mp hd
  exact (ht.lookup_eq_some hd).mpr ⟨0, 1, _, ⟨σ, hσ, ht.dotDot d σ hσ⟩, rfl, rfl, rfl⟩

lemma of_lookup (hd : t.IsDir d) (hdot : name ≠ dotName) (hdotDot : name ≠ dotDotName)
    (h : v.lookup d name = some (c, b)) :
    ∃ k idx e, t.At d k idx e ∧ e.name = name ∧ e.iNo = c ∧ b = decide (e.fType = .directory) ∧
      e.Ordinary ∧ e.InTree t d := by
  obtain ⟨k, idx, e, hat, rfl, hno, hb⟩ := (ht.lookup_eq_some hd).mp h
  exact ⟨k, idx, e, hat, rfl, hno, hb, ⟨hdot, hdotDot⟩, ht.entry d k idx e hat ⟨hdot, hdotDot⟩⟩

/-- The directories of a tree are a hierarchy in which "." and ".." mean what they should. -/
lemma lawful : v.hierarchy.Lawful t.IsDir t.parent where
  root := ht.root
  parent_root := ht.parent_root
  dot := fun _ hd => ht.lookup_dot hd
  dotDot := fun _ hd => ht.lookup_dotDot hd
  dir := by
    intro d name c hd h
    by_cases hdot : name = dotName
    · have hdd := ht.lookup_dot hd
      rw [← hdot] at hdd
      obtain ⟨rfl, -⟩ := Prod.mk.inj (some.inj (hdd.symm.trans h))
      exact hd
    by_cases hdotDot : name = dotDotName
    · have hdd := ht.lookup_dotDot hd
      rw [← hdotDot] at hdd
      obtain ⟨rfl, -⟩ := Prod.mk.inj (some.inj (hdd.symm.trans h))
      exact ht.parent d hd
    obtain ⟨k, idx, e, -, -, rfl, hb, -, hin⟩ := ht.of_lookup hd hdot hdotDot h
    exact hin.isDir.mp (of_decide_eq_true hb.symm)
  parent := by
    intro d name c hd hdot hdotDot h
    obtain ⟨k, idx, e, -, -, rfl, hb, -, hin⟩ := ht.of_lookup hd hdot hdotDot h
    exact hin.parent (of_decide_eq_true hb.symm)

lemma lookup_false (hd : t.IsDir d) (h : v.lookup d name = some (c, false)) :
    name ≠ dotName ∧ name ≠ dotDotName := by
  constructor
  · rintro rfl
    simp [ht.lookup_dot hd] at h
  · rintro rfl
    simp [ht.lookup_dotDot hd] at h

lemma lookup_lt (hd : t.IsDir d) (h : v.lookup d name = some (c, b)) : c.toNat < 4096 := by
  cases b with
  | true => exact ht.lt c (ht.lawful.dir d name c hd h)
  | false =>
    obtain ⟨hdot, hdotDot⟩ := ht.lookup_false hd h
    obtain ⟨k, idx, e, -, -, rfl, -, -, hin⟩ := ht.of_lookup hd hdot hdotDot h
    exact hin.iNo_lt

end Vol.IsTree

end SimpleOs
