import SimpleOs.Fs.Path.Image
import SimpleOs.Fs.Path.Search

/-!
# `wash_path` and `search_file`

`wash_path` keeps the path of a stack of names in a string, and gives the normal form. The shell takes the names "." and ".." out of a path without looking at the directories, `search_file`
looks both of them up on disk. In a tree they agree.
-/

namespace SimpleOs

open Base List

variable {p : Partition} {path : List UInt8} {names st : List (List UInt8)}

/-! ### Normal paths -/

/-- The stack of names that is left when the names of a path are scanned from left to right: "." is
skipped, ".." takes the last name off, and any other name is put on. -/
def washedNames (names : List (List UInt8)) : List (List UInt8) :=
  names.foldl (fun st name =>
    if name = dotDotName then st.tail else if name = dotName then st else name :: st) []

/-- A path in its normal form. -/
structure Washed (path : List UInt8) : Prop where
  absolute : path.head? = some slash
  no_empty : ¬ [slash, slash] <:+: path
  no_trailing : path.getLast? = some slash → path = [slash]
  plain : ∀ name ∈ components path, name ≠ dotName ∧ name ≠ dotDotName

/-- The names alone, without directories. -/
def nameHierarchy : Hierarchy Unit (List UInt8) := ⟨(), dotName, dotDotName, fun _ _ => none⟩

lemma components_absPath (h : ∀ name ∈ st, IsName name) : components (absPath st) = st.reverse := by
  cases st with
  | nil => rfl
  | cons name st =>
    exact components_joinNames fun m hm => h m (mem_reverse.mp hm)

lemma IsName.getLast?_ne (h : IsName name) :
    (slash :: name).getLast? ≠ some slash := by
  rw [List.getLast?_cons, List.getLast?_eq_some_getLast h.1]
  intro heq
  exact h.2 (Option.some.inj heq ▸ List.getLast_mem h.1)

/-- No two slashes in a row. -/
lemma isChain_joinNames (h : ∀ name ∈ names, IsName name) :
    (joinNames names).IsChain fun a b => a ≠ slash ∨ b ≠ slash := by
  induction names with
  | nil => exact .nil
  | cons name names ih =>
    obtain ⟨hname, hnames⟩ := forall_mem_cons.mp h
    have hin : (slash :: name).IsChain fun a b => a ≠ slash ∨ b ≠ slash := by
      refine isChain_cons.mpr ⟨fun b hb => .inr ?_, ?_⟩
      · rintro rfl
        exact hname.2 (mem_of_mem_head? hb)
      · refine (pairwise_of_forall_mem_list fun a ha _ _ => .inl ?_).isChain
        rintro rfl
        exact hname.2 ha
    refine isChain_append.mpr ⟨hin, ih hnames, fun a ha _ _ => .inl ?_⟩
    rintro rfl
    exact hname.getLast?_ne ha

/-- The path with some names is in normal form when they are neither "." nor "..". -/
lemma washed_absPath (h : ∀ name ∈ st, IsName name) (hplain : nameHierarchy.Plain st) :
    Washed (absPath st) := by
  have hcomp := components_absPath h
  cases st with
  | nil => exact ⟨rfl, by decide, fun _ => rfl, by decide⟩
  | cons name st =>
    have hjoin : absPath (name :: st) = joinNames (name :: st).reverse := if_neg (List.cons_ne_nil _ _)
    refine ⟨?_, fun htwo => ?_, fun hlast => ?_, fun m hm => ?_⟩
    · rw [absPath_cons]
      cases st.reverse <;> rfl
    · obtain ⟨as, bs, heq⟩ := htwo
      have hchain := isChain_joinNames fun m hm => h m (mem_reverse.mp hm)
      rw [← hjoin, ← heq] at hchain
      simp [isChain_append] at hchain
    · rw [absPath_cons, List.getLast?_append_of_ne_nil _ (List.cons_ne_nil _ _)] at hlast
      exact absurd hlast (h name mem_cons_self).getLast?_ne
    · rw [hcomp] at hm
      exact hplain m (mem_reverse.mp hm)

/-- `wash_path` gives the path of the stack of names, which is in normal form and which it leaves as
it is. -/
theorem washPath_normalises (hlen : ∀ name ∈ components path, name.length < maxFileNameLen) :
    washPath path = some (absPath (washedNames (components path))) ∧
      Washed (absPath (washedNames (components path))) ∧
      washPath (absPath (washedNames (components path))) =
        some (absPath (washedNames (components path))) := by
  obtain ⟨st, hst⟩ : ∃ st, nameHierarchy.normal (components path) = st := ⟨_, rfl⟩
  have hwash : washPath path = some (absPath st) := hst ▸ washPath_eq rfl rfl hlen
  have hplain : nameHierarchy.Plain st := hst ▸ nameHierarchy.plain_normal (components path)
  have hmem : ∀ name ∈ st, name ∈ components path := fun name hname =>
    (nameHierarchy.reverse_normal_sublist (components path)).subset (by simpa [hst] using hname)
  have hnames : ∀ name ∈ st, IsName name := fun name hname => isName_of_mem_components (hmem name hname)
  rw [show washedNames (components path) = st from hst]
  refine ⟨hwash, washed_absPath hnames hplain, ?_⟩
  have hcomp := components_absPath hnames
  have hlen' : ∀ name ∈ components (absPath st), name.length < maxFileNameLen := by
    rw [hcomp]
    exact fun name hname => hlen name (hmem name (mem_reverse.mp hname))
  rw [washPath_eq (h := nameHierarchy) rfl rfl hlen', hcomp, hplain.normal_reverse]

/-- The path "//a/.././b/" becomes "/b". -/
theorem washPath_normalises_sample :
    washPath [47, 47, 97, 47, 46, 46, 47, 46, 47, 98, 47] = some [47, 98] ∧ Washed [47, 98] ∧
      washPath [47, 98] = some [47, 98] :=
  @washPath_normalises [47, 47, 97, 47, 46, 46, 47, 46, 47, 98, 47] (by decide)

/-! ### The directories on the way -/

namespace FsView

variable {s : FsView p} {t : DirTree} {m : Nat} {n : UInt32} {b : Bool}

lemma components_of_isRootPath (h : IsRootPath path) :
    components path = [] ∨ components path = [dotName] ∨ components path = [dotDotName] := by
  rcases h with rfl | rfl | rfl
  · exact .inl rfl
  · exact .inr (.inl rfl)
  · exact .inr (.inr rfl)

lemma walk_of_isRootPath (ht : s.vol.IsTree t) (h : IsRootPath path) :
    s.vol.hierarchy.walk 0 (components path) = some (0, true) := by
  rw [Hierarchy.walk_eq_some_true]
  rcases components_of_isRootPath h with hc | hc | hc
  · rw [hc]
    rfl
  · rw [hc, ← List.nil_append [dotName]]
    refine Hierarchy.walkDirs_concat.mpr ⟨0, rfl, ?_⟩
    rw [Vol.hierarchy_lookup, ht.lookup_dot ht.root]
  · rw [hc, ← List.nil_append [dotDotName]]
    refine Hierarchy.walkDirs_concat.mpr ⟨0, rfl, ?_⟩
    rw [Vol.hierarchy_lookup, ht.lookup_dotDot ht.root, ht.parent_root]

/-- What the outcome of a search says about the walk. -/
lemma Outcome.walk
    (h : s.Outcome names r) (hne : names ≠ []) (hwalk : s.vol.hierarchy.walk 0 names = some (n, b)) :
    r.1 = .inode n ∧ r.2.1.fileType = if b then .directory else .regular := by
  cases h with
  | unnamed => exact absurd rfl hne
  | directory _ hq hn =>
    have hw := Hierarchy.walk_concat.mpr ⟨_, hq, hn⟩
    obtain ⟨rfl, rfl⟩ := Prod.mk.inj (Option.some.inj (hw.symm.trans hwalk))
    exact ⟨rfl, rfl⟩
  | regular _ hd hn =>
    rw [Hierarchy.walk_append_cons hd, Hierarchy.walk] at hwalk
    simp only [Vol.hierarchy_lookup, hn] at hwalk
    split_ifs at hwalk with hrest hfalse
    · cases hwalk
      exact ⟨rfl, rfl⟩
    · cases hfalse
  | missing _ hd hn =>
    rw [Hierarchy.walk_append_cons hd, Hierarchy.walk] at hwalk
    simp only [Vol.hierarchy_lookup, hn] at hwalk
    cases hwalk

/-- `search_file` finds what the names of the path lead to. -/
lemma searchFile_of_walk (hs : s.Coherent m) (ht : s.vol.IsTree t) (hpath : Readable path)
    (hne : components path ≠ [] ∨ IsRootPath path)
    (hwalk : s.vol.hierarchy.walk 0 (components path) = some (n, b)) :
    ∃ record s', s.searchFile path = some (.inode n, record, s') ∧
      record.fileType = if b then .directory else .regular := by
  by_cases hroot : IsRootPath path
  · obtain ⟨rfl, rfl⟩ :=
      Prod.mk.inj (Option.some.inj ((walk_of_isRootPath ht hroot).symm.trans hwalk))
    exact ⟨⟨[], .rootDir, .directory⟩, s, if_pos hroot, rfl⟩
  · obtain ⟨⟨no, record, s'⟩, hr, hout⟩ := searchFile_spec hs ht hpath hroot
    obtain ⟨rfl, htype⟩ := hout.walk (hne.resolve_right hroot) hwalk
    exact ⟨record, s', hr, htype⟩

/-- What `wash_path` makes of a path has the names of the normal form, and fits into the buffers. -/
lemma readable_absPath (hpath : Readable path) (h : Hierarchy UInt32 (List UInt8)) :
    Readable (absPath (h.normal (components path))) ∧
      components (absPath (h.normal (components path))) = (h.normal (components path)).reverse := by
  have hsub := h.reverse_normal_sublist (components path)
  obtain ⟨st, hst⟩ : ∃ st, st = h.normal (components path) := ⟨_, rfl⟩
  rw [← hst] at hsub ⊢
  have hmem : ∀ name ∈ st.reverse, name ∈ components path := fun name hname => hsub.subset hname
  have hcomp : components (absPath st) = st.reverse :=
    components_absPath fun m hm => isName_of_mem_components (hmem m (mem_reverse.mpr hm))
  cases st with
  | nil => exact ⟨⟨rfl, by decide, by decide, by simp [absPath]⟩, rfl⟩
  | cons name st =>
    refine ⟨⟨?_, ?_, ?_, ?_⟩, hcomp⟩
    · rw [absPath_cons]
      cases st.reverse <;> rfl
    · intro hnul
      obtain ⟨m, hm, hin⟩ := mem_flatMap.mp hnul
      rcases mem_cons.mp hin with h0 | h0
      · exact absurd h0 (by decide)
      · exact notMem_of_mem_components hpath.no_nul (by decide) (hmem m hm) h0
    · exact ((length_joinNames_mono hsub).trans (length_joinNames_le hpath.absolute)).trans_lt
        hpath.length_lt
    · rw [hcomp]
      exact fun m hm => hpath.name_lt m (hmem m hm)

end FsView

end SimpleOs
