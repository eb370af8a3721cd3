import SimpleOs.Fs.Path.RemoveEntry

/-!
# `sys_rmdir`

`sys_rmdir` looks the directory up, checks its size and removes it from the directory in which its last
name was found. The tree stays consistent when that directory is its parent and the entry can be taken
out of it.
-/

namespace SimpleOs

open Base Option Finset

variable {p : Partition}

variable {s'' s4 : FsView p} {i parent : Inode} {okIoBuf : Bool}

/-- A directory with two entries has those in its first two slots. -/
lemma SlotTable.count_eq_two_iff {σ : SlotTable} (h0 : σ 0 0 ≠ none) (h1 : σ 0 1 ≠ none)
    (hlt : ∀ k idx, σ k idx ≠ none → k < 140 ∧ idx < 21) :
    σ.count = 2 ↔ ∀ k idx, σ k idx ≠ none → k = 0 ∧ (idx = 0 ∨ idx = 1) := by
  obtain ⟨S, hS, hmem⟩ : ∃ S : Finset (ℕ × ℕ), σ.count = S.card ∧ ∀ k idx, (k, idx) ∈ S ↔ σ k idx ≠ none := by
    refine ⟨_, rfl, fun k idx => ?_⟩
    rw [mem_filter, mem_product, mem_range, mem_range, Option.isSome_iff_ne_none]
    exact ⟨fun hx => hx.2, fun hx => ⟨hlt k idx hx, hx⟩⟩
  have hdots : ({(0, 0), (0, 1)} : Finset (ℕ × ℕ)) ⊆ S := by
    intro x hx
    rw [mem_insert, mem_singleton] at hx
    rcases hx with rfl | rfl
    · exact (hmem 0 0).mpr h0
    · exact (hmem 0 1).mpr h1
  rw [hS]
  constructor
  · intro hcard k idx hs
    have hx := (hmem k idx).mpr hs
    rw [← Finset.eq_of_subset_of_card_le hdots (le_of_eq hcard), mem_insert, mem_singleton,
      Prod.mk.injEq, Prod.mk.injEq] at hx
    rcases hx with ⟨rfl, rfl⟩ | ⟨rfl, rfl⟩
    · exact ⟨rfl, .inl rfl⟩
    · exact ⟨rfl, .inr rfl⟩
  · intro hall
    have hsub : S ⊆ ({(0, 0), (0, 1)} : Finset (ℕ × ℕ)) := by
      rintro ⟨k, idx⟩ hx
      obtain ⟨rfl, rfl | rfl⟩ := hall k idx ((hmem k idx).mp hx)
      · exact mem_insert_self ..
      · exact mem_insert_of_mem (mem_singleton_self _)
    rw [Finset.Subset.antisymm hsub hdots]
    rfl

namespace Vol.Consistent

variable {v v' : Vol p} {t : DirTree} {n n' q : UInt32} {σ : SlotTable} {ino : Inode}

/-- `dir_is_empty`: the size of a directory is that of "." and "..". -/
lemma iSize_eq_iff (h : v.Consistent t) (hn : t.IsDir n) :
    (v.inodeLoad n.toNat).iSize = 48 ↔ t.IsLeaf n := by
  obtain ⟨σ, hσ⟩ := Option.ne_none_iff_exists'.mp hn
  have hcount : (v.inodeLoad n.toNat).iSize = 48 ↔ σ.count = 2 := by
    rw [← UInt32.toNat_inj, h.size n σ hσ]
    simp only [UInt32.reduceToNat]
    omega
  rw [hcount, SlotTable.count_eq_two_iff]
  · constructor
    · intro hall k idx e ⟨σ', hσ', he⟩ ho
      obtain rfl := some.inj (hσ.symm.trans hσ')
      obtain ⟨rfl, rfl | rfl⟩ := hall k idx (by simp [he])
      · obtain rfl := some.inj ((h.dot n σ hσ).symm.trans he)
        exact ho.1 rfl
      · obtain rfl := some.inj ((h.dotDot n σ hσ).symm.trans he)
        exact ho.2 rfl
    · intro hleaf k idx hs
      obtain ⟨e, he⟩ := Option.ne_none_iff_exists'.mp hs
      have hat : t.At n k idx e := ⟨σ, hσ, he⟩
      exact (h.ordinary n k idx e hat).resolve_right (hleaf k idx e hat)
  · simp [h.dot n σ hσ]
  · simp [h.dotDot n σ hσ]
  · intro k idx hs
    obtain ⟨e, he⟩ := Option.ne_none_iff_exists'.mp hs
    obtain ⟨hk, hidx, -⟩ := (h.rep n σ hσ).some_inv he
    exact ⟨lt_of_loadBlocks hk, hidx⟩

/-- An empty directory is found by its name in its parent, or by "." in itself. -/
lemma of_lookup_leaf (h : v.Consistent t) (hq : t.IsDir q) (hlook : v.lookup q last = some (n, true))
    (hleaf : t.IsLeaf n) :
    (n = q ∧ (last = dotName ∨ n = 0)) ∨
      last ≠ dotName ∧ n ≠ 0 ∧ t.parent n = q ∧ ∃ σ k idx e, t.LeafAt q σ k idx e ∧ e.iNo = n := by
  by_cases hdot : last = dotName
  · rw [hdot, h.lookup_dot hq] at hlook
    exact .inl ⟨(Prod.mk.inj (some.inj hlook)).1.symm, .inl hdot⟩
  by_cases hdotDot : last = dotDotName
  · rw [hdotDot, h.lookup_dotDot hq] at hlook
    cases hlook
    -- the directory with ".." is in the one it names
    by_cases h0 : q = 0
    · rw [h0, h.parent_root]
      exact .inl ⟨rfl, .inr rfl⟩
    · obtain ⟨k, idx, e, he, ho, -⟩ := h.dir_named q hq h0
      exact absurd ho (hleaf k idx e he)
  obtain ⟨k, idx, e, ⟨σ, hσ, he⟩, -, rfl, hb, ho, hin⟩ := h.of_lookup hq hdot hdotDot hlook
  exact .inr ⟨hdot, hin.iNo_ne, hin.parent (of_decide_eq_true hb.symm), σ, k, idx, e, ⟨hσ, he, ho, hleaf⟩, rfl⟩

lemma eq_of_unused (hn : t.IsDir n) (hunused : v'.inodeUsed n.toNat ≠ true)
    (h' : v'.Consistent (t.erase n')) : n' = n := by
  by_contra hne
  exact hunused (h'.dir_used (DirTree.isDir_erase.mpr ⟨hn, fun heq => hne heq.symm⟩))

/-- The release of a directory with its entry still there. -/
lemma not_consistent_release (h : v.Consistent t) (hn : t.IsDir n) (hleaf : t.IsLeaf n)
    (hino : ino.SamePersistent (v.inodeLoad n.toNat)) (n' : UInt32) :
    ¬ (v.inodeRelease n.toNat ino).Consistent t ∧ ¬ (v.inodeRelease n.toNat ino).Consistent (t.erase n') := by
  have hrel : v.Released n.toNat ino (v.inodeRelease n.toNat ino) := by
    refine v.released_inodeRelease (h.lt n hn) fun x hx => ?_
    exact (h.held _ (h.lt n hn) (h.dir_used hn) x ((hino.ownsBlock_iff x).mp hx)).isBlock
  have hunused : (v.inodeRelease n.toNat ino).inodeUsed n.toNat ≠ true :=
    fun hu => ((hrel.inodeUsed _).mp hu).2 rfl
  refine ⟨fun h' => hunused (h'.dir_used hn), fun h' => ?_⟩
  obtain rfl := eq_of_unused hn hunused h'
  by_cases h0 : n' = 0
  · subst h0
    exact (DirTree.isDir_erase.mp h'.root).2 rfl
  · obtain ⟨k, idx, e, ⟨σ, hσ, he⟩, ho, rfl⟩ := h.dir_named n' hn h0
    have hl : t.LeafAt (t.parent e.iNo) σ k idx e := ⟨hσ, he, ho, hleaf⟩
    refine h.not_consistent_of_size hl (inodeLoad_congr (hrel.slot _ fun heq => hl.ne ?_)) h'
    exact UInt32.toNat_inj.mp heq

end Vol.Consistent

namespace FsView

variable {s s' : FsView p} {t : DirTree} {m : Nat} {n q : UInt32} {dir : DirPtr}

/-- After `sys_rmdir` the tree is consistent: as it was when the call returns `-1`, and without one empty
directory when it returns `0`. -/
def RmdirKeeps (okIoBuf : Bool) (s : FsView p) (t : DirTree) (path : List UInt8) : Prop :=
  ∃ ret s', s.sysRmdir okIoBuf path = some (ret, s') ∧
    (ret = -1 ∧ s'.vol.Consistent t ∨
      ret = 0 ∧ ∃ n, t.IsDir n ∧ t.IsLeaf n ∧ s'.vol.Consistent (t.erase n))

/-- The path can be read, and an empty directory that it leads to is named by its last name, is not the
root and can be taken out of its parent. -/
structure RmdirSafe (okIoBuf : Bool) (s : FsView p) (t : DirTree) (path : List UInt8) : Prop where
  read : s.searchFile path ≠ none
  named : components path = [] → IsRootPath path
  target : ∀ n, s.vol.hierarchy.walk 0 (components path) = some (n, true) → t.IsLeaf n → okIoBuf = true →
    n ≠ 0 ∧ (components path).getLast? ≠ some dotName ∧ s.vol.Removable t (t.parent n) n

/-- What `sys_rmdir` does once it has found the directory. -/
def rmdirFound (okIoBuf : Bool) (s : FsView p) (parentDir : DirPtr) (inodeNo : UInt32) :
    Option (Int × FsView p) :=
  (s.dirOpen inodeNo).bind fun (dir, s) => (s.inodeOf dir).bind fun dirInode =>
    (if dirInode.iSize ≠ 48 then some (-1, s) else s.dirRemove okIoBuf parentDir dir).bind
      fun (retval, s) => (s.dirClose dir).bind fun s => s.closeAndReturn parentDir retval

lemma close_both (hopen : s''.dirClose dir' = some s')
    (hold : s'.dirClose dir = some s) (h : s''.Updates q a s4) (ret : Int) :
    ∃ s1, ((s4.dirClose dir').bind fun s => s.closeAndReturn dir ret) = some (ret, s1) ∧
      s.Updates q a s1 ∧ s1.vol = s4.vol := by
  obtain ⟨s5, hs5, h5, hvol5⟩ := h.dirClose hopen
  obtain ⟨s1, hs1, h1, hvol1⟩ := h5.dirClose hold
  refine ⟨s1, ?_, h1, hvol1.trans hvol5⟩
  rw [hs5, bind_some, closeAndReturn, hs1, map_some]

/-- What is left of `sys_rmdir` when the directory is empty and there is memory. -/
lemma rmdirFound_leaf (hopen : s'.Opens n b s'')
    (hi : s''.cache.inode b = some i) (hno : i.iNo = n) (hsize : i.iSize = 48) :
    s'.rmdirFound true dir n = (s''.deleteEntry dir n).bind fun s3 => (s3.inodeRelease n).bind fun s4 =>
      (s4.dirClose (.opened b)).bind fun s => s.closeAndReturn dir 0 := by
  have hi : s''.inodeOf (.opened b) = some i := hi
  rw [rmdirFound, hopen.dirOpen]
  simp only [hi, bind_some, hsize, ne_eq, not_true_eq_false, if_false, dirRemove, Bool.not_true,
    Bool.false_eq_true, hno]
  cases s''.deleteEntry dir n with
  | none => rfl
  | some s3 =>
    simp only [bind_some]
    cases s3.inodeRelease n with
    | none => rfl
    | some s4 => rfl

lemma rmdirFound_refused (hopen : s'.Opens n b s'')
    (hi : s''.cache.inode b = some i) (hold : s'.dirClose dir = some s)
    (h : i.iSize ≠ 48 ∨ okIoBuf = false) : s'.rmdirFound okIoBuf dir n = some (-1, s) := by
  have hi : s''.inodeOf (.opened b) = some i := hi
  have hret : (if i.iSize ≠ 48 then some (-1, s'') else s''.dirRemove okIoBuf dir (.opened b)) =
      some (-1, s'') := by
    split_ifs with hsize
    · rfl
    · rw [h.resolve_left hsize]
      rfl
  rw [rmdirFound, hopen.dirOpen]
  simp only [hi, bind_some, hret, hopen.dirClose]
  rw [closeAndReturn, hold, map_some]

lemma Opens.dirInode (hopen : s'.Opens n b s'') (dir : DirPtr) :
    s''.dirInode dir = s'.dirInode dir := by
  cases dir with
  | rootDir => exact hopen.rootInode
  | opened a => rfl

lemma Opens.inodeOf_keeps (hopen : s'.Opens n b s'')
    (hp : s'.inodeOf dir = some parent) : ∃ i, s''.inodeOf dir = some i ∧ i.SamePersistent parent := by
  obtain ⟨i, hi, hsame, -⟩ := hopen.keeps _ _ hp
  exact ⟨i, by rw [FsView.inodeOf, hopen.dirInode]; exact hi, hsame⟩

/-- `sys_rmdir` refuses a directory that is not empty, or for want of memory. -/
lemma rmdirFound_of_not (hs' : s'.Coherent m) (h : s.vol.Consistent t)
    (hold : s.Holding q dir s') (hn : t.IsDir n) (hgo : ¬ (t.IsLeaf n ∧ okIoBuf = true)) :
    s'.rmdirFound okIoBuf dir n = some (-1, s) := by
  obtain ⟨b, s'', hopen⟩ := hs'.opens n
  obtain ⟨i, hi, hsame⟩ := hopen.inode
  rw [hold.vol] at hsame
  refine rmdirFound_refused hopen hi hold.dirClose ?_
  rw [ne_eq, hsame.2.1, h.iSize_eq_iff hn]
  by_contra hnot
  rw [not_or, not_not, Bool.not_eq_false] at hnot
  exact hgo hnot

/-- `sys_rmdir` takes an empty directory out of the one its entry is in. -/
lemma rmdirFound_of_removable (hs : s.Coherent (m + 2))
    (h : s.vol.Consistent t) (hold : s.Holding q dir s') (hn : t.IsDir e.iNo) (hl : t.LeafAt q σ k idx e)
    (hrem : s.vol.Removable t q e.iNo) :
    ∃ s1, s'.rmdirFound true dir e.iNo = some (0, s1) ∧
      s.vol.Removed q e.iNo (DirTree.eraseSlots e.iNo σ) s1.vol ∧ s.Updates q (s'.dirInode dir) s1 := by
  have hs' : s'.Coherent (m + 1) := hold.coherent hs (h.iNo q hl.isDir)
  obtain ⟨b, s'', hopen⟩ := hs'.opens e.iNo
  obtain ⟨i, hi, hsame⟩ := hopen.inode
  rw [hold.vol] at hsame
  have hs'' : s''.Coherent m := hopen.coherent hs' (by rw [hold.vol]; exact h.iNo _ hn)
  obtain ⟨parent0, hp0, hparent0⟩ := hold.inodeOf hs
  obtain ⟨parent, hp, hparent⟩ := hopen.inodeOf_keeps hp0
  replace hparent := hparent.trans hparent0
  have hsize : i.iSize = 48 := by
    rw [hsame.2.1]
    exact (h.iSize_eq_iff hn).mpr hl.leaf
  rw [rmdirFound_leaf hopen hi (hsame.1.trans (h.iNo _ hn)) hsize]
  have hvol : s''.vol = s.vol := hopen.vol.trans hold.vol
  rw [← hvol] at h hparent hrem ⊢
  obtain ⟨s3, s4, hs3, hs4, hrm, hupd⟩ := removeEntry_of_removable hs'' h hl hp hparent hrem
  rw [hopen.dirInode] at hupd
  obtain ⟨s1, hs1, hupd1, hvol1⟩ := close_both hopen.dirClose hold.dirClose hupd 0
  refine ⟨s1, ?_, hvol1 ▸ hrm, hupd1⟩
  rw [hs3, bind_some, hs4, bind_some, hs1]

/-- A directory that is looked for in itself has no entry there. -/
lemma release_in_itself (hs : s.Coherent m) (h : s.vol.Consistent t)
    (hn : t.IsDir n) (hleaf : t.IsLeaf n) (hp : s.inodeOf dir = some parent)
    (hsame : parent.SamePersistent (s.vol.inodeLoad n.toNat)) (hdel : s.deleteEntry dir n = some s3)
    (hrel : s3.inodeRelease n = some s4) :
    ∃ ino, s4.vol = s.vol.inodeRelease n.toNat ino ∧ ino.SamePersistent (s.vol.inodeLoad n.toNat) := by
  obtain ⟨σ, hσ⟩ := Option.ne_none_iff_exists'.mp hn
  obtain ⟨r, hr, rfl⟩ := deleteEntry_eq_some hdel hp
  rcases (h.rep_of_same hσ hsame).deleteDirEntry hr with ⟨rfl, -⟩ | ⟨-, -, -, k, idx, e, he, ho, -⟩
  swap
  · exact absurd ho (hleaf k idx e ⟨σ, hσ, he⟩)
  obtain ⟨ino, hvol, hino⟩ := inodeRelease_eq_some hrel
  refine ⟨ino, hvol, ?_⟩
  have hcache : s.cache.set (s.dirInode dir) (some parent) = s.cache := by
    have hp : s.cache.inode (s.dirInode dir) = some parent := hp
    rw [InodeCache.set, ← hp, Function.update_eq_self]
  rcases hino with ⟨a, i, hi, hno, hmem, hino⟩ | hino
  · simp only [hcache] at hi hmem
    obtain ⟨j, hj, -, -, hdisk⟩ := hs.listed a hmem
    obtain rfl := some.inj (hi.symm.trans hj)
    rw [hno] at hdisk
    exact hino.trans hdisk
  · exact hino

/-- The end of `sys_rmdir`, with the directory in which the name was found. -/
lemma rmdirFound_keeps_iff (hs : s.Coherent 3) (h : s.vol.Consistent t)
    (hold : s.Holding q dir s') (hq : t.IsDir q) (hn : t.IsDir n)
    (hfrom : t.IsLeaf n → n = q ∨ ∃ σ k idx e, t.LeafAt q σ k idx e ∧ e.iNo = n) :
    (∃ ret s1, s'.rmdirFound okIoBuf dir n = some (ret, s1) ∧
      (ret = -1 ∧ s1.vol.Consistent t ∨
        ret = 0 ∧ ∃ n, t.IsDir n ∧ t.IsLeaf n ∧ s1.vol.Consistent (t.erase n))) ↔
      (t.IsLeaf n → okIoBuf = true → n ≠ q ∧ s.vol.Removable t q n) := by
  have hs' : s'.Coherent 2 := hold.coherent hs (h.iNo q hq)
  obtain ⟨b, s'', hopen⟩ := hs'.opens n
  obtain ⟨i, hi, hsame⟩ := hopen.inode
  rw [hold.vol] at hsame
  have hs'' : s''.Coherent 1 := hopen.coherent hs' (by rw [hold.vol]; exact h.iNo n hn)
  have hvol : s''.vol = s.vol := hopen.vol.trans hold.vol
  obtain ⟨parent0, hp0, hparent0⟩ := hold.inodeOf hs
  obtain ⟨parent, hp, hparent⟩ := hopen.inodeOf_keeps hp0
  replace hparent := hparent.trans hparent0
  have hsize : i.iSize = 48 ↔ t.IsLeaf n := by
    rw [hsame.2.1]
    exact h.iSize_eq_iff hn
  by_cases hgo : t.IsLeaf n ∧ okIoBuf = true
  swap
  · exact iff_of_true ⟨-1, s, rmdirFound_of_not hs' h hold hn hgo, .inl ⟨rfl, h⟩⟩ fun hleaf hok =>
      absurd ⟨hleaf, hok⟩ hgo
  obtain ⟨hleaf, rfl⟩ := hgo
  by_cases hrem : (∃ σ k idx e, t.LeafAt q σ k idx e ∧ e.iNo = n) ∧ s.vol.Removable t q n
  · obtain ⟨⟨σ, k, idx, e, hl, rfl⟩, hrem⟩ := hrem
    obtain ⟨s1, hs1, hrm, -⟩ := rmdirFound_of_removable hs h hold hn hl hrem
    exact iff_of_true ⟨0, s1, hs1, .inr ⟨rfl, e.iNo, hn, hleaf, h.removed hl hrm⟩⟩ fun _ _ =>
      ⟨hl.ne.symm, hrem⟩
  rw [rmdirFound_leaf hopen hi (hsame.1.trans (h.iNo n hn)) (hsize.mpr hleaf)]
  rw [← hvol] at h hparent hrem ⊢
  -- the number is given back whenever the call returns
  have hinv : ∀ ret s1, ((s''.deleteEntry dir n).bind fun s3 => (s3.inodeRelease n).bind fun s4 =>
      (s4.dirClose (.opened b)).bind fun s => s.closeAndReturn dir 0) = some (ret, s1) →
      ∃ s3 s4, s''.deleteEntry dir n = some s3 ∧ s3.inodeRelease n = some s4 ∧ s1.vol = s4.vol := by
    intro ret s1 heq
    obtain ⟨s3, hs3, heq⟩ := bind_eq_some_iff.mp heq
    obtain ⟨s4, hs4, heq⟩ := bind_eq_some_iff.mp heq
    obtain ⟨s5, hs5, heq⟩ := bind_eq_some_iff.mp heq
    obtain ⟨s6, hs6, heq⟩ := map_eq_some_iff.mp heq
    cases heq
    exact ⟨s3, s4, hs3, hs4, (dirClose_vol hs6).trans (dirClose_vol hs5)⟩
  rcases hfrom hleaf with rfl | ⟨σ, k, idx, e, hl, rfl⟩
  · -- looked for in itself
    refine iff_of_false ?_ fun hcond => (hcond hleaf rfl).1 rfl
    rintro ⟨ret, s1, heq, hkeeps⟩
    obtain ⟨s3, s4, hs3, hs4, hvol1⟩ := hinv ret s1 heq
    obtain ⟨ino, hvol4, hino⟩ := release_in_itself hs'' h hn hleaf hp hparent hs3 hs4
    rw [hvol1, hvol4] at hkeeps
    rcases hkeeps with ⟨-, hc⟩ | ⟨-, n', -, -, hc⟩
    · exact (h.not_consistent_release hn hleaf hino 0).1 hc
    · exact (h.not_consistent_release hn hleaf hino n').2 hc
  · have hrem : ¬ s''.vol.Removable t q e.iNo := fun hr => hrem ⟨⟨σ, k, idx, e, hl, rfl⟩, hr⟩
    refine iff_of_false ?_ fun hcond => hrem (hcond hleaf rfl).2
    rintro ⟨ret, s1, heq, hkeeps⟩
    obtain ⟨s3, s4, hs3, hs4, hvol1⟩ := hinv ret s1 heq
    obtain ⟨r, ino, hr, hvol4, hino⟩ := removeEntry_inv hs'' h hl hp hparent hs3 hs4
    rw [hvol1, hvol4] at hkeeps
    have hunused : (r.vol.inodeRelease e.iNo.toNat ino).inodeUsed e.iNo.toNat ≠ true := by
      intro hu
      have hrel := r.vol.released_inodeRelease (h.lt _ hn) (h.isBlock_delete hl hparent hr hino)
      exact ((hrel.inodeUsed _).mp hu).2 rfl
    rcases hkeeps with ⟨-, hc⟩ | ⟨-, n', -, -, hc⟩
    · exact hunused (hc.dir_used hn)
    · obtain rfl := Vol.Consistent.eq_of_unused hn hunused hc
      exact h.not_consistent_of_not_removable hl hparent hrem hr hino hc

lemma sysRmdir_of_directory
    (hr : s.searchFile path = some (.inode n, record, s')) (htype : record.fileType = .directory) :
    s.sysRmdir okIoBuf path = s'.rmdirFound okIoBuf record.parentDir n := by
  rw [sysRmdir, hr, bind_some]
  simp only [htype, reduceCtorEq, if_false]
  rfl

/-- When `sys_rmdir` keeps the tree consistent. -/
theorem rmdirKeeps_iff (hs : s.Coherent 3) (h : s.vol.Consistent t) (hnul : 0 ∉ path) (okIoBuf : Bool) :
    s.RmdirKeeps okIoBuf t path ↔ s.RmdirSafe okIoBuf t path := by
  by_cases hroot : IsRootPath path
  · have hfile : s.searchFile path = some (.inode 0, ⟨[], .rootDir, .directory⟩, s) := if_pos hroot
    have hwalk := walk_of_isRootPath h.toIsTree hroot
    rw [RmdirKeeps, sysRmdir_of_directory hfile rfl,
      rmdirFound_keeps_iff hs h (.rootDir rfl) h.root h.root fun _ => .inl rfl]
    constructor
    · refine fun hcond => ⟨by simp [hfile], fun _ => hroot, fun n hn hleaf hok => ?_⟩
      obtain ⟨rfl, -⟩ := Prod.mk.inj (some.inj (hwalk.symm.trans hn))
      exact absurd rfl (hcond hleaf hok).1
    · intro hsafe hleaf hok
      exact absurd rfl (hsafe.target 0 hwalk hleaf hok).1
  rcases searchFile_cases hs h.toIsTree hnul hroot with ⟨⟨no, record, s'⟩, hr, hout⟩ | ⟨hnone, -⟩
  swap
  · refine iff_of_false ?_ fun hsafe => hsafe.read hnone
    rintro ⟨ret, s₁, heq, -⟩
    rw [sysRmdir, hnone] at heq
    cases heq
  have hread : s.searchFile path ≠ none := by simp [hr]
  have hclose : s'.dirClose record.parentDir = some s := hout.dirClose
  generalize hnames : components path = names at *
  cases hout with
  | unnamed =>
    refine iff_of_false ?_ fun hsafe => hroot (hsafe.named hnames)
    rintro ⟨ret, s₁, heq, -⟩
    rw [sysRmdir, hr] at heq
    cases heq
  | @directory init last q n a s' hfits hq hn hopen =>
    have hqd : t.IsDir q := h.lawful.walkDirs h.root hq
    have hnd : t.IsDir n := h.lawful.dir q last n hqd hn
    have hwalk : s.vol.hierarchy.walk 0 (components path) = some (n, true) := by
      rw [hnames]
      exact Hierarchy.walk_concat.mpr ⟨q, hq, hn⟩
    rw [RmdirKeeps, sysRmdir_of_directory hr rfl, rmdirFound_keeps_iff hs h (.opened hopen) hqd hnd]
    · constructor
      · refine fun hcond => ⟨hread, fun hnil => by simp [hnames] at hnil, fun n' hn' hleaf hok => ?_⟩
        obtain ⟨rfl, -⟩ := Prod.mk.inj (some.inj (hwalk.symm.trans hn'))
        obtain ⟨hne, hrem⟩ := hcond hleaf hok
        rcases h.of_lookup_leaf hqd hn hleaf with ⟨heq, -⟩ | ⟨hdot, h0, hparent, -⟩
        · exact absurd heq hne
        · refine ⟨h0, ?_, by rwa [hparent]⟩
          rw [hnames, List.getLast?_concat]
          exact fun hlast => hdot (some.inj hlast)
      · intro hsafe hleaf hok
        obtain ⟨h0, hlast, hrem⟩ := hsafe.target n hwalk hleaf hok
        rw [hnames, List.getLast?_concat] at hlast
        rcases h.of_lookup_leaf hqd hn hleaf with ⟨-, hdot | h0'⟩ | ⟨-, -, hparent, σ, k, idx, e, hl, rfl⟩
        · exact absurd (congrArg some hdot) hlast
        · exact absurd h0' h0
        · rw [hparent] at hrem
          exact ⟨hl.ne.symm, hrem⟩
    · intro hleaf
      rcases h.of_lookup_leaf hqd hn hleaf with ⟨heq, -⟩ | ⟨-, -, -, hl⟩
      · exact .inl heq
      · exact .inr hl
  | @regular init rest last d n dir s' hfits hd hn hold =>
    have hret : s.sysRmdir okIoBuf path = some (-1, s) := by
      rw [sysRmdir, hr, bind_some]
      simp only [if_true]
      rw [closeAndReturn, hclose, map_some]
    refine iff_of_true ⟨-1, s, hret, .inl ⟨rfl, h⟩⟩ ⟨hread, fun hnil => by simp [hnames] at hnil, ?_⟩
    intro n' hn'
    rw [hnames, walk_of_file rest hd hn] at hn'
    split_ifs at hn'
    cases hn'
  | @missing init rest last d dir s' hfits hd hn hold =>
    have hret : s.sysRmdir okIoBuf path = some (-1, s) := by
      rw [sysRmdir, hr, bind_some]
      simp only
      rw [closeAndReturn, hclose, map_some]
    refine iff_of_true ⟨-1, s, hret, .inl ⟨rfl, h⟩⟩ ⟨hread, fun hnil => by simp [hnames] at hnil, ?_⟩
    intro n' hn'
    rw [hnames, walk_of_missing rest hd hn] at hn'
    cases hn'

/-- Removing the directory "/a/b". -/
theorem rmdirKeeps_sample : (Image.sample.view .smallest).RmdirKeeps true Image.sample.tree [47, 97, 47, 98] := by
  have hcons : (Image.sample.view .smallest).vol.Consistent Image.sample.tree := Image.ok_sample.consistent _
  refine (rmdirKeeps_iff (Image.coherent_view _ _ (by decide)) hcons (by decide) true).mpr
    ⟨by decide +kernel, fun h => absurd h (by decide), fun n hn _ _ => ?_⟩
  have hwalk : (Image.sample.view .smallest).vol.hierarchy.walk 0 (components [47, 97, 47, 98]) =
      some (4, true) := by decide +kernel
  obtain ⟨rfl, -⟩ := Prod.mk.inj (some.inj (hwalk.symm.trans hn))
  have hparent : Image.sample.tree.parent 4 = 1 := by decide
  refine ⟨by decide, by decide, ?_⟩
  rw [hparent]
  refine ⟨by decide, fun k idx e he _ _ hk => ?_⟩
  -- the directory has one block
  obtain ⟨rfl, -⟩ := Image.at_tree.mp he
  omega

/-- Removing the directory "/a/b/." leaves the entry of "/a/b" behind. -/
theorem not_forall_rmdirKeeps : ¬ ∀ (p : Partition) (s : FsView p) (t : DirTree) (path : List UInt8),
    s.Coherent 3 → s.vol.Consistent t → path.head? = some slash → 0 ∉ path → s.RmdirKeeps true t path := by
  intro hall
  have hrun : ((Image.sample.view .smallest).sysRmdir true [47, 97, 47, 98, 47, 46]).map (fun r =>
      (r.1, r.2.vol.inodeUsed 4, r.2.vol.lookup 1 [98])) = some (0, false, some (4, true)) := by
    decide +kernel
  obtain ⟨ret, s', heq, hkeeps⟩ := hall .smallest (Image.sample.view .smallest) Image.sample.tree
    [47, 97, 47, 98, 47, 46] (Image.coherent_view _ _ (by decide)) (Image.ok_sample.consistent _) (by decide)
    (by decide)
  rw [heq, map_some, Option.some.injEq, Prod.mk.injEq, Prod.mk.injEq] at hrun
  obtain ⟨rfl, hunused, hlookup⟩ := hrun
  have hdir : Image.sample.tree.IsDir 4 := Image.isDir_tree.mpr (by decide)
  rcases hkeeps with ⟨hret, -⟩ | ⟨-, n, -, -, hc⟩
  · cases hret
  obtain rfl := Vol.Consistent.eq_of_unused hdir (by rw [show (4 : UInt32).toNat = 4 from rfl, hunused]; decide) hc
  obtain ⟨k, idx, e, he, hname, hno, -⟩ := (hc.lookup_eq_some (DirTree.isDir_erase.mpr
    ⟨Image.isDir_tree.mpr (by decide), by decide⟩)).mp hlookup
  refine (DirTree.at_erase.mp he).2.2 ⟨?_, hno⟩
  rw [Entry.Ordinary, hname]
  decide

end FsView

end SimpleOs
