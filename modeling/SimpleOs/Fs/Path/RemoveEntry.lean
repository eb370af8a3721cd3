import SimpleOs.Fs.Path.OpenCounts
import SimpleOs.Fs.Path.Remove

/-!
# The end of `sys_unlink` and `sys_rmdir`

Both end with `delete_dir_entry` on a directory that is open and `inode_release`. When the entry can be
taken out, the calls return, the tree is left without it, and the same inodes are open as before.
-/

namespace SimpleOs

open Base Function Option

variable {p : Partition}

namespace InodeCache

variable {c c' c₁ : InodeCache InodePtr} {n : UInt32} {dir : Inode}

/-- The same inodes are open as before, each as often, and nothing but the inode at address `a` has
changed, to what `dir` is. -/
structure Rewrites (c : InodeCache InodePtr) (a : InodePtr) (dir : Inode) (c' : InodeCache InodePtr) :
    Prop where
  sameOpen : c.SameOpen c'
  others : ∀ b, b ≠ a → c'.inode b = c.inode b
  self : ∀ i, c'.inode a = some i → i.SamePersistent dir

lemma Rewrites.set (hi : c.inode a = some i) (hno : dir.iNo = i.iNo)
    (hcnt : dir.iOpenCnts = i.iOpenCnts) : c.Rewrites a dir (c.set a (some dir)) where
  sameOpen := (SameOpen.refl c).set hi hno hcnt
  others b hb := inode_set_of_ne c hb _
  self j hj := by
    rw [inode_set_self] at hj
    rw [some.inj hj]
    exact .refl j

/-- `inode_close` looks at the counts only. -/
lemma Rewrites.inodeClose (h : c.Rewrites a dir c') (hc : c.inodeClose b = some c₁) :
    ∃ c2, c'.inodeClose b = some c2 ∧ c₁.Rewrites a dir c2 := by
  obtain ⟨c2, hc2, hsame⟩ := h.sameOpen.inodeClose hc
  refine ⟨c2, hc2, hsame, fun x hx => ?_, fun i hi => ?_⟩
  · obtain ⟨i, hi, hinode, -⟩ := inodeClose_eq_some hc
    obtain ⟨j, hj, hinode', -⟩ := inodeClose_eq_some hc2
    rw [hinode, hinode']
    by_cases hxb : x = b
    · subst hxb
      rw [h.others x hx, hi] at hj
      cases hj
      rw [update_self, update_self]
    · rw [update_of_ne hxb, update_of_ne hxb, h.others x hx]
  · obtain ⟨j, hj, hinode', -⟩ := inodeClose_eq_some hc2
    rw [hinode'] at hi
    by_cases hab : a = b
    · subst hab
      rw [update_self] at hi
      split_ifs at hi
      cases hi
      exact h.self j hj
    · rw [update_of_ne hab] at hi
      exact h.self i hi

/-- `inode_open` looks at the numbers and the counts only. -/
lemma Rewrites.inodeOpen (h : c.Rewrites a dir c') (ha : c.inode a ≠ none)
    (hopen : c.inodeOpen n new disk = some (b, c₁)) :
    ∃ c2, c'.inodeOpen n new disk = some (b, c2) ∧ c₁.Rewrites a dir c2 := by
  have hfind : c'.find n c'.openInodes = c.find n c.openInodes := by
    rw [h.sameOpen.1]
    refine find_congr fun x _ => ?_
    have := congrArg (Option.map Prod.fst) (h.sameOpen.2 x)
    rw [map_map, map_map] at this
    exact this
  rw [InodeCache.inodeOpen] at hopen ⊢
  rw [hfind]
  cases hf : c.find n c.openInodes with
  | none => simp [hf] at hopen
  | some r =>
    rw [hf] at hopen
    cases r with
    | some x =>
      simp only at hopen ⊢
      obtain ⟨i, hi, heq⟩ := map_eq_some_iff.mp hopen
      obtain ⟨rfl, rfl⟩ := Prod.mk.inj heq
      obtain ⟨j, hj, hno, hcnt⟩ := h.sameOpen.inode hi
      refine ⟨c'.set x (some { j with iOpenCnts := j.iOpenCnts + 1 }), by rw [hj, map_some],
        ⟨h.sameOpen.1, fun y => ?_⟩, fun y hy => ?_, fun k hk => ?_⟩
      · by_cases hyx : y = x
        · subst hyx
          simp [InodeCache.set, hno, hcnt]
        · simp only [InodeCache.set, update_of_ne hyx]
          exact h.sameOpen.2 y
      · by_cases hyx : y = x
        · subst hyx
          rw [h.others y hy, hi] at hj
          obtain rfl := some.inj hj
          rw [inode_set_self, inode_set_self]
        · rw [inode_set_of_ne _ hyx, inode_set_of_ne _ hyx, h.others y hy]
      · by_cases hax : a = x
        · subst hax
          rw [inode_set_self] at hk
          obtain rfl := some.inj hk
          exact h.self j hj
        · rw [inode_set_of_ne _ hax] at hk
          exact h.self k hk
    | none =>
      split_ifs at hopen with hnone
      obtain ⟨rfl, rfl⟩ := Prod.mk.inj (some.inj hopen)
      have hne : a ≠ new := by
        rintro rfl
        exact ha hnone
      have hnone' : c'.inode new = none := (h.others new hne.symm).trans hnone
      rw [if_pos hnone']
      refine ⟨_, rfl, ⟨congrArg (new :: ·) h.sameOpen.1, fun y => ?_⟩, fun y hy => ?_, fun k hk => ?_⟩
      · by_cases hyn : y = new
        · subst hyn
          simp [InodeCache.set]
        · simp only [InodeCache.set, update_of_ne hyn]
          exact h.sameOpen.2 y
      · by_cases hyn : y = new
        · subst hyn
          simp [InodeCache.set]
        · simp only [InodeCache.set, update_of_ne hyn]
          exact h.others y hy
      · simp only [InodeCache.set, update_of_ne hne] at hk
        exact h.self k hk

end InodeCache

/-! ### The end of `sys_unlink` and `sys_rmdir` -/

namespace FsView

variable {s s' s₃ s₄ : FsView p} {t : DirTree} {m : Nat} {path : List UInt8} {d n q : UInt32} {dir : DirPtr}
  {σ : SlotTable} {k idx : Nat} {e : Entry}

lemma dirClose_vol (h : s.dirClose dir = some s') : s'.vol = s.vol := by
  cases dir with
  | rootDir =>
    cases h
    rfl
  | opened a =>
    obtain ⟨c, -, rfl⟩ := map_eq_some_iff.mp h
    rfl

/-- Directory `d`, which is open at address `a`, has been changed in memory and on disk. -/
structure Updates (s : FsView p) (d : UInt32) (a : InodePtr) (s' : FsView p) : Prop where
  cache : ∃ i, s.cache.Rewrites a i s'.cache ∧ (s'.vol.inodeLoad d.toNat).SamePersistent i
  view : s' = { s with vol := s'.vol, cache := s'.cache }

/-- A directory is closed after the change as it would have been before it. -/
lemma Updates.dirClose (h : s.Updates d a s') (hclose : s.dirClose dir = some s1) :
    ∃ s2, s'.dirClose dir = some s2 ∧ s1.Updates d a s2 ∧ s2.vol = s'.vol := by
  cases dir with
  | rootDir =>
    cases hclose
    exact ⟨s', rfl, h, rfl⟩
  | opened b =>
    obtain ⟨c₁, hc1, rfl⟩ := map_eq_some_iff.mp hclose
    obtain ⟨i, hrw, hload⟩ := h.cache
    obtain ⟨c2, hc2, hrw2⟩ := hrw.inodeClose hc1
    refine ⟨{ s' with cache := c2 }, ?_, ⟨⟨i, hrw2, hload⟩, ?_⟩, rfl⟩
    · rw [FsView.dirClose, inodeClose, hc2, map_some]
    · rw [h.view]

/-- What `delete_dir_entry` does to the view of a task. -/
lemma deleteEntry_eq_some (h : s.deleteEntry dir n = some s₃) (hp : s.inodeOf dir = some parent) :
    ∃ r, deleteDirEntry s.vol parent n = some r ∧
      s₃ = { s with vol := r.vol, cache := s.cache.set (s.dirInode dir) (some r.inode) } := by
  rw [deleteEntry, hp] at h
  obtain ⟨r, hr, rfl⟩ := map_eq_some_iff.mp h
  exact ⟨r, hr, rfl⟩

/-- What `inode_release` does to the partition. -/
lemma inodeRelease_eq_some (h : s.inodeRelease n = some s') :
    ∃ ino, s'.vol = s.vol.inodeRelease n.toNat ino ∧
      ((∃ a i, s.cache.inode a = some i ∧ i.iNo = n ∧ a ∈ s.cache.openInodes ∧ ino.SamePersistent i) ∨
        ino.SamePersistent (s.vol.inodeLoad n.toNat)) := by
  obtain ⟨⟨a, s1⟩, hopen, h⟩ := bind_eq_some_iff.mp h
  obtain ⟨ino, hino, h⟩ := bind_eq_some_iff.mp h
  obtain ⟨c, -, rfl⟩ := map_eq_some_iff.mp h
  obtain ⟨⟨b, c'⟩, hc, heq⟩ := map_eq_some_iff.mp hopen
  obtain ⟨rfl, rfl⟩ := Prod.mk.inj heq
  refine ⟨ino, rfl, ?_⟩
  rcases InodeCache.inodeOpen_eq_some hc with ⟨i, hmem, hi, hno, rfl⟩ | ⟨rfl, -, -, rfl⟩
  · obtain rfl := some.inj ((InodeCache.inode_set_self ..).symm.trans hino)
    exact .inl ⟨b, i, hi, hno, hmem, rfl, rfl, fun _ _ => rfl⟩
  · obtain rfl := some.inj ((InodeCache.inode_set_self ..).symm.trans hino)
    exact .inr ⟨rfl, rfl, fun _ _ => rfl⟩

/-- The inode that is released is the one on disk, whether or not it is in memory. -/
lemma removeEntry_inv (hs : s.Coherent m) (h : s.vol.Consistent t) (hl : t.LeafAt d σ k idx e)
    (hp : s.inodeOf dir = some parent) (hsame : parent.SamePersistent (s.vol.inodeLoad d.toNat))
    (hdel : s.deleteEntry dir e.iNo = some s₃) (hrel : s₃.inodeRelease e.iNo = some s₄) :
    ∃ r ino, deleteDirEntry s.vol parent e.iNo = some r ∧ s₄.vol = r.vol.inodeRelease e.iNo.toNat ino ∧
      (ino.SamePersistent (s.vol.inodeLoad e.iNo.toNat) ∨
        ino.SamePersistent (r.vol.inodeLoad e.iNo.toNat)) := by
  obtain ⟨r, hr, rfl⟩ := deleteEntry_eq_some hdel hp
  obtain ⟨ino, hvol, hino⟩ := inodeRelease_eq_some hrel
  refine ⟨r, ino, hr, hvol, ?_⟩
  rcases hino with ⟨a, i, hi, hno, hmem, hino⟩ | hino
  · obtain ⟨hframe, -⟩ :=
      h.deleteDirEntry_some hl.slots hl.entry hl.ordinary (h.rep_of_same hl.slots hsame) hr
    by_cases ha : a = s.dirInode dir
    · -- that is the directory
      subst ha
      obtain rfl := some.inj ((InodeCache.inode_set_self ..).symm.trans hi)
      rw [hframe.iNo, hsame.1, h.iNo d hl.isDir] at hno
      exact absurd hno hl.ne
    · have hi : s.cache.inode a = some i := (InodeCache.inode_set_of_ne _ ha _).symm.trans hi
      obtain ⟨j, hj, -, -, hdisk⟩ := hs.listed a hmem
      obtain rfl := some.inj (hi.symm.trans hj)
      rw [hno] at hdisk
      exact .inl (hino.trans hdisk)
  · exact .inr hino

/-- An entry that can be taken out. -/
lemma removeEntry_of_removable (hs : s.Coherent m) (h : s.vol.Consistent t) (hl : t.LeafAt d σ k idx e)
    (hp : s.inodeOf dir = some parent) (hsame : parent.SamePersistent (s.vol.inodeLoad d.toNat))
    (hrem : s.vol.Removable t d e.iNo) :
    ∃ s₃ s₄, s.deleteEntry dir e.iNo = some s₃ ∧ s₃.inodeRelease e.iNo = some s₄ ∧
      s.vol.Removed d e.iNo (DirTree.eraseSlots e.iNo σ) s₄.vol ∧ s.Updates d (s.dirInode dir) s₄ := by
  obtain ⟨r, hr, hframe, hremoved⟩ := h.remove hl hsame hrem
  have hp : s.cache.inode (s.dirInode dir) = some parent := hp
  have hno : parent.iNo = d := hsame.1.trans (h.iNo d hl.isDir)
  have hlt := (h.entry d k idx e hl.at hl.ordinary).iNo_lt
  have hload : r.vol.inodeLoad e.iNo.toNat = s.vol.inodeLoad e.iNo.toNat := by
    refine hframe.inodeLoad_of_ne hlt ?_
    rw [hno, Nat.mod_eq_of_lt hrem.number]
    exact fun heq => hl.ne (UInt32.toNat_inj.mp heq).symm
  obtain ⟨b, s1, hopen⟩ := hs.opens e.iNo
  obtain ⟨⟨b', c₁⟩, hc1, heq⟩ := map_eq_some_iff.mp hopen.inodeOpen
  obtain ⟨rfl, rfl⟩ := Prod.mk.inj heq
  have hset : s.cache.Rewrites (s.dirInode dir) r.inode (s.cache.set (s.dirInode dir) (some r.inode)) :=
    .set hp hframe.iNo hframe.iOpenCnts
  -- opening and closing the inode is as before the deletion
  obtain ⟨c2, hc2, hrw2⟩ := hset.inodeOpen (by simp [hp]) hc1
  obtain ⟨c3, hc3, heq3⟩ := map_eq_some_iff.mp hopen.inodeClose
  obtain rfl : c3 = s.cache := congrArg FsView.cache heq3
  obtain ⟨c4, hc4, hrw4⟩ := hrw2.inodeClose hc3
  -- the inode that is opened is not that of the directory
  obtain ⟨i, hi, hino⟩ := hopen.inode
  have hb : b' ≠ s.dirInode dir := by
    rintro rfl
    obtain ⟨j, hj, hkeep, -⟩ := hopen.keeps _ _ hp
    obtain rfl := some.inj (hi.symm.trans hj)
    have hno' : e.iNo = d := by
      rw [← hno, ← hkeep.1, hino.1]
      exact (UInt32.toNat_inj.mp (h.inode_iNo _ hlt (h.used d k idx e hl.at hl.ordinary))).symm
    exact hl.ne hno'.symm
  rw [← hrw2.others b' hb] at hi
  obtain ⟨hrm, hdir⟩ := hremoved i hino
  refine ⟨{ s with vol := r.vol, cache := s.cache.set (s.dirInode dir) (some r.inode) },
    { s with vol := r.vol.inodeRelease e.iNo.toNat i, cache := c4 }, ?_, ?_, hrm, ⟨r.inode, hrw4, hdir⟩, rfl⟩
  · rw [deleteEntry, inodeOf, hp, bind_some, hr, map_some]
  · rw [inodeRelease, FsView.inodeOpen]
    simp only [hload]
    rw [InodeCache.openInodes_set, hc2]
    simp only [map_some, bind_some, hi]
    rw [FsView.inodeClose, hc4, map_some]

end FsView

end SimpleOs
