import SimpleOs.Fs.Path.Tree

/-!
# What `search_file` finds

On a consistent file system `search_file` follows the names of the path from directory to directory, and
the inodes that it opens on the way are closed again, up to the directory that it hands to its caller.
-/

namespace SimpleOs

open Base Function Option List

variable {p : Partition}

variable {l : List InodePtr} {v : Vol p} {name : List UInt8} {iNo : SearchResult}

/-! ### Opening and closing an inode -/

lemma addr_lt_freshAddr (h : a ∈ l) : a.addr < freshAddr l := by
  induction l with
  | nil => cases h
  | cons b l ih =>
    rw [freshAddr, List.foldr_cons, ← freshAddr]
    rcases mem_cons.mp h with rfl | h
    · omega
    · have := ih h
      omega

lemma freshAddr_notMem (l : List InodePtr) : InodePtr.kernel (freshAddr l) ∉ l :=
  fun h => absurd (addr_lt_freshAddr h) (lt_irrefl _)

lemma InodeCache.find_ne_none {c : InodeCache InodePtr}
    (h : ∀ a ∈ l, c.inode a ≠ none) : c.find no l ≠ none := by
  induction l with
  | nil => exact some_ne_none _
  | cons a l ih =>
    rw [forall_mem_cons] at h
    obtain ⟨i, hi⟩ := Option.ne_none_iff_exists'.mp h.1
    rw [find, hi]
    simp only
    split_ifs
    · exact some_ne_none _
    · exact ih h.2

namespace InodeCache

variable (c : InodeCache InodePtr)

/-- Put an inode on the list. -/
def push (a : InodePtr) (i : Inode) : InodeCache InodePtr where
  inode := update c.inode a (some i)
  openInodes := a :: c.openInodes

lemma inode_push_self (a : InodePtr) (i : Inode) : (c.push a i).inode a = some i := update_self ..

lemma inode_push_of_ne (h : b ≠ a) (i : Inode) :
    (c.push a i).inode b = c.inode b := update_of_ne h ..

@[simp] lemma openInodes_push (a : InodePtr) (i : Inode) :
    (c.push a i).openInodes = a :: c.openInodes := rfl

lemma erase_push {c : InodeCache InodePtr} (i : Inode) (ha : c.inode a = none) :
    { (c.push a i).set a none with openInodes := (c.push a i).openInodes.erase a } = c := by
  simp only [set, push, update_idem, List.erase_cons_head]
  rw [← ha, update_eq_self]

end InodeCache

namespace Inode.SamePersistent

variable {i j k : Inode}

lemma refl (i : Inode) : i.SamePersistent i := ⟨rfl, rfl, fun _ _ => rfl⟩

lemma trans (h : i.SamePersistent j) (h' : j.SamePersistent k) : i.SamePersistent k :=
  ⟨h.1.trans h'.1, h.2.1.trans h'.2.1, fun n hn => (h.2.2 n hn).trans (h'.2.2 n hn)⟩

end Inode.SamePersistent

namespace FsView

variable {s s' : FsView p} {n : UInt32} {m : Nat}

/-- `inode_open` gives inode `n` at address `a`, and `inode_close` undoes it. -/
structure Opens (s : FsView p) (n : UInt32) (a : InodePtr) (s' : FsView p) : Prop where
  inodeOpen : s.inodeOpen n = some (a, s')
  inodeClose : s'.inodeClose a = some s
  inode : ∃ i, s'.cache.inode a = some i ∧ i.SamePersistent (s.vol.inodeLoad n.toNat)
  view : s' = { s with cache := s'.cache }
  keeps : ∀ b j, s.cache.inode b = some j →
    ∃ j', s'.cache.inode b = some j' ∧ j'.SamePersistent j ∧ j'.writeDeny = j.writeDeny

/-- An inode that is open is counted once more. -/
lemma opens_cached (hs : s.Coherent m) (hmem : a ∈ s.cache.openInodes)
    (hi : s.cache.inode a = some i) (hfind : s.cache.find i.iNo s.cache.openInodes = some (some a)) :
    s.Opens i.iNo a
      { s with cache := s.cache.set a (some { i with iOpenCnts := i.iOpenCnts + 1 }) } := by
  obtain ⟨j, hj, hpos, -, hsame⟩ := hs.listed a hmem
  obtain rfl := some.inj (hi.symm.trans hj)
  have hset : (s.cache.set a (some { i with iOpenCnts := i.iOpenCnts + 1 })).inode a =
      some { i with iOpenCnts := i.iOpenCnts + 1 } := update_self ..
  refine ⟨?_, ?_, ⟨_, hset, hsame⟩, rfl, ?_⟩
  · simp [FsView.inodeOpen, InodeCache.inodeOpen, hfind, hi]
  · have hcnt : i.iOpenCnts + 1 - 1 = i.iOpenCnts := by
      rw [UInt32.add_sub_cancel]
    have hne : ¬ i.iOpenCnts = 0 := by
      intro h0
      rw [h0] at hpos
      exact absurd hpos (by decide)
    simp only [FsView.inodeClose, InodeCache.inodeClose, hset, map_some, hcnt, if_neg hne]
    simp only [InodeCache.set, update_idem]
    rw [← hi, update_eq_self]
  · intro b j hb
    by_cases hba : b = a
    · subst hba
      obtain rfl := some.inj (hi.symm.trans hb)
      exact ⟨_, hset, .refl _, rfl⟩
    · exact ⟨j, (update_of_ne hba ..).trans hb, .refl _, rfl⟩

/-- An inode that is not open is read in. -/
lemma opens_new (hs : s.Coherent m) (hfind : s.cache.find n s.cache.openInodes = some none) :
    s.Opens n (.kernel (freshAddr s.cache.openInodes))
      { s with
        cache := s.cache.push (.kernel (freshAddr s.cache.openInodes))
          ({ s.vol.inodeLoad n.toNat with iOpenCnts := 1 }) } := by
  obtain ⟨new, hnew⟩ : ∃ new, new = InodePtr.kernel (freshAddr s.cache.openInodes) := ⟨_, rfl⟩
  have hfresh : new ∉ s.cache.openInodes := hnew ▸ freshAddr_notMem _
  have hnone : s.cache.inode new = none := by
    by_contra hne
    exact hfresh (hs.memory new hne)
  rw [← hnew]
  have hset := s.cache.inode_push_self new { s.vol.inodeLoad n.toNat with iOpenCnts := 1 }
  refine ⟨?_, ?_, ⟨_, hset, .refl _⟩, rfl, ?_⟩
  · rw [FsView.inodeOpen, InodeCache.inodeOpen, hfind, ← hnew]
    simp only [if_pos hnone, map_some]
    rfl
  · rw [FsView.inodeClose, InodeCache.inodeClose, hset]
    simp only [map_some, UInt32.sub_self, if_true]
    rw [InodeCache.erase_push _ hnone]
  · intro b j hb
    have hba : b ≠ new := by
      rintro rfl
      rw [hnone] at hb
      cases hb
    exact ⟨j, (update_of_ne hba ..).trans hb, .refl _, rfl⟩

lemma Coherent.opens (hs : s.Coherent m) (n : UInt32) : ∃ a s', s.Opens n a s' := by
  have hne : s.cache.find n s.cache.openInodes ≠ none := by
    refine InodeCache.find_ne_none fun a ha => ?_
    obtain ⟨i, hi, -⟩ := hs.listed a ha
    simp [hi]
  obtain ⟨r, hr⟩ := Option.ne_none_iff_exists'.mp hne
  cases r with
  | none => exact ⟨_, _, opens_new hs hr⟩
  | some a =>
    obtain ⟨hmem, i, hi, rfl⟩ := InodeCache.find_eq_some hr
    exact ⟨a, _, opens_cached hs hmem hi hr⟩

namespace Opens

variable (h : s.Opens n a s')
include h

lemma vol : s'.vol = s.vol := by
  rw [h.view]

lemma rootInode : s'.rootInode = s.rootInode := by
  rw [h.view]

lemma fileTable : s'.fileTable = s.fileTable := by
  rw [h.view]

lemma cases : (∃ i, a ∈ s.cache.openInodes ∧ s.cache.inode a = some i ∧ i.iNo = n ∧
      s'.cache = s.cache.set a (some { i with iOpenCnts := i.iOpenCnts + 1 })) ∨
    (a = .kernel (freshAddr s.cache.openInodes) ∧ s.cache.inode a = none ∧
      (∀ b ∈ s.cache.openInodes, ∃ i, s.cache.inode b = some i ∧ i.iNo ≠ n) ∧
      s'.cache = s.cache.push a ({ s.vol.inodeLoad n.toNat with iOpenCnts := 1 })) := by
  have hopen := h.inodeOpen
  obtain ⟨⟨b, c⟩, hc, heq⟩ := map_eq_some_iff.mp hopen
  cases heq
  rcases InodeCache.inodeOpen_eq_some hc with hcached | ⟨rfl, hnone, hothers, rfl⟩
  · exact .inl hcached
  · exact .inr ⟨rfl, hnone, hothers, rfl⟩

/-- What is open is still in order after one more opening. -/
lemma coherent (hs : s.Coherent (m + 1))
    (hno : (s.vol.inodeLoad n.toNat).iNo = n) : s'.Coherent m := by
  rcases h.cases with ⟨i, hmem, hi, rfl, hc⟩ | ⟨ha, hnone, -, hc⟩
  · have hother : ∀ b, b ≠ a → s'.cache.inode b = s.cache.inode b := fun b hb => by
      rw [hc]
      exact update_of_ne hb ..
    have hself : s'.cache.inode a = some { i with iOpenCnts := i.iOpenCnts + 1 } := by
      rw [hc]
      exact update_self ..
    have hlist : s'.cache.openInodes = s.cache.openInodes := by
      rw [hc]
      rfl
    refine ⟨?_, ?_, hlist ▸ hs.nodup, ?_, ?_⟩
    · intro b hb
      rw [hlist] at hb
      obtain ⟨j, hj, hpos, hlt, hsame⟩ := hs.listed b hb
      by_cases hba : b = a
      · subst hba
        obtain rfl := some.inj (hi.symm.trans hj)
        have hcnt : (i.iOpenCnts + 1).toNat = i.iOpenCnts.toNat + 1 := by
          rw [UInt32.toNat_add]
          simp only [UInt32.toNat_one]
          omega
        refine ⟨_, hself, ?_, ?_, ?_⟩
        · simp only [hcnt]
          omega
        · simp only [hcnt]
          omega
        · rw [h.vol]
          exact hsame
      · exact ⟨j, (hother b hba).trans hj, hpos, by omega, by rw [h.vol]; exact hsame⟩
    · intro b hb
      rw [hlist]
      by_cases hba : b = a
      · exact hba ▸ hmem
      · exact hs.memory b (by rwa [← hother b hba])
    · obtain ⟨j, hj, hj0⟩ := hs.root
      rw [h.rootInode]
      by_cases hra : s.rootInode = a
      · rw [hra] at hj ⊢
        obtain rfl := some.inj (hi.symm.trans hj)
        exact ⟨_, hself, hj0⟩
      · exact ⟨j, (hother _ hra).trans hj, hj0⟩
    · intro g b hb
      rw [h.fileTable] at hb
      rw [hlist]
      exact hs.files g b hb
  · have hother : ∀ b, b ≠ a → s'.cache.inode b = s.cache.inode b := fun b hb => by
      rw [hc]
      exact update_of_ne hb ..
    have hself := s.cache.inode_push_self a ({ s.vol.inodeLoad n.toNat with iOpenCnts := 1 })
    rw [← hc] at hself
    have hlist : s'.cache.openInodes = a :: s.cache.openInodes := by
      rw [hc]
      rfl
    have hne : ∀ b ∈ s.cache.openInodes, b ≠ a := by
      rintro b hb rfl
      exact freshAddr_notMem _ (ha ▸ hb)
    refine ⟨?_, ?_, ?_, ?_, ?_⟩
    · intro b hb
      rw [hlist] at hb
      rcases mem_cons.mp hb with rfl | hb
      · have hm : 1 + m < 2 ^ 32 := by
          obtain ⟨j, hj, -⟩ := hs.root
          obtain ⟨k, -, hpos, hlt, -⟩ := hs.listed s.rootInode (hs.memory _ (by simp [hj]))
          omega
        refine ⟨_, hself, Nat.one_pos, hm, ?_⟩
        rw [h.vol]
        simp only [hno]
        exact ⟨hno.symm, rfl, fun _ _ => rfl⟩
      · obtain ⟨j, hj, hpos, hlt, hsame⟩ := hs.listed b hb
        exact ⟨j, (hother b (hne b hb)).trans hj, hpos, by omega, by rw [h.vol]; exact hsame⟩
    · intro b hb
      rw [hlist, mem_cons]
      by_cases hba : b = a
      · exact .inl hba
      · exact .inr (hs.memory b (by rwa [← hother b hba]))
    · rw [hlist, nodup_cons]
      exact ⟨fun hmem => hne a hmem rfl, hs.nodup⟩
    · obtain ⟨j, hj, hj0⟩ := hs.root
      rw [h.rootInode]
      exact ⟨j, (hother _ (hne _ (hs.memory _ (by simp [hj])))).trans hj, hj0⟩
    · intro g b hb
      rw [h.fileTable] at hb
      rw [hlist]
      exact mem_cons_of_mem _ (hs.files g b hb)

lemma dirOpen : s.dirOpen n = some (.opened a, s') := by
  rw [FsView.dirOpen, h.inodeOpen, map_some]

lemma dirClose : s'.dirClose (.opened a) = some s := h.inodeClose

end Opens

/-- The directory with number `d` that `search_file` has open in `s'`, having started in `s`. -/
inductive Holding (s : FsView p) (d : UInt32) : DirPtr → FsView p → Prop
  | rootDir (hd : d = 0) : Holding s d .rootDir s
  | opened {a : InodePtr} {s' : FsView p} (h : s.Opens d a s') : Holding s d (.opened a) s'

namespace Holding

variable (h : s.Holding d dir s')
include h

lemma dirClose : s'.dirClose dir = some s := by
  cases h with
  | rootDir => rfl
  | opened h => exact h.dirClose

lemma vol : s'.vol = s.vol := by
  cases h with
  | rootDir => rfl
  | opened h => exact h.vol

lemma coherent (hs : s.Coherent (m + 1))
    (hno : (s.vol.inodeLoad d.toNat).iNo = d) : s'.Coherent m := by
  cases h with
  | rootDir =>
    refine ⟨fun a ha => ?_, hs.memory, hs.nodup, hs.root, hs.files⟩
    obtain ⟨i, hi, hpos, hlt, hsame⟩ := hs.listed a ha
    exact ⟨i, hi, hpos, by omega, hsame⟩
  | opened h => exact h.coherent hs hno

lemma inodeOf (hs : s.Coherent m) :
    ∃ i, s'.inodeOf dir = some i ∧ i.SamePersistent (s.vol.inodeLoad d.toNat) := by
  cases h with
  | rootDir hd =>
    obtain ⟨i, hi, hno⟩ := hs.root
    obtain ⟨j, hj, -, -, hsame⟩ := hs.listed s.rootInode (hs.memory _ (by simp [hi]))
    obtain rfl := some.inj (hi.symm.trans hj)
    rw [hd, ← hno]
    exact ⟨i, hi, hsame⟩
  | opened h => exact h.inode

end Holding

end FsView

/-! ### Lookups -/

lemma Inode.SamePersistent.loadBlocks_eq (h : i.SamePersistent j) (disk : Bytes) :
    loadBlocks disk i = loadBlocks disk j :=
  funext (loadBlocks_inode fun k hk => h.2.2 k (by omega))

lemma Inode.SamePersistent.searchDirEntry_eq (h : i.SamePersistent j)
    (ok : Bool) (name : List UInt8) : searchDirEntry ok v i name = searchDirEntry ok v j name := by
  rw [searchDirEntry, searchDirEntry, h.loadBlocks_eq]

/-- What `search_dir_entry` copies out is what the name stands for. -/
lemma Vol.IsTree.searchDirEntry
    (ht : v.IsTree t) (hd : t.IsDir d) (hi : i.SamePersistent (v.inodeLoad d.toNat)) (hne : name ≠ [])
    (hnul : 0 ∉ name) :
    (SimpleOs.searchDirEntry true v i name = none ∧ v.lookup d name = none) ∨
      ∃ e, SimpleOs.searchDirEntry true v i name = some e ∧ (e.u32 16).toNat < 4096 ∧
        ((e.u32 20 = FileType.directory.code ∧ v.lookup d name = some (e.u32 16, true)) ∨
          (e.u32 20 = FileType.regular.code ∧ v.lookup d name = some (e.u32 16, false))) := by
  have hlookup : v.lookup d name = (SimpleOs.searchDirEntry true v i name).map fun e =>
      (e.u32 16, decide (e.u32 20 = FileType.directory.code)) := by
    rw [Vol.lookup, if_neg (not_or.mpr ⟨hne, hnul⟩), hi.searchDirEntry_eq]
  cases hr : SimpleOs.searchDirEntry true v i name with
  | none => exact .inl ⟨rfl, by rw [hlookup, hr, Option.map_none]⟩
  | some e =>
    rw [hr, map_some] at hlookup
    refine .inr ⟨e, rfl, ht.lookup_lt hd hlookup, ?_⟩
    obtain ⟨σ, hσ⟩ := Option.ne_none_iff_exists'.mp hd
    rw [hi.searchDirEntry_eq] at hr
    obtain ⟨k, idx, x, hx, -, hat⟩ := (ht.rep d σ hσ).of_searchDirEntry_eq_some hne hnul hr
    obtain ⟨-, -, hval⟩ := (ht.rep d σ hσ).some_inv hx
    have htype : e.u32 20 = x.fType.code := hat.fType
    -- the entries of a directory have one of two types
    cases hx : x.fType with
    | unknown => exact absurd hx hval.known
    | regular =>
      rw [hx] at htype
      exact .inr ⟨htype, by rw [hlookup, htype]; rfl⟩
    | directory =>
      rw [hx] at htype
      exact .inl ⟨htype, by rw [hlookup, htype]; rfl⟩

lemma SearchResult.ofINo_of_lt (h : n.toNat < 4096) : SearchResult.ofINo n = .inode n := by
  rw [ofINo, if_neg]
  rintro rfl
  exact absurd h (by decide)

/-! ### `search_file` -/

lemma joinNames_append (ns ms : List (List UInt8)) : joinNames (ns ++ ms) = joinNames ns ++ joinNames ms :=
  flatMap_append

lemma joinNames_concat (ns : List (List UInt8)) (name : List UInt8) :
    joinNames (ns ++ [name]) = joinNames ns ++ slash :: name := by
  simp [joinNames]

namespace FsView

variable {s s' : FsView p} {m : Nat} {path : List UInt8}

/-- Names and a path that fit into the buffers of `search_file`. -/
def Fits (names : List (List UInt8)) : Prop :=
  (∀ name ∈ names, name.length < maxFileNameLen) ∧ (joinNames names).length < maxPathLen

/-- How `search_file` ends on a path with the given names: there are none; all of them are those of
directories; one is that of a regular file; or one is missing. -/
inductive Outcome (s : FsView p) : List (List UInt8) → SearchResult × PathSearchRecord × FsView p → Prop
  | unnamed {a : InodePtr} {s' : FsView p} (h : s.Opens 0 a s') :
      Outcome s [] (.uninit, ⟨[], .opened a, .directory⟩, s')
  | directory {init : List (List UInt8)} {last : List UInt8} {q n : UInt32} {a : InodePtr} {s' : FsView p}
      (hfits : Fits (init ++ [last])) (hq : s.vol.hierarchy.walkDirs 0 init = some q)
      (hn : s.vol.lookup q last = some (n, true)) (h : s.Opens q a s') :
      Outcome s (init ++ [last]) (.inode n, ⟨joinNames (init ++ [last]), .opened a, .directory⟩, s')
  | regular {init rest : List (List UInt8)} {last : List UInt8} {d n : UInt32} {dir : DirPtr}
      {s' : FsView p} (hfits : Fits (init ++ [last])) (hd : s.vol.hierarchy.walkDirs 0 init = some d)
      (hn : s.vol.lookup d last = some (n, false)) (h : s.Holding d dir s')
      (hdir : dir = .rootDir ↔ init = []) :
      Outcome s (init ++ last :: rest) (.inode n, ⟨joinNames (init ++ [last]), dir, .regular⟩, s')
  | missing {init rest : List (List UInt8)} {last : List UInt8} {d : UInt32} {dir : DirPtr}
      {s' : FsView p} (hfits : Fits (init ++ [last])) (hd : s.vol.hierarchy.walkDirs 0 init = some d)
      (hn : s.vol.lookup d last = none) (h : s.Holding d dir s') (hdir : dir = .rootDir ↔ init = []) :
      Outcome s (init ++ last :: rest) (.notFound, ⟨joinNames (init ++ [last]), dir, .unknown⟩, s')

/-- The caller of `search_file` gets back to where it was by closing the directory it is given. -/
lemma Outcome.dirClose (h : s.Outcome names r) : r.2.2.dirClose r.2.1.parentDir = some s := by
  cases h with
  | unnamed h => exact h.dirClose
  | directory _ hq hn h => exact h.dirClose
  | regular _ hd hn h => exact h.dirClose
  | missing _ hd hn h => exact h.dirClose

/-- Where the loop is after the names `init`: in directory `d`, which it found in `q`. -/
inductive Searched (v : Vol p) : List (List UInt8) → UInt32 → UInt32 → SearchResult → Prop
  | start : Searched v [] 0 0 .uninit
  | step {init : List (List UInt8)} {last : List UInt8} {d q : UInt32}
      (hq : v.hierarchy.walkDirs 0 init = some q) (hd : v.lookup q last = some (d, true)) :
      Searched v (init ++ [last]) d q (.inode d)

lemma Searched.walkDirs (h : Searched v init d q iNo) : v.hierarchy.walkDirs 0 init = some d := by
  cases h with
  | start => rfl
  | step hq hd => exact Hierarchy.walkDirs_concat.mpr ⟨q, hq, hd⟩

/-- The loop on the names `rest`, after the names `init`. -/
lemma searchLoop_spec (hs : s.Coherent m) (ht : s.vol.IsTree t)
    (hname : name = rest.headD []) (hsub : subNames sub = rest.tail)
    (hfuel : rest.length < fuel) (hnames : ∀ n ∈ rest, IsName n ∧ 0 ∉ n) (hfits : Fits init)
    (hd : Searched s.vol init d q iNo) (hold : s.Holding d dir s') (hdir : dir = .rootDir ↔ init = []) :
    (∃ r, searchLoop fuel s' name sub dir q iNo (joinNames init) = some r ∧ s.Outcome (init ++ rest) r) ∨
      (searchLoop fuel s' name sub dir q iNo (joinNames init) = none ∧ ¬ Fits (init ++ rest)) := by
  induction rest generalizing fuel s' name sub dir d q iNo init with
  | nil =>
    obtain ⟨fuel, rfl⟩ : ∃ f, fuel = f + 1 := ⟨fuel - 1, by simp at hfuel; omega⟩
    obtain ⟨a, s1, hopen⟩ := hs.opens q
    refine .inl ⟨(iNo, ⟨joinNames init, .opened a, .directory⟩, s1), ?_, ?_⟩
    · rw [searchLoop, hname, List.headD_nil, if_pos rfl, hold.dirClose, bind_some, hopen.dirOpen,
        map_some]
    · rw [append_nil]
      cases hd with
      | start => exact .unnamed hopen
      | step hq hd => exact .directory hfits hq hd hopen
  | cons n rest ih =>
    obtain ⟨fuel, rfl⟩ : ∃ f, fuel = f + 1 := ⟨fuel - 1, by simp at hfuel; omega⟩
    subst hname
    rw [List.tail_cons] at hsub
    rw [forall_mem_cons] at hnames
    obtain ⟨⟨hisName, hnul⟩, hnames⟩ := hnames
    have hinit : s.vol.hierarchy.walkDirs 0 init = some d := hd.walkDirs
    have hisDir : t.IsDir d := ht.lawful.walkDirs ht.root hinit
    have hpath : joinNames init ++ slash :: name = joinNames (init ++ [name]) := (joinNames_concat ..).symm
    obtain ⟨i, hi, hsame⟩ := hold.inodeOf hs
    rw [searchLoop, if_neg hisName.1]
    simp only [hpath, hi, bind_some, hold.vol]
    split_ifs with hlong
    · -- the name or the path is too long
      refine .inr ⟨rfl, fun hall => ?_⟩
      rw [append_cons, Fits, joinNames_append, length_append] at hall
      rcases hlong with hlong | hlong
      · have := hall.1 name (by simp)
        omega
      · omega
    have hfits' : Fits (init ++ [name]) := by
      refine ⟨fun n hn => ?_, by omega⟩
      rcases mem_append.mp hn with hn | hn
      · exact hfits.1 n hn
      · rw [mem_singleton.mp hn]
        omega
    rcases ht.searchDirEntry hisDir hsame hisName.1 hnul with ⟨hnone, hlookup⟩ | ⟨e, he, hlt, hcase⟩
    · rw [hnone]
      exact .inl ⟨_, rfl, .missing hfits' hinit hlookup hold hdir⟩
    rw [he]
    simp only
    rcases nextName_cases sub with ⟨hnext, hlong'⟩ | ⟨sub', hnext, htail⟩
    · -- the next name is too long
      refine .inr ⟨by rw [hnext, Option.bind_none], fun hall => ?_⟩
      obtain ⟨n, hn, hlen⟩ := hlong'
      have := hall.1 n (mem_append_right _ (mem_cons_of_mem _ (hsub ▸ hn)))
      omega
    simp only [hnext, bind_some, SearchResult.ofINo_of_lt hlt]
    rcases hcase with ⟨htype, hlookup⟩ | ⟨htype, hlookup⟩
    · -- one directory further down
      obtain ⟨a, s1, hopen⟩ := hs.opens (e.u32 16)
      have hno : i.iNo = d := hsame.1.trans (ht.iNo d hisDir)
      rw [if_pos htype, hold.dirClose, bind_some, hopen.dirOpen, bind_some, hno,
        append_cons init name rest]
      refine ih ?_ ?_ ?_ hnames hfits' (.step hinit hlookup) (.opened hopen) (by simp)
      · rw [hsub]
      · rw [htail, hsub]
      · simp only [length_cons] at hfuel
        omega
    · rw [if_neg (by rw [htype]; decide), if_pos htype]
      exact .inl ⟨_, rfl, .regular hfits' hinit hlookup hold hdir⟩

/-- `search_file` on any path: it stays within its buffers, or some name or the path is too long. -/
lemma searchFile_cases (hs : s.Coherent m) (ht : s.vol.IsTree t) (hnul : 0 ∉ path)
    (hroot : ¬ IsRootPath path) :
    (∃ r, s.searchFile path = some r ∧ s.Outcome (components path) r) ∨
      (s.searchFile path = none ∧ ¬ Fits (components path)) := by
  have hsub : subNames (some path) = components path := rfl
  rw [searchFile, if_neg hroot]
  rcases nextName_cases (some path) with ⟨hnext, n, hn, hlen⟩ | ⟨sub, hnext, htail⟩
  · rw [nextName] at hnext
    refine .inr ⟨by rw [hnext, Option.bind_none], fun hall => ?_⟩
    have := hall.1 n (hsub ▸ hn)
    omega
  · rw [nextName] at hnext
    rw [hsub] at htail
    rw [hnext]
    have hcount := length_components_le path
    have hfits : Fits ([] : List (List UInt8)) := ⟨by simp, by decide⟩
    refine searchLoop_spec hs ht rfl htail (by omega) ?_ hfits .start (.rootDir rfl) (by simp)
    exact fun n hn => ⟨isName_of_mem_components hn, notMem_of_mem_components hnul (by decide) hn⟩

/-- A path that fits into the buffers of `search_file`. -/
structure Readable (path : List UInt8) : Prop where
  absolute : path.head? = some slash
  no_nul : 0 ∉ path
  length_lt : path.length < maxPathLen
  name_lt : ∀ name ∈ components path, name.length < maxFileNameLen

lemma Readable.fits (h : Readable path) : Fits (components path) :=
  ⟨h.name_lt, (length_joinNames_le h.absolute).trans_lt h.length_lt⟩

lemma searchFile_spec (hs : s.Coherent m) (ht : s.vol.IsTree t) (hpath : Readable path)
    (hroot : ¬ IsRootPath path) :
    ∃ r, s.searchFile path = some r ∧ s.Outcome (components path) r :=
  (searchFile_cases hs ht hpath.no_nul hroot).resolve_right fun h => h.2 hpath.fits

end FsView

end SimpleOs
