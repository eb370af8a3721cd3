import SimpleOs.Fs.Path.Cwd
import SimpleOs.Fs.Path.Rmdir

/-!
# Acting on what a path names

`search_file` stops at a regular file even when there are more names, and returns it. `sys_open` compares
depths and `sys_chdir` wants a directory, but `sys_unlink` and `sys_stat` take the file for what the path
names.
-/

namespace SimpleOs

open Base Option Hierarchy

variable {p : Partition}

namespace FsView

variable {s s' : FsView p} {t : DirTree}
  {dir : DirPtr}

/-- The calls that act on an existing file or directory; `sys_open` without `O_CREAT`. -/
inductive PathCall where
  | unlink (okIoBuf : Bool)
  | stat
  | chdir
  | openFile (okIoBuf okInode : Bool) (flags : UInt8) (noCreat : flags &&& oCreat = 0)

/-- The names lead to the regular file `n` in directory `d`, with the names `rest` left over. -/
def MeetsFile (s : FsView p) (path : List UInt8) (d n : UInt32) (rest : List (List UInt8)) : Prop :=
  ∃ init last, components path = init ++ last :: rest ∧ s.vol.hierarchy.walkDirs 0 init = some d ∧
    s.vol.lookup d last = some (n, false)

/-- The call returns. If it succeeds, the names of the path lead to an inode, and it is that inode that is
removed, described, made the working directory or opened; otherwise it returns `-1`. But for the removal
the partition does not change. -/
def ActsOnNamed (s : FsView p) (t : DirTree) (path : List UInt8) : PathCall → Prop
  | .unlink okIoBuf => ∃ ret s', s.sysUnlink okIoBuf path = some (ret, s') ∧
    (ret = 0 ∧ (∃ n, s.vol.hierarchy.walk 0 (components path) = some (n, false) ∧
        s'.vol.Consistent (t.erase n)) ∨
      ret = -1 ∧ s'.vol = s.vol)
  | .stat => ∃ buf s', s.sysStat path = some (buf, s') ∧ s'.vol = s.vol ∧
    ∀ st, buf = some st → ∃ n b, s.vol.hierarchy.walk 0 (components path) = some (n, b) ∧
      st = ⟨n, (s.vol.inodeLoad n.toNat).iSize, if b then .directory else .regular⟩
  | .chdir => ∃ ret s', s.sysChdir path = some (ret, s') ∧ s'.vol = s.vol ∧
    (ret = 0 ∧ s.vol.hierarchy.walk 0 (components path) = some (s'.cwdInodeNr, true) ∨
      ret = -1 ∧ s'.cwdInodeNr = s.cwdInodeNr)
  | .openFile okIoBuf okInode flags _ => ∃ fd s', s.sysOpen okIoBuf okInode path flags = some (fd, s') ∧
    s'.vol = s.vol ∧
    (fd = -1 ∨ 0 ≤ fd ∧ ∃ n g a i, s.vol.hierarchy.walk 0 (components path) = some (n, false) ∧
      s'.fdTable fd.toNat = some g ∧ (s'.fileTable g).fdInode = some (.inode a) ∧
      s'.cache.inode a = some i ∧ i.iNo = n)

/-- What it takes: no names are left over at a file that is removed or described, the file can be taken
out of its directory, and a path without names is one of those of the root. -/
def NamesSafely (s : FsView p) (t : DirTree) (path : List UInt8) : PathCall → Prop
  | .unlink okIoBuf => ∀ d n rest, s.MeetsFile path d n rest → okIoBuf = true →
    s.inUseLoop n maxFileOpen 0 = some false → rest = [] ∧ s.vol.Removable t d n
  | .stat => (components path = [] → IsRootPath path) ∧ ∀ d n rest, s.MeetsFile path d n rest → rest = []
  | .chdir => components path = [] → IsRootPath path
  | .openFile .. => True

/-! ### Files on the way -/

lemma MeetsFile.walk (h : s.MeetsFile path d n rest) :
    s.vol.hierarchy.walk 0 (components path) = if rest = [] then some (n, false) else none := by
  obtain ⟨init, last, hcomp, hd, hn⟩ := h
  rw [hcomp, walk_of_file rest hd hn]

lemma not_meetsFile_of_walk (h : s.vol.hierarchy.walk 0 (components path) = some (c, true)) :
    ¬ s.MeetsFile path d n rest := by
  intro hmeet
  rw [hmeet.walk] at h
  split_ifs at h
  cases h

lemma not_meetsFile_of_nil (h : components path = []) : ¬ s.MeetsFile path d n rest := by
  rintro ⟨init, last, hcomp, -⟩
  rw [h] at hcomp
  simp at hcomp

lemma not_meetsFile_of_missing
    (hcomp : components path = init ++ last :: rest') (hd : s.vol.hierarchy.walkDirs 0 init = some d')
    (hn : s.vol.lookup d' last = none) : ¬ s.MeetsFile path d n rest := by
  rintro ⟨init', last', hcomp', hd', hn'⟩
  obtain ⟨rfl, rfl, -⟩ := walkDirs_stop (hcomp.symm.trans hcomp') hd hd'
    (fun c => by simp [hn]) fun c => by simp [hn']
  obtain rfl := some.inj (hd.symm.trans hd')
  rw [hn] at hn'
  cases hn'

lemma MeetsFile.unique (h : s.MeetsFile path d n rest)
    (h' : s.MeetsFile path d' n' rest') : d = d' ∧ n = n' ∧ rest = rest' := by
  obtain ⟨init, last, hcomp, hd, hn⟩ := h
  obtain ⟨init', last', hcomp', hd', hn'⟩ := h'
  obtain ⟨rfl, rfl, rfl⟩ := walkDirs_stop (hcomp.symm.trans hcomp') hd hd'
    (fun c => by simp [hn]) fun c => by simp [hn']
  obtain rfl := some.inj (hd.symm.trans hd')
  rw [hn] at hn'
  exact ⟨rfl, (Prod.mk.inj (some.inj hn')).1, rfl⟩

/-! ### `sys_stat` and `sys_chdir` -/

/-- What `sys_stat` fills in for an inode. -/
lemma stat_found (hs : s.Coherent 2) (h : s.vol.IsTree t) (hd : t.IsDir d) (hold : s.Holding d dir s')
    (hdir : record.parentDir = dir)
    (hr : s.searchFile path = some (.inode n, record, s')) (hroot : ¬ IsRootPath path) :
    s.sysStat path = some (some ⟨n, (s.vol.inodeLoad n.toNat).iSize, record.fileType⟩, s) := by
  have hs' : s'.Coherent 1 := hold.coherent hs (h.iNo d hd)
  obtain ⟨a, s'', hopen⟩ := hs'.opens n
  obtain ⟨i, hi, hsame⟩ := hopen.inode
  rw [hold.vol] at hsame
  rw [sysStat, if_neg hroot, hr]
  simp only [hopen.inodeOpen, bind_some, hi, hopen.inodeClose, hdir]
  rw [hold.dirClose, map_some, hsame.2.1]

lemma stat_named_iff (hs : s.Coherent 2) (h : s.vol.IsTree t) (hpath : Readable path) :
    s.ActsOnNamed t path .stat ↔ s.NamesSafely t path .stat := by
  by_cases hroot : IsRootPath path
  · have hwalk := walk_of_isRootPath h hroot
    obtain ⟨i, hi, hsame⟩ := (Holding.rootDir rfl : s.Holding 0 .rootDir s).inodeOf hs
    have hret : s.sysStat path = some (some ⟨0, i.iSize, .directory⟩, s) := by
      rw [sysStat, if_pos hroot, hi, map_some]
    refine iff_of_true ⟨_, s, hret, rfl, fun st hst => ⟨0, true, hwalk, ?_⟩⟩
      ⟨fun _ => hroot, fun d n rest hmeet => absurd hmeet (not_meetsFile_of_walk hwalk)⟩
    rw [← some.inj hst, hsame.2.1]
    rfl
  obtain ⟨⟨no, record, s'⟩, hr, hout⟩ := searchFile_spec hs h hpath hroot
  have hclose : s'.dirClose record.parentDir = some s := hout.dirClose
  obtain ⟨names, hnames⟩ : ∃ names, components path = names := ⟨_, rfl⟩
  rw [hnames] at hout
  cases hout with
  | unnamed =>
    refine iff_of_false ?_ fun hsafe => hroot (hsafe.1 hnames)
    rintro ⟨buf, s1, heq, -⟩
    rw [sysStat, if_neg hroot, hr] at heq
    cases heq
  | @directory init last q n a s' hfits hq hn hopen =>
    have hwalk : s.vol.hierarchy.walk 0 (components path) = some (n, true) := by
      rw [hnames]
      exact walk_concat.mpr ⟨q, hq, hn⟩
    have hret := stat_found hs h (h.lawful.walkDirs h.root hq) (.opened hopen) rfl hr hroot
    refine iff_of_true ⟨_, s, hret, rfl, fun st hst => ⟨n, true, hwalk, (some.inj hst).symm⟩⟩
      ⟨fun hnil => ?_, fun d n rest hmeet => absurd hmeet (not_meetsFile_of_walk hwalk)⟩
    simp [hnames] at hnil
  | @regular init rest last d n dir s' hfits hd hn hold =>
    have hmeet : s.MeetsFile path d n rest := ⟨init, last, hnames, hd, hn⟩
    have hret := stat_found hs h (h.lawful.walkDirs h.root hd) hold rfl hr hroot
    constructor
    · rintro ⟨buf, s1, heq, -, hst⟩
      refine ⟨fun hnil => by simp [hnames] at hnil, fun d' n' rest' hmeet' => ?_⟩
      obtain ⟨-, -, rfl⟩ := hmeet.unique hmeet'
      rw [hret] at heq
      cases heq
      obtain ⟨n1, b, hwalk, -⟩ := hst _ rfl
      rw [hmeet.walk] at hwalk
      by_contra hrest
      rw [if_neg hrest] at hwalk
      cases hwalk
    · intro hsafe
      have hwalk := hmeet.walk
      rw [if_pos (hsafe.2 d n rest hmeet)] at hwalk
      exact ⟨_, s, hret, rfl, fun st hst => ⟨n, false, hwalk, (some.inj hst).symm⟩⟩
  | @missing init rest last d dir s' hfits hd hn hold =>
    have hret : s.sysStat path = some (none, s) := by
      rw [sysStat, if_neg hroot, hr, bind_some]
      simp only
      rw [hclose, map_some]
    refine iff_of_true ⟨none, s, hret, rfl, fun st hst => by cases hst⟩
      ⟨fun hnil => ?_, fun d n rest hmeet => absurd hmeet (not_meetsFile_of_missing hnames hd hn)⟩
    simp [hnames] at hnil

lemma chdir_named_iff (hs : s.Coherent 2) (h : s.vol.IsTree t) (hpath : Readable path) :
    s.ActsOnNamed t path .chdir ↔ s.NamesSafely t path .chdir := by
  by_cases hdirs : ∃ c, s.vol.hierarchy.walkDirs 0 (components path) = some c ∧
      (components path ≠ [] ∨ IsRootPath path)
  · obtain ⟨c, hdirs, hne⟩ := hdirs
    refine iff_of_true ⟨0, _, sysChdir_eq hs h hpath hne hdirs, rfl, .inl ⟨rfl, ?_⟩⟩ fun hnil =>
      hne.resolve_left (not_not.mpr hnil)
    exact walk_eq_some_true.mpr hdirs
  by_cases hroot : IsRootPath path
  · exact absurd ⟨0, walk_eq_some_true.mp (walk_of_isRootPath h hroot), .inr hroot⟩ hdirs
  obtain ⟨⟨no, record, s'⟩, hr, hout⟩ := searchFile_spec hs h hpath hroot
  have hclose : s'.dirClose record.parentDir = some s := hout.dirClose
  obtain ⟨names, hnames⟩ : ∃ names, components path = names := ⟨_, rfl⟩
  rw [hnames] at hout
  cases hout with
  | unnamed =>
    refine iff_of_false ?_ fun hsafe => hroot (hsafe hnames)
    rintro ⟨ret, s1, heq, -⟩
    rw [sysChdir, hr] at heq
    cases heq
  | @directory init last q n a s' hfits hq hn hopen =>
    have hwalk : s.vol.hierarchy.walkDirs 0 (components path) = some n := by
      rw [hnames]
      exact walkDirs_concat.mpr ⟨q, hq, hn⟩
    exact absurd ⟨n, hwalk, .inl (by simp [hnames])⟩ hdirs
  | @regular init rest last d n dir s' hfits hd hn hold =>
    have hret : s.sysChdir path = some (-1, s) := by
      rw [sysChdir, hr, bind_some]
      simp only [reduceCtorEq, if_false]
      rw [closeAndReturn, hclose, map_some]
    exact iff_of_true ⟨-1, s, hret, rfl, .inr ⟨rfl, rfl⟩⟩ fun hnil => by simp [hnames] at hnil
  | @missing init rest last d dir s' hfits hd hn hold =>
    have hret : s.sysChdir path = some (-1, s) := by
      rw [sysChdir, hr, bind_some]
      simp only
      rw [closeAndReturn, hclose, map_some]
    exact iff_of_true ⟨-1, s, hret, rfl, .inr ⟨rfl, rfl⟩⟩ fun hnil => by simp [hnames] at hnil

/-! ### `sys_open` -/

/-- A descriptor that `file_open` returns is that of the inode. -/
lemma fileOpen_named (hs : s.Coherent m) (hn : (s.vol.inodeLoad n.toNat).iNo = n) (flags : UInt8) :
    ∃ fd s', s.fileOpen n flags = some (fd, s') ∧ s'.vol = s.vol ∧
      (fd = -1 ∨ 0 ≤ fd ∧ ∃ g a i, s'.fdTable fd.toNat = some g ∧
        (s'.fileTable g).fdInode = some (.inode a) ∧ s'.cache.inode a = some i ∧ i.iNo = n) := by
  rcases fileOpen_cases hs n flags with ⟨-, heq⟩ | ⟨g, a, s', -, hopen, hcase⟩
  · exact ⟨-1, s, heq, rfl, .inl rfl⟩
  rcases hcase with ⟨-, -, heq⟩ | ⟨-, c, hc, heq⟩
  · exact ⟨-1, _, heq, hopen.vol, .inl rfl⟩
  cases hfd : s'.freeFd with
  | none =>
    rw [pcbFdInstall_of_none (by exact hfd)] at heq
    exact ⟨-1, _, heq, hopen.vol, .inl rfl⟩
  | some fd =>
    rw [pcbFdInstall_of_some (by exact hfd)] at heq
    obtain ⟨i, hi, hsame⟩ := hopen.inode
    obtain ⟨j, hj, hno, -⟩ := hc.inode hi
    refine ⟨fd, _, heq, hopen.vol, .inr ⟨Int.natCast_nonneg fd, g, a, j, ?_, ?_, hj, ?_⟩⟩
    · exact Function.update_self ..
    · simp only [Function.update_self]
    · rw [hno, hsame.1, hn]

lemma openFile_named (hs : s.Coherent 2) (h : s.vol.Consistent t) (hpath : Readable path)
    (okIoBuf okInode : Bool) (hflags : flags &&& oCreat = 0) :
    s.ActsOnNamed t path (.openFile okIoBuf okInode flags hflags) := by
  rw [ActsOnNamed]
  have hcase := sysOpen_cases hs h.toIsTree hpath.no_nul okIoBuf okInode flags
  generalize s.sysOpen okIoBuf okInode path flags = r at hcase ⊢
  cases hcase with
  | tooLong hfits => exact absurd hpath.fits hfits
  | noSlash hslash => exact absurd (List.mem_of_mem_head? hpath.absolute) hslash
  | refused => exact ⟨-1, s, rfl, rfl, .inl rfl⟩
  | create _ hflag => exact absurd hflags hflag
  | @file d n dir s' _ _ hfile hd hold =>
    obtain ⟨init, last, -, hinit, hlookup⟩ := hd
    have hdir : t.IsDir d := h.lawful.walkDirs h.root hinit
    obtain ⟨hdot, hdotDot⟩ := h.lookup_false hdir hlookup
    obtain ⟨k, idx, e, he, -, rfl, -, ho, hin⟩ := h.of_lookup hdir hdot hdotDot hlookup
    have hno : (s'.vol.inodeLoad e.iNo.toNat).iNo = e.iNo := by
      rw [hold.vol]
      exact UInt32.toNat_inj.mp (h.inode_iNo _ hin.iNo_lt (h.used d k idx e he ho))
    obtain ⟨fd, s1, heq, hvol, hfd⟩ := fileOpen_named (hold.coherent hs (h.iNo d hdir)) hno flags
    refine ⟨fd, s1, heq, hvol.trans hold.vol, hfd.imp_right ?_⟩
    rintro ⟨hpos, g, a, i, hfd, hslot, hi, hi'⟩
    exact ⟨hpos, e.iNo, g, a, i, hfile.2, hfd, hslot, hi, hi'⟩

/-! ### `sys_unlink` -/

/-- Whether a file is in use does not change with a directory that is opened, and is known. -/
lemma Holding.inUseLoop (hold : s.Holding d dir s') (hs : s.Coherent m) (n : UInt32) (k g : Nat) :
    s'.inUseLoop n k g = s.inUseLoop n k g ∧ ∃ b, s.inUseLoop n k g = some b := by
  have htable : s'.fileTable = s.fileTable := by
    cases hold with
    | rootDir => rfl
    | opened hopen => exact hopen.fileTable
  have hpage : s'.pageWord = s.pageWord := by
    cases hold with
    | rootDir => rfl
    | opened hopen => rw [hopen.view]
  have hinode : ∀ a i, s.cache.inode a = some i → ∃ j, s'.cache.inode a = some j ∧ j.iNo = i.iNo := by
    intro a i hi
    cases hold with
    | rootDir => exact ⟨i, hi, rfl⟩
    | opened hopen =>
      obtain ⟨j, hj, hsame, -⟩ := hopen.keeps a i hi
      exact ⟨j, hj, hsame.1⟩
  induction k generalizing g with
  | zero => exact ⟨rfl, false, rfl⟩
  | succ k ih =>
    obtain ⟨heq, b, hb⟩ := ih (g + 1)
    rw [FsView.inUseLoop, FsView.inUseLoop, htable, hpage, heq]
    cases hg : (s.fileTable g).fdInode with
    | none => exact ⟨rfl, b, hb⟩
    | some f =>
      cases f with
      | page a =>
        refine ⟨rfl, ?_⟩
        simp only
        split_ifs
        · exact ⟨true, rfl⟩
        · exact ⟨b, hb⟩
      | inode a =>
        obtain ⟨i, hi, -⟩ := hs.listed a (hs.files g a hg)
        obtain ⟨j, hj, hno⟩ := hinode a i hi
        simp only [hi, hj, bind_some, hno]
        refine ⟨trivial, ?_⟩
        split_ifs
        · exact ⟨true, rfl⟩
        · exact ⟨b, hb⟩

lemma unlinkFound_of_removable (hs : s.Coherent (m + 1))
    (h : s.vol.Consistent t) (hl : t.LeafAt d σ k idx e) (hold : s.Holding d dir s')
    (hrem : s.vol.Removable t d e.iNo) :
    ∃ s1, ((s'.deleteEntry dir e.iNo).bind fun s => (s.inodeRelease e.iNo).bind fun s =>
        s.closeAndReturn dir 0) = some (0, s1) ∧
      s.vol.Removed d e.iNo (DirTree.eraseSlots e.iNo σ) s1.vol ∧ s.Updates d (s'.dirInode dir) s1 := by
  have hs' : s'.Coherent m := hold.coherent hs (h.iNo d hl.isDir)
  obtain ⟨parent, hp, hparent⟩ := hold.inodeOf hs
  rw [← hold.vol] at h hparent hrem ⊢
  obtain ⟨s3, s4, hs3, hs4, hrm, hupd⟩ := removeEntry_of_removable hs' h hl hp hparent hrem
  obtain ⟨s1, hs1, hupd1, hvol1⟩ := hupd.dirClose hold.dirClose
  refine ⟨s1, ?_, hvol1 ▸ hrm, hupd1⟩
  rw [hs3, bind_some, hs4, bind_some, closeAndReturn, hs1, map_some]

/-- A file that is not in use is removed, if there is memory. -/
lemma unlink_file_iff (hs : s.Coherent 2) (h : s.vol.Consistent t)
    (hl : t.LeafAt d σ k idx e) (hold : s.Holding d dir s') :
    (∃ ret s1, ((s'.deleteEntry dir e.iNo).bind fun s => (s.inodeRelease e.iNo).bind fun s =>
        s.closeAndReturn dir 0) = some (ret, s1) ∧ ret = 0 ∧ s1.vol.Consistent (t.erase e.iNo)) ↔
      s.vol.Removable t d e.iNo := by
  constructor
  · rintro ⟨ret, s1, heq, -, hc⟩
    have hs' : s'.Coherent 1 := hold.coherent hs (h.iNo d hl.isDir)
    obtain ⟨parent, hp, hparent⟩ := hold.inodeOf hs
    rw [← hold.vol] at h hparent ⊢
    obtain ⟨s3, hs3, heq⟩ := bind_eq_some_iff.mp heq
    obtain ⟨s4, hs4, heq⟩ := bind_eq_some_iff.mp heq
    obtain ⟨s5, hs5, heq⟩ := map_eq_some_iff.mp heq
    cases heq
    obtain ⟨r, ino, hr, hvol4, hino⟩ := removeEntry_inv hs' h hl hp hparent hs3 hs4
    by_contra hrem
    rw [dirClose_vol hs5, hvol4] at hc
    exact h.not_consistent_of_not_removable hl hparent hrem hr hino hc
  · intro hrem
    obtain ⟨s1, hs1, hrm, -⟩ := unlinkFound_of_removable hs h hl hold hrem
    exact ⟨0, s1, hs1, rfl, h.removed hl hrm⟩

lemma unlink_named_iff (hs : s.Coherent 2) (h : s.vol.Consistent t) (hpath : Readable path)
    (okIoBuf : Bool) :
    s.ActsOnNamed t path (.unlink okIoBuf) ↔ s.NamesSafely t path (.unlink okIoBuf) := by
  rw [ActsOnNamed, NamesSafely]
  -- a call that refuses, with no file on the way
  have hrefuse : s.sysUnlink okIoBuf path = some (-1, s) → (∀ d n rest, ¬ s.MeetsFile path d n rest) →
      ((∃ ret s', s.sysUnlink okIoBuf path = some (ret, s') ∧
        (ret = 0 ∧ (∃ n, s.vol.hierarchy.walk 0 (components path) = some (n, false) ∧
          s'.vol.Consistent (t.erase n)) ∨ ret = -1 ∧ s'.vol = s.vol)) ↔
      ∀ d n rest, s.MeetsFile path d n rest → okIoBuf = true →
        s.inUseLoop n maxFileOpen 0 = some false → rest = [] ∧ s.vol.Removable t d n) := by
    intro hret hno
    exact iff_of_true ⟨-1, s, hret, .inr ⟨rfl, rfl⟩⟩ fun d n rest hmeet => absurd hmeet (hno d n rest)
  by_cases hroot : IsRootPath path
  · refine hrefuse ?_ fun d n rest => not_meetsFile_of_walk (walk_of_isRootPath h.toIsTree hroot)
    simp [sysUnlink, searchFile, if_pos hroot, closeAndReturn, dirClose]
  obtain ⟨⟨no, record, s'⟩, hr, hout⟩ := searchFile_spec hs h.toIsTree hpath hroot
  have hclose : s'.closeAndReturn record.parentDir (-1) = some (-1, s) := by
    rw [closeAndReturn, hout.dirClose, map_some]
  obtain ⟨names, hnames⟩ : ∃ names, components path = names := ⟨_, rfl⟩
  rw [hnames] at hout
  cases hout with
  | unnamed =>
    refine hrefuse ?_ fun d n rest => not_meetsFile_of_nil hnames
    rw [sysUnlink, hr, bind_some, ← hclose]
  | @directory init last q n a s' hfits hq hn hopen =>
    have hwalk : s.vol.hierarchy.walk 0 (components path) = some (n, true) := by
      rw [hnames]
      exact walk_concat.mpr ⟨q, hq, hn⟩
    refine hrefuse ?_ fun d n rest => not_meetsFile_of_walk hwalk
    rw [sysUnlink, hr, bind_some, ← hclose]
    simp only [if_true]
  | @missing init rest last d dir s' hfits hd hn hold =>
    refine hrefuse ?_ fun d n rest => not_meetsFile_of_missing hnames hd hn
    rw [sysUnlink, hr, bind_some, ← hclose]
  | @regular init rest last d n dir s' hfits hd hn hold =>
    have hmeet : s.MeetsFile path d n rest := ⟨init, last, hnames, hd, hn⟩
    have hdir : t.IsDir d := h.lawful.walkDirs h.root hd
    obtain ⟨heq, inUse, huse⟩ := hold.inUseLoop hs n maxFileOpen 0
    have hsafe : (∀ d n rest, s.MeetsFile path d n rest → okIoBuf = true →
        s.inUseLoop n maxFileOpen 0 = some false → rest = [] ∧ s.vol.Removable t d n) ↔
        (okIoBuf = true → inUse = false → rest = [] ∧ s.vol.Removable t d n) := by
      rw [← Option.some.injEq inUse false, ← huse]
      refine ⟨fun hall => hall d n rest hmeet, fun hone d' n' rest' hmeet' => ?_⟩
      obtain ⟨rfl, rfl, rfl⟩ := hmeet.unique hmeet'
      exact hone
    rw [hsafe, sysUnlink, hr]
    simp only [reduceCtorEq, if_false, heq.trans huse, bind_some]
    by_cases hgo : okIoBuf = true ∧ inUse = false
    swap
    · -- in use, or no memory
      have hcond : (inUse || !okIoBuf) = true := by
        cases okIoBuf <;> cases inUse <;> simp_all
      rw [if_pos hcond, hclose]
      exact iff_of_true ⟨-1, s, rfl, .inr ⟨rfl, rfl⟩⟩ fun hok hfree => absurd ⟨hok, hfree⟩ hgo
    obtain ⟨rfl, rfl⟩ := hgo
    obtain ⟨hdot, hdotDot⟩ := h.lookup_false hdir hn
    obtain ⟨k, idx, e, ⟨σ, hσ, he⟩, -, rfl, hb, ho, hin⟩ := h.of_lookup hdir hdot hdotDot hn
    have hl : t.LeafAt d σ k idx e := by
      refine ⟨hσ, he, ho, ?_⟩
      rintro k' idx' e' ⟨σ', hσ', -⟩
      exact absurd (hin.isDir.mpr (DirTree.isDir_of_slots hσ')) (of_decide_eq_false hb.symm)
    have hiff := unlink_file_iff hs h hl hold
    have hwalk := hmeet.walk
    simp only [true_implies]
    constructor
    · rintro ⟨ret, s1, hret, hcase⟩
      have hzero : ret = 0 := by
        obtain ⟨s3, -, hret⟩ := bind_eq_some_iff.mp hret
        obtain ⟨s4, -, hret⟩ := bind_eq_some_iff.mp hret
        obtain ⟨s5, -, hret⟩ := map_eq_some_iff.mp hret
        exact (Prod.mk.inj hret).1.symm
      subst hzero
      rcases hcase with ⟨-, n', hn', hc⟩ | ⟨hret', -⟩
      · rw [hwalk] at hn'
        split_ifs at hn' with hrest
        cases hn'
        exact ⟨hrest, hiff.mp ⟨0, s1, hret, rfl, hc⟩⟩
      · cases hret'
    · rintro ⟨hrest, hrem⟩
      obtain ⟨ret, s1, hret, rfl, hc⟩ := hiff.mpr hrem
      rw [if_pos hrest] at hwalk
      exact ⟨0, s1, hret, .inl ⟨rfl, e.iNo, hwalk, hc⟩⟩

/-- When the calls that take a path act on what it names, and on nothing else. -/
theorem actsOnNamed_iff (hs : s.Coherent 2) (h : s.vol.Consistent t) (hpath : Readable path)
    (call : PathCall) : s.ActsOnNamed t path call ↔ s.NamesSafely t path call := by
  cases call with
  | unlink okIoBuf => exact unlink_named_iff hs h hpath okIoBuf
  | stat => exact stat_named_iff hs h.toIsTree hpath
  | chdir => exact chdir_named_iff hs h.toIsTree hpath
  | openFile okIoBuf okInode flags hflags =>
    exact iff_of_true (openFile_named hs h hpath okIoBuf okInode hflags) trivial

/-- Removing the file "/f". -/
theorem actsOnNamed_sample :
    (Image.sample.view .smallest).ActsOnNamed Image.sample.tree [47, 102] (.unlink true) := by
  refine (actsOnNamed_iff (Image.coherent_view _ _ (by decide)) (Image.ok_sample.consistent _)
    ⟨by decide, by decide, by decide, by decide⟩ _).mpr ?_
  intro d n rest hmeet _ _
  have hfile : (Image.sample.view .smallest).MeetsFile [47, 102] 0 2 [] :=
    ⟨[], [102], by decide, rfl, by decide +kernel⟩
  obtain ⟨rfl, -, rfl⟩ := hmeet.unique hfile
  refine ⟨rfl, by decide, fun k idx e he _ _ hk => ?_⟩
  obtain ⟨rfl, -⟩ := Image.at_tree.mp he
  omega

/-- Removing "/f/x", where "/f" is a file, removes "/f". -/
theorem not_forall_actsOnNamed : ¬ ∀ (p : Partition) (s : FsView p) (t : DirTree) (path : List UInt8)
    (call : PathCall), s.Coherent 2 → s.vol.Consistent t → Readable path → s.ActsOnNamed t path call := by
  intro hall
  have hrun : ((Image.sample.view .smallest).sysUnlink true [47, 102, 47, 120]).map (·.1) = some 0 := by
    decide +kernel
  have hwalk : (Image.sample.view .smallest).vol.hierarchy.walk 0 (components [47, 102, 47, 120]) = none := by
    decide +kernel
  obtain ⟨ret, s', heq, hcase⟩ := hall .smallest (Image.sample.view .smallest) Image.sample.tree
    [47, 102, 47, 120] (.unlink true) (Image.coherent_view _ _ (by decide)) (Image.ok_sample.consistent _)
    ⟨by decide, by decide, by decide, by decide⟩
  rw [heq, map_some, Option.some.injEq] at hrun
  rcases hcase with ⟨-, n, hn, -⟩ | ⟨hret, -⟩
  · rw [hwalk] at hn
    cases hn
  · cases hret
    cases hrun

end FsView

end SimpleOs
