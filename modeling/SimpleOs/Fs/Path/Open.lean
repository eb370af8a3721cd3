import SimpleOs.Fs.Path.Wash

/-!
# `sys_open`

What `sys_open` comes down to on a consistent file system: it refuses, it opens the file that the names
of the path lead to, or it creates one. In the second case it does not close the directory of the file.
-/

namespace SimpleOs

open Base Option List Hierarchy

variable {p : Partition}

namespace FsView

variable {s s' : FsView p} {t : DirTree} {m : Nat} {n : UInt32} {flags : UInt8}

/-- The names of the path lead to a regular file, and the path does not end in a slash. -/
def NamesFile (s : FsView p) (path : List UInt8) (n : UInt32) : Prop :=
  path.getLast? ≠ some slash ∧ s.vol.hierarchy.walk 0 (components path) = some (n, false)

/-- Only the last name of the path is missing, in directory `d`, and the path does not end in a slash. -/
def NamesNew (s : FsView p) (path : List UInt8) (d : UInt32) : Prop :=
  path.getLast? ≠ some slash ∧ ∃ init last, components path = init ++ [last] ∧
    s.vol.hierarchy.walkDirs 0 init = some d ∧ s.vol.lookup d last = none

/-- What `sys_open` does once it has looked at the path: it refuses, it opens a file or it creates one.
The directory is the one that `search_file` hands over. -/
inductive OpenStep (p : Partition) where
  | refuse (dir : DirPtr) (s : FsView p)
  | fileOpen (dir : DirPtr) (inodeNo : UInt32) (s : FsView p)
  | fileCreate (dir : DirPtr) (filename : List UInt8) (s : FsView p)

/-- The part of `sys_open` that decides. -/
def sysOpenStep (s : FsView p) (pathname : List UInt8) (flags : UInt8) : Option (OpenStep p) :=
  if pathname.getLast? = some slash then some (.refuse .rootDir s)
  else
    (pathDepthCnt pathname).bind fun pathnameDepth => (s.searchFile pathname).bind fun (inodeNo, record, s) =>
      if record.fileType = .directory then some (.refuse record.parentDir s)
      else
        (pathDepthCnt record.searchedPath).bind fun pathSearchedDepth =>
          if pathnameDepth ≠ pathSearchedDepth then some (.refuse record.parentDir s)
          else
            match inodeNo with
            | .uninit => none
            | .notFound =>
              if flags &&& oCreat = 0 then some (.refuse record.parentDir s)
              else (lastName pathname).map fun filename => .fileCreate record.parentDir filename s
            | .inode inodeNo =>
              if flags &&& oCreat ≠ 0 then some (.refuse record.parentDir s)
              else some (.fileOpen record.parentDir inodeNo s)

/-- The rest of `sys_open`. The directory is not closed after `file_open`. -/
def OpenStep.run (okIoBuf okInode : Bool) (flags : UInt8) : OpenStep p → Option (Int × FsView p)
  | .refuse dir s => s.closeAndReturn dir (-1)
  | .fileOpen _ inodeNo s => s.fileOpen inodeNo flags
  | .fileCreate dir filename s =>
    (s.fileCreate okIoBuf okInode dir filename flags).bind fun (fd, s) => s.closeAndReturn dir fd

lemma sysOpen_eq (okIoBuf okInode : Bool) (s : FsView p) (path : List UInt8) (flags : UInt8) :
    s.sysOpen okIoBuf okInode path flags = (s.sysOpenStep path flags).bind (·.run okIoBuf okInode flags) := by
  rw [sysOpen, sysOpenStep]
  by_cases hlast : path.getLast? = some slash
  · rw [if_pos hlast, if_pos hlast]
    rfl
  rw [if_neg hlast, if_neg hlast]
  cases pathDepthCnt path with
  | none => rfl
  | some k =>
    cases s.searchFile path with
    | none => rfl
    | some r =>
      obtain ⟨inodeNo, record, s'⟩ := r
      simp only [bind_some]
      by_cases hdir : record.fileType = .directory
      · rw [if_pos hdir, if_pos hdir]
        rfl
      rw [if_neg hdir, if_neg hdir]
      cases pathDepthCnt record.searchedPath with
      | none => rfl
      | some k' =>
        simp only [bind_some]
        by_cases hdepth : k ≠ k'
        · rw [if_pos hdepth, if_pos hdepth]
          rfl
        rw [if_neg hdepth, if_neg hdepth]
        cases inodeNo with
        | uninit => rfl
        | notFound =>
          simp only
          split_ifs with hflag
          · rfl
          · cases lastName path <;> rfl
        | inode n =>
          simp only
          split_ifs with hflag
          · rfl
          · rfl

/-- What `sys_open` decides to do. -/
inductive OpenStepCase (s : FsView p) (path : List UInt8) (flags : UInt8) : Option (OpenStep p) → Prop
  | tooLong (hfits : ¬ Fits (components path)) : OpenStepCase s path flags none
  | noSlash (hslash : slash ∉ path) : OpenStepCase s path flags none
  | refused {dir : DirPtr} {s' : FsView p} (hclose : s'.dirClose dir = some s)
      (hfile : ∀ n, s.NamesFile path n → flags &&& oCreat ≠ 0)
      (hnew : ∀ d, s.NamesNew path d → flags &&& oCreat = 0) :
      OpenStepCase s path flags (some (.refuse dir s'))
  | file {d n : UInt32} {dir : DirPtr} {s' : FsView p} (hfits : Fits (components path))
      (hflag : flags &&& oCreat = 0) (hfile : s.NamesFile path n)
      (hd : ∃ init last, components path = init ++ [last] ∧ s.vol.hierarchy.walkDirs 0 init = some d ∧
        s.vol.lookup d last = some (n, false))
      (h : s.Holding d dir s') (hdir : dir = .rootDir ↔ (components path).length = 1) :
      OpenStepCase s path flags (some (.fileOpen dir n s'))
  | create {d : UInt32} {dir : DirPtr} {s' : FsView p} {filename : List UInt8}
      (hfits : Fits (components path)) (hflag : flags &&& oCreat ≠ 0) (hnew : s.NamesNew path d)
      (hname : lastName path = some filename) (h : s.Holding d dir s') :
      OpenStepCase s path flags (some (.fileCreate dir filename s'))

/-- What `sys_open` comes down to. -/
inductive OpenCase (okIoBuf okInode : Bool) (s : FsView p) (path : List UInt8) (flags : UInt8) :
    Option (Int × FsView p) → Prop
  | tooLong (hfits : ¬ Fits (components path)) : OpenCase okIoBuf okInode s path flags none
  | noSlash (hslash : slash ∉ path) : OpenCase okIoBuf okInode s path flags none
  | refused (hfile : ∀ n, s.NamesFile path n → flags &&& oCreat ≠ 0)
      (hnew : ∀ d, s.NamesNew path d → flags &&& oCreat = 0) :
      OpenCase okIoBuf okInode s path flags (some (-1, s))
  | file {d n : UInt32} {dir : DirPtr} {s' : FsView p} (hfits : Fits (components path))
      (hflag : flags &&& oCreat = 0) (hfile : s.NamesFile path n)
      (hd : ∃ init last, components path = init ++ [last] ∧ s.vol.hierarchy.walkDirs 0 init = some d ∧
        s.vol.lookup d last = some (n, false))
      (h : s.Holding d dir s') (hdir : dir = .rootDir ↔ (components path).length = 1) :
      OpenCase okIoBuf okInode s path flags (s'.fileOpen n flags)
  | create {d : UInt32} {dir : DirPtr} {s' : FsView p} {filename : List UInt8}
      (hfits : Fits (components path)) (hflag : flags &&& oCreat ≠ 0) (hnew : s.NamesNew path d)
      (hname : lastName path = some filename) (h : s.Holding d dir s') :
      OpenCase okIoBuf okInode s path flags
        ((s'.fileCreate okIoBuf okInode dir filename flags).bind fun (fd, s) => s.closeAndReturn dir fd)

lemma strrchrLoop_ne_none (k : Nat) {last : Option Nat}
    (h : slash ∈ str ∨ last ≠ none) : strrchrLoop str k last ≠ none := by
  induction str generalizing k last with
  | nil => exact h.resolve_left List.not_mem_nil
  | cons c str ih =>
    apply ih
    split_ifs with hc
    · exact .inr (some_ne_none _)
    · rcases h with h | h
      · rcases mem_cons.mp h with h | h
        · exact absurd h.symm hc
        · exact .inl h
      · exact .inr h

lemma strrchrLoop_eq_none (k : Nat) (h : slash ∉ str) : strrchrLoop str k none = none := by
  induction str generalizing k with
  | nil => rfl
  | cons c str ih =>
    rw [mem_cons, not_or] at h
    rw [strrchrLoop, if_neg (Ne.symm h.1)]
    exact ih (k + 1) h.2

lemma exists_lastName (hmem : slash ∈ path) : ∃ filename, lastName path = some filename := by
  obtain ⟨k, hk⟩ := Option.ne_none_iff_exists'.mp
    (strrchrLoop_ne_none 0 (.inl hmem : slash ∈ path ∨ none ≠ none))
  exact ⟨_, by rw [lastName, strrchrSlash, hk, map_some]⟩

lemma lastName_append (h : slash ∉ name) : lastName (cs ++ slash :: name) = some name := by
  rw [lastName, strrchrSlash, strrchrLoop_append cs h, map_some, Nat.zero_add, append_cons,
    drop_left' (by simp)]

/-- The depth of what `search_file` has searched. -/
lemma pathDepthCnt_joinNames (hne : names ≠ []) (hfits : Fits names)
    (hnames : ∀ name ∈ names, IsName name) : pathDepthCnt (joinNames names) = some names.length := by
  have hcomp := components_joinNames hnames
  rw [pathDepthCnt_eq, hcomp]
  · rwa [hcomp]
  · rw [hcomp]
    exact fun name hname => (hfits.1 name hname).le

lemma walk_of_file (rest : List (List UInt8))
    (hd : s.vol.hierarchy.walkDirs 0 init = some d) (hn : s.vol.lookup d last = some (n, false)) :
    s.vol.hierarchy.walk 0 (init ++ last :: rest) = if rest = [] then some (n, false) else none := by
  rw [walk_append_cons hd, walk, Vol.hierarchy_lookup, hn]
  simp

lemma walk_of_missing (rest : List (List UInt8))
    (hd : s.vol.hierarchy.walkDirs 0 init = some d) (hn : s.vol.lookup d last = none) :
    s.vol.hierarchy.walk 0 (init ++ last :: rest) = none := by
  rw [walk_append_cons hd, walk, Vol.hierarchy_lookup, hn]

lemma NamesNew.walk (h : s.NamesNew path d) : s.vol.hierarchy.walk 0 (components path) = none := by
  obtain ⟨-, init, last, hcomp, hd, hn⟩ := h
  rw [hcomp, walk_of_missing [] hd hn]

/-- When a name before the last one is not that of a directory, no last name is missing. -/
lemma NamesNew.rest_eq_nil (h : s.NamesNew path d') (hcomp : components path = init ++ last :: rest)
    (hd : s.vol.hierarchy.walkDirs 0 init = some d) (hn : ∀ c, s.vol.lookup d last ≠ some (c, true)) :
    rest = [] := by
  obtain ⟨-, init', last', hcomp', hd', -⟩ := h
  rcases List.eq_nil_or_concat rest with rfl | ⟨rest', x, rfl⟩
  · rfl
  have heq : init' ++ [last'] = (init ++ last :: rest') ++ [x] := by
    rw [← hcomp', hcomp, List.concat_eq_append, append_assoc, List.cons_append]
  obtain ⟨rfl, -⟩ := append_inj' heq rfl
  rw [walkDirs_append, hd, bind_some, walkDirs] at hd'
  split at hd'
  · next c hc => exact absurd hc (hn c)
  · cases hd'

lemma sysOpenStep_of_directory
    (hlast : path.getLast? ≠ some slash) (hdepth : pathDepthCnt path = some k)
    (hr : s.searchFile path = some (no, record, s')) (htype : record.fileType = .directory) :
    s.sysOpenStep path flags = some (.refuse record.parentDir s') := by
  rw [sysOpenStep, if_neg hlast, hdepth, bind_some, hr, bind_some]
  simp only [htype, if_true]

private lemma length_ne (h : rest ≠ []) :
    (init ++ last :: rest).length ≠ (init ++ [last]).length := by
  have := length_pos_of_ne_nil h
  simp only [length_append, length_cons, length_nil]
  omega

private lemma hisName_concat
    (h : ∀ name ∈ init ++ last :: rest, IsName name) : ∀ name ∈ init ++ [last], IsName name := by
  intro name hname
  refine h name ?_
  rcases mem_append.mp hname with hmem | hmem
  · exact mem_append_left _ hmem
  · exact mem_append_right _ (mem_cons.mpr (.inl (mem_singleton.mp hmem)))

/-- What `sys_open` decides to do with a path of any kind. -/
lemma sysOpenStep_cases (hs : s.Coherent m) (ht : s.vol.IsTree t) (hnul : 0 ∉ path) (flags : UInt8) :
    OpenStepCase s path flags (s.sysOpenStep path flags) := by
  by_cases hlast : path.getLast? = some slash
  · rw [sysOpenStep, if_pos hlast]
    exact .refused rfl (fun n h => absurd hlast h.1) fun d h => absurd hlast h.1
  rcases List.eq_nil_or_concat path with rfl | ⟨cs, c, rfl⟩
  · exact .noSlash List.not_mem_nil
  rw [List.concat_eq_append] at *
  generalize hpath : cs ++ [c] = path at *
  have hne : components path ≠ [] := by
    have hc : path.getLast? = some c := by rw [← hpath, List.getLast?_concat]
    exact components_ne_nil hc fun h => hlast (h ▸ hc)
  rcases pathDepthCnt_cases hne with ⟨hnone, n, hn, hlong⟩ | hdepth
  · rw [sysOpenStep, if_neg hlast, hnone]
    refine .tooLong fun hfits => ?_
    have := hfits.1 n hn
    omega
  by_cases hroot : IsRootPath path
  · -- "/." and "/.."
    have hwalk := walk_of_isRootPath ht hroot
    rw [sysOpenStep_of_directory hlast hdepth (if_pos hroot) rfl]
    refine .refused rfl (fun n h => ?_) fun d h => ?_
    · rw [NamesFile, hwalk] at h
      simp at h
    · rw [h.walk] at hwalk
      cases hwalk
  rcases searchFile_cases hs ht hnul hroot with ⟨⟨no, record, s'⟩, hr, hout⟩ | ⟨hnone, hfits⟩
  swap
  · rw [sysOpenStep, if_neg hlast, hdepth, hnone]
    exact .tooLong hfits
  have hclose : s'.dirClose record.parentDir = some s := hout.dirClose
  have hisName : ∀ name ∈ components path, IsName name := fun name hname => isName_of_mem_components hname
  generalize hnames : components path = names at *
  cases hout with
  | unnamed => exact absurd rfl hne
  | directory hfits hq hn h =>
    rw [sysOpenStep_of_directory hlast hdepth hr rfl]
    have hwalk := walk_concat.mpr ⟨_, hq, hn⟩
    rw [← hnames] at hwalk
    refine .refused hclose (fun n h => ?_) fun d h => ?_
    · rw [NamesFile, hwalk] at h
      simp at h
    · rw [h.walk] at hwalk
      cases hwalk
  | @regular init rest last d n dir s' hfits hd hn h hdir =>
    have hwalk := walk_of_file rest hd hn
    have hsub := hisName_concat hisName
    rw [sysOpenStep, if_neg hlast, hdepth, bind_some, hr, bind_some]
    simp only [reduceCtorEq, if_false]
    rw [pathDepthCnt_joinNames (by simp) hfits hsub, bind_some]
    by_cases hrest : rest = []
    · subst hrest
      by_cases hflag : flags &&& oCreat = 0
      · simp only [hflag, ne_eq, not_true_eq_false, if_false]
        exact .file (hnames ▸ hfits) hflag ⟨hlast, by rw [hnames, hwalk, if_pos rfl]⟩
          ⟨init, last, hnames, hd, hn⟩ h (by rw [hdir, hnames]; simp)
      · simp only [ne_eq, hflag, not_false_eq_true, if_true]
        refine .refused hclose (fun n h => hflag) fun d h => ?_
        rw [← hnames, h.walk] at hwalk
        cases hwalk
    · rw [if_pos (length_ne hrest)]
      rw [if_neg hrest] at hwalk
      refine .refused hclose (fun n h => ?_) fun d h => ?_
      · rw [NamesFile, hnames, hwalk] at h
        simp at h
      · exact absurd (h.rest_eq_nil hnames hd fun c hc => by simp [hn] at hc) hrest
  | @missing init rest last d dir s' hfits hd hn h hdir =>
    have hwalk := walk_of_missing rest hd hn
    rw [← hnames] at hwalk
    have hnofile : ∀ n, s.NamesFile path n → flags &&& oCreat ≠ 0 := by
      intro n h
      rw [NamesFile, hwalk] at h
      cases h.2
    have hsub := hisName_concat hisName
    rw [sysOpenStep, if_neg hlast, hdepth, bind_some, hr, bind_some]
    simp only [reduceCtorEq, if_false]
    rw [pathDepthCnt_joinNames (by simp) hfits hsub, bind_some]
    by_cases hrest : rest = []
    · subst hrest
      rw [if_neg (by simp)]
      by_cases hflag : flags &&& oCreat = 0
      · rw [if_pos hflag]
        exact .refused hclose hnofile fun _ _ => hflag
      · rw [if_neg hflag]
        by_cases hslash : slash ∈ path
        swap
        · rw [lastName, strrchrSlash, strrchrLoop_eq_none 0 hslash]
          exact .noSlash hslash
        obtain ⟨filename, hname⟩ := exists_lastName hslash
        rw [hname]
        exact .create (hnames ▸ hfits) hflag ⟨hlast, init, last, hnames, hd, hn⟩ hname h
    · rw [if_pos (length_ne hrest)]
      exact .refused hclose hnofile fun d h =>
        absurd (h.rest_eq_nil hnames hd fun c hc => by simp [hn] at hc) hrest

/-- What `sys_open` comes down to on a path of any kind. -/
lemma sysOpen_cases (hs : s.Coherent m) (ht : s.vol.IsTree t) (hnul : 0 ∉ path) (okIoBuf okInode : Bool)
    (flags : UInt8) :
    OpenCase okIoBuf okInode s path flags (s.sysOpen okIoBuf okInode path flags) := by
  have hcase := sysOpenStep_cases hs ht hnul flags
  rw [sysOpen_eq]
  generalize s.sysOpenStep path flags = r at hcase ⊢
  cases hcase with
  | tooLong hfits => exact .tooLong hfits
  | noSlash hslash => exact .noSlash hslash
  | refused hclose hfile hnew =>
    rw [bind_some, OpenStep.run, closeAndReturn, hclose]
    exact .refused hfile hnew
  | file hfits hflag hfile hd h hdir => exact .file hfits hflag hfile hd h hdir
  | create hfits hflag hnew hname h => exact .create hfits hflag hnew hname h

end FsView

end SimpleOs
