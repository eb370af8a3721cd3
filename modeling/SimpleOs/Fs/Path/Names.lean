import SimpleOs.Base.PathWalk
import SimpleOs.Fs.Dir.Basic

/-!
# Path names

The functions on path names: `path_parse` and `path_depth_cnt` of `fs/fs.c`, and `wash_path` of
`shell/buildin_cmd.c`. A string is the list of the bytes before its end. The buffer for a name has 16
bytes, and nothing checks that a name fits: a longer one is written behind it, and one of 16 bytes
has no end.
-/

namespace SimpleOs

open Base Option List

/-- The byte between the names of a path. -/
def slash : UInt8 := 47

/-- `MAX_FILE_NAME_LEN`. -/
def maxFileNameLen : Nat := 16

/-- `MAX_PATH_LEN`. -/
def maxPathLen : Nat := 512

/-! ### The functions -/

/-- `path_parse`: the first name and the rest of the path, if there is any. It fails when the name
does not fit into the buffer. -/
def pathParse (pathname : List UInt8) : Option (List UInt8 × Option (List UInt8)) :=
  let path := pathname.dropWhile (· = slash)
  let name := path.takeWhile (· ≠ slash)
  let rest := path.dropWhile (· ≠ slash)
  if maxFileNameLen < name.length then none
  else some (name, if rest = [] then none else some rest)

/-- Clear the buffer and, if there is more, read the next name. -/
def nextName : Option (List UInt8) → Option (List UInt8 × Option (List UInt8))
  | none => some ([], none)
  | some path => pathParse path

/-- The loop of `path_depth_cnt`, with the name that was read last. -/
def depthLoop : (fuel : Nat) → (name : List UInt8) → (p : Option (List UInt8)) → (depth : Nat) → Option Nat
  | 0, _, _, _ => none
  | fuel + 1, name, p, depth =>
    if name = [] then some depth
    else (nextName p).bind fun (name, p) => depthLoop fuel name p (depth + 1)

/-- `path_depth_cnt`. When there is no name in the path, the loop looks at a buffer that nothing was
written to. -/
def pathDepthCnt (pathname : List UInt8) : Option Nat :=
  (pathParse pathname).bind fun (name, p) =>
    if name = [] then none else depthLoop (pathname.length + 1) name p 0

/-- The loop of `strrchr` of a slash, at position `k`; `last` is where the last one was. -/
def strrchrLoop : (str : List UInt8) → (k : Nat) → (last : Option Nat) → Option Nat
  | [], _, last => last
  | c :: str, k, last => strrchrLoop str (k + 1) (if c = slash then some k else last)

/-- `strrchr` of a slash: its position in the string. -/
def strrchrSlash (str : List UInt8) : Option Nat := strrchrLoop str 0 none

/-- The body of the loop of `wash_path`. A path has a slash, so that `strrchr` finds one. -/
def washName (newAbsPath name : List UInt8) : Option (List UInt8) :=
  if name = dotDotName then
    (strrchrSlash newAbsPath).map fun slashPtr =>
      if slashPtr ≠ 0 then newAbsPath.take slashPtr else newAbsPath.take 1
  else if name ≠ dotName then
    some ((if newAbsPath ≠ [slash] then newAbsPath ++ [slash] else newAbsPath) ++ name)
  else some newAbsPath

/-- The loop of `wash_path`. -/
def washLoop : (fuel : Nat) → (name : List UInt8) → (subPath : Option (List UInt8)) →
    (newAbsPath : List UInt8) → Option (List UInt8)
  | 0, _, _, _ => none
  | fuel + 1, name, subPath, newAbsPath =>
    if name = [] then some newAbsPath
    else if maxFileNameLen ≤ name.length then none
    else
      (washName newAbsPath name).bind fun newAbsPath =>
        (nextName subPath).bind fun (name, subPath) => washLoop fuel name subPath newAbsPath

/-- `wash_path`. -/
def washPath (oldAbsPath : List UInt8) : Option (List UInt8) :=
  (pathParse oldAbsPath).bind fun (name, subPath) =>
    if name = [] then some [slash] else washLoop (oldAbsPath.length + 1) name subPath [slash]

/-! ### The names in a path -/

/-- The names in a path. -/
def components : List UInt8 → List (List UInt8)
  | [] => []
  | c :: cs =>
    if c = slash then components cs
    else
      match cs with
      | [] => [[c]]
      | d :: _ => if d = slash then [c] :: components cs else (components cs).modifyHead (c :: ·)

/-- A name that can stand in a path. -/
def IsName (name : List UInt8) : Prop := name ≠ [] ∧ slash ∉ name

/-- The path with the given names. -/
def joinNames (names : List (List UInt8)) : List UInt8 := names.flatMap fun name => slash :: name

variable {name path rest : List UInt8} {names : List (List UInt8)}

@[simp] lemma components_nil : components [] = [] := rfl

@[simp] lemma components_slash (cs : List UInt8) : components (slash :: cs) = components cs := by
  rfl

/-- The first name of a path. -/
lemma components_append (hname : IsName name) (hrest : rest = [] ∨ ∃ cs, rest = slash :: cs) :
    components (name ++ rest) = name :: components rest := by
  obtain ⟨hne, hslash⟩ := hname
  induction name with
  | nil => exact absurd rfl hne
  | cons c name ih =>
    rw [mem_cons, not_or] at hslash
    obtain ⟨hc, hname⟩ := hslash
    rw [components.eq_def]
    cases name with
    | nil =>
      rcases hrest with rfl | ⟨cs, rfl⟩
      · simp [Ne.symm hc]
      · simp [Ne.symm hc]
    | cons d name =>
      have hd : slash ≠ d := fun heq => hname (by simp [heq])
      have hrec := ih (by simp) hname
      rw [List.cons_append] at hrec
      simp only [List.cons_append, Ne.symm hc, Ne.symm hd, if_false, hrec, List.modifyHead_cons]

lemma components_joinNames (h : ∀ name ∈ names, IsName name) : components (joinNames names) = names := by
  induction names with
  | nil => rfl
  | cons name names ih =>
    rw [forall_mem_cons] at h
    have hrest : joinNames names = [] ∨ ∃ cs, joinNames names = slash :: cs := by
      cases names with
      | nil => exact .inl rfl
      | cons n ns => exact .inr ⟨_, rfl⟩
    exact (components_append h.1 hrest).trans (by rw [ih h.2])

lemma isName_of_mem_components (h : name ∈ components path) : IsName name := by
  induction path generalizing name with
  | nil => cases h
  | cons c cs ih =>
    rw [components.eq_def] at h
    simp only at h
    split_ifs at h with hc
    · exact ih h
    cases cs with
    | nil =>
      obtain rfl := mem_singleton.mp h
      exact ⟨by simp, by simp [Ne.symm hc]⟩
    | cons d cs =>
      simp only at h
      split_ifs at h with hd
      · rcases mem_cons.mp h with rfl | h
        · exact ⟨by simp, by simp [Ne.symm hc]⟩
        · exact ih h
      · cases hcs : components (d :: cs) with
        | nil => simp [hcs] at h
        | cons n ns =>
          rw [hcs] at ih
          rw [hcs] at h
          rcases mem_cons.mp h with rfl | h
          · have hn := (ih mem_cons_self).2
            exact ⟨by simp, by simp [Ne.symm hc, hn]⟩
          · exact ih (mem_cons_of_mem _ h)

/-- The names are the stretches of the path without a slash. -/
lemma components_eq (path : List UInt8) : components path = pieces slash path := by
  induction path with
  | nil => simp
  | cons c cs ih =>
    by_cases hc : c = slash
    · rw [hc, components_slash, pieces_sep, ih]
    have hc' : slash ∉ [c] := by simpa using Ne.symm hc
    rw [components.eq_def]
    simp only [if_neg hc]
    cases cs with
    | nil => exact (pieces_append (cons_ne_nil c []) hc' (.inl rfl)).symm
    | cons d ds =>
      simp only
      split_ifs with hd
      · rw [ih, hd]
        exact (pieces_append (cons_ne_nil c []) hc' (.inr ⟨ds, rfl⟩)).symm
      · rw [ih, pieces, pieces, show c :: d :: ds = [c] ++ d :: ds from rfl, splitOn_append hc',
          show d :: ds = [d] ++ ds from rfl, splitOn_append (by simpa using Ne.symm hd)]
        cases ds.splitOn slash <;> simp

/-! ### Reading names -/

lemma components_dropWhile (path : List UInt8) :
    components (path.dropWhile (· = slash)) = components path := by
  induction path with
  | nil => rfl
  | cons c cs ih =>
    rw [List.dropWhile_cons]
    split_ifs with hc
    · rw [ih, of_decide_eq_true hc, components_slash]
    · rfl

lemma dropWhile_slash_ne (path cs : List UInt8) : path.dropWhile (· = slash) ≠ slash :: cs := by
  induction path with
  | nil => simp
  | cons c path ih =>
    rw [List.dropWhile_cons]
    split_ifs with hc
    · exact ih
    · rintro heq
      exact hc (decide_eq_true (List.cons.inj heq).1)

lemma dropWhile_name (path : List UInt8) :
    path.dropWhile (· ≠ slash) = [] ∨ ∃ cs, path.dropWhile (· ≠ slash) = slash :: cs := by
  induction path with
  | nil => exact .inl rfl
  | cons c path ih =>
    rw [List.dropWhile_cons]
    split_ifs with hc
    · exact ih
    · simp only [ne_eq, decide_not, Bool.not_eq_true, Bool.not_eq_false', decide_eq_true_eq] at hc
      exact .inr ⟨path, by rw [hc]⟩

/-- The names in the part of a path that is still to be read. -/
def subNames : Option (List UInt8) → List (List UInt8)
  | none => []
  | some path => components path

lemma components_ne_nil (h : path.getLast? = some c) (hc : c ≠ slash) : components path ≠ [] := by
  induction path with
  | nil => cases h
  | cons b cs ih =>
    rw [components.eq_def]
    cases cs with
    | nil =>
      rw [List.getLast?_singleton] at h
      cases h
      simp [hc]
    | cons d ds =>
      have hne := ih h
      simp only
      split_ifs
      · exact hne
      · exact List.cons_ne_nil _ _
      · intro h0
        exact hne (List.modifyHead_eq_nil_iff.mp h0)

/-- The names of a path and the slashes before them are part of it. -/
lemma joinNames_components_sublist (path : List UInt8) :
    (joinNames (components path)).Sublist (slash :: path) ∧
      (path.head? = some slash → (joinNames (components path)).Sublist path) := by
  induction path with
  | nil => exact ⟨List.nil_sublist _, fun h => by cases h⟩
  | cons c cs ih =>
    by_cases hc : c = slash
    · subst hc
      exact ⟨ih.1.cons _, fun _ => ih.1⟩
    refine ⟨?_, fun h => absurd (some.inj h) hc⟩
    rw [components.eq_def]
    simp only [if_neg hc]
    cases cs with
    | nil => exact List.Sublist.refl _
    | cons d ds =>
      simp only
      split_ifs with hd
      · exact ((ih.2 (by simp [hd])).cons_cons c).cons_cons slash
      · cases hcomp : components (d :: ds) with
        | nil => exact List.nil_sublist _
        | cons m ms =>
          have hsub := ih.1
          rw [hcomp] at hsub
          exact ((List.cons_sublist_cons.mp hsub).cons_cons c).cons_cons slash

lemma length_joinNames_mono (h : ns.Sublist ms) :
    (joinNames ns).length ≤ (joinNames ms).length := by
  induction h with
  | slnil => rfl
  | cons n h ih => simp only [joinNames, flatMap_cons, length_append] at ih ⊢; omega
  | cons_cons n h ih => simp only [joinNames, flatMap_cons, length_append] at ih ⊢; omega

lemma length_joinNames_le (h : path.head? = some slash) :
    (joinNames (components path)).length ≤ path.length :=
  ((joinNames_components_sublist path).2 h).length_le

lemma notMem_of_mem_components (hc : c ∉ path) (hslash : c ≠ slash) (h : name ∈ components path) :
    c ∉ name := by
  intro hmem
  have hjoin : c ∈ joinNames (components path) :=
    mem_flatMap.mpr ⟨name, h, mem_cons_of_mem _ hmem⟩
  rcases mem_cons.mp ((joinNames_components_sublist path).1.subset hjoin) with heq | hin
  · exact hslash heq
  · exact hc hin

lemma isName_of_mem_subNames (h : name ∈ subNames sub) : IsName name := by
  cases sub with
  | none => cases h
  | some path => exact isName_of_mem_components h

/-- What `path_parse` reads: slashes are skipped, then comes the first name. -/
lemma pathParse_eq (path : List UInt8) : ∃ name rest,
    pathParse path = (if maxFileNameLen < name.length then none else some (name, rest)) ∧
      (name = [] ∧ rest = none ∧ components path = [] ∨
        name ≠ [] ∧ components path = name :: subNames rest) := by
  obtain ⟨q, hq⟩ : ∃ q, path.dropWhile (· = slash) = q := ⟨_, rfl⟩
  refine ⟨q.takeWhile (· ≠ slash),
    if q.dropWhile (· ≠ slash) = [] then none else some (q.dropWhile (· ≠ slash)),
    by rw [pathParse, hq], ?_⟩
  have hcomp := components_dropWhile path
  rw [hq] at hcomp
  rw [← hcomp]
  have hnames : slash ∉ q.takeWhile (· ≠ slash) := fun hmem => by
    simpa using List.all_eq_true.mp (List.all_takeWhile (p := (· ≠ slash)) (l := q)) slash hmem
  have hrest := dropWhile_name q
  have happ := List.takeWhile_append_dropWhile (p := (· ≠ slash)) (l := q)
  by_cases hname : q.takeWhile (· ≠ slash) = []
  · -- no name: all slashes were skipped, so the rest does not start with one
    left
    have hnil : q.dropWhile (· ≠ slash) = [] := by
      rcases hrest with hrest | ⟨cs, hcs⟩
      · exact hrest
      · rw [hname, hcs] at happ
        exact absurd (hq.trans happ.symm) (dropWhile_slash_ne path cs)
    rw [hname, hnil, List.nil_append] at happ
    exact ⟨hname, by rw [if_pos hnil], by rw [← happ, components_nil]⟩
  · right
    refine ⟨hname, ?_⟩
    conv_lhs => rw [← happ]
    rw [components_append ⟨hname, hnames⟩ hrest]
    split_ifs with hnil
    · rw [hnil]
      rfl
    · rfl

lemma nextName_cases (sub : Option (List UInt8)) :
    (nextName sub = none ∧ ∃ name ∈ subNames sub, maxFileNameLen < name.length) ∨
      ∃ sub', nextName sub = some ((subNames sub).headD [], sub') ∧
        subNames sub' = (subNames sub).tail := by
  cases sub with
  | none => exact .inr ⟨none, rfl, rfl⟩
  | some path =>
    obtain ⟨name, rest, hparse, ⟨rfl, rfl, hcomp⟩ | ⟨-, hcomp⟩⟩ := pathParse_eq path
    · exact .inr ⟨none, by simp [nextName, hparse, subNames, hcomp], by simp [subNames, hcomp]⟩
    · by_cases hlong : maxFileNameLen < name.length
      · exact .inl ⟨by simp [nextName, hparse, hlong], name, by simp [subNames, hcomp], hlong⟩
      · exact .inr ⟨rest, by simp [nextName, hparse, subNames, hcomp, hlong], by simp [subNames, hcomp]⟩

lemma nextName_eq (hlen : ∀ name ∈ subNames sub, name.length ≤ maxFileNameLen) :
    ∃ sub', nextName sub = some ((subNames sub).headD [], sub') ∧ subNames sub' = (subNames sub).tail :=
  (nextName_cases sub).resolve_left fun ⟨_, name, hname, hlong⟩ =>
    absurd (hlen name hname) (Nat.not_le_of_lt hlong)

lemma length_components_le (path : List UInt8) : (components path).length ≤ path.length := by
  induction path with
  | nil => rfl
  | cons c cs ih =>
    rw [components.eq_def]
    simp only [length_cons]
    split_ifs
    · omega
    cases cs with
    | nil => simp
    | cons d cs =>
      simp only
      split_ifs
      · simp only [length_cons] at ih ⊢
        omega
      · simp only [length_modifyHead]
        omega

/-! ### `path_depth_cnt` -/

lemma depthLoop_cases (hname : name ≠ []) (hfuel : (subNames sub).length + 1 < fuel) :
    (depthLoop fuel name sub depth = none ∧ ∃ n ∈ subNames sub, maxFileNameLen < n.length) ∨
      depthLoop fuel name sub depth = some (depth + (subNames sub).length + 1) := by
  induction fuel generalizing name sub depth with
  | zero => omega
  | succ fuel ih =>
    rw [depthLoop, if_neg hname]
    rcases nextName_cases sub with ⟨hnext, hlong⟩ | ⟨sub', hnext, htail⟩
    · exact .inl ⟨by rw [hnext, Option.bind_none], hlong⟩
    rw [hnext]
    cases hsub : subNames sub with
    | nil =>
      obtain ⟨fuel, rfl⟩ : ∃ f, fuel = f + 1 := ⟨fuel - 1, by omega⟩
      exact .inr (by simp [depthLoop])
    | cons n ns =>
      have hmem : n ∈ subNames sub := by simp [hsub]
      have hne := (isName_of_mem_subNames hmem).1
      rw [hsub] at htail hfuel
      rw [List.tail_cons] at htail
      simp only [length_cons] at hfuel
      have hfuel' : (subNames sub').length + 1 < fuel := by
        rw [htail]
        omega
      rcases ih hne hfuel' with ⟨hnone, hlong⟩ | hsome
      · rw [htail] at hlong
        obtain ⟨m, hm, hlong⟩ := hlong
        exact .inl ⟨hnone, m, mem_cons_of_mem _ hm, hlong⟩
      · refine .inr (hsome.trans ?_)
        rw [htail, length_cons, Option.some.injEq]
        omega

/-- The depth of a path is the number of its names, if they fit into the buffer. -/
lemma pathDepthCnt_cases (hne : components path ≠ []) :
    (pathDepthCnt path = none ∧ ∃ name ∈ components path, maxFileNameLen < name.length) ∨
      pathDepthCnt path = some (components path).length := by
  have hsub : subNames (some path) = components path := rfl
  rcases nextName_cases (some path) with ⟨hnext, hlong⟩ | ⟨sub, hnext, htail⟩
  · rw [nextName] at hnext
    exact .inl ⟨by rw [pathDepthCnt, hnext, Option.bind_none], hlong⟩
  obtain ⟨n, ns, hcomp⟩ := List.exists_cons_of_ne_nil hne
  have hmem : n ∈ components path := by simp [hcomp]
  have hname : n ≠ [] := (isName_of_mem_components hmem).1
  rw [hsub, hcomp, List.tail_cons] at htail
  rw [hsub, hcomp, List.headD_cons, nextName] at hnext
  have hcount := length_components_le path
  rw [hcomp, length_cons] at hcount
  rw [pathDepthCnt, hnext, bind_some, hcomp]
  simp only [if_neg hname]
  have hfuel : (subNames sub).length + 1 < path.length + 1 := by
    rw [htail]
    omega
  rcases depthLoop_cases hname hfuel with ⟨hnone, hlong⟩ | hsome
  · rw [htail] at hlong
    obtain ⟨m, hm, hlong⟩ := hlong
    exact .inl ⟨hnone, m, mem_cons_of_mem _ hm, hlong⟩
  · rw [htail, Nat.zero_add] at hsome
    exact .inr hsome

lemma pathDepthCnt_eq (hne : components path ≠ [])
    (hlen : ∀ name ∈ components path, name.length ≤ maxFileNameLen) :
    pathDepthCnt path = some (components path).length :=
  (pathDepthCnt_cases hne).resolve_left fun ⟨_, name, hname, hlong⟩ =>
    absurd (hlen name hname) (Nat.not_le_of_lt hlong)

/-! ### A path read name by name -/

/-- The names that a loop over a path finds in its buffer, the last one being empty. -/
def nameLoop : (fuel : Nat) → (name : List UInt8) → (p : Option (List UInt8)) →
    Option (List (List UInt8))
  | 0, _, _ => none
  | fuel + 1, name, p =>
    if name = [] then some [name]
    else (nextName p).bind fun (next, p) => (nameLoop fuel next p).map (name :: ·)

/-- The names that `search_file` and `wash_path` read from a path. -/
def readNames (pathname : List UInt8) : Option (List (List UInt8)) :=
  (pathParse pathname).bind fun (name, p) => nameLoop (pathname.length + 1) name p

lemma nameLoop_eq (hfuel : names.length < fuel) (hnames : ∀ name ∈ names, IsName name)
    (hlen : ∀ name ∈ names, name.length ≤ maxFileNameLen) (hsub : subNames sub = names.tail) :
    nameLoop fuel (names.headD []) sub = some (names ++ [[]]) := by
  induction names generalizing sub fuel with
  | nil =>
    obtain ⟨fuel, rfl⟩ := Nat.exists_eq_add_of_lt hfuel
    simp [nameLoop]
  | cons n ns ih =>
    obtain ⟨fuel, rfl⟩ := Nat.exists_eq_add_of_lt (Nat.zero_lt_of_lt hfuel)
    rw [forall_mem_cons] at hnames hlen
    obtain ⟨sub', hnext, hsub'⟩ := nextName_eq (by rw [hsub]; exact hlen.2)
    rw [hsub] at hnext hsub'
    have hrest := ih (by simpa using hfuel) hnames.2 hlen.2 hsub'
    rw [Nat.zero_add, headD_cons, nameLoop, if_neg hnames.1.1, hnext]
    exact congrArg (Option.map (n :: ·)) hrest

/-- Calling `path_parse` on what is left of the path cuts it at its slashes. -/
theorem readNames_eq (path : List UInt8) (hne : pieces slash path ≠ [])
    (hlen : ∀ name ∈ pieces slash path, name.length < maxFileNameLen) :
    readNames path = some (pieces slash path ++ [[]]) ∧
      pathDepthCnt path = some (pieces slash path).length := by
  rw [← components_eq] at *
  have hle : ∀ name ∈ subNames (some path), name.length ≤ maxFileNameLen :=
    fun name h => (hlen name h).le
  refine ⟨?_, pathDepthCnt_eq hne hle⟩
  obtain ⟨sub, hnext, hsub⟩ := nextName_eq hle
  rw [readNames, show pathParse path = _ from hnext, Option.bind_some]
  exact nameLoop_eq (Nat.lt_succ_of_le (length_components_le path))
    (fun _ => isName_of_mem_components) hle hsub

theorem readNames_sample :
    readNames [97, 47, 47, 98, 99, 47] = some [[97], [98, 99], []] ∧
      pathDepthCnt [97, 47, 47, 98, 99, 47] = some 2 :=
  readNames_eq [97, 47, 47, 98, 99, 47] (by decide) (by decide)

/-! ### `wash_path` -/

lemma strrchrLoop_of_notMem (h : slash ∉ name) (k : Nat) (last : Option Nat) :
    strrchrLoop name k last = last := by
  induction name generalizing k with
  | nil => rfl
  | cons c name ih =>
    rw [mem_cons, not_or] at h
    rw [strrchrLoop, if_neg (Ne.symm h.1), ih h.2]

lemma strrchrLoop_append (xs : List UInt8) (h : slash ∉ name) (k : Nat) (last : Option Nat) :
    strrchrLoop (xs ++ slash :: name) k last = some (k + xs.length) := by
  induction xs generalizing k last with
  | nil => simp [strrchrLoop, strrchrLoop_of_notMem h]
  | cons c xs ih =>
    rw [List.cons_append, strrchrLoop, ih, length_cons, Nat.add_assoc, Nat.add_comm 1]

/-- The path with the given names, the last one first; the path of the root is a slash. -/
def absPath (st : List (List UInt8)) : List UInt8 := if st = [] then [slash] else joinNames st.reverse

lemma absPath_cons (name : List UInt8) (st : List (List UInt8)) :
    absPath (name :: st) = joinNames st.reverse ++ slash :: name := by
  simp [absPath, joinNames]

variable {st : List (List UInt8)}

/-- ".." takes the last name off the path. -/
lemma washName_dotDot (hst : ∀ name ∈ st, IsName name) :
    washName (absPath st) dotDotName = some (absPath st.tail) := by
  cases st with
  | nil => rfl
  | cons name st =>
    have hslash := (hst name mem_cons_self).2
    rw [absPath_cons, washName, if_pos rfl, strrchrSlash, strrchrLoop_append _ hslash]
    rw [map_some, Nat.zero_add, List.tail_cons]
    cases st with
    | nil => simp [joinNames, absPath]
    | cons m st =>
      have hpos : (joinNames (m :: st).reverse).length ≠ 0 := by simp [joinNames]
      rw [if_pos hpos, take_left, absPath, if_neg (List.cons_ne_nil m st)]

/-- Any other name is put at the end. -/
lemma washName_name (hst : ∀ name ∈ st, IsName name)
    (hdot : name ≠ dotName) (hdotDot : name ≠ dotDotName) :
    washName (absPath st) name = some (absPath (name :: st)) := by
  rw [washName, if_neg hdotDot, if_pos hdot, absPath_cons]
  cases st with
  | nil => rfl
  | cons m st =>
    have hne : absPath (m :: st) ≠ [slash] := by
      rw [absPath_cons]
      intro heq
      have hlen := congrArg List.length heq
      have hm := length_pos_of_ne_nil (hst m mem_cons_self).1
      simp only [length_append, length_cons, length_nil] at hlen
      omega
    rw [if_pos hne]
    simp [absPath]

variable {D : Type} {h : Base.Hierarchy D (List UInt8)}

/-- One round of `wash_path` is one step of the normalisation. -/
lemma washName_eq (hdot : h.dot = dotName) (hdotDot : h.dotDot = dotDotName)
    (hst : ∀ name ∈ st, IsName name) (name : List UInt8) :
    washName (absPath st) name = some (absPath (h.push st name)) := by
  rw [Base.Hierarchy.push, hdot, hdotDot]
  split_ifs with hdd hd
  · rw [hdd, washName_dotDot hst]
  · rw [hd, washName, if_neg (by decide), if_neg (by simp)]
  · exact washName_name hst hd hdd

lemma isName_push (hst : ∀ name ∈ st, IsName name) (hname : IsName name) :
    ∀ m ∈ h.push st name, IsName m := by
  intro m hm
  have hsub := (h.reverse_foldl_push_sublist st [name]).subset (mem_reverse.mpr hm)
  rcases mem_append.mp hsub with hmem | hmem
  · exact hst m (mem_reverse.mp hmem)
  · rwa [mem_singleton.mp hmem]

lemma washLoop_eq (hdot : h.dot = dotName) (hdotDot : h.dotDot = dotDotName) (hname : IsName name)
    (hshort : name.length < maxFileNameLen) (hst : ∀ name ∈ st, IsName name)
    (hlen : ∀ name ∈ subNames sub, name.length < maxFileNameLen)
    (hfuel : (subNames sub).length + 1 < fuel) :
    washLoop fuel name sub (absPath st) = some (absPath ((name :: subNames sub).foldl h.push st)) := by
  induction fuel generalizing name sub st with
  | zero => omega
  | succ fuel ih =>
    obtain ⟨sub', hnext, htail⟩ := nextName_eq fun m hm => (hlen m hm).le
    rw [washLoop, if_neg hname.1, if_neg (by omega), washName_eq hdot hdotDot hst, bind_some, hnext,
      bind_some, foldl_cons]
    cases hsub : subNames sub with
    | nil =>
      obtain ⟨fuel, rfl⟩ : ∃ f, fuel = f + 1 := ⟨fuel - 1, by omega⟩
      simp [washLoop]
    | cons n ns =>
      rw [hsub, List.tail_cons] at htail
      rw [hsub] at hlen hfuel
      have hmem : n ∈ subNames sub := by simp [hsub]
      have hn := isName_of_mem_subNames hmem
      simp only [length_cons] at hfuel
      have hlen' : ∀ name ∈ subNames sub', name.length < maxFileNameLen := by
        rw [htail]
        exact fun m hm => hlen m (mem_cons_of_mem _ hm)
      have hloop := ih hn (hlen n mem_cons_self) (isName_push (h := h) hst hname) hlen'
        (by rw [htail]; omega)
      rw [htail] at hloop
      exact hloop

/-- `wash_path` gives the path with the names of the normal form. -/
lemma washPath_eq (hdot : h.dot = dotName) (hdotDot : h.dotDot = dotDotName)
    (hlen : ∀ name ∈ components path, name.length < maxFileNameLen) :
    washPath path = some (absPath (h.normal (components path))) := by
  have hshort : ∀ name ∈ subNames (some path), name.length ≤ maxFileNameLen := fun m hm => (hlen m hm).le
  obtain ⟨sub, hnext, htail⟩ := nextName_eq hshort
  rw [nextName] at hnext
  have hcount := length_components_le path
  rw [washPath, hnext, bind_some]
  cases hcomp : components path with
  | nil => simp [subNames, hcomp, Base.Hierarchy.normal, absPath]
  | cons n ns =>
    have hsub : subNames (some path) = n :: ns := hcomp
    rw [hsub, List.tail_cons] at htail
    rw [hcomp] at hlen hcount
    simp only [length_cons] at hcount
    have hmem : n ∈ components path := by simp [hcomp]
    have hn := isName_of_mem_components hmem
    simp only [hsub, List.headD_cons, if_neg hn.1]
    have hlen' : ∀ name ∈ subNames sub, name.length < maxFileNameLen := by
      rw [htail]
      exact fun m hm => hlen m (mem_cons_of_mem _ hm)
    have hfuel : (subNames sub).length + 1 < path.length + 1 := by
      rw [htail]
      omega
    have hloop := washLoop_eq hdot hdotDot hn (hlen n mem_cons_self) (forall_mem_nil _) hlen' hfuel
    rw [htail] at hloop
    exact hloop

end SimpleOs
