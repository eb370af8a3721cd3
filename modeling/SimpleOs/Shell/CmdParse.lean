import SimpleOs.Base.Bytes

/-!
# Splitting a command line

`cmd_parse` of `shell/shell.c`. It looks at the number of arguments after it has stored one more,
and for a number greater than the size of `argv`. Up to fifteen words it does what it should; with
more it does not return -1, or it has stored behind the array.
-/

namespace SimpleOs

open Base Function List

/-! ### The function -/

/-- The memory of the command line, the pointer into it, and `argv` with its count. -/
structure Parsing where
  mem : Bytes
  next : Nat
  argv : Nat → Option Nat
  argc : Nat

/-- The round's argument is stored, and if there is a separator behind its `len` characters it
becomes their end. -/
def Parsing.store (s : Parsing) (len : Nat) (rest : List UInt8) : Parsing :=
  let s' := { s with argv := update s.argv s.argc (some s.next), next := s.next + len }
  if rest = [] then s' else { s' with mem := update s'.mem s'.next 0, next := s'.next + 1 }

/-- The outer loop; `rest` are the characters from `next` to the end of the line. The zeros that it
stores are behind `next`, where it does not look again. -/
def cmdParseLoop (token : UInt8) :
    (fuel : Nat) → (rest : List UInt8) → Parsing → Option (Int × Parsing)
  | 0, _, _ => none
  | fuel + 1, rest, s =>
    if rest = [] then some (s.argc, s)
    else
      let s := { s with next := s.next + (rest.takeWhile (· = token)).length }
      let rest := rest.dropWhile (· = token)
      if rest = [] then some (s.argc, s)
      else
        let word := rest.takeWhile (· ≠ token)
        let rest := rest.dropWhile (· ≠ token)
        let s := s.store word.length rest
        if 16 < s.argc then some (-1, s)
        else cmdParseLoop token fuel rest.tail { s with argc := s.argc + 1 }

/-- `cmd_parse`: the first loop clears the entries of `argv`. -/
def cmdParse (fuel : Nat) (mem : Bytes) (cmdStr : Nat) (line : List UInt8) (argv : Nat → Option Nat)
    (token : UInt8) : Option (Int × Parsing) :=
  cmdParseLoop token fuel line ⟨mem, cmdStr, fun i => if i < 16 then none else argv i, 0⟩

/-! ### What it should do -/

/-- A string with its end at an address. -/
def StringAt (mem : Bytes) (a : Nat) (text : List UInt8) : Prop :=
  mem.slice a text.length = text ∧ mem (a + text.length) = 0

/-- What is wanted of a result, for a line with the given words. -/
structure ParseOk (argv : Nat → Option Nat) (words : List (List UInt8)) (r : Int × Parsing) :
    Prop where
  within : ∀ i ≥ 16, r.2.argv i = argv i
  few : words.length ≤ 15 → r.1 = words.length ∧ r.2.argv words.length = none ∧
    ∀ i word, words[i]? = some word → ∃ a, r.2.argv i = some a ∧ StringAt r.2.mem a word
  many : 16 ≤ words.length → r.1 = -1

/-- `cmd_parse` splits the line, wherever it is and whatever `argv` held. -/
def Parses (token : UInt8) (line : List UInt8) : Prop :=
  ∀ mem cmdStr argv, StringAt mem cmdStr line →
    ∃ fuel r, cmdParse fuel mem cmdStr line argv token = some r ∧ ParseOk argv (pieces token line) r

/-! ### One round -/

variable {s : Parsing} {token : UInt8} {rest : List UInt8}

@[simp] lemma argc_store (s : Parsing) (len : Nat) (rest : List UInt8) :
    (s.store len rest).argc = s.argc := by
  rw [Parsing.store]
  split_ifs <;> rfl

@[simp] lemma argv_store (s : Parsing) (len : Nat) (rest : List UInt8) :
    (s.store len rest).argv = update s.argv s.argc (some s.next) := by
  rw [Parsing.store]
  split_ifs <;> rfl

lemma pieces_dropWhile (token : UInt8) (l : List UInt8) :
    pieces token (l.dropWhile (· = token)) = pieces token l := by
  induction l with
  | nil => rfl
  | cons c l ih =>
    by_cases hc : c = token
    · rw [dropWhile_cons_of_pos (by simpa using hc), ih, hc, pieces_sep]
    · rw [dropWhile_cons_of_neg (by simpa using hc)]

lemma dropWhile_ne_cases (token : UInt8) (l : List UInt8) :
    l.dropWhile (· ≠ token) = [] ∨ ∃ cs, l.dropWhile (· ≠ token) = token :: cs := by
  induction l with
  | nil => exact .inl rfl
  | cons c l ih =>
    by_cases hc : c = token
    · rw [dropWhile_cons_of_neg (by simpa using hc), hc]
      exact .inr ⟨l, rfl⟩
    · rwa [dropWhile_cons_of_pos (by simpa using hc)]

/-- The characters up to the next separator are a word, and so are the pieces behind it. -/
lemma pieces_takeWhile (h : rest.dropWhile (· = token) ≠ []) :
    (rest.dropWhile (· = token)).takeWhile (· ≠ token) ≠ [] ∧
      pieces token rest = (rest.dropWhile (· = token)).takeWhile (· ≠ token) ::
        pieces token ((rest.dropWhile (· = token)).dropWhile (· ≠ token)).tail := by
  rw [← pieces_dropWhile]
  have hhead := dropWhile_get_zero_not (p := (· = token)) rest (length_pos_iff.2 h)
  generalize rest.dropWhile (· = token) = body at *
  have hne : body.takeWhile (· ≠ token) ≠ [] := by
    rw [ne_eq, takeWhile_eq_nil_iff]
    intro hall
    exact hall (length_pos_iff.2 h) (by simpa using hhead)
  have hword : token ∉ body.takeWhile (· ≠ token) := fun hmem => by
    simpa using mem_takeWhile_imp hmem
  have hmore := dropWhile_ne_cases token body
  have hfirst := pieces_append hne hword hmore
  rw [takeWhile_append_dropWhile] at hfirst
  refine ⟨hne, hfirst.trans (congrArg _ ?_)⟩
  rcases hmore with hmore | ⟨cs, hmore⟩
  · rw [hmore, tail_nil]
  · rw [hmore, tail_cons, pieces_sep]

/-- A round finds no word and ends the loop, or it stores the first word. -/
lemma cmdParseLoop_succ (token : UInt8) (fuel : Nat) (rest : List UInt8) (s : Parsing) :
    (pieces token rest = [] ∧
      ∃ next, cmdParseLoop token (fuel + 1) rest s = some (Int.ofNat s.argc, { s with next })) ∨
    ∃ gap word more t, rest = gap ++ (word ++ more) ∧ word ≠ [] ∧
      pieces token rest = word :: pieces token more.tail ∧
      t = { s with next := s.next + gap.length }.store word.length more ∧
      cmdParseLoop token (fuel + 1) rest s = if 16 < s.argc then some (-1, t)
        else cmdParseLoop token fuel more.tail { t with argc := s.argc + 1 } := by
  have hpieces := pieces_dropWhile token rest
  rw [cmdParseLoop]
  by_cases hnil : rest = []
  · exact .inl ⟨by rw [hnil, pieces_nil], s.next, by rw [if_pos hnil]; rfl⟩
  · by_cases hnone : rest.dropWhile (· = token) = []
    · refine .inl ⟨by rw [← hpieces, hnone, pieces_nil],
        s.next + (rest.takeWhile (· = token)).length, ?_⟩
      simp only [if_neg hnil, if_pos hnone]
      rfl
    · have hwords := pieces_takeWhile hnone
      refine .inr ⟨rest.takeWhile (· = token), _, _, _, ?_, hwords.1, hwords.2, rfl, ?_⟩
      · rw [takeWhile_append_dropWhile, takeWhile_append_dropWhile]
      · simp only [if_neg hnil, if_neg hnone, argc_store]

/-! ### The loop -/

lemma stringAt_append (mem : Bytes) (a : Nat) (u v : List UInt8) :
    StringAt mem a (u ++ v) ↔ mem.slice a u.length = u ∧ StringAt mem (a + u.length) v := by
  rw [StringAt, StringAt, length_append, Bytes.slice_add, ← and_assoc, ← Nat.add_assoc,
    append_eq_append_iff_of_size_eq_left (Bytes.length_slice ..)]

lemma StringAt.congr (h : StringAt mem a text)
    (hsame : ∀ k ≤ text.length, mem' (a + k) = mem (a + k)) : StringAt mem' a text :=
  ⟨(Bytes.slice_eq_slice_iff.2 fun k hk => hsame k hk.le).trans h.1, (hsame _ le_rfl).trans h.2⟩

/-- The word gets its end, and the rest of the line is behind it. -/
lemma Parsing.store_spec (h : StringAt s.mem s.next (word ++ more)) :
    StringAt (s.store word.length more).mem s.next word ∧
      StringAt (s.store word.length more).mem (s.store word.length more).next more.tail ∧
      (∀ a < s.next, (s.store word.length more).mem a = s.mem a) ∧
      ∀ a ≤ s.next + word.length, a < (s.store word.length more).next ∨ more.tail = [] := by
  rw [stringAt_append] at h
  rcases more with - | ⟨c, more⟩
  · exact ⟨⟨h.1, h.2.2⟩, h.2, fun _ _ => rfl, fun _ _ => .inr rfl⟩
  · have hmore := (stringAt_append _ _ [c] more).1 h.2
    simp only [Parsing.store, if_neg (cons_ne_nil c more), tail_cons]
    refine ⟨⟨?_, update_self ..⟩, hmore.2.congr fun k _ => update_of_ne (by simp; omega) _ _,
      fun a ha => update_of_ne (by omega) _ _, fun a ha => .inl (by omega)⟩
    refine (Bytes.slice_eq_slice_iff.2 fun k hk => ?_).trans h.1
    exact update_of_ne (by omega) _ _

/-- Up to seventeen words in all, the loop returns their number; each is a string at its
argument. -/
lemma cmdParseLoop_eq (token : UInt8) (hfuel : rest.length < fuel)
    (hstr : StringAt s.mem s.next rest) (hargc : s.argc + (pieces token rest).length ≤ 17) :
    ∃ s', cmdParseLoop token fuel rest s = some (Int.ofNat (s.argc + (pieces token rest).length), s') ∧
      (∀ a, a < s.next ∨ rest = [] → s'.mem a = s.mem a) ∧
      (∀ i, i < s.argc ∨ s.argc + (pieces token rest).length ≤ i → s'.argv i = s.argv i) ∧
      ∀ i word, (pieces token rest)[i]? = some word →
        ∃ a, s'.argv (s.argc + i) = some a ∧ StringAt s'.mem a word := by
  induction fuel generalizing rest s with
  | zero => omega
  | succ fuel ih =>
    rcases cmdParseLoop_succ token fuel rest s with
      ⟨hnone, next, hloop⟩ | ⟨gap, word, more, t, rfl, hne, hwords, ht, hloop⟩
    · rw [hnone]
      exact ⟨_, hloop, fun _ _ => rfl, fun _ _ => rfl, by simp⟩
    · have hpos := length_pos_iff.2 hne
      simp only [length_append] at hfuel
      rw [hwords, length_cons] at hargc ⊢
      obtain ⟨hword, hmore, hbefore, hend⟩ :=
        Parsing.store_spec (s := { s with next := s.next + gap.length })
          ((stringAt_append ..).1 hstr).2
      have hargv := argv_store { s with next := s.next + gap.length } word.length more
      simp only [← ht] at hword hmore hbefore hend hargv
      obtain ⟨s', hrun, hmem, hkeep, hargs⟩ := ih (s := { t with argc := s.argc + 1 })
        (by rw [length_tail]; omega) hmore (by simp only; omega)
      simp only at hrun hmem hkeep hargs
      rw [hloop, if_neg (by omega), hrun]
      refine ⟨s', by congr 3; omega, ?_, fun i hi => ?_, ?_⟩
      · rintro a (ha | hnil)
        · rw [hmem a (hend a (by omega)), hbefore a (by omega)]
        · simp [hne] at hnil
      · rw [hkeep i (by omega), hargv, update_of_ne (by omega)]
      · rintro (- | i) w hw
        · cases hw
          refine ⟨_, by rw [hkeep _ (by omega), hargv]; exact update_self .., ?_⟩
          exact hword.congr fun k hk => hmem _ (hend _ (by omega))
        · obtain ⟨a, ha, hat⟩ := hargs i w hw
          exact ⟨a, by rw [← ha]; congr 1; omega, hat⟩

/-- An argument stays one, the seventeenth word is stored behind `argv`, and -1 is returned for more
than that only. -/
lemma cmdParseLoop_many (h : cmdParseLoop token fuel rest s = some r) :
    (∀ i, s.argv i ≠ none → r.2.argv i ≠ none) ∧
      (s.argc ≤ 16 → 16 < s.argc + (pieces token rest).length → r.2.argv 16 ≠ none) ∧
      (r.1 = -1 → 16 < s.argc + (pieces token rest).length) := by
  induction fuel generalizing rest s with
  | zero => cases h
  | succ fuel ih =>
    rcases cmdParseLoop_succ token fuel rest s with
      ⟨hnone, next, hloop⟩ | ⟨gap, word, more, t, -, -, hwords, ht, hloop⟩
    · cases hloop.symm.trans h
      rw [hnone]
      exact ⟨fun _ => id, fun h h' => by simp at h'; omega, fun h => by simp at h⟩
    · have hargv := argv_store { s with next := s.next + gap.length } word.length more
      rw [← ht] at hargv
      have hkeep : ∀ i, s.argv i ≠ none ∨ i = s.argc → t.argv i ≠ none := by
        intro i hi
        rw [hargv, update_apply]
        split_ifs with heq
        · simp
        · exact hi.resolve_right heq
      rw [hwords, length_cons]
      rw [hloop] at h
      split_ifs at h with hmany
      · cases h
        exact ⟨fun i hi => hkeep i (.inl hi), fun hle => by omega, fun _ => by omega⟩
      · obtain ⟨hstay, hstored, hret⟩ := ih h
        simp only at hstay hstored hret
        refine ⟨fun i hi => hstay i (hkeep i (.inl hi)), fun hle hlt => ?_, fun hneg => ?_⟩
        · rcases Nat.lt_or_eq_of_le hle with hlt' | heq
          · exact hstored hlt' (by omega)
          · exact hstay 16 (hkeep 16 (.inr heq.symm))
        · omega

/-- With more words it was wrong to return, or to store the seventeenth. -/
lemma not_parses (h : 16 ≤ (pieces token line).length) : ¬Parses token line := by
  intro hparses
  -- a line at address 0 and an array with nothing behind it
  have hstr : StringAt (Bytes.ofList line) 0 line := by
    refine ⟨(Bytes.slice_eq_iff _).2 fun k hk => ?_, by simp [Bytes.ofList]⟩
    simp [Bytes.ofList, hk]
  obtain ⟨fuel, r, hrun, hok⟩ := hparses _ _ (fun _ => none) hstr
  obtain ⟨-, hstored, hret⟩ := cmdParseLoop_many hrun
  exact hstored (Nat.zero_le _) (hret (hok.many h)) (hok.within 16 le_rfl)

/-- A line is split as it should be if it has at most fifteen words. -/
theorem parses_iff (token : UInt8) (line : List UInt8) :
    Parses token line ↔ (pieces token line).length ≤ 15 := by
  refine ⟨fun h => Nat.lt_succ_iff.1 (not_le.1 fun hmany => not_parses hmany h), ?_⟩
  intro hfew mem cmdStr argv hstr
  obtain ⟨s', hrun, -, hkeep, hargs⟩ := cmdParseLoop_eq token
    (s := ⟨mem, cmdStr, fun i => if i < 16 then none else argv i, 0⟩) (Nat.lt_succ_self _) hstr
    (by simp only; omega)
  simp only [Nat.zero_add] at hrun hkeep hargs
  refine ⟨_, _, hrun, fun i hi => ?_, fun _ => ⟨rfl, ?_, hargs⟩, fun hmany => by omega⟩
  · rw [hkeep i (by omega), if_neg (by omega)]
  · rw [hkeep _ (by omega), if_pos (by omega)]

/-- Sixteen words. -/
theorem not_parses_sixteen : ¬∀ (token : UInt8) (line : List UInt8), Parses token line := by
  intro h
  exact not_parses (by decide) (h 32 ((replicate 16 [97, 32]).flatten))

end SimpleOs
