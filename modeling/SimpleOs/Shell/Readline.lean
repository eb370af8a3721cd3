import SimpleOs.Base.Bytes

/-!
# Reading a command line

`readline` of `shell/shell.c` on `cmd_line`. A key is stored where the line ends before it is looked
at, and before the length is: the key that finds `count` characters is stored behind the buffer.
-/

namespace SimpleOs

open Base Function List

/-! ### The function -/

/-- `cmd_line`, the offset of `pos` in it, and the offsets that have been stored to. -/
structure Reading where
  cmdLine : Bytes
  pos : Nat
  stores : List Nat

namespace Reading

/-- `*pos = b`. -/
def put (s : Reading) (b : UInt8) : Reading :=
  { s with cmdLine := update s.cmdLine s.pos b, stores := s.pos :: s.stores }

/-- The loop for `ctrl-u`. -/
def eraseLoop : (pos : Nat) → Reading → Reading
  | 0, s => { s with pos := 0 }
  | pos + 1, s => eraseLoop pos ({ s with pos := pos + 1 }.put 0)

/-- The cases of the `switch` that stay in the loop. -/
def onKey (s : Reading) (key : UInt8) : Reading :=
  if key = 8 then if s.cmdLine 0 ≠ 8 then { s with pos := s.pos - 1 } else s
  else if key = 11 then s.put 0
  else if key = 20 then eraseLoop s.pos s
  else { s with pos := s.pos + 1 }

end Reading

/-- Carriage return and line feed. -/
def IsEnter (key : UInt8) : Prop := key = 10 ∨ key = 13

instance : DecidablePred IsEnter := fun _ => inferInstanceAs (Decidable (_ ∨ _))

/-- `readline(cmd_line, count)` on the keys that come, and whether it has returned. -/
def readline (count : Nat) : (keys : List UInt8) → Reading → Bool × Reading
  | [], s => (false, s)
  | key :: keys, s =>
    let s := s.put key
    if s.pos < count then
      if IsEnter key then (true, s.put 0) else readline count keys (s.onKey key)
    else (true, s)

/-! ### The line -/

/-- What a key other than enter does to a line. -/
def editLine (line : List UInt8) (key : UInt8) : List UInt8 :=
  if key = 8 then line.dropLast else if key = 11 then line else if key = 20 then []
  else line ++ [key]

/-- The line that is there at the first enter. -/
def editedLine : (line : List UInt8) → (keys : List UInt8) → Option (List UInt8)
  | _, [] => none
  | line, key :: keys => if IsEnter key then some line else editedLine (editLine line key) keys

/-- The line is shorter than `count` at every key up to the first enter. -/
def LineFits (count : Nat) : (line : List UInt8) → (keys : List UInt8) → Prop
  | _, [] => True
  | line, key :: keys =>
    line.length < count ∧ (¬IsEnter key → LineFits count (editLine line key) keys)

/-- Nothing is stored behind the buffer, and on return it holds the line and its end. -/
def ReadsLine (count : Nat) (line keys : List UInt8) (s : Reading) : Prop :=
  (∀ a ∈ (readline count keys s).2.stores, a < count) ∧
    ((readline count keys s).1 = true → ∃ text, editedLine line keys = some text ∧
      (readline count keys s).2.cmdLine.slice 0 text.length = text ∧
      (readline count keys s).2.cmdLine text.length = 0)

/-- The line is what is in the buffer before `pos`. -/
structure Reading.Shows (s : Reading) (count : Nat) (line : List UInt8) : Prop where
  pos : s.pos = line.length
  text : ∀ k < line.length, (line)[k]? = some (s.cmdLine k)
  chars : ∀ c ∈ line, c ≠ 8
  stores : ∀ a ∈ s.stores, a < count

variable {s : Reading} {count : Nat} {line : List UInt8}

namespace Reading

lemma pos_eraseLoop (pos : Nat) (s : Reading) : (eraseLoop pos s).pos = 0 := by
  induction pos generalizing s with
  | zero => rfl
  | succ pos ih => exact ih _

lemma stores_eraseLoop (pos : Nat) (s : Reading) (h : ∀ a ∈ s.stores, a < count)
    (hpos : pos < count) : ∀ a ∈ (eraseLoop pos s).stores, a < count := by
  induction pos generalizing s with
  | zero => exact h
  | succ pos ih =>
    refine ih _ (fun a ha => ?_) (by omega)
    rcases mem_cons.1 ha with rfl | ha
    · exact hpos
    · exact h a ha

lemma cmdLine_put (s : Reading) (b : UInt8) (k : Nat) :
    (s.put b).cmdLine k = if k = s.pos then b else s.cmdLine k :=
  update_apply ..

section

variable (h : s.Shows count line)
include h

/-- The guard of the backspace looks at the first character of the line, or at the key itself. -/
lemma Shows.first : s.cmdLine 0 = 8 → line = [] := by
  intro hfirst
  by_contra hne
  have hmem := mem_of_getElem? (h.text 0 (length_pos_iff.2 hne))
  exact h.chars _ hmem hfirst

variable (hlen : line.length < count)
include hlen

/-- A store where the line ends leaves the line as it is. -/
lemma Shows.put (b : UInt8) : (s.put b).Shows count line := { h with
  text := fun k hk => by rw [h.text k hk, cmdLine_put, if_neg (by rw [h.pos]; omega)]
  stores := fun a ha => by
    rcases mem_cons.1 ha with rfl | ha
    · rwa [h.pos]
    · exact h.stores a ha }

lemma Shows.onKey (key : UInt8) : ((s.put key).onKey key).Shows count (editLine line key) := by
  have hput := h.put hlen key
  have hself : (s.put key).cmdLine line.length = key := by
    rw [cmdLine_put, if_pos h.pos.symm]
  rw [Reading.onKey, editLine]
  split_ifs with hback hfirst hl hu
  · refine ⟨by simp [hput.pos], fun k hk => ?_, fun c hc => h.chars c (dropLast_subset _ hc),
      hput.stores⟩
    rw [length_dropLast] at hk
    rw [getElem?_dropLast, if_pos hk]
    exact hput.text k (by omega)
  · have hempty := hput.first (not_not.1 hfirst)
    rw [hempty, dropLast_nil, ← hempty]
    exact hput
  · exact hput.put hlen 0
  · exact ⟨pos_eraseLoop _ _, by simp, by simp, stores_eraseLoop _ _ hput.stores (hput.pos ▸ hlen)⟩
  · refine ⟨by simp [hput.pos], fun k hk => ?_, fun c hc => ?_, hput.stores⟩
    · rw [length_append] at hk
      rcases Nat.lt_succ_iff_lt_or_eq.1 hk with hk | rfl
      · rw [getElem?_append_left hk]
        exact hput.text k hk
      · rw [getElem?_concat_length, hself]
    · rcases mem_append.1 hc with hc | hc
      · exact h.chars c hc
      · rwa [mem_singleton.1 hc]

end

end Reading

/-- What has been typed and the keys to come. -/
lemma readsLine_iff_lineFits (h : s.Shows count line) (keys : List UInt8) :
    ReadsLine count line keys s ↔ LineFits count line keys := by
  induction keys generalizing s line with
  | nil => simpa [ReadsLine, readline, LineFits] using h.stores
  | cons key keys ih =>
    rw [ReadsLine, LineFits, readline, editedLine]
    have hpos : (s.put key).pos = line.length := h.pos
    by_cases hlen : line.length < count
    · simp only [hpos, if_pos hlen, and_iff_right hlen]
      split_ifs with henter
      · -- enter: the line stays and its end is stored
        have hdone := (h.put hlen key).put hlen 0
        refine iff_of_true ⟨hdone.stores, fun _ => ⟨line, rfl, ?_, ?_⟩⟩ fun hne => absurd henter hne
        · exact (Bytes.slice_eq_iff _).2 fun k hk => by rw [hdone.text k hk, Nat.zero_add]
        · rw [Reading.cmdLine_put, if_pos hpos.symm]
      · rw [forall_prop_of_true henter]
        exact ih (h.onKey hlen key)
    · simp only [hpos, if_neg hlen]
      refine iff_of_false (fun hreads => hlen ?_) fun hfits => hlen hfits.1
      have hstored := hreads.1 s.pos mem_cons_self
      rwa [h.pos] at hstored

/-- `readline` is right as long as every key, the enter key among them, comes to a line shorter than
`count`. -/
theorem readsLine_iff (count : Nat) (keys : List UInt8) (cmdLine : Bytes) :
    ReadsLine count [] keys ⟨cmdLine, 0, []⟩ ↔ LineFits count [] keys :=
  readsLine_iff_lineFits ⟨rfl, by simp, by simp, by simp⟩ keys

/-- Two letters and a buffer for one. -/
theorem not_readsLine_full :
    ¬∀ (count : Nat) (keys : List UInt8), ReadsLine count [] keys ⟨Bytes.zero, 0, []⟩ := by
  intro h
  have hstored := (h 1 [97, 98]).1 1 (by decide)
  omega

end SimpleOs
