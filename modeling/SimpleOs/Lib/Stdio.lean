import Mathlib
import SimpleOs.Base.Bytes

/-!
# Formatted output

`itoa` and `vsprintf` of `lib/stdio.c`. The pointer behind the last character that was written is
part of the state; only `strcpy`, for a `%s`, writes an end of the string, so that the string ends
where it should only if the format does with one or the byte there was zero before.
-/

namespace SimpleOs

open Base Function List

/-! ### The functions -/

/-- The memory, and where the next character goes. -/
structure Output where
  mem : Bytes
  bufPtr : Nat

/-- `*(buf_ptr++) = c`. -/
def Output.put (o : Output) (c : UInt8) : Output := ⟨update o.mem o.bufPtr c, o.bufPtr + 1⟩

/-- The characters of a string, one after the other. -/
def Output.puts (o : Output) (text : List UInt8) : Output := text.foldl put o

/-- `strcpy` to `buf_ptr`, which is then moved to the end of the string. -/
def Output.strcpy (o : Output) (s : List UInt8) : Output :=
  { o.puts s with mem := ((o.puts s).put 0).mem }

/-- `itoa`; `fuel` bounds the number of calls inside one another. -/
def itoa : (fuel : Nat) → (value : UInt32) → (base : UInt8) → Output → Option Output
  | 0, _, _, _ => none
  | fuel + 1, value, base, o =>
    let m := value % base.toUInt32
    let i := value / base.toUInt32
    (if i ≠ 0 then itoa fuel i base o else some o).map fun o =>
      if m < 10 then o.put (m + 48).toUInt8 else o.put (m - 10 + 65).toUInt8

/-- An argument on the stack: a word, or a pointer to a string. -/
inductive Arg where
  | word (w : UInt32)
  | str (s : List UInt8)

/-- The characters after a percent sign that `vsprintf` knows. -/
def directives : List UInt8 := [115, 120, 99, 100]

/-- The cases `s`, `x`, `c` and `d` of `vsprintf`. -/
def convert : (directive : UInt8) → (ap : List Arg) → Output → Option (List Arg × Output)
  | 115, .str s :: ap, o => some (ap, o.strcpy s)
  | 120, .word w :: ap, o => (itoa 32 w 16 o).map (ap, ·)
  | 99, .word w :: ap, o => some (ap, o.put w.toUInt8)
  | 100, .word w :: ap, o =>
    if w.toInt32 < 0 then (itoa 32 (0 - w) 10 (o.put 45)).map (ap, ·)
    else (itoa 32 w 10 o).map (ap, ·)
  | _, _, _ => none

/-- The loop of `vsprintf`. After a percent sign, a character that it does not know is the next one
to be looked at. -/
def vsprintfLoop : (format : List UInt8) → (ap : List Arg) → Output → Option Output
  | [], _, o => some o
  | c :: format, ap, o =>
    if c ≠ 37 then vsprintfLoop format ap (o.put c)
    else
      match format with
      | [] => some o
      | d :: format =>
        if d ∈ directives then (convert d ap o).bind fun (ap, o) => vsprintfLoop format ap o
        else vsprintfLoop (d :: format) ap o

/-- `strlen`. -/
def strlen (mem : Bytes) : (fuel : Nat) → (str : Nat) → Option Nat
  | 0, _ => none
  | fuel + 1, str => if mem str = 0 then some 0 else (strlen mem fuel (str + 1)).map (· + 1)

/-- `sprintf`: what it returns, and the memory. -/
def sprintf (fuel : Nat) (mem : Bytes) (str : Nat) (format : List UInt8) (ap : List Arg) :
    Option (Nat × Bytes) :=
  (vsprintfLoop format ap ⟨mem, str⟩).bind fun o => (strlen o.mem fuel str).map (·, o.mem)

/-! ### Numerals -/

/-- The character for a digit. -/
def digitChar (d : Nat) : UInt8 := UInt8.ofNat (if d < 10 then d + 48 else d + 55)

/-- The digits of a number, without leading zeros. -/
def numeral (base n : Nat) : List UInt8 :=
  if n = 0 then [digitChar 0] else ((base.digits n).map digitChar).reverse

/-- A number with its sign. -/
def decimal (n : Int32) : List UInt8 :=
  if n < 0 then 45 :: numeral 10 n.toInt.natAbs else numeral 10 n.toInt.natAbs

/-- The value of a digit. -/
def digitVal (c : UInt8) : Option Nat :=
  if 48 ≤ c ∧ c ≤ 57 then some (c.toNat - 48) else if 65 ≤ c ∧ c ≤ 70 then some (c.toNat - 55) else none

/-- The value of a string of digits. -/
def parseNumeral (base : Nat) (text : List UInt8) : Option Nat :=
  text.foldl (fun v c => v.bind fun v => (digitVal c).bind fun d =>
    if d < base then some (base * v + d) else none) (some 0)

/-- The value of a string of digits that may have a sign. -/
def parseDecimal (text : List UInt8) : Option Int :=
  if text.head? = some 45 then (parseNumeral 10 text.tail).map fun n : Nat => -(n : Int)
  else (parseNumeral 10 text).map Int.ofNat

variable {base d n : Nat} {o : Output} {w : UInt32}

lemma numeral_of_lt (hn : n < base) : numeral base n = [digitChar n] := by
  by_cases h0 : n = 0
  · simp [numeral, h0]
  · simp [numeral, h0, Nat.digits_of_lt base n h0 hn]

lemma numeral_of_le (hb : 1 < base) (hn : base ≤ n) :
    numeral base n = numeral base (n / base) ++ [digitChar (n % base)] := by
  have hdiv : n / base ≠ 0 := (Nat.div_pos hn (Nat.zero_lt_of_lt hb)).ne'
  have hn0 : 0 < n := by omega
  simp [numeral, hn0.ne', hdiv, Nat.digits_def' hb hn0]

lemma digitVal_digitChar (hd : d < 16) : digitVal (digitChar d) = some d := by
  interval_cases d <;> rfl

lemma parseNumeral_concat (text : List UInt8) (hb : base ≤ 16) (hd : d < base) :
    parseNumeral base (text ++ [digitChar d]) =
      (parseNumeral base text).map fun v => base * v + d := by
  simp only [parseNumeral, foldl_append, foldl_cons, foldl_nil, digitVal_digitChar (hd.trans_le hb),
    Option.bind_some, if_pos hd]
  cases foldl _ _ text <;> rfl

lemma parseNumeral_numeral (hb : 1 < base) (hb' : base ≤ 16) (n : Nat) :
    parseNumeral base (numeral base n) = some n := by
  induction n using Nat.strong_induction_on with
  | _ n ih =>
    by_cases hn : n < base
    · rw [numeral_of_lt hn, ← nil_append [digitChar n], parseNumeral_concat [] hb' hn]
      simp [parseNumeral]
    · have hle := Nat.le_of_not_lt hn
      have hlt : n / base < n := Nat.div_lt_self (by omega) hb
      rw [numeral_of_le hb hle, parseNumeral_concat _ hb' (Nat.mod_lt _ (by omega)), ih _ hlt,
        Option.map_some, Nat.div_add_mod]

lemma numeral_ne_nil (base n : Nat) : numeral base n ≠ [] := by
  rw [numeral]
  split_ifs with h0
  · exact cons_ne_nil _ _
  · simpa using Nat.digits_ne_nil_iff_ne_zero.mpr h0

lemma numeral_head (hb : 1 < base) (hb' : base ≤ 16) (h : (numeral base n).head? = some 48) :
    numeral base n = [48] := by
  by_cases h0 : n = 0
  · rw [h0]
    rfl
  · -- the first character is the last digit of Mathlib's list, which is not zero
    have hne : base.digits n ≠ [] := Nat.digits_ne_nil_iff_ne_zero.mpr h0
    have hlast := Nat.getLast_digit_ne_zero base h0
    have hlt := Nat.digits_lt_base hb (getLast_mem hne)
    rw [numeral, if_neg h0, head?_reverse, getLast?_map, getLast?_eq_some_getLast hne,
      Option.map_some, Option.some.injEq] at h
    have hval := digitVal_digitChar (hlt.trans_le hb')
    rw [h] at hval
    exact absurd (Option.some.inj hval).symm hlast

lemma puts_concat (o : Output) (text : List UInt8) (c : UInt8) :
    o.puts (text ++ [c]) = (o.puts text).put c := by
  simp [Output.puts]

lemma put_digit {m : UInt32} (hm : m.toNat < 16) (o : Output) :
    (if m < 10 then o.put (m + 48).toUInt8 else o.put (m - 10 + 65).toUInt8) =
      o.put (digitChar m.toNat) := by
  obtain ⟨d, hd, rfl⟩ : ∃ d < 16, m = UInt32.ofNat d := ⟨m.toNat, hm, by simp⟩
  interval_cases d <;> rfl

lemma itoa_succ {base : UInt8} (hb : 0 < base.toNat) (hb' : base.toNat ≤ 16) (fuel : Nat) :
    itoa (fuel + 1) w base o =
      (if w.toNat < base.toNat then some o else itoa fuel (w / base.toUInt32) base o).map
        (·.put (digitChar (w.toNat % base.toNat))) := by
  have hmod : (w % base.toUInt32).toNat = w.toNat % base.toNat := by simp
  have hm : (w % base.toUInt32).toNat < 16 := by
    exact (Nat.mod_lt _ hb).trans_le hb'
  have hdiv : w / base.toUInt32 = 0 ↔ w.toNat < base.toNat := by
    rw [← UInt32.toNat_inj]
    simp [Nat.div_eq_zero_iff, hb.ne']
  simp only [itoa, put_digit hm, hmod, ne_eq, hdiv, ite_not]

/-- `itoa` appends the numeral. -/
lemma itoa_eq {base : UInt8} (hb : 1 < base.toNat) (hb' : base.toNat ≤ 16)
    (hfuel : w.toNat < base.toNat ^ (fuel + 1)) :
    itoa (fuel + 1) w base o = some (o.puts (numeral base.toNat w.toNat)) := by
  induction fuel generalizing w o with
  | zero =>
    rw [Nat.pow_one] at hfuel
    rw [itoa_succ (Nat.zero_lt_of_lt hb) hb', if_pos hfuel, numeral_of_lt hfuel, Option.map_some,
      Nat.mod_eq_of_lt hfuel]
    rfl
  | succ fuel ih =>
    rw [itoa_succ (Nat.zero_lt_of_lt hb) hb']
    split_ifs with hlt
    · rw [numeral_of_lt hlt, Nat.mod_eq_of_lt hlt]
      rfl
    · have hdiv : (w / base.toUInt32).toNat = w.toNat / base.toNat := by simp
      have hless : (w / base.toUInt32).toNat < base.toNat ^ (fuel + 1) := by
        exact Nat.div_lt_of_lt_mul (by rwa [Nat.pow_succ, Nat.mul_comm] at hfuel)
      rw [ih hless, hdiv, Option.map_some, ← puts_concat, ← numeral_of_le hb (Nat.le_of_not_lt hlt)]

lemma itoa_ten (w : UInt32) (o : Output) : itoa 32 w 10 o = some (o.puts (numeral 10 w.toNat)) :=
  itoa_eq (by decide) (by decide) (w.toNat_lt.trans (by decide))

lemma itoa_sixteen (w : UInt32) (o : Output) :
    itoa 32 w 16 o = some (o.puts (numeral 16 w.toNat)) :=
  itoa_eq (by decide) (by decide) (w.toNat_lt.trans (by decide))

lemma natAbs_toInt (n : Int32) :
    n.toInt.natAbs = (if n < 0 then 0 - n.toUInt32 else n.toUInt32).toNat := by
  have hcond := BitVec.toInt_eq_toNat_cond n.toBitVec
  have hint : n.toInt = n.toBitVec.toInt := rfl
  have hnat : n.toUInt32.toNat = n.toBitVec.toNat := rfl
  have hneg : n < 0 ↔ n.toInt < 0 := Int32.lt_iff_toInt_lt
  split_ifs with h
  · rw [hneg] at h
    rw [UInt32.toNat_sub, UInt32.toNat_zero]
    omega
  · rw [hneg] at h
    omega

/-- The case `d` of `vsprintf`. The most negative number is its own negation, but `itoa` takes it
as one without a sign. -/
lemma convert_d (n : Int32) (ap : List Arg) (o : Output) :
    convert 100 (.word n.toUInt32 :: ap) o = some (ap, o.puts (decimal n)) := by
  simp only [convert, Int32.toInt32_toUInt32, itoa_ten, Option.map_some, decimal, natAbs_toInt]
  split_ifs <;> rfl

lemma digitVal_of_mem (hb : 1 < base) (hb' : base ≤ 16) (hc : c ∈ numeral base n) :
    digitVal c ≠ none := by
  rw [numeral] at hc
  split_ifs at hc with h0
  · rw [mem_singleton.mp hc]
    decide
  · obtain ⟨d, hd, rfl⟩ := mem_map.mp (mem_reverse.mp hc)
    rw [digitVal_digitChar ((Nat.digits_lt_base hb hd).trans_le hb')]
    exact Option.some_ne_none d

lemma decimal_ne_nil (n : Int32) : decimal n ≠ [] := by
  rw [decimal]
  split_ifs
  · exact cons_ne_nil _ _
  · exact numeral_ne_nil _ _

/-- The call appends a string of digits without leading zeros that can be read back. -/
def PrintsNumeral (base : UInt8) (w : UInt32) (o : Output) : Prop :=
  ∃ text, itoa 32 w base o = some (o.puts text) ∧ text ≠ [] ∧
    (text.head? = some 48 → text = [48]) ∧ parseNumeral base.toNat text = some w.toNat

/-- Numbers can be read back: those without a sign from `itoa`, those with one from `%d`. -/
theorem numbers_read_back (w : UInt32) (n : Int32) (ap : List Arg) (o : Output) :
    PrintsNumeral 10 w o ∧ PrintsNumeral 16 w o ∧
      ∃ text, convert 100 (.word n.toUInt32 :: ap) o = some (ap, o.puts text) ∧
        parseDecimal text = some n.toInt := by
  refine ⟨⟨_, itoa_ten w o, numeral_ne_nil _ _, numeral_head (by decide) (by decide), ?_⟩,
    ⟨_, itoa_sixteen w o, numeral_ne_nil _ _, numeral_head (by decide) (by decide), ?_⟩,
    _, convert_d n ap o, ?_⟩
  · exact parseNumeral_numeral (by decide) (by decide) _
  · exact parseNumeral_numeral (by decide) (by decide) _
  · have hparse : parseNumeral 10 (numeral 10 n.toInt.natAbs) = some n.toInt.natAbs :=
      parseNumeral_numeral (by decide) (by decide) _
    have hneg : n < 0 ↔ n.toInt < 0 := Int32.lt_iff_toInt_lt
    rw [decimal]
    split_ifs with h <;> rw [hneg] at h
    · rw [parseDecimal, if_pos head?_cons, tail_cons, hparse, Option.map_some, Option.some.injEq]
      omega
    · have hhead : (numeral 10 n.toInt.natAbs).head? ≠ some 45 := fun hhead =>
        digitVal_of_mem (by decide) (by decide) (mem_of_head? hhead) (by decide)
      rw [parseDecimal, if_neg hhead, hparse, Option.map_some, Option.some.injEq]
      exact Int.natAbs_of_nonneg (Int.not_lt.mp h)

/-! ### What is written -/

/-- From `o` to `o'` a text is written, and nothing behind the byte after it. -/
structure Output.Wrote (o : Output) (text : List UInt8) (o' : Output) : Prop where
  bufPtr : o'.bufPtr = o.bufPtr + text.length
  text : ∀ k < text.length, some (o'.mem (o.bufPtr + k)) = text[k]?
  before : ∀ k < o.bufPtr, o'.mem k = o.mem k
  after : ∀ k, o'.bufPtr < k → o'.mem k = o.mem k

namespace Output

lemma Wrote.trans (h : o.Wrote t o₁) (h' : o₁.Wrote t' o') : o.Wrote (t ++ t') o' where
  bufPtr := by rw [h'.bufPtr, h.bufPtr, length_append, Nat.add_assoc]
  text k hk := by
    have hptr := h.bufPtr
    rw [length_append] at hk
    rw [getElem?_append]
    split_ifs with hlt
    · rw [h'.before _ (by omega), h.text k hlt]
    · rw [← h'.text _ (by omega)]
      congr 2
      omega
  before k hk := by rw [h'.before k (by rw [h.bufPtr]; omega), h.before k hk]
  after k hk := by
    rw [h'.after k hk, h.after k (by rw [h'.bufPtr] at hk; omega)]

lemma wrote_put (o : Output) (c : UInt8) : o.Wrote [c] (o.put c) where
  bufPtr := rfl
  text k hk := by simp [Nat.lt_one_iff.mp hk, put]
  before k hk := update_of_ne hk.ne ..
  after k hk := update_of_ne (by simp only [put] at hk; omega) ..

lemma wrote_puts (o : Output) (text : List UInt8) :
    o.Wrote text (o.puts text) ∧ (o.puts text).mem (o.puts text).bufPtr = o.mem (o.puts text).bufPtr := by
  induction text using reverseRecOn with
  | nil => exact ⟨⟨rfl, nofun, fun _ _ => rfl, fun _ _ => rfl⟩, rfl⟩
  | append_singleton text c ih =>
    rw [puts_concat]
    refine ⟨ih.1.trans (wrote_put _ c), ?_⟩
    exact (update_of_ne (Nat.succ_ne_self _) ..).trans (ih.1.after _ (Nat.lt_succ_self _))

end Output

/-- A piece of a format with the argument that goes with it. -/
inductive Item where
  | lit (c : UInt8)
  | str (s : List UInt8)
  | dec (n : Int32)
  | hex (w : UInt32)
  | chr (c : UInt8)

namespace Item

def format : Item → List UInt8
  | lit c => [c]
  | str _ => [37, 115]
  | dec _ => [37, 100]
  | hex _ => [37, 120]
  | chr _ => [37, 99]

def args : Item → List Arg
  | lit _ => []
  | str s => [.str s]
  | dec n => [.word n.toUInt32]
  | hex w => [.word w]
  | chr c => [.word c.toUInt32]

/-- What stands for the piece in the expansion. -/
def text : Item → List UInt8
  | lit c => [c]
  | str s => s
  | dec n => decimal n
  | hex w => numeral 16 w.toNat
  | chr c => [c]

/-- Strings end before their first zero, and a percent sign is no literal. -/
def Ok : Item → Prop
  | lit c => c ≠ 0 ∧ c ≠ 37
  | str s => 0 ∉ s
  | chr c => c ≠ 0
  | _ => True

/-- The output after the piece. -/
def write (o : Output) : Item → Output
  | str s => o.strcpy s
  | i => o.puts i.text

lemma vsprintfLoop_item {i : Item} (h : i.Ok) (format : List UInt8) (ap : List Arg) :
    vsprintfLoop (i.format ++ format) (i.args ++ ap) o = vsprintfLoop format ap (i.write o) := by
  cases i with
  | lit c =>
    rw [vsprintfLoop.eq_def]
    simp [Item.format, args, h.2, write, text, Output.puts]
  | str s => simp [Item.format, args, vsprintfLoop, directives, convert, write]
  | dec n => simp [Item.format, args, vsprintfLoop, directives, convert_d, write, text]
  | hex w => simp [Item.format, args, vsprintfLoop, directives, convert, itoa_sixteen, write, text]
  | chr c => simp [Item.format, args, vsprintfLoop, directives, convert, write, text, Output.puts]

lemma vsprintfLoop_items {items : List Item} (h : ∀ i ∈ items, i.Ok) :
    vsprintfLoop (items.flatMap Item.format) (items.flatMap args) o = some (items.foldl write o) := by
  induction items generalizing o with
  | nil => rfl
  | cons i items ih =>
    rw [forall_mem_cons] at h
    rw [flatMap_cons, flatMap_cons, vsprintfLoop_item h.1, ih h.2, foldl_cons]

lemma zero_notMem_text {i : Item} (h : i.Ok) : 0 ∉ i.text := by
  have hnum : ∀ base n, 1 < base → base ≤ 16 → 0 ∉ numeral base n := fun base n hb hb' h0 =>
    digitVal_of_mem hb hb' h0 (by decide)
  cases i with
  | lit c => simpa [text] using h.1.symm
  | str s => exact h
  | dec n =>
    rw [text, decimal]
    split_ifs <;> simp [hnum]
  | hex w => exact hnum 16 _ (by decide) (by decide)
  | chr c => simpa [text, Ok] using Ne.symm h

lemma wrote_write (o : Output) (i : Item) : o.Wrote i.text (i.write o) := by
  cases i with
  | str s =>
    have h := (o.wrote_puts s).1
    have hne : ∀ k ≠ (o.puts s).bufPtr, (o.strcpy s).mem k = (o.puts s).mem k := fun k hk =>
      update_of_ne hk ..
    refine ⟨h.bufPtr, fun k hk => ?_, fun k hk => ?_, fun k hk => ?_⟩
    · rw [write, hne _ (by rw [h.bufPtr]; simp only [text] at hk; omega)]
      exact h.text k hk
    · exact (hne k (by rw [h.bufPtr]; omega)).trans (h.before k hk)
    · exact (hne k (Nat.ne_of_gt hk)).trans (h.after k hk)
  | lit c => exact (o.wrote_puts _).1
  | dec n => exact (o.wrote_puts _).1
  | hex w => exact (o.wrote_puts _).1
  | chr c => exact (o.wrote_puts _).1

lemma wrote_items (o : Output) (items : List Item) :
    o.Wrote (items.flatMap text) (items.foldl write o) := by
  induction items generalizing o with
  | nil => exact (o.wrote_puts []).1
  | cons i items ih => exact (wrote_write o i).trans (ih _)

/-- The byte after the expansion is zero if the last piece is a string or it was zero before. -/
lemma end_iff (o : Output) (items : List Item) :
    (items.foldl write o).mem (items.foldl write o).bufPtr = 0 ↔
      (∃ s, items.getLast? = some (.str s)) ∨ o.mem (items.foldl write o).bufPtr = 0 := by
  induction items using reverseRecOn with
  | nil => simp
  | append_singleton items i =>
    -- a piece that is no string writes something, but not behind it
    have hkeep : ∀ text ≠ [], ((items.foldl write o).puts text).mem
        ((items.foldl write o).puts text).bufPtr =
          o.mem ((items.foldl write o).puts text).bufPtr := by
      intro text hne
      obtain ⟨hwrote, hend⟩ := (items.foldl write o).wrote_puts text
      rw [hend, (wrote_items o items).after]
      rw [hwrote.bufPtr]
      exact Nat.lt_add_of_pos_right (length_pos_of_ne_nil hne)
    cases i with
    | str s => simp [write, Output.strcpy, Output.put]
    | lit c => simp [write, hkeep, text]
    | dec n => simp [write, hkeep, text, decimal_ne_nil]
    | hex w => simp [write, hkeep, text, numeral_ne_nil]
    | chr c => simp [write, hkeep, text]

end Item

lemma strlen_eq (h : ∀ k < n, mem (str + k) ≠ 0) (h0 : mem (str + n) = 0)
    (hfuel : n < fuel) : strlen mem fuel str = some n := by
  induction n generalizing str fuel with
  | zero =>
    obtain ⟨fuel, rfl⟩ := Nat.exists_eq_add_of_lt hfuel
    simpa [strlen] using h0
  | succ n ih =>
    obtain ⟨fuel, rfl⟩ := Nat.exists_eq_add_of_lt (Nat.zero_lt_of_lt hfuel)
    have hshift : ∀ k, str + (k + 1) = str + 1 + k := by omega
    have hrest : strlen mem fuel (str + 1) = some n := by
      refine ih (fun k hk => ?_) (hshift n ▸ h0) (by omega)
      rw [← hshift]
      exact h _ (Nat.succ_lt_succ hk)
    have hfirst : mem str ≠ 0 := h 0 n.succ_pos
    rw [Nat.zero_add, strlen, if_neg hfirst, hrest]
    rfl

/-- `sprintf` leaves the expansion of the format and its end in the buffer, and returns its
length. -/
def Formats (mem : Bytes) (str : Nat) (items : List Item) : Prop :=
  ∀ fuel > (items.flatMap Item.text).length, ∃ mem',
    sprintf fuel mem str (items.flatMap Item.format) (items.flatMap Item.args) =
      some ((items.flatMap Item.text).length, mem') ∧
    mem'.slice str (items.flatMap Item.text).length = items.flatMap Item.text ∧
    mem' (str + (items.flatMap Item.text).length) = 0

theorem formats_iff (mem : Bytes) (str : Nat) (items : List Item) (h : ∀ i ∈ items, i.Ok) :
    Formats mem str items ↔ (∃ s, items.getLast? = some (.str s)) ∨
      mem (str + (items.flatMap Item.text).length) = 0 := by
  have hwrote := Item.wrote_items ⟨mem, str⟩ items
  have hend := Item.end_iff ⟨mem, str⟩ items
  have hloop := Item.vsprintfLoop_items (o := ⟨mem, str⟩) h
  simp only [hwrote.bufPtr] at hend
  rw [← hend]
  generalize items.foldl Item.write ⟨mem, str⟩ = o' at *
  refine ⟨fun hf => ?_, fun h0 fuel hfuel => ⟨o'.mem, ?_, ?_, h0⟩⟩
  · obtain ⟨mem', hs, -, h0⟩ := hf _ (Nat.lt_succ_self _)
    rw [sprintf, hloop, Option.bind_some] at hs
    obtain ⟨n, -, heq⟩ := Option.map_eq_some_iff.mp hs
    exact (Prod.mk.inj heq).2 ▸ h0
  · have hchars : ∀ k < (items.flatMap Item.text).length, o'.mem (str + k) ≠ 0 := by
      intro k hk h0
      have htext := hwrote.text k hk
      rw [h0] at htext
      obtain ⟨i, hi, hmem⟩ := mem_flatMap.mp (mem_of_getElem? htext.symm)
      exact Item.zero_notMem_text (h i hi) hmem
    rw [sprintf, hloop, Option.bind_some, strlen_eq hchars h0 hfuel]
    rfl
  · refine ext_getElem? fun k => ?_
    by_cases hk : k < (items.flatMap Item.text).length
    · rw [Bytes.getElem?_slice _ hk, hwrote.text k hk]
    · rw [getElem?_eq_none (by simpa using hk), getElem?_eq_none (by simpa using hk)]

theorem formats_percent_s : Formats (fun _ => 1) 0 [.dec (-5), .str [97]] :=
  (formats_iff (fun _ => 1) 0 [.dec (-5), .str [97]] (by simp [Item.Ok])).mpr (.inl ⟨[97], rfl⟩)

/-- Where the buffer is not zero, a literal has no end. -/
theorem not_forall_formats :
    ¬ ∀ (mem : Bytes) (str : Nat) (items : List Item), (∀ i ∈ items, i.Ok) →
      Formats mem str items := by
  intro h
  obtain ⟨mem', hs, -, h0⟩ := h (fun _ => 1) 0 [.lit 97] (by simp [Item.Ok]) 2 (by decide)
  cases hs

end SimpleOs
