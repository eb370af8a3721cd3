import SimpleOs.Lib.Stdio

/-!
# The text console

`put_char` and `cls_screen` of `lib/kernel/print.s`, against a terminal of 25 lines of 80 cells. The
cursor is kept in two registers of the display only. A backspace at the first cell stores far
behind the screen; nothing else does.
-/

namespace SimpleOs

open Base Function List

/-! ### The functions -/

/-- The video memory, as seen through `gs`, and the registers 0x0e and 0x0f of the display. -/
structure Console where
  video : Bytes
  high : UInt8
  low : UInt8

/-- The cursor as `put_char` reads it into `bx`. -/
def Console.cursor (c : Console) : UInt16 := c.high.toUInt16 * 256 + c.low.toUInt16

/-- `.set_cursor`. -/
def setCursor (video : Bytes) (bx : UInt16) : Console := ⟨video, (bx / 256).toUInt8, bx.toUInt8⟩

/-- A store at `gs:bx`. The video segment has eight pages; behind them is a general protection
fault. -/
def storeGs (video : Bytes) (bx : UInt16) (b : UInt8) : Option Bytes :=
  if bx.toNat < 0x8000 then some (update video bx.toNat b) else none

/-- A character and its attribute, light grey on black. -/
def putCell (video : Bytes) (bx : UInt16) (ch : UInt8) : Option Bytes := do
  let video ← storeGs video bx ch
  storeGs video (bx + 1) 7

/-- `.cls`: blanks from `ebx` on. -/
def cls : (ecx ebx : Nat) → Bytes → Bytes
  | 0, _, video => video
  | ecx + 1, ebx, video => cls ecx (ebx + 2) (update (update video ebx 0x20) (ebx + 1) 7)

/-- `.roll_screen`. Each double word is copied to a lower address, so the copy takes the bytes as
they were. -/
def rollScreen (video : Bytes) : Console :=
  setCursor (cls 80 3840 (video.copy 0 video 160 3840)) 1920

/-- `.is_carriage_return`, which is also `.is_line_feed`. -/
def nextLine (video : Bytes) (bx : UInt16) : Console :=
  let bx := bx - bx % 80 + 80
  if bx.toInt16 < 2000 then setCursor video bx else rollScreen video

/-- `put_char`. -/
def putChar (c : Console) (ch : UInt8) : Option Console :=
  let bx := c.cursor
  if ch = 0xd ∨ ch = 0xa then some (nextLine c.video bx)
  else if ch = 8 then do
    let bx := (bx - 1) <<< 1
    let video ← putCell c.video bx 0x20
    return setCursor video ((bx + 1) >>> 1)
  else do
    let bx := bx <<< 1
    let video ← putCell c.video bx ch
    let bx := ((bx + 1) >>> 1) + 1
    return if bx.toInt16 < 2000 then setCursor video bx else nextLine video bx

/-- `cls_screen`. -/
def clsScreen (c : Console) : Console := setCursor (cls 2000 0 c.video) 0

/-- A call on the console. -/
inductive ConsoleCall where
  | putChar (ch : UInt8)
  | clsScreen

def ConsoleCall.run (c : Console) : ConsoleCall → Option Console
  | putChar ch => SimpleOs.putChar c ch
  | clsScreen => some (SimpleOs.clsScreen c)

/-! ### The terminal -/

/-- A screen of 25 lines of 80 cells, each a character and an attribute, with a cursor. -/
structure Terminal where
  cells : Nat → Nat → UInt8 × UInt8
  row : Nat
  col : Nat

namespace Terminal

def blank : UInt8 × UInt8 := (0x20, 7)

def setCell (cells : Nat → Nat → UInt8 × UInt8) (row col : Nat) (cell : UInt8 × UInt8) :=
  update cells row (update (cells row) col cell)

/-- To the start of the next line; the screen scrolls up when there is none. -/
def newLine (t : Terminal) : Terminal :=
  if t.row < 24 then { t with row := t.row + 1, col := 0 }
  else ⟨fun row col => if row < 24 then t.cells (row + 1) col else blank, 24, 0⟩

def print (t : Terminal) (ch : UInt8) : Terminal :=
  let t := { t with cells := setCell t.cells t.row t.col (ch, 7) }
  if t.col < 79 then { t with col := t.col + 1 } else t.newLine

/-- One cell back, which is erased; nothing at the first one. -/
def backspace (t : Terminal) : Terminal :=
  if 0 < t.col then ⟨setCell t.cells t.row (t.col - 1) blank, t.row, t.col - 1⟩
  else if 0 < t.row then ⟨setCell t.cells (t.row - 1) 79 blank, t.row - 1, 79⟩
  else t

def run (t : Terminal) : ConsoleCall → Terminal
  | .putChar ch =>
    if ch = 0xd ∨ ch = 0xa then t.newLine else if ch = 8 then t.backspace else t.print ch
  | .clsScreen => ⟨fun _ _ => blank, 0, 0⟩

end Terminal

/-- The cell with number `n` of the video memory. -/
def cellAt (video : Bytes) (n : Nat) : UInt8 × UInt8 := (video (2 * n), video (2 * n + 1))

/-- What the console shows at first. -/
def Console.view (c : Console) : Terminal :=
  ⟨fun row col => cellAt c.video (80 * row + col), c.cursor.toNat / 80, c.cursor.toNat % 80⟩

/-- The cells on the screen are those of the terminal; behind it the memory is still `video₀`. -/
structure Screen (video₀ video : Bytes) (cells : Nat → Nat → UInt8 × UInt8) : Prop where
  cells : ∀ row < 25, ∀ col < 80, cellAt video (80 * row + col) = cells row col
  rest : ∀ a ≥ 4000, video a = video₀ a

/-- The console shows the terminal, and its cursor is on the screen. -/
structure Console.Shows (video₀ : Bytes) (c : Console) (t : Terminal) : Prop where
  cursor : c.cursor.toNat = 80 * t.row + t.col
  row : t.row < 25
  col : t.col < 80
  screen : Screen video₀ c.video t.cells

/-! ### One call -/

variable {video₀ video : Bytes} {cells : Nat → Nat → UInt8 × UInt8} {t : Terminal} {c : Console}
  {bx : UInt16}

@[simp] lemma cursor_setCursor (video : Bytes) (bx : UInt16) :
    (setCursor video bx).cursor = bx := by
  apply UInt16.toNat_inj.mp
  have hlt := bx.toNat_lt
  simp only [Console.cursor, setCursor, UInt16.toNat_add, UInt16.toNat_mul, UInt8.toNat_toUInt16,
    UInt16.toNat_toUInt8, UInt16.toNat_div, UInt16.reduceToNat]
  omega

lemma shows_setCursor (hbx : bx.toNat = 80 * row + col) (hrow : row < 25) (hcol : col < 80)
    (h : Screen video₀ video cells) : (setCursor video bx).Shows video₀ ⟨cells, row, col⟩ :=
  ⟨by rwa [cursor_setCursor], hrow, hcol, h⟩

lemma toInt16_lt (h : bx.toNat < 0x8000) : bx.toInt16 < 2000 ↔ bx.toNat < 2000 := by
  have hint : bx.toInt16.toInt = bx.toNat :=
    BitVec.toInt_eq_toNat_of_lt (show 2 * bx.toNat < 2 ^ 16 by omega)
  rw [Int16.lt_iff_toInt_lt, show (2000 : Int16).toInt = 2000 from rfl]
  omega

/-- A cell of the screen is stored without a fault, and nothing else changes. -/
lemma screen_putCell (h : Screen video₀ video cells) (hrow : row < 25) (hcol : col < 80)
    (hbx : bx.toNat = 2 * (80 * row + col)) (ch : UInt8) :
    ∃ video', putCell video bx ch = some video' ∧
      Screen video₀ video' (Terminal.setCell cells row col (ch, 7)) := by
  have hsucc : (bx + 1).toNat = bx.toNat + 1 := by
    rw [UInt16.toNat_add, UInt16.toNat_one]
    omega
  refine ⟨update (update video bx.toNat ch) (bx.toNat + 1) 7, ?_, fun r hr x hx => ?_,
    fun a ha => ?_⟩
  · rw [putCell, storeGs, if_pos (by omega)]
    simp only [Option.bind_eq_bind, Option.bind_some, storeGs, hsucc]
    rw [if_pos (by omega)]
  · have hold := h.cells r hr x hx
    simp only [cellAt, Terminal.setCell, update_apply, hbx] at hold ⊢
    by_cases hhit : r = row ∧ x = col
    · obtain ⟨rfl, rfl⟩ := hhit
      simp
    · rw [if_neg (by omega), if_neg (by omega), if_neg (by omega), if_neg (by omega), hold]
      split_ifs with hr
      · rw [hr, update_of_ne (by omega)]
      · rfl
  · rw [update_of_ne (by omega), update_of_ne (by omega)]
    exact h.rest a ha

lemma cls_apply (ecx ebx : Nat) (video : Bytes) (a : Nat) :
    cls ecx ebx video a =
      if ebx ≤ a ∧ a < ebx + 2 * ecx then (if (a - ebx) % 2 = 0 then 0x20 else 7) else video a := by
  induction ecx generalizing ebx video with
  | zero => simp [cls]
  | succ ecx ih =>
    simp only [cls, ih, update_apply]
    split_ifs <;> first | rfl | omega

lemma Screen.rollScreen (h : Screen video₀ video t.cells) (hrow : t.row = 24) :
    (rollScreen video).Shows video₀ t.newLine := by
  rw [Terminal.newLine, if_neg (by omega)]
  refine shows_setCursor rfl (by decide) (by decide) ⟨fun r hr x hx => ?_, fun a ha => ?_⟩
  · simp only [cellAt, cls_apply]
    by_cases hlast : r < 24
    · have hup := h.cells (r + 1) (by omega) x hx
      rw [if_neg (by omega), if_neg (by omega), Bytes.copy_inside _ _ (by omega),
        Bytes.copy_inside _ _ (by omega), if_pos hlast, ← hup, cellAt]
      congr 2 <;> omega
    · rw [if_pos (by omega), if_pos (by omega), if_pos (by omega), if_neg (by omega), if_neg hlast]
      rfl
  · rw [cls_apply, if_neg (by omega), Bytes.copy_outside _ _ (by omega)]
    exact h.rest a ha

lemma toNat_nextLine (h : bx.toNat ≤ 2000) :
    (bx - bx % 80 + 80).toNat = 80 * (bx.toNat / 80 + 1) := by
  have hle : bx % 80 ≤ bx := by
    exact Nat.mod_le _ _
  simp only [UInt16.toNat_add, UInt16.toNat_sub_of_le _ _ hle, UInt16.toNat_mod, UInt16.reduceToNat]
  omega

/-- The fall-through from printing comes here with the cursor behind the last cell. -/
lemma nextLine_of_le (h : 1920 ≤ bx.toNat) (h' : bx.toNat ≤ 2000) :
    nextLine video bx = rollScreen video := by
  have hnext := toNat_nextLine h'
  rw [nextLine, if_neg (mt (toInt16_lt (by omega)).1 (by omega))]

lemma Screen.nextLine (h : Screen video₀ video t.cells) (hrow : t.row < 25) (hcol : t.col < 80)
    (hbx : bx.toNat = 80 * t.row + t.col) : (nextLine video bx).Shows video₀ t.newLine := by
  have hnext := toNat_nextLine (show bx.toNat ≤ 2000 by omega)
  by_cases hlast : t.row < 24
  · rw [SimpleOs.nextLine, if_pos ((toInt16_lt (by omega)).2 (by omega)), Terminal.newLine,
      if_pos hlast]
    exact shows_setCursor (by omega) (by omega) (by omega) h
  · rw [nextLine_of_le (by omega) (by omega)]
    exact h.rollScreen (by omega)

lemma toNat_shiftLeft_one (h : bx.toNat < 0x8000) : (bx <<< 1).toNat = 2 * bx.toNat := by
  simp only [UInt16.toNat_shiftLeft, UInt16.reduceToNat, Nat.reduceMod, Nat.shiftLeft_eq]
  omega

lemma succ_shiftRight_one (h : bx.toNat < 0x8000) : (bx <<< 1 + 1) >>> 1 = bx := by
  apply UInt16.toNat_inj.mp
  simp only [UInt16.toNat_shiftRight, UInt16.toNat_add, toNat_shiftLeft_one h, UInt16.reduceToNat,
    Nat.reduceMod, Nat.shiftRight_eq_div_pow]
  omega

section

variable (h : c.Shows video₀ t)
include h

lemma Console.Shows.print (hch : ¬(ch = 0xd ∨ ch = 0xa)) (hch' : ch ≠ 8) :
    ∃ c', putChar c ch = some c' ∧ c'.Shows video₀ (t.print ch) := by
  obtain ⟨hcursor, hrow, hcol, hscreen⟩ := h
  have hlt : c.cursor.toNat < 0x8000 := by omega
  obtain ⟨video, hput, hscreen⟩ := screen_putCell hscreen hrow hcol
    (by rw [toNat_shiftLeft_one hlt, hcursor]) ch
  have hsucc : (c.cursor + 1).toNat = 80 * t.row + t.col + 1 := by
    rw [UInt16.toNat_add, UInt16.toNat_one]
    omega
  simp only [putChar, if_neg hch, if_neg hch', hput, succ_shiftRight_one hlt, Option.bind_eq_bind,
    Option.bind_some, Option.pure_def, Terminal.print]
  refine ⟨_, rfl, ?_⟩
  by_cases hlow : (c.cursor + 1).toNat < 2000
  · rw [if_pos ((toInt16_lt (by omega)).2 hlow)]
    split_ifs with hend
    · exact shows_setCursor hsucc hrow (by omega) hscreen
    · -- the cell behind the line's last one is the first one of the next line
      have hrow' : t.row + 1 < 25 := by omega
      rw [Terminal.newLine, if_pos (Nat.lt_of_succ_lt_succ hrow')]
      exact shows_setCursor (show _ = 80 * (t.row + 1) + 0 by omega) hrow' (by decide) hscreen
  · rw [if_neg (mt (toInt16_lt (by omega)).1 hlow), if_neg (by omega),
      nextLine_of_le (by omega) (by omega)]
    exact hscreen.rollScreen (t := { t with cells := _ }) (by simp only; omega)

lemma Console.Shows.backspace (hhome : ¬(t.row = 0 ∧ t.col = 0)) :
    ∃ c', putChar c 8 = some c' ∧ c'.Shows video₀ t.backspace := by
  obtain ⟨hcursor, hrow, hcol, hscreen⟩ := h
  have hpred : (c.cursor - 1).toNat = 80 * t.row + t.col - 1 := by
    have hle : 1 ≤ c.cursor := by
      rw [UInt16.le_iff_toNat_le, UInt16.toNat_one]
      omega
    rw [UInt16.toNat_sub_of_le _ _ hle, hcursor, UInt16.toNat_one]
  have hlt : (c.cursor - 1).toNat < 0x8000 := by omega
  -- the previous cell is in this line or the last one of the line before
  obtain ⟨row, col, hprev, hrow', hcol', ht⟩ : ∃ row col, 80 * t.row + t.col - 1 = 80 * row + col ∧
      row < 25 ∧ col < 80 ∧
      t.backspace = ⟨Terminal.setCell t.cells row col Terminal.blank, row, col⟩ := by
    rw [Terminal.backspace]
    split_ifs with h1 h2
    · exact ⟨_, _, by omega, hrow, by omega, rfl⟩
    · exact ⟨_, _, by omega, by omega, by omega, rfl⟩
    · omega
  obtain ⟨video, hput, hscreen⟩ := screen_putCell hscreen hrow' hcol'
    (by rw [toNat_shiftLeft_one hlt, hpred, hprev]) 0x20
  rw [ht, putChar]
  simp only [hput, succ_shiftRight_one hlt, Option.bind_eq_bind, Option.bind_some, Option.pure_def]
  exact ⟨_, rfl, shows_setCursor (by omega) hrow' hcol' hscreen⟩

/-- At the first cell a backspace stores far behind the screen. -/
lemma Console.Shows.fault (hhome : t.row = 0 ∧ t.col = 0) : putChar c 8 = none := by
  have hzero : c.cursor = 0 := UInt16.toNat_inj.mp (by rw [h.cursor, hhome.1, hhome.2]; rfl)
  rw [putChar, hzero]
  rfl

lemma Console.Shows.clsScreen : (clsScreen c).Shows video₀ (t.run .clsScreen) := by
  refine shows_setCursor rfl (by decide) (by decide) ⟨fun r hr x hx => ?_, fun a ha => ?_⟩
  · rw [cellAt, cls_apply, cls_apply, if_pos (by omega), if_pos (by omega), if_pos (by omega),
      if_neg (by omega)]
    rfl
  · rw [cls_apply, if_neg (by omega)]
    exact h.screen.rest a ha

lemma Console.Shows.run (call : ConsoleCall)
    (hhome : call = .putChar 8 → ¬(t.row = 0 ∧ t.col = 0)) :
    ∃ c', call.run c = some c' ∧ c'.Shows video₀ (t.run call) := by
  cases call with
  | clsScreen => exact ⟨_, rfl, h.clsScreen⟩
  | putChar ch =>
    simp only [ConsoleCall.run, Terminal.run]
    split_ifs with hline hback
    · refine ⟨_, by rw [putChar, if_pos hline], ?_⟩
      exact h.screen.nextLine h.row h.col h.cursor
    · subst hback
      exact h.backspace (hhome rfl)
    · exact h.print hline hback

end

/-! ### Every sequence of calls -/

/-- The console runs the calls, and after each of them it shows what the terminal does. -/
def Console.ActsAsTerminal (c : Console) (calls : List ConsoleCall) : Prop :=
  ∀ done, done <+: calls → ∃ c', done.foldlM ConsoleCall.run c = some c' ∧
    c'.Shows c.video (done.foldl Terminal.run c.view)

theorem actsAsTerminal_iff (c : Console) (calls : List ConsoleCall)
    (hcursor : c.cursor.toNat < 2000) :
    c.ActsAsTerminal calls ↔ ∀ done, done ++ [.putChar 8] <+: calls →
      ¬((done.foldl Terminal.run c.view).row = 0 ∧ (done.foldl Terminal.run c.view).col = 0) := by
  constructor
  · intro h done hpre hhome
    obtain ⟨c', hrun, hshows⟩ := h done ((prefix_append ..).trans hpre)
    obtain ⟨c'', hrun', -⟩ := h _ hpre
    rw [foldlM_append, hrun] at hrun'
    simp [ConsoleCall.run, hshows.fault hhome] at hrun'
  · intro h done
    induction done using reverseRecOn with
    | nil =>
      intro _
      refine ⟨c, rfl, ?_, ?_, ?_, fun _ _ _ _ => rfl, fun _ _ => rfl⟩
      all_goals simp only [Console.view, foldl_nil]
      all_goals omega
    | append_singleton done call ih =>
      intro hpre
      obtain ⟨c', hrun, hshows⟩ := ih ((prefix_append ..).trans hpre)
      obtain ⟨c'', hstep, hshows'⟩ := hshows.run call fun heq => h done (heq ▸ hpre)
      rw [foldlM_append, hrun, foldl_append]
      exact ⟨c'', by simp [hstep], hshows'⟩

theorem actsAsTerminal_lineFeed :
    Console.ActsAsTerminal ⟨fun _ => 0, 0, 0⟩ [.putChar 0xa] := by
  refine (actsAsTerminal_iff ⟨fun _ => 0, 0, 0⟩ [.putChar 0xa] (by decide)).2 fun done hpre => ?_
  have hmem := hpre.subset (mem_append_right done (mem_singleton_self _))
  simp at hmem

/-- A backspace at the first cell. -/
theorem not_actsAsTerminal_backspace :
    ¬∀ (c : Console) (calls : List ConsoleCall), c.cursor.toNat < 2000 →
      c.ActsAsTerminal calls := by
  intro h
  obtain ⟨c', hrun, -⟩ := h ⟨fun _ => 0, 0, 0⟩ [.putChar 8] (by decide) _ prefix_rfl
  cases hrun

/-! ### Writes to standard output -/

/-- `put_str`: the characters it gives to `put_char`. -/
def putStr (mem : Bytes) : (fuel : Nat) → (ebx : Nat) → Option (List UInt8)
  | 0, _ => none
  | fuel + 1, ebx => if mem ebx = 0 then some [] else (putStr mem fuel (ebx + 1)).map (mem ebx :: ·)

/-- What a write to the console did: the characters sent, the result, the kernel memory, and how
many bytes from `tmp_buf` on were read or written. -/
structure ConsoleWrite where
  sent : List UInt8
  ret : Int32
  mem : Bytes
  touched : Nat

/-- The branch of `sys_write` for a standard output that is not a pipe, with `tmp_buf` at an address
of the kernel memory. -/
def writeConsole (fuel : Nat) (mem : Bytes) (tmpBuf : Nat) (buf : Bytes) (count : UInt32) :
    Option ConsoleWrite :=
  let mem := (mem.fill tmpBuf 0 1024).copy tmpBuf buf 0 count.toNat
  (putStr mem fuel tmpBuf).map fun sent =>
    ⟨sent, count.toInt32, mem, max 1024 (max count.toNat (sent.length + 1))⟩

/-- The write ends; it sends the bytes it was given and keeps to `tmp_buf`. -/
def WritesAsAsked (mem : Bytes) (tmpBuf : Nat) (buf : Bytes) (count : UInt32) : Prop :=
  ∃ fuel w, writeConsole fuel mem tmpBuf buf count = some w ∧ w.sent = buf.slice 0 count.toNat ∧
    w.ret.toInt = count.toNat ∧ w.touched ≤ 1024

lemma putStr_eq_strlen (mem : Bytes) (fuel ebx : Nat) :
    putStr mem fuel ebx = (strlen mem fuel ebx).map (mem.slice ebx) := by
  induction fuel generalizing ebx with
  | zero => rfl
  | succ fuel ih =>
    rw [putStr, strlen, ih]
    split_ifs
    · rfl
    · cases strlen mem fuel (ebx + 1) with
      | none => rfl
      | some n => simp [Bytes.slice, range_succ_eq_map, Nat.add_assoc, Nat.add_comm 1]

/-- The zero that ends the characters is touched, too. -/
lemma WritesAsAsked.count_lt {count : UInt32} (h : WritesAsAsked mem tmpBuf buf count) :
    count.toNat < 1024 := by
  obtain ⟨fuel, w, hw, hsent, -, htouched⟩ := h
  obtain ⟨sent, -, rfl⟩ := Option.map_eq_some_iff.1 hw
  simp only at hsent htouched
  rw [hsent, Bytes.length_slice] at htouched
  omega

/-- The zero behind the copied bytes has to be one of the 1024 bytes of `tmp_buf`. -/
theorem writesAsAsked_iff (mem : Bytes) (tmpBuf : Nat) (buf : Bytes) (count : UInt32)
    (hbuf : ∀ k < count.toNat, buf k ≠ 0) :
    WritesAsAsked mem tmpBuf buf count ↔ count.toNat < 1024 := by
  refine ⟨WritesAsAsked.count_lt, fun hcount => ?_⟩
  set mem' := (mem.fill tmpBuf 0 1024).copy tmpBuf buf 0 count.toNat with hmem'
  have hcopy : ∀ k < count.toNat, mem' (tmpBuf + k) = buf k := by
    intro k hk
    rw [hmem', Bytes.copy_inside _ _ (by omega)]
    congr 1
    omega
  have hend : mem' (tmpBuf + count.toNat) = 0 := by
    rw [hmem', Bytes.copy_outside _ _ (by omega), Bytes.fill, if_pos (by omega)]
  have hlen := strlen_eq (fun k hk => (hcopy k hk).trans_ne (hbuf k hk)) hend (Nat.lt_succ_self _)
  refine ⟨count.toNat + 1, _, by rw [writeConsole, putStr_eq_strlen, hlen]; rfl, ?_, ?_, ?_⟩
  · exact Bytes.slice_eq_slice_iff.2 fun k hk => by rw [Nat.zero_add]; exact hcopy k hk
  · exact BitVec.toInt_eq_toNat_of_lt (show 2 * count.toNat < 2 ^ 32 by omega)
  · simp only [Bytes.length_slice]
    omega

theorem writesAsAsked_three : WritesAsAsked Bytes.zero 0 (fun _ => 65) 3 :=
  (writesAsAsked_iff Bytes.zero 0 (fun _ => 65) 3 (by decide)).2 (by decide)

/-- A full buffer of letters: the zero that ends them is looked for behind `tmp_buf`. -/
theorem not_writesAsAsked_1024 :
    ¬∀ (mem : Bytes) (tmpBuf : Nat) (buf : Bytes) (count : UInt32), (∀ k < count.toNat, buf k ≠ 0) →
      WritesAsAsked mem tmpBuf buf count := by
  intro h
  have hfull := h Bytes.zero 0 (fun _ => 65) 1024 fun _ _ => by decide
  exact absurd hfull.count_lt (by decide)

end SimpleOs
