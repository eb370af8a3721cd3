import SimpleOs.Base.Fallible
import SimpleOs.Fs.Fd.Valid
import SimpleOs.Lib.BitmapScan

/-!
# Descriptor arguments

`sys_read`, `sys_write`, `sys_close` and `sys_lseek` (`fs/fs.c`) and `is_pipe` (`shell/pipe.c`) with
their argument as the 32-bit value it is. The assertion in `fd_local2global` is compiled out, so every
access to `fd_table`, `file_table` or an inode can go wrong; here each one is checked.
-/

namespace SimpleOs

open Base

/-- What a call can do wrong. -/
inductive Fault where
  | fdTable (i : UInt32)
  | fileTable (g : UInt32)
  | nullInode
deriving DecidableEq

/-- The `fd_table` of the calling process and `file_table`. -/
structure FdTables where
  fdTable : Fin 8 → Int32
  fileTable : Fin 32 → File

namespace FdTables

/-- `fd_local2global`. -/
def fdLocal2global (t : FdTables) (localFd : UInt32) : Except Fault UInt32 :=
  if h : localFd.toNat < 8 then .ok (t.fdTable ⟨localFd.toNat, h⟩).toUInt32
  else .error (.fdTable localFd)

/-- `file_table[g]`. -/
def fileAt (t : FdTables) (g : UInt32) : Except Fault File :=
  if h : g.toNat < 32 then .ok (t.fileTable ⟨g.toNat, h⟩) else .error (.fileTable g)

/-- `is_pipe`. -/
def isPipe (t : FdTables) (localFd : UInt32) : Except Fault Bool := do
  let g ← t.fdLocal2global localFd
  let file ← t.fileAt g
  return file.fdFlag = pipeFlag

/-- Store into `file_table[g]`, `g` having been checked. -/
def setFile (t : FdTables) (g : UInt32) (file : File) : FdTables :=
  { t with fileTable := fun i => if i.val = g.toNat then file else t.fileTable i }

/-- Store into `fd_table[fd]`, `fd` having been checked. -/
def setFd (t : FdTables) (fd : UInt32) (x : Int32) : FdTables :=
  { t with fdTable := fun i => if i.val = fd.toNat then x else t.fdTable i }

/-- The tables of a process that `init_thread` has set up, with nothing open. -/
def started : FdTables where
  fdTable i := if i.val < 3 then Int32.ofNat i.val else -1
  fileTable _ := ⟨0, 0, none⟩

end FdTables

/-- `fd_inode`, which is about to be followed. -/
def File.follow (file : File) : Except Fault FdPtr :=
  match file.fdInode with
  | some a => .ok a
  | none => .error .nullInode

/-- The tables with everything else. -/
structure FdMachine (W : Type) where
  tables : FdTables
  world : W

/-- What the calls do behind the tables, `fd_inode` being followed. -/
structure FdWorld (W : Type) where
  inodeClose : FdPtr → W → W
  mfreePage : Option FdPtr → W → W
  fileRead : File → FdPtr → UInt32 → W → Int32 × UInt32 × W
  fileWrite : File → FdPtr → UInt32 → W → Int32 × UInt32 × W
  pipeRead : FdPtr → UInt32 → W → Int32 × W
  pipeWrite : FdPtr → UInt32 → W → Int32 × W
  console : UInt32 → W → W
  keyboard : UInt32 → W → Int32 × W
  iSize : FdPtr → W → UInt32

/-- The four calls, with their other arguments. -/
inductive FdCall where
  | read (count : UInt32)
  | write (count : UInt32)
  | close
  | lseek (offset : Int32) (whence : UInt8)

namespace FdMachine

variable {W : Type} (ops : FdWorld W)

/-- `sys_close`. -/
def sysClose (m : FdMachine W) (fd : Int32) : Except Fault (Int32 × FdMachine W) :=
  if 2 < fd then do
    let g ← m.tables.fdLocal2global fd.toUInt32
    let pipe ← m.tables.isPipe fd.toUInt32
    let file ← m.tables.fileAt g
    if pipe then
      let file := { file with fdPos := file.fdPos - 1 }
      if file.fdPos = 0 then
        let tables := m.tables.setFile g { file with fdInode := none }
        return (0, ⟨tables.setFd fd.toUInt32 (-1), ops.mfreePage file.fdInode m.world⟩)
      else return (0, ⟨(m.tables.setFile g file).setFd fd.toUInt32 (-1), m.world⟩)
    else
      let a ← file.follow
      let tables := m.tables.setFile g { file with fdInode := none }
      return (0, ⟨tables.setFd fd.toUInt32 (-1), ops.inodeClose a m.world⟩)
  else return (-1, m)

/-- `pipe_write`, up to the loop over the bytes. -/
def pipeWrite (m : FdMachine W) (fd : UInt32) (count : UInt32) :
    Except Fault (Int32 × FdMachine W) := do
  let g ← m.tables.fdLocal2global fd
  let file ← m.tables.fileAt g
  let a ← file.follow
  let (ret, w) := ops.pipeWrite a count m.world
  return (ret, { m with world := w })

/-- `pipe_read`, up to the loop over the bytes. -/
def pipeRead (m : FdMachine W) (fd : UInt32) (count : UInt32) :
    Except Fault (Int32 × FdMachine W) := do
  let g ← m.tables.fdLocal2global fd
  let file ← m.tables.fileAt g
  let a ← file.follow
  let (ret, w) := ops.pipeRead a count m.world
  return (ret, { m with world := w })

/-- `sys_write`. -/
def sysWrite (m : FdMachine W) (fd : Int32) (count : UInt32) : Except Fault (Int32 × FdMachine W) :=
  if fd < 0 then return (-1, m)
  else if fd = 1 then do
    let pipe ← m.tables.isPipe fd.toUInt32
    if pipe then m.pipeWrite ops fd.toUInt32 count
    else return (count.toInt32, { m with world := ops.console count m.world })
  else do
    let pipe ← m.tables.isPipe fd.toUInt32
    if pipe then m.pipeWrite ops fd.toUInt32 count
    else
      let g ← m.tables.fdLocal2global fd.toUInt32
      let file ← m.tables.fileAt g
      if FdState.wantsWrite file.fdFlag then
        let a ← file.follow
        let (ret, pos, w) := ops.fileWrite file a count m.world
        return (ret, ⟨m.tables.setFile g { file with fdPos := pos }, w⟩)
      else return (-1, { m with world := ops.console 0 m.world })

/-- `sys_read`. -/
def sysRead (m : FdMachine W) (fd : Int32) (count : UInt32) : Except Fault (Int32 × FdMachine W) :=
  if fd < 0 ∨ fd = 1 ∨ fd = 2 then return (-1, m)
  else if fd = 0 then do
    let pipe ← m.tables.isPipe fd.toUInt32
    if pipe then m.pipeRead ops fd.toUInt32 count
    else
      let (ret, w) := ops.keyboard count m.world
      return (ret, { m with world := w })
  else do
    let pipe ← m.tables.isPipe fd.toUInt32
    if pipe then m.pipeRead ops fd.toUInt32 count
    else
      let g ← m.tables.fdLocal2global fd.toUInt32
      let file ← m.tables.fileAt g
      let a ← file.follow
      let (ret, pos, w) := ops.fileRead file a count m.world
      return (ret, ⟨m.tables.setFile g { file with fdPos := pos }, w⟩)

/-- `sys_lseek`. -/
def sysLseek (m : FdMachine W) (fd offset : Int32) (whence : UInt8) :
    Except Fault (Int32 × FdMachine W) :=
  if fd < 0 then return (-1, m)
  else do
    let g ← m.tables.fdLocal2global fd.toUInt32
    let file ← m.tables.fileAt g
    let a ← file.follow
    let fileSize := (ops.iSize a m.world).toInt32
    let newPos : Int32 :=
      if whence = 1 then offset
      else if whence = 2 then file.fdPos.toInt32 + offset
      else if whence = 3 then fileSize + offset
      else 0
    if newPos < 0 ∨ newPos > fileSize - 1 then return (-1, m)
    else return (newPos, { m with tables := m.tables.setFile g { file with fdPos := newPos.toUInt32 } })

/-- A call on a descriptor. -/
def exec (m : FdMachine W) (fd : Int32) : FdCall → Except Fault (Int32 × FdMachine W)
  | .read count => m.sysRead ops fd count
  | .write count => m.sysWrite ops fd count
  | .close => m.sysClose ops fd
  | .lseek offset whence => m.sysLseek ops fd offset whence

end FdMachine

/-! ### Validation -/

/-- The argument is an open descriptor of the process. -/
def FdTables.IsOpen (t : FdTables) (fd : Int32) : Prop :=
  ∃ i : Fin 8, fd.toInt = i.val ∧ t.fdTable i ≠ -1

/-- The call makes no access that goes wrong, and returns `-1` and changes nothing if the argument is
no standard descriptor and not open. -/
def FdMachine.Validates {W : Type} (ops : FdWorld W) (m : FdMachine W) (fd : Int32) (c : FdCall) :
    Prop :=
  ∃ ret m', m.exec ops fd c = .ok (ret, m') ∧
    (3 ≤ fd → ¬ m.tables.IsOpen fd → ret = -1 ∧ m' = m)

/-- The argument is in `fd_table`, and its entry there in `file_table`. -/
def FdTables.Refers (t : FdTables) (fd : Int32) (file : File) : Prop :=
  ∃ (i : Fin 8) (g : Fin 32), fd.toInt = i.val ∧ (t.fdTable i).toInt = g.val ∧ t.fileTable g = file

/-- The arguments each call is right for. -/
def FdTables.Accepts (t : FdTables) (fd : Int32) : FdCall → Prop
  | .close => fd ≤ 2 ∨ ∃ file, t.Refers fd file ∧ (file.fdFlag = pipeFlag ∨ file.fdInode ≠ none)
  | .write _ => fd < 0 ∨ ∃ file, t.Refers fd file ∧
      (file.fdFlag = pipeFlag ∨ fd ≠ 1 ∧ FdState.wantsWrite file.fdFlag = true → file.fdInode ≠ none)
  | .read _ => fd < 0 ∨ fd = 1 ∨ fd = 2 ∨ ∃ file, t.Refers fd file ∧
      (file.fdFlag = pipeFlag ∨ fd ≠ 0 → file.fdInode ≠ none)
  | .lseek _ _ => fd < 0 ∨ ∃ file, t.Refers fd file ∧ file.fdInode ≠ none

/-! ### Lookups -/

lemma toInt_eq_toNat_iff (x : Int32) {n : Nat} (hn : n < 2 ^ 31) :
    x.toInt = n ↔ x.toUInt32.toNat = n := by
  have hx := Bitmap.toInt_index x.toUInt32.toNat
  have hlt := x.toUInt32.toNat_lt
  rw [UInt32.ofNat_toNat, Int32.toInt32_toUInt32] at hx
  split_ifs at hx <;> omega

namespace FdTables

variable {t : FdTables}

/-- A lookup that goes well, and what it finds. -/
lemma Refers.lookup (h : t.Refers fd file) :
    ∃ g, t.fdLocal2global fd.toUInt32 = .ok g ∧ t.fileAt g = .ok file ∧
      t.isPipe fd.toUInt32 = .ok (file.fdFlag = pipeFlag) := by
  obtain ⟨i, g, hi, hg, rfl⟩ := h
  rw [toInt_eq_toNat_iff _ (by omega)] at hi hg
  have hlocal : t.fdLocal2global fd.toUInt32 = .ok (t.fdTable i).toUInt32 := by
    rw [fdLocal2global, dif_pos (by omega)]
    congr 3
    exact Fin.ext hi
  have hfile : t.fileAt (t.fdTable i).toUInt32 = .ok (t.fileTable g) := by
    rw [fileAt, dif_pos (by omega)]
    congr 2
    exact Fin.ext hg
  exact ⟨_, hlocal, hfile, by simp only [isPipe, hlocal, ok_bind, hfile, pure_eq_ok]⟩

/-- A lookup that goes wrong: in the first table or in the second. -/
lemma lookup_error (h : ∀ file, ¬ t.Refers fd file) :
    (∃ e, t.isPipe fd.toUInt32 = .error e) ∧
      ((∃ e, t.fdLocal2global fd.toUInt32 = .error e) ∨
        ∃ g e, t.fdLocal2global fd.toUInt32 = .ok g ∧ t.fileAt g = .error e) := by
  by_cases hi : fd.toUInt32.toNat < 8
  · have hlocal : t.fdLocal2global fd.toUInt32 = .ok (t.fdTable ⟨_, hi⟩).toUInt32 := dif_pos hi
    have hg : ¬ (t.fdTable ⟨_, hi⟩).toUInt32.toNat < 32 := by
      intro hg
      refine h _ ⟨⟨_, hi⟩, ⟨_, hg⟩, ?_, ?_, rfl⟩
      · rw [toInt_eq_toNat_iff _ (by simp only; omega)]
      · rw [toInt_eq_toNat_iff _ (by simp only; omega)]
    have hfile : t.fileAt (t.fdTable ⟨_, hi⟩).toUInt32 = .error (.fileTable _) := dif_neg hg
    refine ⟨⟨.fileTable (t.fdTable ⟨_, hi⟩).toUInt32, ?_⟩, .inr ⟨_, _, hlocal, hfile⟩⟩
    simp only [isPipe, hlocal, ok_bind, hfile, error_bind]
  · have hlocal : t.fdLocal2global fd.toUInt32 = .error (.fdTable _) := dif_neg hi
    refine ⟨⟨.fdTable fd.toUInt32, ?_⟩, .inl ⟨_, hlocal⟩⟩
    simp only [isPipe, hlocal, error_bind]

lemma Refers.isOpen (h : t.Refers fd file) : t.IsOpen fd := by
  obtain ⟨i, g, hi, hg, -⟩ := h
  refine ⟨i, hi, fun hneg => ?_⟩
  rw [hneg, show (-1 : Int32).toInt = -1 by decide] at hg
  omega

end FdTables

/-! ### Each call -/

namespace FdMachine

variable {W : Type} {ops : FdWorld W} {m : FdMachine W}

lemma not_validates_of_error (h : m.exec ops fd c = .error e) : ¬ m.Validates ops fd c := by
  rintro ⟨ret, m', hr, -⟩
  rw [h] at hr
  cases hr

/-- A call refuses some arguments and looks up the others; it fails where the lookup does. -/
lemma validates_iff_or {q : File → Prop} (hrefused : refused → m.exec ops fd c = .ok (-1, m))
    (herror : ¬ refused → (∀ file, ¬ m.tables.Refers fd file) → ∃ e, m.exec ops fd c = .error e)
    (hfile : ¬ refused → ∀ file, m.tables.Refers fd file →
      ((∃ r, m.exec ops fd c = .ok r) ↔ q file)) :
    m.Validates ops fd c ↔ refused ∨ ∃ file, m.tables.Refers fd file ∧ q file := by
  by_cases h : refused
  · exact iff_of_true ⟨-1, m, hrefused h, fun _ _ => ⟨rfl, rfl⟩⟩ (.inl h)
  rw [or_iff_right h]
  constructor
  · intro hvalid
    obtain ⟨ret, m', hr, -⟩ := id hvalid
    by_contra hno
    obtain ⟨e, he⟩ := herror h fun file href => hno ⟨file, href, (hfile h file href).mp ⟨_, hr⟩⟩
    exact not_validates_of_error he hvalid
  · rintro ⟨file, href, hq⟩
    obtain ⟨⟨ret, m'⟩, hr⟩ := (hfile h file href).mpr hq
    exact ⟨ret, m', hr, fun _ hopen => absurd href.isOpen hopen⟩

/-- Following `fd_inode` goes well exactly when it is not `NULL`. -/
lemma exists_follow_iff {α : Type} (file : File) (f : FdPtr → α) :
    (∃ r, (file.follow >>= fun a => (.ok (f a) : Except Fault α)) = .ok r) ↔ file.fdInode ≠ none := by
  cases h : file.fdInode with
  | none => simp [File.follow, h, error_bind]
  | some a => simp [File.follow, h, ok_bind]

lemma validates_close_iff : m.Validates ops fd .close ↔ m.tables.Accepts fd .close := by
  refine validates_iff_or (fun h2 => ?_) (fun h2 href => ?_) fun h2 file hfile => ?_
  · simp only [exec, sysClose, if_neg (Int32.not_lt.mpr h2), pure_eq_ok]
  · rw [Int32.not_le] at h2
    obtain ⟨⟨e, hpipe⟩, ⟨e', hg⟩ | ⟨g, e', hg, hat⟩⟩ := FdTables.lookup_error href
    · exact ⟨e', by simp only [exec, sysClose, if_pos h2, hg, error_bind]⟩
    · exact ⟨e, by simp only [exec, sysClose, if_pos h2, hg, ok_bind, hpipe, error_bind]⟩
  · obtain ⟨g, hg, hat, hpipe⟩ := hfile.lookup
    simp only [exec, sysClose, if_pos (Int32.not_le.mp h2), hg, ok_bind, hpipe, hat, pure_eq_ok,
      decide_eq_true_eq]
    by_cases hp : file.fdFlag = pipeFlag
    · refine iff_of_true ?_ (.inl hp)
      split_ifs <;> exact ⟨_, rfl⟩
    · rw [if_neg hp, or_iff_right hp]
      exact exists_follow_iff file _

lemma validates_lseek_iff :
    m.Validates ops fd (.lseek offset whence) ↔ m.tables.Accepts fd (.lseek offset whence) := by
  refine validates_iff_or (fun h0 => ?_) (fun h0 href => ?_) fun h0 file hfile => ?_
  · simp only [exec, sysLseek, if_pos h0, pure_eq_ok]
  · obtain ⟨-, ⟨e, hg⟩ | ⟨g, e, hg, hat⟩⟩ := FdTables.lookup_error href
    · exact ⟨e, by simp only [exec, sysLseek, if_neg h0, hg, error_bind]⟩
    · exact ⟨e, by simp only [exec, sysLseek, if_neg h0, hg, ok_bind, hat, error_bind]⟩
  · obtain ⟨g, hg, hat, -⟩ := hfile.lookup
    simp only [exec, sysLseek, if_neg h0, hg, ok_bind, hat, pure_eq_ok]
    cases hinode : file.fdInode with
    | none => simp [File.follow, hinode, error_bind]
    | some a =>
      simp only [File.follow, hinode, ok_bind, ne_eq, reduceCtorEq, not_false_eq_true, iff_true]
      split_ifs <;> exact ⟨_, rfl⟩

lemma exists_pipeWrite_iff (h : m.tables.Refers fd file) :
    (∃ r, m.pipeWrite ops fd.toUInt32 count = .ok r) ↔ file.fdInode ≠ none := by
  obtain ⟨g, hg, hat, -⟩ := h.lookup
  simp only [pipeWrite, hg, ok_bind, hat, pure_eq_ok]
  exact exists_follow_iff file _

lemma exists_pipeRead_iff (h : m.tables.Refers fd file) :
    (∃ r, m.pipeRead ops fd.toUInt32 count = .ok r) ↔ file.fdInode ≠ none := by
  obtain ⟨g, hg, hat, -⟩ := h.lookup
  simp only [pipeRead, hg, ok_bind, hat, pure_eq_ok]
  exact exists_follow_iff file _

lemma validates_write_iff :
    m.Validates ops fd (.write count) ↔ m.tables.Accepts fd (.write count) := by
  refine validates_iff_or (fun h0 => ?_) (fun h0 href => ?_) fun h0 file hfile => ?_
  · simp only [exec, sysWrite, if_pos h0, pure_eq_ok]
  · obtain ⟨⟨e, hpipe⟩, -⟩ := FdTables.lookup_error href
    exact ⟨e, by simp only [exec, sysWrite, if_neg h0, hpipe, error_bind, ite_self]⟩
  · obtain ⟨g, hg, hat, hpipe⟩ := hfile.lookup
    simp only [exec, sysWrite, if_neg h0, hpipe, hg, hat, ok_bind, pure_eq_ok, decide_eq_true_eq]
    by_cases hp : file.fdFlag = pipeFlag
    · simp only [hp, if_true, ite_self, exists_pipeWrite_iff hfile, true_or, true_imp_iff]
    · simp only [hp, if_false, false_or]
      split_ifs with h1 hw
      · exact iff_of_true ⟨_, rfl⟩ fun h => absurd h1 h.1
      · rw [exists_follow_iff file _]
        simp [h1, hw]
      · exact iff_of_true ⟨_, rfl⟩ fun h => absurd h.2 hw

lemma validates_read_iff :
    m.Validates ops fd (.read count) ↔ m.tables.Accepts fd (.read count) := by
  simp only [FdTables.Accepts]
  rw [← or_assoc, ← or_assoc, or_assoc (c := fd = 2)]
  refine validates_iff_or (fun h0 => ?_) (fun h0 href => ?_) fun h0 file hfile => ?_
  · simp only [exec, sysRead, if_pos h0, pure_eq_ok]
  · obtain ⟨⟨e, hpipe⟩, -⟩ := FdTables.lookup_error href
    exact ⟨e, by simp only [exec, sysRead, if_neg h0, hpipe, error_bind, ite_self]⟩
  · obtain ⟨g, hg, hat, hpipe⟩ := hfile.lookup
    simp only [exec, sysRead, if_neg h0, hpipe, hg, hat, ok_bind, pure_eq_ok, decide_eq_true_eq]
    by_cases hp : file.fdFlag = pipeFlag
    · simp only [hp, if_true, ite_self, exists_pipeRead_iff hfile, true_or, true_imp_iff]
    · simp only [hp, if_false, false_or]
      split_ifs with h1
      · exact iff_of_true ⟨_, rfl⟩ fun h => absurd h1 h
      · rw [exists_follow_iff file _]
        simp [h1]

/-- A call validates its argument exactly when there is nothing to refuse: it refuses negative values
and standard descriptors it is not for, and otherwise takes the argument for an open descriptor. -/
theorem validates_iff (ops : FdWorld W) (m : FdMachine W) (fd : Int32) (c : FdCall) :
    m.Validates ops fd c ↔ m.tables.Accepts fd c := by
  cases c with
  | read count => exact validates_read_iff
  | write count => exact validates_write_iff
  | close => exact validates_close_iff
  | lseek offset whence => exact validates_lseek_iff

/-- Nothing happens outside the tables. -/
def idle : FdWorld Unit where
  inodeClose _ w := w
  mfreePage _ w := w
  fileRead file _ _ w := (0, file.fdPos, w)
  fileWrite file _ _ w := (0, file.fdPos, w)
  pipeRead _ _ w := (0, w)
  pipeWrite _ _ w := (0, w)
  console _ w := w
  keyboard _ w := (0, w)
  iSize _ _ := 0

/-- A process that has just been started reads from descriptor 3: its entry `-1` is taken for an index
of `file_table`. -/
theorem not_forall_validates :
    ¬ ∀ fd c, (⟨.started, ()⟩ : FdMachine Unit).Validates idle fd c := by
  intro h
  refine not_validates_of_error (e := .fileTable 0xffffffff) ?_ (h 3 (.read 1))
  rfl

end FdMachine

end SimpleOs
