import SimpleOs.Device.Ioqueue

/-!
# Pipe transfers

`pipe_read` and `pipe_write` of `shell/pipe.c` as sequences of calls of `ioq_getchar` and `ioq_putchar`.
They run with the interrupts off, so as long as no call waits nothing else happens to the queue between
them. `pipe_read` asks for no more bytes than there are and never waits. `pipe_write` takes the number of
slots for the number of bytes that fit, which is one less: given more bytes than fit, it waits.
-/

namespace SimpleOs

open Base List

/-- What a call does to the queue behind its loop, and the byte it returns. -/
def IoqCall.complete (q : Ioqueue) : IoqCall → Ioqueue × List UInt8
  | ioqGetchar => ({ q with tail := nextPos q.tail }, [q.buf q.tail])
  | ioqPutchar byte =>
    ({ q with
      buf := Function.update q.buf q.head byte
      head := nextPos q.head }, [])

namespace Ioqueue

/-- The calls one after the other, and the bytes they return; `none` when one of them has to wait. -/
def run : (calls : List IoqCall) → (q : Ioqueue) → Option (Ioqueue × List UInt8)
  | [], q => some (q, [])
  | c :: calls, q =>
    if c.mustWait q then none
    else (run calls (c.complete q).1).map fun r => (r.1, (c.complete q).2 ++ r.2)

/-- The calls that `pipe_read` makes. -/
def readCalls (q : Ioqueue) (count : Nat) : List IoqCall :=
  List.replicate (if count < q.ioqLength then count else q.ioqLength) .ioqGetchar

/-- The calls that `pipe_write` makes. -/
def writeCalls (q : Ioqueue) (buffer : List UInt8) : List IoqCall :=
  let ioqLeft := bufsize - q.ioqLength
  (buffer.take (if buffer.length < ioqLeft then buffer.length else ioqLeft)).map .ioqPutchar

/-- `pipe_read`: the queue, the bytes in the buffer and `bytes_read`. -/
def pipeRead (q : Ioqueue) (count : Nat) : Option (Ioqueue × List UInt8 × Nat) :=
  (q.run (q.readCalls count)).map fun r => (r.1, r.2, (q.readCalls count).length)

/-- `pipe_write`: the queue and `bytes_write`. -/
def pipeWrite (q : Ioqueue) (buffer : List UInt8) : Option (Ioqueue × Nat) :=
  (q.run (q.writeCalls buffer)).map fun r => (r.1, (q.writeCalls buffer).length)

/-- The bytes in the queue, the oldest first. -/
def contents (q : Ioqueue) : List UInt8 := q.ring.contents bufsize

/-- How many bytes fit until the queue is full. -/
def free (q : Ioqueue) : Nat := bufsize - 1 - q.contents.length

/-- Neither transfer waits, and both move as many bytes as there is room for and as there are. -/
structure TransfersRight (q : Ioqueue) (buffer : List UInt8) (count : Nat) : Prop where
  write : ∃ q', q.pipeWrite buffer = some (q', min buffer.length q.free) ∧
    q'.contents = q.contents ++ buffer.take q.free
  read : ∃ q', q.pipeRead count = some (q', q.contents.take count, min count q.contents.length) ∧
    q'.contents = q.contents.drop count

end Ioqueue

/-! ### Runs of calls -/

namespace Ioqueue

variable {q : Ioqueue}

section

variable (h : q.ring.Wf bufsize)
include h

lemma ioqFull_iff_free : q.ioqFull = true ↔ q.free = 0 := by
  have hlt := h.count_lt
  rw [← RingBuffer.length_contents] at hlt
  rw [ioqFull_iff h, free, contents]
  omega

lemma contents_put (hfull : ¬ q.ioqFull = true) (b : UInt8) :
    (IoqCall.complete q (.ioqPutchar b)).1.contents = q.contents ++ [b] ∧
      (IoqCall.complete q (.ioqPutchar b)).1.free + 1 = q.free := by
  have hcontents : (IoqCall.complete q (.ioqPutchar b)).1.contents = q.contents ++ [b] :=
    h.contents_push b (beq_eq_false_iff_ne.mp (Bool.not_eq_true _ ▸ hfull))
  refine ⟨hcontents, ?_⟩
  rw [ioqFull_iff_free h, free] at hfull
  rw [free, free, hcontents, length_append, length_singleton]
  omega

/-- Bytes that fit are put at the end, one after the other. -/
lemma run_put (hroom : bytes.length ≤ q.free) :
    ∃ q', q.run (bytes.map .ioqPutchar) = some (q', []) ∧ q'.contents = q.contents ++ bytes := by
  induction bytes generalizing q with
  | nil => exact ⟨q, rfl, (append_nil _).symm⟩
  | cons b bytes ih =>
    rw [length_cons] at hroom
    have hfull : ¬ q.ioqFull = true := by
      rw [ioqFull_iff_free h]
      omega
    obtain ⟨hcontents, hfree⟩ := contents_put h hfull b
    obtain ⟨q', hrun, hq'⟩ := ih (q := (IoqCall.complete q (.ioqPutchar b)).1) (h.push b) (by omega)
    refine ⟨q', ?_, ?_⟩
    · rw [map_cons, run, IoqCall.mustWait, if_neg hfull, hrun]
      rfl
    · rw [hq', hcontents, append_assoc]
      rfl

lemma run_put_eq_none {bytes : List UInt8} (hmore : q.free < bytes.length) :
    q.run (bytes.map .ioqPutchar) = none := by
  induction bytes generalizing q with
  | nil => exact absurd hmore (Nat.not_lt_zero _)
  | cons b bytes ih =>
    rw [length_cons] at hmore
    rw [map_cons, run]
    split_ifs with hfull
    · rfl
    · have hfree := (contents_put h hfull b).2
      rw [ih (q := (IoqCall.complete q (.ioqPutchar b)).1) (h.push b) (by omega), Option.map_none]

/-- Bytes that are there are taken from the front. -/
lemma run_get (hn : n ≤ q.contents.length) :
    ∃ q', q.run (List.replicate n .ioqGetchar) = some (q', q.contents.take n) ∧
      q'.contents = q.contents.drop n := by
  induction n generalizing q with
  | zero => exact ⟨q, rfl, rfl⟩
  | succ n ih =>
    have hempty : q.ioqEmpty = false := by
      rw [← Bool.not_eq_true, ioqEmpty_iff h]
      exact (Nat.zero_lt_of_lt hn).ne'
    have hcontents : q.contents = q.buf q.tail :: (IoqCall.complete q .ioqGetchar).1.contents :=
      h.contents_eq_cons (beq_eq_false_iff_ne.mp hempty)
    rw [hcontents] at hn
    obtain ⟨q', hrun, hq'⟩ := ih (q := (IoqCall.complete q .ioqGetchar).1) h.pop (Nat.le_of_succ_le_succ hn)
    refine ⟨q', ?_, ?_⟩
    · rw [List.replicate_succ, run, IoqCall.mustWait, hempty, hrun, hcontents]
      rfl
    · rw [hq', hcontents, drop_succ_cons]

/-! ### `pipe_read` and `pipe_write` -/

/-- `pipe_read` never waits. -/
lemma pipeRead_right (count : Nat) :
    ∃ q', q.pipeRead count = some (q', q.contents.take count, min count q.contents.length) ∧
      q'.contents = q.contents.drop count := by
  have hsize : (if count < q.ioqLength then count else q.ioqLength) = min count q.contents.length := by
    rw [ioqLength_eq, contents]
    split_ifs <;> omega
  obtain ⟨q', hrun, hq'⟩ := run_get h (Nat.min_le_right count q.contents.length)
  have htake : q.contents.take (min count q.contents.length) = q.contents.take count := by
    rw [← take_take, take_length]
  have hdrop : q.contents.drop (min count q.contents.length) = q.contents.drop count := by
    rcases Nat.le_total count q.contents.length with hle | hle
    · rw [Nat.min_eq_left hle]
    · rw [Nat.min_eq_right hle, drop_length, drop_of_length_le hle]
  refine ⟨q', ?_, hq'.trans hdrop⟩
  rw [pipeRead, readCalls, hsize, hrun, htake, length_replicate]
  rfl

/-- `pipe_write` counts one slot too many. -/
lemma writeCalls_eq (buffer : List UInt8) :
    q.writeCalls buffer = (buffer.take (q.free + 1)).map .ioqPutchar := by
  have hlt := h.count_lt
  rw [← RingBuffer.length_contents] at hlt
  have hleft : bufsize - q.ioqLength = q.free + 1 := by
    rw [ioqLength_eq, free, contents]
    omega
  simp only [writeCalls, hleft]
  split_ifs with hshort
  · rw [take_of_length_le le_rfl, take_of_length_le hshort.le]
  · rfl

end

/-- Both transfers are right exactly when the bytes to write fit into the queue. -/
theorem transfersRight_iff (h : q.ring.Wf bufsize) (buffer : List UInt8) (count : Nat) :
    q.TransfersRight buffer count ↔ buffer.length ≤ q.free := by
  constructor
  · rintro ⟨⟨q', hwrite, -⟩, -⟩
    by_contra hmore
    have hlen : q.free < (buffer.take (q.free + 1)).length := by
      rw [length_take]
      omega
    rw [pipeWrite, writeCalls_eq h, run_put_eq_none h hlen] at hwrite
    cases hwrite
  · intro hroom
    refine ⟨?_, pipeRead_right h count⟩
    obtain ⟨q', hrun, hq'⟩ := run_put h hroom
    refine ⟨q', ?_, by rw [hq', take_of_length_le hroom]⟩
    rw [pipeWrite, writeCalls_eq h, take_of_length_le (by omega), hrun, Nat.min_eq_left hroom,
      length_map]
    rfl

/-- Two bytes through an empty pipe. -/
theorem transfersRight_two :
    (ioqueueInit fun _ => 0).TransfersRight [65, 66] 1 :=
  (transfersRight_iff ⟨by decide, by decide⟩ _ _).mpr (by decide)

/-- The writer of 64 bytes waits in an empty pipe, with 63 bytes written. -/
theorem pipeWrite_full :
    ¬ (ioqueueInit fun _ => 0).TransfersRight (List.replicate 64 65) 0 ∧
      (ioqueueInit fun _ => 0).pipeWrite (List.replicate 64 65) = none := by
  have hnone : (ioqueueInit fun _ => 0).pipeWrite (List.replicate 64 65) = none := by decide +kernel
  refine ⟨fun h => ?_, hnone⟩
  obtain ⟨q', hq', -⟩ := h.write
  rw [hnone] at hq'
  cases hq'

end Ioqueue

end SimpleOs
