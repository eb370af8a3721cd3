import Mathlib
import SimpleOs.Base.Transition

/-!
# Ring buffers

A buffer of `n` slots with two positions, `head` where the next value goes and `tail` where the oldest
one is. One slot is given up, so that equal positions mean an empty buffer. The values from `tail` up
to `head` are a queue of capacity `n - 1`.
-/

namespace SimpleOs.Base

open List

open Function

universe u

/-- The slots, the position of the next value to come and the position of the oldest value. -/
structure RingBuffer (α : Type u) where
  buf : Nat → α
  head : Nat
  tail : Nat

namespace RingBuffer

variable {α : Type u} {n : Nat} {r : RingBuffer α}

/-- Both positions are in the buffer. -/
structure Wf (r : RingBuffer α) (n : Nat) : Prop where
  head : r.head < n
  tail : r.tail < n

/-- How many values there are. -/
def count (r : RingBuffer α) (n : Nat) : Nat :=
  if r.tail ≤ r.head then r.head - r.tail else r.head + n - r.tail

/-- The values, the oldest first. -/
def contents (r : RingBuffer α) (n : Nat) : List α :=
  (List.range (r.count n)).map fun i => r.buf ((r.tail + i) % n)

/-- A value is put at the head. -/
def push (r : RingBuffer α) (n : Nat) (b : α) : RingBuffer α where
  buf := update r.buf r.head b
  head := (r.head + 1) % n
  tail := r.tail

/-- The oldest value is dropped. -/
def pop (r : RingBuffer α) (n : Nat) : RingBuffer α :=
  { r with tail := (r.tail + 1) % n }

@[simp] lemma length_contents : (r.contents n).length = r.count n := by simp [contents]

lemma Wf.pos (h : r.Wf n) : 0 < n := Nat.zero_lt_of_lt h.head

lemma Wf.count_lt (h : r.Wf n) : r.count n < n := by
  have hhead := h.head
  simp only [count]
  split_ifs <;> omega

lemma Wf.push (h : r.Wf n) (b : α) : (r.push n b).Wf n := ⟨Nat.mod_lt _ h.pos, h.tail⟩

lemma Wf.pop (h : r.Wf n) : (r.pop n).Wf n := ⟨h.head, Nat.mod_lt _ h.pos⟩

lemma Wf.count_eq_zero_iff (h : r.Wf n) : r.count n = 0 ↔ r.head = r.tail := by
  have htail := h.tail
  simp only [count]
  split_ifs <;> omega

lemma succ_mod (h : i < n) : (i + 1) % n = if i + 1 = n then 0 else i + 1 := by
  split_ifs with heq
  · rw [heq, Nat.mod_self]
  · exact Nat.mod_eq_of_lt (by omega)

variable (h : r.Wf n)
include h

lemma Wf.count_eq_pred_iff : r.count n = n - 1 ↔ (r.head + 1) % n = r.tail := by
  have hhead := h.head
  have htail := h.tail
  rw [succ_mod hhead]
  simp only [count]
  split_ifs <;> omega

lemma Wf.count_push (b : α) (hroom : (r.head + 1) % n ≠ r.tail) :
    (r.push n b).count n = r.count n + 1 := by
  have hhead := h.head
  have htail := h.tail
  rw [succ_mod hhead] at hroom
  simp only [count, RingBuffer.push, succ_mod hhead]
  split_ifs at hroom ⊢ <;> omega

lemma Wf.count_pop (hne : r.head ≠ r.tail) : (r.pop n).count n + 1 = r.count n := by
  have hhead := h.head
  have htail := h.tail
  simp only [count, RingBuffer.pop, succ_mod htail]
  split_ifs <;> omega

lemma Wf.tail_add_count : (r.tail + r.count n) % n = r.head := by
  have hhead := h.head
  have htail := h.tail
  simp only [count]
  split_ifs with hle
  · rw [Nat.add_sub_cancel' hle, Nat.mod_eq_of_lt hhead]
  · have heq : r.tail + (r.head + n - r.tail) = r.head + n := by omega
    rw [heq, Nat.add_mod_right, Nat.mod_eq_of_lt hhead]

lemma Wf.slot_ne_head (hi : i < r.count n) : (r.tail + i) % n ≠ r.head := by
  have hhead := h.head
  have hlt := h.count_lt
  simp only [count] at hi hlt
  by_cases hwrap : r.tail + i < n
  · rw [Nat.mod_eq_of_lt hwrap]
    split_ifs at hi <;> omega
  · rw [Nat.mod_eq_sub_mod (Nat.not_lt.mp hwrap), Nat.mod_eq_of_lt (by split_ifs at hi <;> omega)]
    split_ifs at hi <;> omega

/-- A value that is put comes last. -/
lemma Wf.contents_push (b : α) (hroom : (r.head + 1) % n ≠ r.tail) :
    (r.push n b).contents n = r.contents n ++ [b] := by
  have hold : ∀ i ∈ List.range (r.count n),
      update r.buf r.head b ((r.tail + i) % n) = r.buf ((r.tail + i) % n) := by
    intro i hi
    exact update_of_ne (h.slot_ne_head (mem_range.mp hi)) _ _
  calc (r.push n b).contents n
      = (List.range (r.count n + 1)).map
          fun i => update r.buf r.head b ((r.tail + i) % n) := by
        rw [contents, h.count_push b hroom]
        rfl
    _ = r.contents n ++ [b] := by
        rw [List.range_succ, map_append, map_congr_left hold, map_singleton,
          h.tail_add_count, update_self]
        rfl

lemma Wf.contents_eq_cons (hne : r.head ≠ r.tail) :
    r.contents n = r.buf r.tail :: (r.pop n).contents n := by
  have hrest : ∀ i, (r.tail + (i + 1)) % n = ((r.tail + 1) % n + i) % n := by
    intro i
    rw [Nat.mod_add_mod, Nat.add_assoc, Nat.add_comm 1 i]
  rw [contents, ← h.count_pop hne, List.range_succ_eq_map, map_cons, map_map, Nat.add_zero,
    Nat.mod_eq_of_lt h.tail]
  refine congrArg (List.cons _) (map_congr_left fun i _ => ?_)
  show r.buf ((r.tail + (i + 1)) % n) = r.buf (((r.tail + 1) % n + i) % n)
  rw [hrest]

end RingBuffer

/-! ### Queues -/

/-- A queue with all that was ever put into it and all that was ever taken out. -/
structure Fifo (α : Type u) where
  contents : List α
  written : List α
  read : List α

/-- What is done with a queue. -/
inductive FifoAct (α : Type u) where
  | put (b : α)
  | get (b : α)

/-- A queue that takes `cap` values: a value is put at the end when there is room, and taken from the
front. -/
def fifoSystem (α : Type u) (cap : Nat) : System (Fifo α) (FifoAct α) where
  init f := f = ⟨[], [], []⟩
  step f a f' :=
    match a with
    | .put b => f.contents.length < cap ∧ f' = ⟨f.contents ++ [b], f.written ++ [b], f.read⟩
    | .get b => f.contents = b :: f'.contents ∧ f'.written = f.written ∧ f'.read = f.read ++ [b]

/-- What was taken out and what is there make up what was put in. -/
lemma Fifo.written_eq_of_reachable {α : Type u} {cap : Nat} {ok : Fifo α → FifoAct α → Prop}
    {f : Fifo α} (h : (fifoSystem α cap).Reachable ok f) :
    f.written = f.read ++ f.contents ∧ f.contents.length ≤ cap := by
  refine h.invariant (fun f => f.written = f.read ++ f.contents ∧ f.contents.length ≤ cap) ?_ ?_
  · rintro f rfl
    exact ⟨rfl, Nat.zero_le _⟩
  · rintro f a f' ⟨hwritten, hlen⟩ - hstep
    cases a with
    | put b =>
      obtain ⟨hroom, rfl⟩ := hstep
      simp only [hwritten, append_assoc, length_append, length_singleton, true_and]
      exact hroom
    | get b =>
      obtain ⟨hcontents, hwritten', hread⟩ := hstep
      rw [hcontents] at hwritten hlen
      refine ⟨?_, (Nat.le_succ _).trans hlen⟩
      rw [hwritten', hwritten, hread, append_assoc]
      rfl

end SimpleOs.Base
