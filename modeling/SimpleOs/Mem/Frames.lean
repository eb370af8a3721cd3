import SimpleOs.Base.Transition
import SimpleOs.Mem.Paging

/-!
# The frame allocator

`palloc` turns the number of a bit into an address of one of the two pools; `pfree` has the address
only and finds the pool and the bit again. The frames that are out are at every time those whose
bits are set.
-/

namespace SimpleOs

open Base Memory

/-- `enum pool_flags`. -/
inductive PoolFlags where
  | kernel
  | user
deriving DecidableEq

namespace Memory

variable {m m' : Memory} {pf pf' : PoolFlags} {i j frame : Nat}

/-- The pool of a flag. -/
def pool (m : Memory) : PoolFlags → Pool
  | .kernel => m.kernelPool
  | .user => m.userPool

/-- Replace the pool of a flag. -/
def setPool (m : Memory) (pf : PoolFlags) (p : Pool) : Memory :=
  match pf with
  | .kernel => { m with kernelPool := p }
  | .user => { m with userPool := p }

/-- `palloc` on one of the two pools. -/
def palloc (m : Memory) (pf : PoolFlags) : Option (Nat × Memory) :=
  (m.pool pf).palloc.map fun (frame, p) => (frame, m.setPool pf p)

@[simp] lemma pool_setPool_self (m : Memory) (pf : PoolFlags) (p : Pool) :
    (m.setPool pf p).pool pf = p := by
  cases pf <;> rfl

lemma pool_setPool_of_ne (m : Memory) (p : Pool) (h : pf' ≠ pf) :
    (m.setPool pf p).pool pf' = m.pool pf' := by
  cases pf <;> cases pf' <;> first | rfl | exact absurd rfl h

/-- The number of frames the bitmap of a pool counts. -/
def frames (m : Memory) (pf : PoolFlags) : Nat := 8 * (m.pool pf).poolBitmap.btmpBytesLen

/-- The address of a frame of a pool. -/
def frameAt (m : Memory) (pf : PoolFlags) (i : Nat) : Nat := i * pgSize + (m.pool pf).phyAddrStart

/-- Whether a frame of a pool is taken. -/
def taken (m : Memory) (pf : PoolFlags) (i : Nat) : Bool :=
  (m.pool pf).poolBitmap.bitmapScanTest i

/-- The memory with the bit of one frame changed. -/
def mark (m : Memory) (pf : PoolFlags) (i : Nat) (v : Bool) : Memory :=
  m.setPool pf { m.pool pf with poolBitmap := (m.pool pf).poolBitmap.bitmapSet i v }

/-- Where the pools lie: one behind the other, each as long as its bitmap at least. -/
structure Layout (m : Memory) : Prop where
  aligned : ∀ pf, pgSize ∣ (m.pool pf).phyAddrStart
  positive : ∀ pf, 0 < (m.pool pf).phyAddrStart
  counted : ∀ pf, m.frames pf * pgSize ≤ (m.pool pf).poolSize
  adjacent : m.kernelPool.phyAddrStart + m.kernelPool.poolSize ≤ m.userPool.phyAddrStart
  fits : m.userPool.phyAddrStart + m.userPool.poolSize ≤ 2 ^ 32

lemma layout_memPoolInit (allMem : Nat) (pte : Nat → Pte) (phys vaddrBits : Bytes) :
    (memPoolInit allMem pte phys vaddrBits).Layout := by
  constructor
  case aligned | positive | counted =>
    rintro (_ | _) <;> simp only [pool, frames, memPoolInit, pgSize] <;> omega
  all_goals
    simp only [memPoolInit, pgSize]
    omega

/-! ### One bit of one pool -/

@[simp] lemma phyAddrStart_mark (m : Memory) (pf pf' : PoolFlags) (i : Nat) (v : Bool) :
    ((m.mark pf i v).pool pf').phyAddrStart = (m.pool pf').phyAddrStart := by
  cases pf <;> cases pf' <;> rfl

@[simp] lemma poolSize_mark (m : Memory) (pf pf' : PoolFlags) (i : Nat) (v : Bool) :
    ((m.mark pf i v).pool pf').poolSize = (m.pool pf').poolSize := by
  cases pf <;> cases pf' <;> rfl

@[simp] lemma frames_mark (m : Memory) (pf pf' : PoolFlags) (i : Nat) (v : Bool) :
    (m.mark pf i v).frames pf' = m.frames pf' := by
  cases pf <;> cases pf' <;> rfl

@[simp] lemma frameAt_mark (m : Memory) (pf pf' : PoolFlags) (i j : Nat) (v : Bool) :
    (m.mark pf i v).frameAt pf' j = m.frameAt pf' j := by
  cases pf <;> cases pf' <;> rfl

@[simp] lemma taken_mark (m : Memory) (pf pf' : PoolFlags) (i j : Nat) (v : Bool) :
    (m.mark pf i v).taken pf' j = if pf' = pf ∧ j = i then v else m.taken pf' j := by
  by_cases hpf : pf' = pf
  · subst hpf
    simp [taken, mark]
  · simp [taken, mark, pool_setPool_of_ne _ _ hpf, hpf]

lemma mark_true_false (h : m.taken pf i = false) : (m.mark pf i true).mark pf i false = m := by
  have hbit := Bitmap.bitmapSet_true_false h
  cases pf <;> simp only [mark, pool, setPool] at hbit ⊢ <;> rw [hbit]

/-- The layout does not depend on the bits. -/
lemma Layout.congr (h : m.Layout)
    (hstart : ∀ pf, (m'.pool pf).phyAddrStart = (m.pool pf).phyAddrStart)
    (hsize : ∀ pf, (m'.pool pf).poolSize = (m.pool pf).poolSize)
    (hframes : ∀ pf, m'.frames pf = m.frames pf) : m'.Layout where
  aligned := fun pf => by rw [hstart]; exact h.aligned pf
  positive := fun pf => by rw [hstart]; exact h.positive pf
  counted := fun pf => by rw [hframes, hsize]; exact h.counted pf
  adjacent := by
    have hadj := h.adjacent
    have hk := hstart .kernel
    have hu := hstart .user
    have hs := hsize .kernel
    simp only [pool] at hk hu hs
    omega
  fits := by
    have hfits := h.fits
    have hu := hstart .user
    have hs := hsize .user
    simp only [pool] at hu hs
    omega

lemma Layout.mark (h : m.Layout) (pf : PoolFlags) (i : Nat) (v : Bool) : (m.mark pf i v).Layout :=
  h.congr (fun _ => phyAddrStart_mark ..) (fun _ => poolSize_mark ..) fun _ => frames_mark ..

/-! ### Addresses and bits -/

lemma Layout.frameAt_range (h : m.Layout) (hi : i < m.frames pf) :
    (m.pool pf).phyAddrStart ≤ m.frameAt pf i ∧
      m.frameAt pf i + pgSize ≤ (m.pool pf).phyAddrStart + (m.pool pf).poolSize := by
  have hcount := h.counted pf
  simp only [frameAt, pgSize] at hcount ⊢
  omega

/-- Two frames at one address are one. -/
lemma Layout.frameAt_inj (h : m.Layout) (hi : i < m.frames pf) (hj : j < m.frames pf')
    (heq : m.frameAt pf i = m.frameAt pf' j) : pf = pf' ∧ i = j := by
  have hri := h.frameAt_range hi
  have hrj := h.frameAt_range hj
  have hadj := h.adjacent
  rcases eq_or_ne pf pf' with rfl | hne
  · refine ⟨rfl, ?_⟩
    simp only [frameAt, pgSize] at heq
    omega
  · -- the pools lie one behind the other
    have hpg : 0 < pgSize := by decide
    cases pf <;> cases pf' <;> simp only [pool] at hri hrj
    · exact absurd rfl hne
    · omega
    · omega
    · exact absurd rfl hne

/-- What `palloc` does: it takes a frame that was free. -/
lemma palloc_eq_some (h : m.palloc pf = some (frame, m')) :
    ∃ i < m.frames pf, m.taken pf i = false ∧ frame = m.frameAt pf i ∧ m' = m.mark pf i true := by
  obtain ⟨⟨f, p⟩, hpool, heq⟩ := Option.map_eq_some_iff.mp h
  cases heq
  obtain ⟨i, hscan, heq'⟩ := Option.map_eq_some_iff.mp hpool
  cases heq'
  obtain ⟨hlt, hclear, -⟩ := Bitmap.bitmapScan_one_eq_some hscan
  exact ⟨i, hlt, hclear, rfl, rfl⟩

/-- It fails when there is none, and only then. -/
lemma palloc_eq_none_iff : m.palloc pf = none ↔ ∀ i < m.frames pf, m.taken pf i = true := by
  constructor
  · intro h
    have hscan : (m.pool pf).poolBitmap.bitmapScan 1 = none := by
      simpa [palloc, Pool.palloc] using h
    exact Bitmap.bitmapScan_one_eq_none hscan
  · intro hall
    cases hp : m.palloc pf with
    | none => rfl
    | some r =>
      obtain ⟨i, hi, hfree, -⟩ := palloc_eq_some hp
      rw [hall i hi] at hfree
      cases hfree

lemma palloc_mark_eq_none_iff (h : pf ≠ pf') :
    (m.mark pf' j v).palloc pf = none ↔ m.palloc pf = none := by
  simp [palloc_eq_none_iff, h]

/-- The number of frames that are free. -/
def freeFrames (m : Memory) (pf : PoolFlags) : Nat :=
  ((Finset.range (m.frames pf)).filter fun i => m.taken pf i = false).card

lemma palloc_ne_none (h : 0 < m.freeFrames pf) : m.palloc pf ≠ none := by
  obtain ⟨i, hi⟩ := Finset.card_pos.mp h
  obtain ⟨hlt, hfree⟩ := Finset.mem_filter.mp hi
  intro hnone
  have htaken := palloc_eq_none_iff.mp hnone i (Finset.mem_range.mp hlt)
  rw [hfree] at htaken
  cases htaken

lemma freeFrames_mark_true (hi : i < m.frames pf) (hfree : m.taken pf i = false) :
    (m.mark pf i true).freeFrames pf + 1 = m.freeFrames pf := by
  have hfilter : (Finset.range (m.frames pf)).filter (fun j => (m.mark pf i true).taken pf j = false) =
      ((Finset.range (m.frames pf)).filter fun j => m.taken pf j = false).erase i := by
    ext j
    by_cases hj : j = i <;> simp [hj]
  have hmem : i ∈ (Finset.range (m.frames pf)).filter fun j => m.taken pf j = false := by
    simp [hi, hfree]
  rw [freeFrames, frames_mark, hfilter, Finset.card_erase_add_one hmem]
  rfl

lemma freeFrames_mark_of_ne (h : pf ≠ pf') :
    (m.mark pf' j v).freeFrames pf = m.freeFrames pf := by
  simp [freeFrames, h]

/-- `pfree` finds the pool and the bit of a frame. -/
lemma Layout.pfree_frameAt (h : m.Layout) (hi : i < m.frames pf) :
    m.pfree (m.frameAt pf i) = m.mark pf i false := by
  have hrange := h.frameAt_range hi
  have hadj := h.adjacent
  have hfits := h.fits
  have hpg : 0 < pgSize := by decide
  have hbit : (m.pool pf).bitIdx (m.frameAt pf i) = i := by
    have hlt : m.frameAt pf i - (m.pool pf).phyAddrStart < 2 ^ 32 := by
      cases pf <;> simp only [pool] at hrange ⊢ <;> omega
    simp only [Pool.bitIdx]
    rw [show m.frameAt pf i + 2 ^ 32 - (m.pool pf).phyAddrStart = i * pgSize + 2 ^ 32 by
        simp only [frameAt]; omega, Nat.add_mod_right, Nat.mod_eq_of_lt, Nat.mul_div_cancel _ hpg]
    simpa only [frameAt, Nat.add_sub_cancel] using hlt
  cases pf with
  | kernel =>
    simp only [pool] at hrange hbit
    rw [pfree, if_neg (by omega), Pool.release, hbit]
    rfl
  | user =>
    simp only [pool] at hrange hbit
    rw [pfree, if_pos (by omega), Pool.release, hbit]
    rfl

end Memory

/-! ### Histories of the two functions -/

/-- The memory, and the frames that have been handed out and not been given back. -/
structure FrameState where
  mem : Memory
  out : Set Nat

/-- A call of one of the two functions. -/
inductive FrameAct where
  | palloc (pf : PoolFlags)
  | pfree (frame : Nat)

/-- Calls of `palloc` on both pools and of `pfree` on frames that are out, after
`mem_pool_init`. -/
def frameSystem : System FrameState FrameAct where
  init s := ∃ allMem pte phys vaddrBits, s = ⟨memPoolInit allMem pte phys vaddrBits, ∅⟩
  step s a s' :=
    match a with
    | .palloc pf =>
      (s.mem.palloc pf = none ∧ s' = s) ∨
        ∃ frame m', s.mem.palloc pf = some (frame, m') ∧ s' = ⟨m', insert frame s.out⟩
    | .pfree frame => frame ∈ s.out ∧ s' = ⟨s.mem.pfree frame, s.out \ {frame}⟩

/-- The frames that are out are those whose bits are set. -/
structure FrameInv (s : FrameState) : Prop where
  layout : s.mem.Layout
  mem_out : ∀ frame, frame ∈ s.out ↔
    ∃ pf, ∃ i < s.mem.frames pf, s.mem.taken pf i = true ∧ frame = s.mem.frameAt pf i

variable {s s' : FrameState} {pf : PoolFlags} {i frame : Nat}

lemma FrameInv.frameAt_mem_out (h : FrameInv s) (hi : i < s.mem.frames pf) :
    s.mem.frameAt pf i ∈ s.out ↔ s.mem.taken pf i = true := by
  rw [h.mem_out]
  constructor
  · rintro ⟨pf', j, hj, htaken, heq⟩
    obtain ⟨rfl, rfl⟩ := h.layout.frameAt_inj hi hj heq
    exact htaken
  · exact fun htaken => ⟨pf, i, hi, htaken, rfl⟩

/-- Changing the bit of one frame and, with it, whether the frame is out. -/
lemma FrameInv.mark (h : FrameInv s) (hi : i < s.mem.frames pf) (v : Bool)
    (hout : ∀ f, f ∈ out ↔ if f = s.mem.frameAt pf i then v = true else f ∈ s.out) :
    FrameInv ⟨s.mem.mark pf i v, out⟩ where
  layout := h.layout.mark pf i v
  mem_out := by
    intro f
    simp only [frames_mark, taken_mark, frameAt_mark, hout]
    split_ifs with hf
    · constructor
      · exact fun hv => ⟨pf, i, hi, by simp [hv], hf⟩
      · rintro ⟨pf', j, hj, htaken, heq⟩
        obtain ⟨rfl, rfl⟩ := h.layout.frameAt_inj hi hj (hf.symm.trans heq)
        simpa using htaken
    · -- the bit of another frame is as it was
      have hother : ∀ pf' j, f = s.mem.frameAt pf' j → ¬(pf' = pf ∧ j = i) := by
        rintro pf' j heq ⟨rfl, rfl⟩
        exact hf heq
      rw [h.mem_out]
      refine exists_congr fun pf' => exists_congr fun j => and_congr_right fun _ =>
        and_congr_left fun heq => ?_
      rw [if_neg (hother pf' j heq)]

lemma FrameInv.palloc {m' : Memory} (h : FrameInv s) (hp : s.mem.palloc pf = some (frame, m')) :
    FrameInv ⟨m', insert frame s.out⟩ := by
  obtain ⟨i, hi, -, rfl, rfl⟩ := palloc_eq_some hp
  refine h.mark hi true fun f => ?_
  by_cases hf : f = s.mem.frameAt pf i <;> simp [hf]

lemma FrameInv.pfree (h : FrameInv s) (hout : frame ∈ s.out) :
    FrameInv ⟨s.mem.pfree frame, s.out \ {frame}⟩ := by
  obtain ⟨pf, i, hi, -, rfl⟩ := (h.mem_out frame).mp hout
  rw [h.layout.pfree_frameAt hi]
  refine h.mark hi false fun f => ?_
  by_cases hf : f = s.mem.frameAt pf i <;> simp [hf]

lemma FrameInv.of_reachable {ok : FrameState → FrameAct → Prop} (h : frameSystem.Reachable ok s) :
    FrameInv s := by
  refine h.invariant FrameInv ?_ ?_
  · rintro s ⟨allMem, pte, phys, vaddrBits, rfl⟩
    refine ⟨layout_memPoolInit allMem pte phys vaddrBits, fun f => ?_⟩
    simp only [Set.mem_empty_iff_false, false_iff]
    rintro ⟨pf, i, -, htaken, -⟩
    -- all bits are clear at the start
    cases pf <;> simp [taken, pool, memPoolInit, Bitmap.bitmapScanTest, Bytes.zero] at htaken
  · intro s a s' hinv _ hstep
    cases a with
    | palloc pf =>
      rcases hstep with ⟨-, rfl⟩ | ⟨frame, m', hp, rfl⟩
      · exact hinv
      · exact hinv.palloc hp
    | pfree frame =>
      obtain ⟨hout, rfl⟩ := hstep
      exact hinv.pfree hout

/-- A frame that `palloc` returns is a page in the range of its own pool that is not out; giving it
back at once restores both bitmaps. `palloc` fails when every bit of the pool is set, and only
then. -/
theorem palloc_sound_of_reachable {s : FrameState} (h : frameSystem.Reachable (fun _ _ => True) s)
    (pf : PoolFlags) :
    (∀ frame m', s.mem.palloc pf = some (frame, m') →
      pgSize ∣ frame ∧ frame ≠ 0 ∧ (s.mem.pool pf).phyAddrStart ≤ frame ∧
        frame + pgSize ≤ (s.mem.pool pf).phyAddrStart + (s.mem.pool pf).poolSize ∧
        frame ∉ s.out ∧ m'.pfree frame = s.mem) ∧
    (s.mem.palloc pf = none ↔
      ∀ i < 8 * (s.mem.pool pf).poolBitmap.btmpBytesLen,
        (s.mem.pool pf).poolBitmap.bitmapScanTest i = true) := by
  have hinv := FrameInv.of_reachable h
  refine ⟨fun frame m' hp => ?_, palloc_eq_none_iff⟩
  obtain ⟨i, hi, hfree, rfl, rfl⟩ := palloc_eq_some hp
  obtain ⟨hlow, hhigh⟩ := hinv.layout.frameAt_range hi
  refine ⟨?_, ?_, hlow, hhigh, ?_, ?_⟩
  · exact Nat.dvd_add (Nat.dvd_mul_left _ _) (hinv.layout.aligned pf)
  · have hpos := hinv.layout.positive pf
    omega
  · rw [hinv.frameAt_mem_out hi, hfree]
    exact Bool.false_ne_true
  · rw [← frameAt_mark s.mem pf pf i i true,
      (hinv.layout.mark pf i true).pfree_frameAt (by rw [frames_mark]; exact hi)]
    exact mark_true_false hfree

/-- One frame is taken from the user pool of a machine of 32 MB, and given back. -/
theorem palloc_sound_first :
    ∃ m', (memPoolInit 0x2000000 (fun _ => ⟨0, false⟩) Bytes.zero Bytes.zero).palloc .user =
        some (0x1100000, m') ∧
      pgSize ∣ 0x1100000 ∧
      m'.pfree 0x1100000 = memPoolInit 0x2000000 (fun _ => ⟨0, false⟩) Bytes.zero Bytes.zero := by
  have hreach : frameSystem.Reachable (fun _ _ => True)
      ⟨memPoolInit 0x2000000 (fun _ => ⟨0, false⟩) Bytes.zero Bytes.zero, ∅⟩ :=
    .init ⟨_, _, _, _, rfl⟩
  have hp : ((memPoolInit 0x2000000 (fun _ => ⟨0, false⟩) Bytes.zero Bytes.zero).palloc .user).map
      Prod.fst = some 0x1100000 := by decide +kernel
  obtain ⟨⟨frame, m'⟩, hsome, hframe⟩ := Option.map_eq_some_iff.mp hp
  obtain rfl : frame = 0x1100000 := hframe
  obtain ⟨hdvd, -, -, -, -, hback⟩ := (palloc_sound_of_reachable hreach .user).1 _ m' hsome
  exact ⟨m', hsome, hdvd, hback⟩

end SimpleOs
