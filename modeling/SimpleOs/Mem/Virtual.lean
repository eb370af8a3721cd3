import SimpleOs.Mem.Paging

/-!
# The address space of the kernel

The kernel sees its memory through page tables. As long as the pages it owns are in different
frames, a write to one virtual address changes no other one: the owned pages behave like one flat
byte store. `Sees m P V` says that the kernel owns the pages `P` and sees the bytes `V` there.
-/

namespace SimpleOs

open Base Bytes Bitmap

namespace Memory

variable {m : Memory} {V : Bytes}

/-! ### Owned pages -/

/-- Where the pools lie: over the first megabyte, the kernel's below the user's. -/
structure PoolsOk (m : Memory) : Prop where
  aligned : pgSize ∣ m.kernelPool.phyAddrStart
  low : 0x100000 ≤ m.kernelPool.phyAddrStart
  high : m.kernelPool.phyAddrStart + 8 * m.kernelPool.poolBitmap.btmpBytesLen * pgSize ≤
    m.userPool.phyAddrStart
  fits : m.userPool.phyAddrStart < 2 ^ 32
  vaddrs : m.kernelVaddr.btmpBytesLen ≤ 4095
  size : m.kernelPool.poolSize < 2 ^ 28

/-- A page is mapped to frame number `i` of the kernel pool, and the frame is taken. -/
def HasFrame (m : Memory) (p i : Nat) : Prop :=
  i < 8 * m.kernelPool.poolBitmap.btmpBytesLen ∧ m.kernelPool.poolBitmap.bitmapScanTest i = true ∧
    m.pte p = ⟨m.kernelPool.phyAddrStart + i * pgSize, true⟩

/-- The pages `P` of the kernel heap are owned: their addresses are taken and they are in frames
of their own. The first megabyte is mapped as `loader.s` does. -/
structure Owns (m : Memory) (P : Set Nat) : Prop where
  pools : m.PoolsOk
  low : ∀ p, 0xc0000 ≤ p → p < 0xc0100 → m.pte p = ⟨(p - 0xc0000) * pgSize, true⟩
  heap : ∀ p ∈ P, 0xc0100 ≤ p ∧ p ≤ 0xc0100 + 8 * 4095
  bit : ∀ p ∈ P, m.kernelVaddr.bitmapScanTest (p - 0xc0100) = true
  frame : ∀ p ∈ P, ∃ i, m.HasFrame p i
  inj : ∀ p ∈ P, ∀ q ∈ P, ∀ i, m.HasFrame p i → m.HasFrame q i → p = q

/-- An address in an owned page or in the first megabyte. -/
def Usable (P : Set Nat) (v : Nat) : Prop :=
  v / pgSize ∈ P ∨ 0xc0000 ≤ v / pgSize ∧ v / pgSize < 0xc0100

lemma HasFrame.unique {p j : Nat} (hi : m.HasFrame p i) (hj : m.HasFrame p j) : i = j := by
  have heq := congrArg Pte.frame (hi.2.2.symm.trans hj.2.2)
  simp only [pgSize] at heq
  omega

lemma Owns.mono (h : m.Owns P') (hsub : P ⊆ P') : m.Owns P where
  pools := h.pools
  low := h.low
  heap := fun p hp => h.heap p (hsub hp)
  bit := fun p hp => h.bit p (hsub hp)
  frame := fun p hp => h.frame p (hsub hp)
  inj := fun p hp q hq => h.inj p (hsub hp) q (hsub hq)

/-- The pools and bitmaps are where they were. -/
structure SameLayout (m m' : Memory) : Prop where
  kernelStart : m'.kernelPool.phyAddrStart = m.kernelPool.phyAddrStart
  kernelLen : m'.kernelPool.poolBitmap.btmpBytesLen = m.kernelPool.poolBitmap.btmpBytesLen
  userStart : m'.userPool.phyAddrStart = m.userPool.phyAddrStart
  vaddrLen : m'.kernelVaddr.btmpBytesLen = m.kernelVaddr.btmpBytesLen
  size : m'.kernelPool.poolSize = m.kernelPool.poolSize

lemma SameLayout.refl (m : Memory) : SameLayout m m := ⟨rfl, rfl, rfl, rfl, rfl⟩

lemma SameLayout.trans (h : SameLayout m1 m2) (h' : SameLayout m2 m3) : SameLayout m1 m3 :=
  ⟨h'.1.trans h.1, h'.2.trans h.2, h'.3.trans h.3, h'.4.trans h.4, h'.5.trans h.5⟩

/-- Nothing in the usable pages is touched. -/
structure Keeps (P : Set Nat) (m m' : Memory) : Prop where
  layout : SameLayout m m'
  phys : m'.phys = m.phys
  pte : ∀ p, p ∈ P ∨ 0xc0000 ≤ p ∧ p < 0xc0100 → m'.pte p = m.pte p

lemma Keeps.refl (P : Set Nat) (m : Memory) : Keeps P m m := ⟨.refl m, rfl, fun _ _ => rfl⟩

lemma Keeps.trans (h : Keeps P m1 m2) (h' : Keeps P m2 m3) : Keeps P m1 m3 :=
  ⟨h.layout.trans h'.layout, h'.phys.trans h.phys, fun p hp => (h'.pte p hp).trans (h.pte p hp)⟩

lemma Keeps.mono (h : Keeps P' m m') (hsub : P ⊆ P') : Keeps P m m' :=
  ⟨h.layout, h.phys, fun p hp => h.pte p (hp.imp_left fun hp => hsub hp)⟩

/-- Pages stay owned when their addresses and frames stay taken. -/
lemma Owns.of_same (h : m.Owns P) (hlayout : SameLayout m m')
    (hpte : ∀ p, p ∈ P ∨ 0xc0000 ≤ p ∧ p < 0xc0100 → m'.pte p = m.pte p)
    (hbit : ∀ p ∈ P, m'.kernelVaddr.bitmapScanTest (p - 0xc0100) = true)
    (hframe : ∀ p ∈ P, ∀ i, m.HasFrame p i → m'.kernelPool.poolBitmap.bitmapScanTest i = true) :
    m'.Owns P where
  pools := by
    obtain ⟨h1, h2, h3, h4, h5⟩ := hlayout
    constructor
    · rw [h1]; exact h.pools.aligned
    · rw [h1]; exact h.pools.low
    · rw [h1, h2, h3]; exact h.pools.high
    · rw [h3]; exact h.pools.fits
    · rw [h4]; exact h.pools.vaddrs
    · rw [h5]; exact h.pools.size
  low := fun p h1 h2 => (hpte p (.inr ⟨h1, h2⟩)).trans (h.low p h1 h2)
  heap := h.heap
  bit := hbit
  frame := by
    intro p hp
    obtain ⟨i, hi⟩ := h.frame p hp
    refine ⟨i, by rw [hlayout.kernelLen]; exact hi.1, hframe p hp i hi, ?_⟩
    rw [hpte p (.inl hp), hlayout.kernelStart]
    exact hi.2.2
  inj := by
    -- a page has one frame only, so a frame it has now is the one it had
    have hback : ∀ p ∈ P, ∀ i, m'.HasFrame p i → m.HasFrame p i := by
      intro p hp i hi
      obtain ⟨j, hj⟩ := h.frame p hp
      have heq := congrArg Pte.frame ((hpte p (.inl hp)).symm.trans hi.2.2)
      rw [hj.2.2, hlayout.kernelStart] at heq
      simp only [pgSize] at heq
      obtain rfl : j = i := by omega
      exact hj
    exact fun p hp q hq i hpi hqi => h.inj p hp q hq i (hback p hp i hpi) (hback q hq i hqi)

/-- Two addresses the kernel uses are in two places. -/
lemma Owns.addrV2p_inj (h : m.Owns P) (hu : Usable P u) (hv : Usable P v)
    (heq : m.addrV2p u = m.addrV2p v) : u = v := by
  have hlow := h.pools.low
  simp only [addrV2p, translate] at heq
  rcases hu with hu | hu <;> rcases hv with hv | hv
  · obtain ⟨i, hi⟩ := h.frame _ hu
    obtain ⟨j, hj⟩ := h.frame _ hv
    rw [hi.2.2, hj.2.2] at heq
    simp only [pgSize] at heq
    obtain rfl : i = j := by omega
    have hpage := h.inj _ hu _ hv i hi hj
    simp only [pgSize] at hpage
    omega
  · obtain ⟨i, hi⟩ := h.frame _ hu
    rw [hi.2.2, h.low _ hv.1 hv.2] at heq
    simp only [pgSize] at heq hv
    omega
  · obtain ⟨i, hi⟩ := h.frame _ hv
    rw [hi.2.2, h.low _ hu.1 hu.2] at heq
    simp only [pgSize] at heq hu
    omega
  · rw [h.low _ hu.1 hu.2, h.low _ hv.1 hv.2] at heq
    simp only [pgSize] at heq hu hv
    omega

/-! ### Reading and writing -/

/-- The kernel owns the pages `P` and sees the bytes `V` there. -/
structure Sees (m : Memory) (P : Set Nat) (V : Bytes) : Prop where
  owns : m.Owns P
  view : ∀ u, Usable P u → m.view u = V u

lemma Sees.mono (h : m.Sees P' V) (hsub : P ⊆ P') : m.Sees P V :=
  ⟨h.owns.mono hsub, fun u hu => h.view u (hu.imp_left fun hv => hsub hv)⟩

lemma Owns.sees (h : m.Owns P) : m.Sees P m.view := ⟨h, fun _ _ => rfl⟩

lemma storeBytes_apply (pte : Nat → Pte) (data : Nat → UInt8) (phys : Bytes)
    (hinj : ∀ i < n, translate pte (v + i) = translate pte u → v + i = u) :
    storeBytes pte data v n phys (translate pte u) =
      if v ≤ u ∧ u < v + n then data (u - v) else phys (translate pte u) := by
  induction n with
  | zero => simp [storeBytes]
  | succ n ih =>
    simp only [storeBytes, Function.update_apply]
    split_ifs with htop hin hin
    · rw [← hinj n (by omega) htop.symm]
      congr 1
      omega
    · exact absurd (hinj n (by omega) htop.symm) (by omega)
    · have hne : v + n ≠ u := fun hvu => htop (by rw [hvu])
      rw [ih fun i hi => hinj i (by omega), if_pos (by omega)]
    · rw [ih fun i hi => hinj i (by omega), if_neg (by omega)]

lemma Sees.store (h : m.Sees P V) {data : Nat → UInt8} {V' : Bytes}
    (hin : ∀ i < n, Usable P (v + i))
    (hV : ∀ u, V' u = if v ≤ u ∧ u < v + n then data (u - v) else V u) :
    (m.store v data n).Sees P V' := by
  refine ⟨h.owns.of_same ⟨rfl, rfl, rfl, rfl, rfl⟩ (fun _ _ => rfl) h.owns.bit fun _ _ _ hi => hi.2.1, ?_⟩
  intro u hu
  have happly := storeBytes_apply m.pte data m.phys (n := n) fun i hi heq =>
    h.owns.addrV2p_inj (hin i hi) hu heq
  rw [hV, ← h.view u hu]
  exact happly

/-- The word at a virtual address. -/
def word (m : Memory) (v : Nat) : Nat := (m.view.u32 v).toNat

/-- Write a word at a virtual address. -/
def setWord (m : Memory) (v w : Nat) : Memory := m.store v (byteOf (.ofNat w)) 4

lemma Sees.word (h : m.Sees P V) (hin : ∀ i < 4, Usable P (v + i)) :
    m.word v = (V.u32 v).toNat := by
  rw [Memory.word, u32_congr fun k hk => h.view (v + k) (hin k hk)]

lemma Sees.setWord (h : m.Sees P V) (w : Nat) (hin : ∀ i < 4, Usable P (v + i)) :
    (m.setWord v w).Sees P (V.setU32 v (.ofNat w)) := by
  refine h.store hin fun u => ?_
  split_ifs with hu
  · rw [setU32, setWords_inside _ (by omega)]
    congr 1
    omega
  · exact setU32_outside _ (by omega)

lemma Sees.memset (h : m.Sees P V) (value : UInt8) (hin : ∀ i < n, Usable P (v + i)) :
    (m.memset v value n).Sees P (V.fill v value n) :=
  h.store hin fun _ => rfl

/-! ### Taking pages -/

lemma Keeps.sees (hkeep : Keeps P m m') (h : m.Sees P V) (howns : m'.Owns P) : m'.Sees P V := by
  refine ⟨howns, fun u hu => ?_⟩
  rw [← h.view u hu]
  simp only [Memory.view, addrV2p, translate, hkeep.phys, hkeep.pte _ hu]

lemma bitmapScanTest_setRun (b : Bitmap) (start cnt j : Nat) (v : Bool) :
    (setRun b start v cnt).bitmapScanTest j =
      if start ≤ j ∧ j < start + cnt then v else b.bitmapScanTest j := by
  induction cnt with
  | zero => simp [setRun]
  | succ cnt ih =>
    rw [setRun, bitmapScanTest_bitmapSet, ih]
    split_ifs with h1 h2 h3 h4 <;> first | rfl | omega

/-- One more page, in a frame of its own. -/
lemma Owns.add (h : m.Owns P) (hheap : 0xc0100 ≤ q ∧ q ≤ 0xc0100 + 8 * 4095)
    (hbit : m.kernelVaddr.bitmapScanTest (q - 0xc0100) = true) (hi : m.HasFrame q i)
    (hfree : ∀ p ∈ P, ¬ m.HasFrame p i) : m.Owns (insert q P) where
  pools := h.pools
  low := h.low
  heap := by rintro p (rfl | hp); exacts [hheap, h.heap p hp]
  bit := by rintro p (rfl | hp); exacts [hbit, h.bit p hp]
  frame := by rintro p (rfl | hp); exacts [⟨i, hi⟩, h.frame p hp]
  inj := by
    rintro p (rfl | hp) r (rfl | hr) j hpj hrj
    · rfl
    · obtain rfl := hi.unique hpj
      exact absurd hrj (hfree r hr)
    · obtain rfl := hi.unique hrj
      exact absurd hpj (hfree p hp)
    · exact h.inj p hp r hr j hpj hrj

/-- A page whose address is taken but which is not owned is put in a frame that was free. -/
lemma Owns.pageTableAdd (h : m.Owns P) {frame : Nat} {pool : Pool}
    (hpalloc : m.kernelPool.palloc = some (frame, pool)) (hq : q ∉ P)
    (hheap : 0xc0100 ≤ q ∧ q ≤ 0xc0100 + 8 * 4095)
    (hbit : m.kernelVaddr.bitmapScanTest (q - 0xc0100) = true)
    (hm' : m' = { m with kernelPool := pool }.pageTableAdd (q * pgSize) frame) :
    m'.Owns (insert q P) ∧ Keeps P m m' ∧ m'.kernelVaddr = m.kernelVaddr := by
  obtain ⟨i, hscan, heq⟩ := Option.map_eq_some_iff.mp hpalloc
  cases heq
  obtain ⟨hlt, hclear, -⟩ := bitmapScan_one_eq_some hscan
  have hdiv : q * pgSize / pgSize = q := Nat.mul_div_cancel q (by decide)
  have hkeep : Keeps P m m' := by
    subst hm'
    refine ⟨⟨rfl, rfl, rfl, rfl, rfl⟩, rfl, fun p hp => ?_⟩
    have hpq : p ≠ q := by
      rintro rfl
      rcases hp with hp | hp
      · exact hq hp
      · omega
    simp [Memory.pageTableAdd, hdiv, hpq]
  have htest (j : Nat) : m'.kernelPool.poolBitmap.bitmapScanTest j =
      if j = i then true else m.kernelPool.poolBitmap.bitmapScanTest j := by
    subst hm'
    exact bitmapScanTest_bitmapSet _ _ _ _
  have hvaddr : m'.kernelVaddr = m.kernelVaddr := by rw [hm']; rfl
  have howns : m'.Owns P := by
    refine h.of_same hkeep.layout hkeep.pte (by rw [hvaddr]; exact h.bit) fun p hp j hj => ?_
    rw [htest]
    split_ifs
    · rfl
    · exact hj.2.1
  refine ⟨howns.add hheap (by rw [hvaddr]; exact hbit) (i := i) ⟨?_, ?_, ?_⟩ ?_, hkeep, hvaddr⟩
  · rw [hkeep.layout.kernelLen]
    exact hlt
  · simp [htest]
  · subst hm'
    simp [Memory.pageTableAdd, hdiv, Nat.add_comm]
  · -- the frame was free, so no owned page is in it
    intro p hp hpi
    obtain ⟨j, hj⟩ := h.frame p hp
    have hframe := congrArg Pte.frame ((hkeep.pte p (.inl hp)).symm.trans hpi.2.2)
    rw [hj.2.2, hkeep.layout.kernelStart] at hframe
    simp only [pgSize] at hframe
    obtain rfl : j = i := by omega
    simp [hclear, HasFrame] at hj

lemma union_Ico_succ (P : Set Nat) (q cnt : Nat) :
    P ∪ Set.Ico q (q + (cnt + 1)) = insert q (P ∪ Set.Ico (q + 1) (q + 1 + cnt)) := by
  ext p
  simp only [Set.mem_union, Set.mem_Ico, Set.mem_insert_iff]
  grind

/-- A property of the memory and the owned pages that a round of the loop of `malloc_page` keeps. -/
def KeptByMap (R : Memory → Set Nat → Prop) : Prop :=
  ∀ m m' P q frame pool, m.Owns P → R m P → m.kernelPool.palloc = some (frame, pool) →
    m' = { m with kernelPool := pool }.pageTableAdd (q * pgSize) frame → Keeps P m m' →
    m'.Owns (insert q P) → R m' (insert q P)

variable {R : Memory → Set Nat → Prop}

lemma Owns.mapPages (hround : KeptByMap R) (h : m.Owns P)
    (hR : R m P) (hnew : ∀ p ∈ Set.Ico q (q + cnt), p ∉ P ∧ (0xc0100 ≤ p ∧ p ≤ 0xc0100 + 8 * 4095) ∧
      m.kernelVaddr.bitmapScanTest (p - 0xc0100) = true)
    {ok : Bool} (hmap : Memory.mapPages cnt m (q * pgSize) = (ok, m')) :
    m'.Owns P ∧ Keeps P m m' ∧ m'.kernelVaddr = m.kernelVaddr ∧
      (ok = true → m'.Owns (P ∪ Set.Ico q (q + cnt)) ∧ R m' (P ∪ Set.Ico q (q + cnt))) := by
  induction cnt generalizing m P q with
  | zero =>
    obtain ⟨rfl, rfl⟩ := Prod.mk.inj hmap
    exact ⟨h, .refl P m, rfl, fun _ => by simpa using ⟨h, hR⟩⟩
  | succ cnt ih =>
    simp only [Memory.mapPages] at hmap
    split at hmap
    · obtain ⟨rfl, rfl⟩ := Prod.mk.inj hmap
      exact ⟨h, .refl P m, rfl, by simp⟩
    · next frame pool hpalloc =>
      obtain ⟨hq, hheap, hbit⟩ := hnew q ⟨le_rfl, by omega⟩
      obtain ⟨howns, hkeep, hvaddr⟩ := h.pageTableAdd hpalloc hq hheap hbit rfl
      rw [show q * pgSize + pgSize = (q + 1) * pgSize from by ring] at hmap
      have hnew' : ∀ p ∈ Set.Ico (q + 1) (q + 1 + cnt), p ∉ insert q P ∧ _ := fun p hp => by
        simp only [Set.mem_Ico] at hp
        obtain ⟨hpP, hrest⟩ := hnew p ⟨by omega, by omega⟩
        refine ⟨?_, hvaddr ▸ hrest⟩
        rintro (rfl | hp)
        · omega
        · exact hpP hp
      obtain ⟨howns', hkeep', hvaddr', hall⟩ :=
        ih howns (hround _ _ _ _ _ _ h hR hpalloc rfl hkeep howns) hnew' hmap
      rw [union_Ico_succ, ← Set.insert_union]
      exact ⟨howns'.mono (Set.subset_insert q P),
        hkeep.trans (hkeep'.mono (Set.subset_insert q P)), hvaddr'.trans hvaddr, hall⟩

/-- `malloc_page` hands out pages nobody owns, and leaves the owned ones alone even if it fails. -/
lemma Owns.mallocPage_rounds (hround : KeptByMap R) (h : m.Owns P)
    (hcnt : 0 < cnt) (hR : ∀ b, R { m with kernelVaddr := b } P)
    (hmalloc : m.mallocPage cnt = (r, m')) :
    m'.Owns P ∧ Keeps P m m' ∧ ∀ v, r = some v → ∃ start, v = (0xc0100 + start) * pgSize ∧
      (∀ j, start ≤ j → j < start + cnt → m.kernelVaddr.bitmapScanTest j = false) ∧
      m'.kernelVaddr = setRun m.kernelVaddr start true cnt ∧
      (∀ p ∈ Set.Ico (0xc0100 + start) (0xc0100 + start + cnt), p ∉ P) ∧
      m'.Owns (P ∪ Set.Ico (0xc0100 + start) (0xc0100 + start + cnt)) ∧
      R m' (P ∪ Set.Ico (0xc0100 + start) (0xc0100 + start + cnt)) := by
  obtain ⟨rfl, rfl⟩ | ⟨start, ok, hscan, hmap, rfl⟩ := mallocPage_cases hmalloc
  · exact ⟨h, .refl P _, by simp⟩
  obtain ⟨hle, hclear⟩ := bitmapScan_eq_some hscan hcnt
  have hlen := h.pools.vaddrs
  -- the addresses were free, so none of the pages is owned
  have hnew : ∀ p ∈ Set.Ico (0xc0100 + start) (0xc0100 + start + cnt), p ∉ P := by
    rintro p ⟨h1, h2⟩ hp
    have hset := h.bit p hp
    rw [hclear (p - 0xc0100) (by omega) (by omega)] at hset
    cases hset
  have hkeep : Keeps P m { m with kernelVaddr := setRun m.kernelVaddr start true cnt } :=
    ⟨⟨rfl, rfl, rfl, btmpBytesLen_setRun _ _ _ _, rfl⟩, rfl, fun _ _ => rfl⟩
  have howns : ({ m with kernelVaddr := setRun m.kernelVaddr start true cnt } : Memory).Owns P := by
    refine h.of_same hkeep.layout (fun _ _ => rfl) (fun p hp => ?_) fun _ _ _ hi => hi.2.1
    simp [bitmapScanTest_setRun, h.bit p hp]
  obtain ⟨howns', hkeep', hvaddr, hall⟩ := howns.mapPages hround (hR _) (fun p hp => ⟨hnew p hp, by
    obtain ⟨h1, h2⟩ := hp
    refine ⟨by omega, ?_⟩
    rw [bitmapScanTest_setRun, if_pos (by omega)]⟩) hmap
  refine ⟨howns', hkeep.trans hkeep', fun v hv => ?_⟩
  cases ok with
  | false => cases hv
  | true => exact ⟨start, (Option.some.inj hv).symm, hclear, hvaddr, hnew, hall rfl⟩

lemma Owns.mallocPage (h : m.Owns P) (hcnt : 0 < cnt) (hmalloc : m.mallocPage cnt = (r, m')) :
    m'.Owns P ∧ Keeps P m m' ∧ ∀ v, r = some v → ∃ q, v = q * pgSize ∧
      (∀ p ∈ Set.Ico q (q + cnt), p ∉ P) ∧ m'.Owns (P ∪ Set.Ico q (q + cnt)) := by
  obtain ⟨howns, hkeep, hsome⟩ := h.mallocPage_rounds (R := fun _ _ => True)
    (fun _ _ _ _ _ _ _ _ _ _ _ _ => trivial) hcnt (fun _ => trivial) hmalloc
  refine ⟨howns, hkeep, fun v hv => ?_⟩
  obtain ⟨start, hv, -, -, hnew, hall, -⟩ := hsome v hv
  exact ⟨_, hv, hnew, hall⟩

lemma Sees.mallocPage (h : m.Sees P V) (hcnt : 0 < cnt) (hmalloc : m.mallocPage cnt = (r, m')) :
    m'.Sees P V ∧ ∀ v, r = some v → ∃ q V', v = q * pgSize ∧ 0xc0100 ≤ q ∧
      (∀ p ∈ Set.Ico q (q + cnt), p ∉ P) ∧ m'.Sees (P ∪ Set.Ico q (q + cnt)) V' ∧
      ∀ u, u < q * pgSize ∨ (q + cnt) * pgSize ≤ u → V' u = V u := by
  obtain ⟨howns, hkeep, hsome⟩ := h.owns.mallocPage hcnt hmalloc
  have hsees := hkeep.sees h howns
  refine ⟨hsees, fun v hv => ?_⟩
  obtain ⟨q, hvq, hnew, hall⟩ := hsome v hv
  have hq : 0xc0100 ≤ q := (hall.heap q (.inr ⟨le_rfl, by omega⟩)).1
  -- the new pages hold whatever their frames hold
  refine ⟨q, fun u => if q ≤ u / pgSize ∧ u / pgSize < q + cnt then m'.view u else V u, hvq, hq, hnew,
    ⟨hall, fun u hu => ?_⟩, fun u hu => if_neg ?_⟩
  · split_ifs with hin
    · rfl
    · exact hsees.view u (hu.imp_left fun hmem => hmem.resolve_right hin)
  · simp only [pgSize] at hu ⊢
    omega

/-! ### Giving pages back -/

/-- What freeing the frame of an owned page does to the bitmap. -/
lemma Owns.pfree (h : m.Owns P) (hi : m.HasFrame q i) :
    m.pfree (m.addrV2p (q * pgSize)) = { m with kernelPool := { m.kernelPool with
      poolBitmap := m.kernelPool.poolBitmap.bitmapSet i false } } := by
  have hdiv : q * pgSize / pgSize = q := Nat.mul_div_cancel q (by decide)
  have hhigh := h.pools.high
  have hfits := h.pools.fits
  have haddr : m.addrV2p (q * pgSize) = m.kernelPool.phyAddrStart + i * pgSize := by
    simp [addrV2p, translate, hdiv, hi.2.2, Nat.mul_mod_left]
  have hbelow : ¬ m.userPool.phyAddrStart ≤ m.kernelPool.phyAddrStart + i * pgSize := by
    have hlt := hi.1
    simp only [pgSize] at hhigh ⊢
    omega
  have hidx : m.kernelPool.bitIdx (m.kernelPool.phyAddrStart + i * pgSize) = i := by
    simp only [Pool.bitIdx, pgSize] at hbelow ⊢
    omega
  rw [haddr, Memory.pfree, if_neg hbelow, Pool.release, hidx]

/-- Unmapping one page leaves the others owned. -/
lemma Owns.unmap (h : m.Owns (insert q P)) (hq : q ∉ P)
    (hm' : m' = (m.pfree (m.addrV2p (q * pgSize))).pageTablePteRemove (q * pgSize)) :
    m'.Owns P ∧ Keeps P m m' ∧ m'.kernelVaddr = m.kernelVaddr := by
  have hP := h.mono (Set.subset_insert q P)
  have hdiv : q * pgSize / pgSize = q := Nat.mul_div_cancel q (by decide)
  obtain ⟨i, hi⟩ := h.frame q (Set.mem_insert q P)
  have hpfree := h.pfree hi
  rw [hpfree] at hm'
  have hkeep : Keeps P m m' := by
    subst hm'
    refine ⟨⟨rfl, rfl, rfl, rfl, rfl⟩, rfl, fun p hp => ?_⟩
    have hpq : p ≠ q := by
      rintro rfl
      rcases hp with hp | hp
      · exact hq hp
      · have hheap := h.heap p (Set.mem_insert p P)
        omega
    simp [pageTablePteRemove, hdiv, hpq]
  refine ⟨hP.of_same hkeep.layout hkeep.pte (by rw [hm']; exact hP.bit) ?_, hkeep, by rw [hm']; rfl⟩
  intro p hp j hj
  have hji : j ≠ i := by
    rintro rfl
    exact hq (h.inj p (.inr hp) q (.inl rfl) j hj hi ▸ hp)
  have htest : m'.kernelPool.poolBitmap.bitmapScanTest j =
      m.kernelPool.poolBitmap.bitmapScanTest j := by
    rw [hm']
    exact (bitmapScanTest_bitmapSet _ _ _ _).trans (if_neg hji)
  exact htest.trans hj.2.1

/-- A property of the memory and the owned pages that a round of the loop of `mfree_page` keeps. -/
def KeptByUnmap (R : Memory → Set Nat → Prop) : Prop :=
  ∀ m m' P q, m.Owns (insert q P) → q ∉ P → R m (insert q P) →
    m' = (m.pfree (m.addrV2p (q * pgSize))).pageTablePteRemove (q * pgSize) → Keeps P m m' →
    m'.Owns P → R m' P

lemma Owns.unmapPages (hround : KeptByUnmap R)
    (h : m.Owns (P ∪ Set.Ico q (q + cnt))) (hR : R m (P ∪ Set.Ico q (q + cnt)))
    (hdisj : ∀ p ∈ Set.Ico q (q + cnt), p ∉ P) :
    (Memory.unmapPages cnt m (q * pgSize)).Owns P ∧
      Keeps P m (Memory.unmapPages cnt m (q * pgSize)) ∧
      (Memory.unmapPages cnt m (q * pgSize)).kernelVaddr = m.kernelVaddr ∧
      R (Memory.unmapPages cnt m (q * pgSize)) P := by
  induction cnt generalizing m q with
  | zero => exact ⟨h.mono Set.subset_union_left, .refl P m, rfl, by simpa [Memory.unmapPages] using hR⟩
  | succ cnt ih =>
    rw [union_Ico_succ] at h hR
    have hq : q ∉ P ∪ Set.Ico (q + 1) (q + 1 + cnt) := by
      rintro (hq | hq)
      · exact hdisj q ⟨le_rfl, by omega⟩ hq
      · simp only [Set.mem_Ico] at hq
        omega
    obtain ⟨howns, hkeep, hvaddr⟩ := h.unmap hq rfl
    obtain ⟨h1, h2, h3, h4⟩ := ih howns (hround _ _ _ _ h hq hR rfl hkeep howns) fun p hp => hdisj p (by
      simp only [Set.mem_Ico] at hp ⊢
      omega)
    simp only [Memory.unmapPages, show q * pgSize + pgSize = (q + 1) * pgSize from by ring]
    exact ⟨h1, (hkeep.mono Set.subset_union_left).trans h2, h3.trans hvaddr, h4⟩

/-- `mfree_page` gives up the pages it is told, and leaves the others alone. -/
lemma Owns.mfreePage (h : m.Owns (P ∪ Set.Ico q (q + cnt)))
    (hdisj : ∀ p ∈ Set.Ico q (q + cnt), p ∉ P) (hq : 0xc0100 ≤ q) :
    (m.mfreePage (q * pgSize) cnt).Owns P ∧ Keeps P m (m.mfreePage (q * pgSize) cnt) := by
  obtain ⟨h1, h2, -, -⟩ := h.unmapPages (R := fun _ _ => True) (fun _ _ _ _ _ _ _ _ _ _ => trivial)
    trivial hdisj
  have hstart : (q * pgSize - kHeapStart) / pgSize = q - 0xc0100 := by
    simp only [kHeapStart, pgSize]
    omega
  have hkeep : Keeps P (Memory.unmapPages cnt m (q * pgSize)) (m.mfreePage (q * pgSize) cnt) :=
    ⟨⟨rfl, rfl, rfl, btmpBytesLen_setRun _ _ _ _, rfl⟩, rfl, fun _ _ => rfl⟩
  refine ⟨h1.of_same hkeep.layout hkeep.pte ?_ fun _ _ _ hi => hi.2.1, h2.trans hkeep⟩
  intro p hp
  have hout : ¬ (q - 0xc0100 ≤ p - 0xc0100 ∧ p - 0xc0100 < q - 0xc0100 + cnt) := by
    intro hin
    have hheap := h1.heap p hp
    exact hdisj p ⟨by omega, by omega⟩ hp
  rw [Memory.mfreePage, Memory.vaddrRemove, hstart]
  simp only [bitmapScanTest_setRun, if_neg hout]
  exact h1.bit p hp

end Memory

/-! ### Start-up -/

/-- The page tables `loader.s` makes: the first megabyte is mapped where the kernel is. What they
hold for the pages behind it is not known. -/
def LoaderPages (pte : Nat → Pte) : Prop :=
  ∀ p, 0xc0000 ≤ p → p < 0xc0100 → pte p = ⟨(p - 0xc0000) * pgSize, true⟩

lemma poolsOk_memPoolInit (allMem : Nat) (pte : Nat → Pte) (phys vaddrBits : Bytes) :
    (memPoolInit allMem pte phys vaddrBits).PoolsOk := by
  constructor <;> simp only [memPoolInit, pgSize, bitmapInit] <;> omega

lemma owns_memPoolInit (allMem : Nat) (hpte : LoaderPages pte)
    (phys vaddrBits : Bytes) : (memPoolInit allMem pte phys vaddrBits).Owns ∅ :=
  ⟨poolsOk_memPoolInit allMem pte phys vaddrBits, hpte, by simp, by simp, by simp, by simp⟩

end SimpleOs
