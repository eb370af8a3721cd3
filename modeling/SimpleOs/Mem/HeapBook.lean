import SimpleOs.Mem.HeapInvariant

/-!
# Keeping the books of the heap

The changes of the shape that `sys_malloc` and `sys_free` make, and that each of them keeps the
shape and the blocks in use in agreement. Nothing here depends on what is in the memory.
-/

namespace SimpleOs

open Base Memory Function Option

variable {sh : Shape} {live : Nat → Option Nat} {p q c i j k n x : Nat} {l rest : List Nat}

namespace Shape

/-- A new free list. -/
def setFree (sh : Shape) (i : Nat) (l : List Nat) : Shape :=
  { sh with free := update sh.free i l }

/-- A new arena of small blocks, all of them free; the list was empty. -/
def addSmall (sh : Shape) (p i : Nat) : Shape :=
  { sh with
    small := update sh.small p (some i)
    free := update sh.free i ((List.range (blocksPerArena i)).map (blockAt p i)) }

/-- Give up an arena of small blocks; `l` is what the free list is without them. -/
def dropSmall (sh : Shape) (p i : Nat) (l : List Nat) : Shape :=
  { sh with
    small := update sh.small p none
    free := update sh.free i l }

/-- A new large arena. -/
def addLarge (sh : Shape) (q c : Nat) : Shape :=
  { sh with large := update sh.large q (some c) }

/-- Give up a large arena. -/
def dropLarge (sh : Shape) (q : Nat) : Shape :=
  { sh with large := update sh.large q none }

lemma pages_addSmall (sh : Shape) (p i : Nat) :
    (sh.addSmall p i).pages = sh.pages ∪ Set.Ico p (p + 1) := by
  ext r
  by_cases hrp : r = p
  · subst hrp
    exact iff_of_true (.inl ⟨i, by simp [addSmall]⟩) (.inr ⟨le_rfl, by omega⟩)
  · have hout : r ∉ Set.Ico p (p + 1) := by simp only [Set.mem_Ico]; omega
    simp [pages, addSmall, update_of_ne hrp, hout]

lemma pages_addLarge (hq : sh.large q = none) (c : Nat) :
    (sh.addLarge q c).pages = sh.pages ∪ Set.Ico q (q + c) := by
  ext r
  constructor
  · rintro (hr | ⟨q', c', hq', hr⟩)
    · exact .inl (.inl hr)
    · by_cases hqq : q' = q
      · subst hqq
        simp only [addLarge, update_self, Option.some.injEq] at hq'
        rw [hq']
        exact .inr hr
      · simp only [addLarge, update_of_ne hqq] at hq'
        exact .inl (.inr ⟨q', c', hq', hr⟩)
  · rintro ((hr | ⟨q', c', hq', hr⟩) | hr)
    · exact .inl hr
    · have hqq : q' ≠ q := by
        rintro rfl
        rw [hq] at hq'
        cases hq'
      exact .inr ⟨q', c', by simpa [addLarge, hqq] using hq', hr⟩
    · exact .inr ⟨q, c, by simp [addLarge], hr⟩

lemma pages_dropSmall (hp : sh.small p = some i) (l : List Nat) :
    sh.pages = (sh.dropSmall p i l).pages ∪ Set.Ico p (p + 1) := by
  ext r
  by_cases hrp : r = p
  · subst hrp
    exact iff_of_true (.inl ⟨i, hp⟩) (.inr ⟨le_rfl, by omega⟩)
  · have hout : r ∉ Set.Ico p (p + 1) := by simp only [Set.mem_Ico]; omega
    simp [pages, dropSmall, update_of_ne hrp, hout]

lemma pages_dropLarge (hq : sh.large q = some c) :
    sh.pages = (sh.dropLarge q).pages ∪ Set.Ico q (q + c) := by
  have hback : (sh.dropLarge q).addLarge q c = sh := by
    simp only [addLarge, dropLarge, update_idem, ← hq, update_eq_self]
  rw [← pages_addLarge (by simp [dropLarge]), hback]

lemma IsBlock.ne (hx : sh.IsBlock i x) (hy : sh.IsBlock j y) (hij : i ≠ j) : x ≠ y := by
  rintro rfl
  obtain ⟨p, k, hp, hk, rfl⟩ := hx
  obtain ⟨p', k', hp', hk', heq⟩ := hy
  have hsize := sixteen_le_blockSize i
  have hsize' := sixteen_le_blockSize j
  have hdiv := blockAt_div p hk (j := 0) (by omega)
  have hdiv' := blockAt_div p' hk' (j := 0) (by omega)
  obtain rfl : p = p' := by rw [← hdiv, heq, hdiv']
  exact hij (some.inj (hp.symm.trans hp'))

end Shape

namespace Book

variable (h : Book sh live)
include h

lemma page_of_live (hx : live x = some n) : x / pgSize ∈ sh.pages := by
  rcases h.region x n hx with ⟨p, i, k, hp, hk, rfl, -⟩ | ⟨q, c, hq, rfl, -⟩
  · have hsize := sixteen_le_blockSize i
    have hdiv := blockAt_div p hk (j := 0) (by omega)
    rw [Nat.add_zero] at hdiv
    rw [hdiv]
    exact .inl ⟨i, hp⟩
  · have hdiv : (q * pgSize + 12) / pgSize = q := by simp only [pgSize]; omega
    rw [hdiv]
    exact h.mem_pages_of_large hq

lemma block_ne_large (hx : sh.IsBlock i x) (hq : sh.large q = some c) : x ≠ q * pgSize + 12 := by
  rintro rfl
  obtain ⟨p, k, hp, hk, heq⟩ := hx
  have hsize := sixteen_le_blockSize i
  have hdiv := blockAt_div p hk (j := 0) (by omega)
  rw [← heq] at hdiv
  have hqp : q = p := by simp only [pgSize] at hdiv; omega
  have hpos := (h.large_pos q c hq).1
  exact h.small_large p i q c hp hq ⟨by omega, by omega⟩

/-- A block is taken out of its free list or put in it. -/
lemma set_block (hx : sh.IsBlock i x) (hl : ∀ y, y ∈ l ↔ if y = x then o = none else y ∈ sh.free i)
    (ho : ∀ n, o = some n → n ≤ blockSize i) : Book (sh.setFree i l) (update live x o) where
  lt_of_small := h.lt_of_small
  large_pos := h.large_pos
  small_large := h.small_large
  large_large := h.large_large
  isBlock := by
    intro j hj y hy
    by_cases hji : j = i
    · subst hji
      simp only [Shape.setFree, update_self, hl] at hy
      split_ifs at hy with hyx
      · exact hyx ▸ hx
      · exact h.isBlock j hj y hy
    · simp only [Shape.setFree, update_of_ne hji] at hy
      exact h.isBlock j hj y hy
  mem_free := by
    intro p j k hp hk
    have hold := h.mem_free p j k hp hk
    by_cases hji : j = i
    · subst hji
      simp only [Shape.setFree, update_self, hl, update_apply]
      split_ifs
      · rfl
      · exact hold
    · have hy : blockAt p j k ≠ x := Shape.IsBlock.ne ⟨p, k, hp, hk, rfl⟩ hx hji
      simp only [Shape.setFree, update_of_ne hji, update_of_ne hy]
      exact hold
  region := by
    intro y n hy
    by_cases hyx : y = x
    · obtain ⟨p, k, hp, hk, hxk⟩ := hx
      rw [hyx, update_self] at hy
      exact .inl ⟨p, i, k, hp, hk, hyx.trans hxk, ho n hy⟩
    · rw [update_of_ne hyx] at hy
      exact h.region y n hy
  large_live := by
    intro q c hq
    rw [update_of_ne (h.block_ne_large hx hq).symm]
    exact h.large_live q c hq

lemma pop (hi : i < 7) (hfree : sh.free i = x :: rest) (hnodup : (x :: rest).Nodup)
    (hn : n ≤ blockSize i) : Book (sh.setFree i rest) (update live x (some n)) := by
  refine h.set_block (h.isBlock i hi x (by simp [hfree])) (fun y => ?_) fun n' hn' => ?_
  · split_ifs with hyx
    · simpa [hyx] using (List.nodup_cons.mp hnodup).1
    · simp [hfree, hyx]
  · exact some.inj hn' ▸ hn

lemma push (hx : sh.IsBlock i x) : Book (sh.setFree i (sh.free i ++ [x])) (update live x none) := by
  refine h.set_block hx (fun y => ?_) (by simp)
  split_ifs with hyx <;> simp [hyx]

/-- The arena of small blocks in page `p` comes or goes, while none of its blocks is in use. -/
lemma set_small
    (ho : ∀ j, o = some j → j = i ∧ i < 7 ∧ ∀ q c, sh.large q = some c → p ∉ Set.Ico q (q + c))
    (hclass : ∀ j, sh.small p = some j → j = i)
    (hnone : ∀ k < blocksPerArena i, live (blockAt p i k) = none)
    (hl : ∀ y, y ∈ l ↔ (o = some i ∧ ∃ k < blocksPerArena i, y = blockAt p i k) ∨
      y ∈ sh.free i ∧ ∀ k < blocksPerArena i, y ≠ blockAt p i k) :
    Book ⟨update sh.small p o, sh.large, update sh.free i l⟩ live where
  lt_of_small := by
    intro r j hr
    by_cases hrp : r = p
    · simp only [hrp, update_self] at hr
      exact (ho j hr).1 ▸ (ho j hr).2.1
    · simp only [update_of_ne hrp] at hr
      exact h.lt_of_small r j hr
  large_pos := h.large_pos
  small_large := by
    intro r j q c hr hq
    by_cases hrp : r = p
    · simp only [hrp, update_self] at hr
      exact hrp ▸ (ho j hr).2.2 q c hq
    · simp only [update_of_ne hrp] at hr
      exact h.small_large r j q c hr hq
  large_large := h.large_large
  isBlock := by
    intro j hj y hy
    -- a block that was free before is in another page
    have hold : y ∈ sh.free j → (j = i → ∀ k < blocksPerArena i, y ≠ blockAt p i k) →
        ∃ r k, update sh.small p o r = some j ∧ k < blocksPerArena j ∧ y = blockAt r j k := by
      intro hy hout
      obtain ⟨r, k, hr, hk, rfl⟩ := h.isBlock j hj y hy
      have hrp : r ≠ p := by
        rintro rfl
        obtain rfl := hclass j hr
        exact hout rfl k hk rfl
      exact ⟨r, k, (update_of_ne hrp _ _).trans hr, hk, rfl⟩
    by_cases hji : j = i
    · subst hji
      simp only [update_self, hl] at hy
      rcases hy with ⟨rfl, k, hk, rfl⟩ | ⟨hy, hout⟩
      · exact ⟨p, k, update_self .., hk, rfl⟩
      · exact hold hy fun _ => hout
    · simp only [update_of_ne hji] at hy
      exact hold hy fun heq => absurd heq hji
  mem_free := by
    intro r j k hr hk
    by_cases hrp : r = p
    · subst hrp
      simp only [update_self] at hr
      obtain rfl := (ho j hr).1
      simp only [update_self, hl, hnone k hk, iff_true]
      exact .inl ⟨hr, k, hk, rfl⟩
    · simp only [update_of_ne hrp] at hr
      have hold := h.mem_free r j k hr hk
      by_cases hji : j = i
      · subst hji
        have hout : ∀ k' < blocksPerArena j, blockAt r j k ≠ blockAt p j k' :=
          fun k' hk' heq => hrp (blockAt_inj hk hk' heq).1
        simp only [update_self, hl, ← hold]
        exact ⟨fun hy => hy.elim (fun ⟨_, k', hk', heq⟩ => absurd heq (hout k' hk')) And.left,
          fun hy => .inr ⟨hy, hout⟩⟩
      · simp only [update_of_ne hji]
        exact hold
  region := by
    intro y n hy
    refine (h.region y n hy).imp_left ?_
    rintro ⟨r, j, k, hr, hk, rfl, hn⟩
    have hrp : r ≠ p := by
      rintro rfl
      obtain rfl := hclass j hr
      rw [hnone k hk] at hy
      cases hy
    exact ⟨r, j, k, (update_of_ne hrp _ _).trans hr, hk, rfl, hn⟩
  large_live := h.large_live

/-- A new arena of small blocks. -/
lemma addSmall (hi : i < 7) (hempty : sh.free i = []) (hp : p ∉ sh.pages) :
    Book (sh.addSmall p i) live := by
  refine h.set_small (fun j hj => ?_) (fun j hj => absurd (.inl ⟨j, hj⟩) hp) (fun k hk => ?_) fun y => ?_
  · exact ⟨(some.inj hj).symm, hi, fun q c hq hmem => hp (.inr ⟨q, c, hq, hmem⟩)⟩
  · -- the page is new, so nothing in it is in use
    by_contra hlive
    obtain ⟨n, hlive⟩ := Option.ne_none_iff_exists'.mp hlive
    have hpage := h.page_of_live hlive
    have hsize := sixteen_le_blockSize i
    have hdiv := blockAt_div p hk (j := 0) (by omega)
    rw [Nat.add_zero] at hdiv
    exact hp (hdiv ▸ hpage)
  · simp only [List.mem_map, List.mem_range, hempty, List.not_mem_nil, false_and, or_false, true_and,
      eq_comm]

lemma dropSmall (hp : sh.small p = some i)
    (hall : ∀ k < blocksPerArena i, live (blockAt p i k) = none)
    (hl : ∀ y, y ∈ l ↔ y ∈ sh.free i ∧ ∀ k < blocksPerArena i, y ≠ blockAt p i k) :
    Book (sh.dropSmall p i l) live :=
  h.set_small (fun j hj => by cases hj) (fun j hj => some.inj (hj.symm.trans hp)) hall
    fun y => by simp [hl]

/-- The large arena that starts in page `q` comes or goes, and its block with it. -/
lemma set_large
    (ho : ∀ c, o = some c → (0 < c ∧ c < 2 ^ 32) ∧ (∃ n, o' = some n ∧ n + 12 ≤ c * pgSize) ∧
      ∀ p ∈ Set.Ico q (q + c), p ∉ sh.pages) (ho' : o = none → o' = none)
    (hblock : ∀ i x, sh.IsBlock i x → x ≠ q * pgSize + 12) :
    Book { sh with large := update sh.large q o } (update live (q * pgSize + 12) o') where
  lt_of_small := h.lt_of_small
  large_pos := by
    intro q' c' hq'
    by_cases hqq : q' = q
    · simp only [hqq, update_self] at hq'
      exact (ho c' hq').1
    · simp only [update_of_ne hqq] at hq'
      exact h.large_pos q' c' hq'
  small_large := by
    intro p i q' c' hp hq' hmem
    by_cases hqq : q' = q
    · simp only [hqq, update_self] at hq'
      exact (ho c' hq').2.2 p (hqq ▸ hmem) (.inl ⟨i, hp⟩)
    · simp only [update_of_ne hqq] at hq'
      exact h.small_large p i q' c' hp hq' hmem
  large_large := by
    -- another arena has no page in common with this one
    have hother : ∀ p q' c c', o = some c → p ∈ Set.Ico q (q + c) → sh.large q' = some c' →
        p ∉ Set.Ico q' (q' + c') :=
      fun p q' c c' hc hp hq' hmem => (ho c hc).2.2 p hp (.inr ⟨q', c', hq', hmem⟩)
    intro p q1 c1 q2 c2 h1 h2 hmem1 hmem2
    by_cases hq1 : q1 = q <;> by_cases hq2 : q2 = q
    · rw [hq1, hq2]
    · subst hq1
      simp only [update_self] at h1
      simp only [update_of_ne hq2] at h2
      exact absurd hmem2 (hother p q2 c1 c2 h1 hmem1 h2)
    · subst hq2
      simp only [update_self] at h2
      simp only [update_of_ne hq1] at h1
      exact absurd hmem1 (hother p q1 c2 c1 h2 hmem2 h1)
    · simp only [update_of_ne hq1] at h1
      simp only [update_of_ne hq2] at h2
      exact h.large_large p q1 c1 q2 c2 h1 h2 hmem1 hmem2
  isBlock := h.isBlock
  mem_free := by
    intro p i k hp hk
    rw [update_of_ne (hblock i _ ⟨p, k, hp, hk, rfl⟩)]
    exact h.mem_free p i k hp hk
  region := by
    intro y n hy
    by_cases hyq : y = q * pgSize + 12
    · rw [hyq, update_self] at hy
      obtain ⟨c, hc⟩ := Option.ne_none_iff_exists'.mp fun hnone => by
        rw [ho' hnone] at hy
        cases hy
      obtain ⟨-, ⟨n', hn', hfits⟩, -⟩ := ho c hc
      obtain rfl := some.inj (hn'.symm.trans hy)
      exact .inr ⟨q, c, (update_self ..).trans hc, hyq, hfits⟩
    · rw [update_of_ne hyq] at hy
      refine (h.region y n hy).imp_right ?_
      rintro ⟨q', c', hq', rfl, hn⟩
      have hqq : q' ≠ q := fun heq => hyq (by rw [heq])
      exact ⟨q', c', (update_of_ne hqq _ _).trans hq', rfl, hn⟩
  large_live := by
    intro q' c' hq'
    by_cases hqq : q' = q
    · simp only [hqq, update_self] at hq'
      obtain ⟨-, ⟨n, hn, -⟩, -⟩ := ho c' hq'
      simp [hqq, hn]
    · have hne : q' * pgSize + 12 ≠ q * pgSize + 12 := by
        simp only [pgSize]
        omega
      simp only [update_of_ne hqq] at hq'
      rw [update_of_ne hne]
      exact h.large_live q' c' hq'

lemma addLarge (hc : 0 < c ∧ c < 2 ^ 32) (hnew : ∀ p ∈ Set.Ico q (q + c), p ∉ sh.pages)
    (hn : n + 12 ≤ c * pgSize) :
    Book (sh.addLarge q c) (update live (q * pgSize + 12) (some n)) := by
  refine h.set_large (fun c' hc' => ?_) (by simp) ?_
  · cases hc'
    exact ⟨hc, ⟨n, rfl, hn⟩, hnew⟩
  · rintro i x ⟨p, k, hp, hk, rfl⟩ heq
    have hsize := sixteen_le_blockSize i
    have hdiv := blockAt_div p hk (j := 0) (by omega)
    rw [heq] at hdiv
    have hqp : q = p := by simp only [pgSize] at hdiv; omega
    exact hnew p ⟨by omega, by omega⟩ (.inl ⟨i, hp⟩)

lemma dropLarge (hq : sh.large q = some c) :
    Book (sh.dropLarge q) (update live (q * pgSize + 12) none) :=
  h.set_large (fun c' hc' => by cases hc') (fun _ => rfl) fun _ _ hx => h.block_ne_large hx hq

end Book

end SimpleOs
