import Mathlib

/-!
# The page directory seen through itself

The last entry of a page directory holds the directory's own address, so that the tables of an address
space can be read at its top 4 MB. `pte_ptr` and `pde_ptr` of `kernel/memory.c` are addresses there, and
`addr_v2p` reads through them. The walk of the processor is stated over the words of the physical memory.
-/

namespace SimpleOs

/-- `PDE_IDX`. -/
def pdeIdx (addr : BitVec 32) : BitVec 32 := (addr &&& 0xffc00000#32) >>> 22

/-- `PTE_IDX`. -/
def pteIdx (addr : BitVec 32) : BitVec 32 := (addr &&& 0x003ff000#32) >>> 12

/-- `pte_ptr`. -/
def ptePtr (vaddr : BitVec 32) : BitVec 32 :=
  0xffc00000#32 + ((vaddr &&& 0xffc00000#32) >>> 10) + pteIdx vaddr * 4#32

/-- `pde_ptr`. -/
def pdePtr (vaddr : BitVec 32) : BitVec 32 := 0xfffff000#32 + pdeIdx vaddr * 4#32

/-- The words of the physical memory by their addresses, and the address of the page directory. -/
structure PageTables where
  phys : BitVec 32 → BitVec 32
  cr3 : BitVec 32

/-- The present bit of an entry. -/
def Present (entry : BitVec 32) : Prop := entry &&& 1#32 = 1#32

instance (entry : BitVec 32) : Decidable (Present entry) := inferInstanceAs (Decidable (_ = _))

namespace PageTables

variable (t : PageTables) (v : BitVec 32)

/-- Where the processor finds the directory entry of an address. -/
def pdeAddr : BitVec 32 := t.cr3 + (v >>> 22) * 4#32

/-- The directory entry of an address. -/
def pde : BitVec 32 := t.phys (t.pdeAddr v)

/-- Where the processor finds the page table entry of an address. -/
def pteAddr : BitVec 32 := (t.pde v &&& 0xfffff000#32) + ((v >>> 12) &&& 0x3ff#32) * 4#32

/-- The page table entry of an address. -/
def pte : BitVec 32 := t.phys (t.pteAddr v)

/-- The walk of the processor: the physical address, or a fault. -/
def walk : Option (BitVec 32) :=
  if Present (t.pde v) ∧ Present (t.pte v) then some ((t.pte v &&& 0xfffff000#32) + (v &&& 0xfff#32)) else none

/-- The word at an address. -/
def load : Option (BitVec 32) := (t.walk v).map t.phys

/-- `addr_v2p`. -/
def addrV2p : Option (BitVec 32) :=
  (t.load (ptePtr v)).map fun pte => (pte &&& 0xfffff000#32) + (v &&& 0x00000fff#32)

/-- Entry 1023 of the directory maps the directory. -/
def SelfMapped : Prop :=
  Present (t.phys (t.cr3 + 1023#32 * 4#32)) ∧ t.phys (t.cr3 + 1023#32 * 4#32) &&& 0xfffff000#32 = t.cr3

instance : Decidable t.SelfMapped := inferInstanceAs (Decidable (_ ∧ _))

end PageTables

/-! ### The parts of an address -/

section

variable (v : BitVec 32)

lemma toNat_and_ffc00000 : (v &&& 0xffc00000#32).toNat = v.toNat / 2 ^ 22 * 2 ^ 22 := by
  have hshift : v &&& 0xffc00000#32 = (v >>> 22) <<< 22 := by
    ext i hi
    interval_cases i <;> simp
  rw [hshift, BitVec.toNat_shiftLeft, BitVec.toNat_ushiftRight]
  omega

lemma toNat_and_3ff : (v &&& 0x3ff#32).toNat = v.toNat % 2 ^ 10 := by
  exact Nat.and_two_pow_sub_one_eq_mod _ 10

lemma toNat_and_fff : (v &&& 0xfff#32).toNat = v.toNat % 2 ^ 12 := by
  exact Nat.and_two_pow_sub_one_eq_mod _ 12

lemma toNat_ushiftRight_div (n : Nat) : (v >>> n).toNat = v.toNat / 2 ^ n := by
  rw [BitVec.toNat_ushiftRight, Nat.shiftRight_eq_div_pow]

lemma pdeIdx_eq : pdeIdx v = v >>> 22 := by
  apply BitVec.eq_of_toNat_eq
  rw [pdeIdx, toNat_ushiftRight_div, toNat_and_ffc00000, toNat_ushiftRight_div]
  omega

lemma pteIdx_eq : pteIdx v = (v >>> 12) &&& 0x3ff#32 := by
  rw [pteIdx]
  ext i hi
  interval_cases i <;> simp

lemma toNat_ptePtr :
    (ptePtr v).toNat = 0xffc00000 + v.toNat / 2 ^ 22 * 2 ^ 12 + v.toNat / 2 ^ 12 % 2 ^ 10 * 4 := by
  rw [ptePtr, pteIdx_eq, BitVec.toNat_add, BitVec.toNat_add, BitVec.toNat_mul, toNat_and_3ff,
    toNat_ushiftRight_div, toNat_ushiftRight_div, toNat_and_ffc00000]
  simp only [BitVec.toNat_ofNat]
  omega

lemma toNat_pdePtr : (pdePtr v).toNat = 0xfffff000 + v.toNat / 2 ^ 22 * 4 := by
  rw [pdePtr, pdeIdx_eq, BitVec.toNat_add, BitVec.toNat_mul, toNat_ushiftRight_div]
  simp only [BitVec.toNat_ofNat]
  omega

/-- The walk of `pte_ptr` goes to the directory first, and in it to the entry of the address. -/
lemma ptePtr_parts : ptePtr v >>> 22 = 1023#32 ∧ (ptePtr v >>> 12) &&& 0x3ff#32 = v >>> 22 ∧
    ptePtr v &&& 0xfff#32 = ((v >>> 12) &&& 0x3ff#32) * 4#32 := by
  refine ⟨BitVec.eq_of_toNat_eq ?_, BitVec.eq_of_toNat_eq ?_, BitVec.eq_of_toNat_eq ?_⟩
  · rw [toNat_ushiftRight_div, toNat_ptePtr, BitVec.toNat_ofNat]
    omega
  · rw [toNat_and_3ff, toNat_ushiftRight_div, toNat_ushiftRight_div, toNat_ptePtr]
    omega
  · rw [toNat_and_fff, toNat_ptePtr, BitVec.toNat_mul, toNat_and_3ff, toNat_ushiftRight_div,
      BitVec.toNat_ofNat]
    omega

/-- The walk of `pde_ptr` goes to the directory twice. -/
lemma pdePtr_parts : pdePtr v >>> 22 = 1023#32 ∧ (pdePtr v >>> 12) &&& 0x3ff#32 = 1023#32 ∧
    pdePtr v &&& 0xfff#32 = (v >>> 22) * 4#32 := by
  refine ⟨BitVec.eq_of_toNat_eq ?_, BitVec.eq_of_toNat_eq ?_, BitVec.eq_of_toNat_eq ?_⟩
  · rw [toNat_ushiftRight_div, toNat_pdePtr, BitVec.toNat_ofNat]
    omega
  · rw [toNat_and_3ff, toNat_ushiftRight_div, toNat_pdePtr, BitVec.toNat_ofNat]
    omega
  · rw [toNat_and_fff, toNat_pdePtr, BitVec.toNat_mul, toNat_ushiftRight_div, BitVec.toNat_ofNat]
    omega

lemma ptePtr_inj (h : ptePtr v = ptePtr w) : v >>> 12 = w >>> 12 := by
  have hnat := congrArg BitVec.toNat h
  rw [toNat_ptePtr, toNat_ptePtr] at hnat
  apply BitVec.eq_of_toNat_eq
  rw [toNat_ushiftRight_div, toNat_ushiftRight_div]
  omega

end

/-! ### Walks through the directory -/

namespace PageTables

variable {t : PageTables} {v w : BitVec 32}

lemma walk_of_selfMapped (hself : t.SelfMapped) (hw : w >>> 22 = 1023#32)
    (hidx : (w >>> 12) &&& 0x3ff#32 = v >>> 22) (hv : Present (t.pde v)) :
    t.walk w = some ((t.pde v &&& 0xfffff000#32) + (w &&& 0xfff#32)) := by
  have hpde : t.pde w = t.phys (t.cr3 + 1023#32 * 4#32) := by rw [pde, pdeAddr, hw]
  have hpte : t.pte w = t.pde v := by rw [pte, pteAddr, hpde, hself.2, hidx, pde, pdeAddr]
  rw [walk, hpde, hpte, if_pos ⟨hself.1, hv⟩]

lemma walk_ptePtr (hself : t.SelfMapped) (hv : Present (t.pde v)) :
    t.walk (ptePtr v) = some (t.pteAddr v) := by
  obtain ⟨hdir, hidx, hoff⟩ := ptePtr_parts v
  rw [walk_of_selfMapped hself hdir hidx hv, hoff, pteAddr]

lemma walk_pdePtr (hself : t.SelfMapped) : t.walk (pdePtr v) = some (t.pdeAddr v) := by
  obtain ⟨hdir, hidx, hoff⟩ := pdePtr_parts v
  have hlast : 0xffc00000#32 >>> 22 = 1023#32 := by decide
  have hpde : t.pde 0xffc00000#32 = t.phys (t.cr3 + 1023#32 * 4#32) := by rw [pde, pdeAddr, hlast]
  rw [walk_of_selfMapped (v := 0xffc00000#32) hself hdir (hidx.trans hlast.symm) (by rw [hpde]; exact hself.1),
    hpde, hself.2, hoff, pdeAddr]

/-- `pte_ptr` and `pde_ptr` lead to the entries that the walk of the address uses, `addr_v2p` gives the
address that the walk gives, and different pages have their entries at different places. -/
theorem addrV2p_eq_walk (hself : t.SelfMapped) (hpde : Present (t.pde v)) (hpte : Present (t.pte v)) :
    t.walk (ptePtr v) = some (t.pteAddr v) ∧ t.load (ptePtr v) = some (t.pte v) ∧
      t.walk (pdePtr v) = some (t.pdeAddr v) ∧ t.load (pdePtr v) = some (t.pde v) ∧
      t.addrV2p v = t.walk v ∧ t.walk v ≠ none ∧
      ∀ w : BitVec 32, v >>> 12 ≠ w >>> 12 → ptePtr v ≠ ptePtr w := by
  have hwalk : t.walk v = some ((t.pte v &&& 0xfffff000#32) + (v &&& 0xfff#32)) := by
    rw [walk, if_pos ⟨hpde, hpte⟩]
  have hload : t.load (ptePtr v) = some (t.pte v) := by
    rw [load, walk_ptePtr hself hpde]
    rfl
  refine ⟨walk_ptePtr hself hpde, hload, walk_pdePtr hself, ?_, ?_, by simp [hwalk],
    fun w hne heq => hne (ptePtr_inj v heq)⟩
  · rw [load, walk_pdePtr hself]
    rfl
  · rw [addrV2p, hload, hwalk]
    rfl

/-- A directory at 1 MB with one page table, which maps the first page to 3 MB. -/
def sample : PageTables where
  phys a := if a = 0x100ffc then 0x100007 else if a = 0x100000 then 0x101007
    else if a = 0x101000 then 0x300007 else 0
  cr3 := 0x100000

/-- The first page, and the window of the tables itself. -/
theorem addrV2p_sample : sample.addrV2p 0x123 = sample.walk 0x123 ∧ sample.walk 0x123 = some 0x300123 ∧
    sample.addrV2p 0xfffff004 = sample.walk 0xfffff004 :=
  ⟨(addrV2p_eq_walk (by decide) (by decide) (by decide)).2.2.2.2.1, by decide,
    (addrV2p_eq_walk (by decide) (by decide) (by decide)).2.2.2.2.1⟩

end PageTables

end SimpleOs
