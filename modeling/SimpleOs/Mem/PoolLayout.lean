import SimpleOs.Mem.Paging

/-!
# The layout of the memory pools

The addresses and sizes that `mem_pool_init` of `kernel/memory.c` computes, in the types it computes
them in: the page counts have 16 bits. They are sound for every size of the memory from 2 MB on; of a
memory whose free pages do not fit into 16 bits a part is not used.
-/

namespace SimpleOs

/-- What `mem_pool_init` stores in `kernel_pool`, `user_pool` and `kernel_vaddr`. -/
structure PoolLayout where
  kpStart : UInt32
  upStart : UInt32
  kernelPoolSize : UInt32
  userPoolSize : UInt32
  kbmLength : UInt32
  ubmLength : UInt32
  kernelBits : UInt32
  userBits : UInt32
  vaddrBits : UInt32
  vaddrStart : UInt32

/-- `MEM_BITMAP_BASE`. -/
def memBitmapBase : UInt32 := 0xc009a000

/-- The numbers of `mem_pool_init`. -/
def poolLayout (allMem : UInt32) : PoolLayout :=
  let pageTableSize : UInt32 := 4096 * 256
  let usedMem := pageTableSize + 0x100000
  let freeMem := allMem - usedMem
  let allFreePages : UInt16 := (freeMem / 4096).toUInt16
  let kernelFreePages := allFreePages / 2
  let userFreePages := allFreePages - kernelFreePages
  let kbmLength := kernelFreePages.toUInt32 / 8
  let ubmLength := userFreePages.toUInt32 / 8
  { kpStart := usedMem
    upStart := usedMem + kernelFreePages.toUInt32 * 4096
    kernelPoolSize := kernelFreePages.toUInt32 * 4096
    userPoolSize := userFreePages.toUInt32 * 4096
    kbmLength := kbmLength
    ubmLength := ubmLength
    kernelBits := memBitmapBase
    userBits := memBitmapBase + kbmLength
    vaddrBits := memBitmapBase + kbmLength + ubmLength
    vaddrStart := 0xc0100000 }

/-- The pools and their bitmaps are where they should be. -/
structure PoolLayout.Sound (l : PoolLayout) (allMem : UInt32) : Prop where
  kernel_ge : 0x200000 ≤ l.kpStart.toNat
  disjoint : l.kpStart.toNat + l.kernelPoolSize.toNat ≤ l.upStart.toNat
  user_le : l.upStart.toNat + l.userPoolSize.toNat ≤ allMem.toNat
  kernelFrames : ∀ i < 8 * l.kbmLength.toNat,
    l.kpStart.toNat + i * pgSize + pgSize ≤ l.kpStart.toNat + l.kernelPoolSize.toNat
  userFrames : ∀ i < 8 * l.ubmLength.toNat,
    l.upStart.toNat + i * pgSize + pgSize ≤ l.upStart.toNat + l.userPoolSize.toNat
  kernelBits_le : l.kernelBits.toNat + l.kbmLength.toNat ≤ l.userBits.toNat
  userBits_le : l.userBits.toNat + l.ubmLength.toNat ≤ l.vaddrBits.toNat
  vaddrBits_le : l.vaddrBits.toNat + l.kbmLength.toNat ≤ 0xc009e000
  heap_le : l.vaddrStart.toNat + 8 * l.kbmLength.toNat * pgSize ≤ 0xffc00000

/-- The layout as numbers: 16 bits of the free pages, half of them for the kernel. -/
lemma toNat_poolLayout (h : 0x200000 ≤ allMem) :
    ∃ k u, k + u = (allMem.toNat - 0x200000) / 4096 % 2 ^ 16 ∧ k = (k + u) / 2 ∧
      (poolLayout allMem).kpStart.toNat = 0x200000 ∧
      (poolLayout allMem).upStart.toNat = 0x200000 + k * 4096 ∧
      (poolLayout allMem).kernelPoolSize.toNat = k * 4096 ∧
      (poolLayout allMem).userPoolSize.toNat = u * 4096 ∧
      (poolLayout allMem).kbmLength.toNat = k / 8 ∧ (poolLayout allMem).ubmLength.toNat = u / 8 ∧
      (poolLayout allMem).userBits.toNat = 0xc009a000 + k / 8 ∧
      (poolLayout allMem).vaddrBits.toNat = 0xc009a000 + k / 8 + u / 8 := by
  have hle : 0x200000 ≤ allMem.toNat := UInt32.le_iff_toNat_le.mp h
  set pages := (allMem.toNat - 0x200000) / 4096 % 2 ^ 16 with hpages
  have hall : ((allMem - 0x200000) / 4096).toUInt16.toNat = pages := by
    simp only [UInt32.toNat_toUInt16, UInt32.toNat_div, UInt32.toNat_sub, UInt32.reduceToNat]
    omega
  refine ⟨pages / 2, pages - pages / 2, by omega, by omega, rfl, ?_, ?_, ?_, ?_, ?_, ?_, ?_⟩
  all_goals
    simp only [poolLayout, memBitmapBase, UInt32.toNat_add, UInt32.toNat_mul, UInt32.toNat_div,
      UInt16.toNat_toUInt32, UInt16.toNat_sub, UInt16.toNat_div, hall, UInt32.reduceToNat,
      UInt16.reduceToNat, UInt32.reduceAdd, UInt32.reduceMul]
  all_goals omega

/-- The pools are laid out soundly for every size of the memory. -/
theorem poolLayout_sound (allMem : UInt32) (h : 0x200000 ≤ allMem) : (poolLayout allMem).Sound allMem := by
  have hle : 0x200000 ≤ allMem.toNat := UInt32.le_iff_toNat_le.mp h
  obtain ⟨k, u, hpages, hhalf, hkp, hup, hks, hus, hkbm, hubm, huser, hvaddr⟩ := toNat_poolLayout h
  refine ⟨?_, ?_, ?_, fun i hi => ?_, fun i hi => ?_, ?_, ?_, ?_, ?_⟩
  · rw [hkp]
  · rw [hkp, hks, hup]
  · rw [hup, hus]
    omega
  · rw [hkbm] at hi
    rw [hkp, hks, pgSize]
    omega
  · rw [hubm] at hi
    rw [hup, hus, pgSize]
    omega
  · rw [huser, hkbm]
    exact le_rfl
  · rw [huser, hubm, hvaddr]
  · rw [hvaddr, hkbm]
    omega
  · rw [hkbm, pgSize]
    show 0xc0100000 + _ ≤ _
    omega

/-- The largest memory, of which 16 bits of page counts cover a quarter of a gigabyte at most. -/
theorem poolLayout_sound_max :
    (poolLayout 0xffffffff).Sound 0xffffffff ∧ (poolLayout 0xffffffff).userPoolSize = 0x7f00000 :=
  ⟨poolLayout_sound _ (by decide), by decide⟩

/-- The pools of the memory model are laid out so. -/
theorem memPoolInit_layout (allMem : UInt32) (h : 0x200000 ≤ allMem) (pte : Nat → Pte)
    (phys vaddrBits : Base.Bytes) :
    let m := memPoolInit allMem.toNat pte phys vaddrBits
    let l := poolLayout allMem
    m.kernelPool = ⟨⟨l.kbmLength.toNat, .zero⟩, l.kpStart.toNat, l.kernelPoolSize.toNat⟩ ∧
      m.userPool = ⟨⟨l.ubmLength.toNat, .zero⟩, l.upStart.toNat, l.userPoolSize.toNat⟩ ∧
      m.kernelVaddr.btmpBytesLen = l.kbmLength.toNat := by
  have hle : 0x200000 ≤ allMem.toNat := UInt32.le_iff_toNat_le.mp h
  obtain ⟨k, u, hpages, hhalf, hkp, hup, hks, hus, hkbm, hubm, -, -⟩ := toNat_poolLayout h
  simp only [hkp, hks, hkbm, hup, hus, hubm, memPoolInit, pgSize, Bitmap.bitmapInit, Pool.mk.injEq,
    Bitmap.mk.injEq, and_true, true_and]
  omega

theorem memPoolInit_layout_32 : (memPoolInit 0x2000000 (fun _ => ⟨0, false⟩) .zero .zero).userPool =
    ⟨⟨480, .zero⟩, 0x1100000, 0xf00000⟩ :=
  (memPoolInit_layout 0x2000000 (by decide) _ _ _).2.1

end SimpleOs
