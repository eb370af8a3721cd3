import SimpleOs.Fs.Path.OpenCounts

/-!
# What a failed `sys_open` leaves behind

`sys_open` gives up at many places, and each of them undoes a part of what was done. A refusal before
`file_open` or `file_create` leaves nothing. `file_open` keeps the slot of `file_table` when the file is
open for writing already or the task has no free descriptor, and the directory is never closed after it.
`file_create` keeps its buffer when there is no free inode, keeps the new file when the task has no free
descriptor, and clears a slot when the insertion into the directory fails, which may itself have marked
a block on disk and forgotten an indirect table.
-/

namespace SimpleOs

open Base Function Option

variable {p : Partition}

variable {v w : Vol p} {g no : Nat} {i : Inode}

/-- A block of the heap that `sys_open` or `search_file` takes, the inodes in memory apart: a
`struct dir`, or the buffer of `file_create`. -/
inductive HeapBlock where
  | dir
  | ioBuf
deriving DecidableEq, Repr

/-- The memory of an open directory. -/
def DirPtr.blocks : DirPtr → List HeapBlock
  | .rootDir => []
  | .opened _ => [.dir]

namespace Vol

/-- When there is a free block, the bitmap sector written to mark the first one is on disk already. -/
def FirstFreeMarked (v : Vol p) : Prop :=
  ∀ lba v₁, v.blockBitmapAlloc = some (lba, v₁) →
    (v₁.bitmapSync (lba - p.sb.dataStartLba) .blockBitmap).disk = v.disk

lemma blockBitmapAlloc_setInodeBit (v : Vol p) (n : Nat) (b : Bool) :
    (v.setInodeBit n b).blockBitmapAlloc =
      v.blockBitmapAlloc.map fun r => (r.1, r.2.setInodeBit n b) := by
  rw [blockBitmapAlloc, blockBitmapAlloc, setInodeBit]
  cases v.blockBitmap.bitmapScan 1 <;> rfl

lemma inodeUsed_giveBack {v1 v2 : Vol p} {n : Nat} (halloc : v.inodeBitmapAlloc = some (n, v1))
    (h : ∀ i, v2.inodeUsed i = v1.inodeUsed i) (i : Nat) :
    (v2.setInodeBit n false).inodeUsed i = v.inodeUsed i := by
  obtain ⟨-, hfree, -, rfl⟩ := inodeBitmapAlloc_eq_some halloc
  rw [inodeUsed_setInodeBit, h, inodeUsed_setInodeBit]
  split_ifs with hi
  · rw [hi, hfree]
  · rfl

end Vol

namespace FsView

/-- What is left on the heap of what `sys_open` has taken, or got from `search_file`. `search_file` has
closed every directory but the one it hands over; `sys_open` closes that one when it refuses and after
`file_create`, and not after `file_open`. `file_create` frees its buffer but for one exit. -/
def OpenStep.left (okIoBuf : Bool) : OpenStep p → List HeapBlock
  | .refuse _ _ => []
  | .fileOpen dir _ _ => dir.blocks
  | .fileCreate _ _ s => if okIoBuf = true ∧ s.vol.inodeBitmapAlloc = none then [.ioBuf] else []

/-- `s₁` is as `s`: the two tables, the disk and the bitmaps in memory, the inodes in memory with their
flags and counts, and nothing more is taken from the heap. -/
structure NoTrace (okIoBuf : Bool) (s : FsView p) (path : List UInt8) (flags : UInt8) (s₁ : FsView p) :
    Prop where
  fileTable : s₁.fileTable = s.fileTable
  fdTable : s₁.fdTable = s.fdTable
  disk : s₁.vol.disk = s.vol.disk
  blockUsed : ∀ i, s₁.vol.blockUsed i = s.vol.blockUsed i
  inodeUsed : ∀ i, s₁.vol.inodeUsed i = s.vol.inodeUsed i
  inodes : ∀ a, s₁.cache.inode a = s.cache.inode a
  heap : (s.sysOpenStep path flags).map (·.left okIoBuf) = some []

/-- The inode with number `d` is in memory. -/
def IsOpen (s : FsView p) (d : UInt32) : Prop :=
  ∃ a ∈ s.cache.openInodes, ∃ i, s.cache.inode a = some i ∧ i.iNo = d

/-- Creating a file in directory `d` fails, and undoes what it has done: there is no memory for the
buffer; or there is a free inode, and no memory for it in memory, no slot for the file, or no room for
its entry. In the last case the slot was clear before, and the insertion has left nothing. -/
def CreateFailsCleanly (okIoBuf okInode : Bool) (s : FsView p) (d : UInt32) (filename : List UInt8) :
    Prop :=
  okIoBuf = false ∨ s.vol.inodeBitmapAlloc ≠ none ∧
    (okInode = false ∨ s.getFreeSlotInGlobal = none ∨
      ∃ g, s.getFreeSlotInGlobal = some g ∧ s.fileTable g = ⟨0, 0, none⟩ ∧
        (s.vol.fileCreate okIoBuf okInode true (s.vol.inodeLoad d.toNat) filename).ok = false ∧
        s.vol.FirstFreeMarked ∧
        (s.IsOpen d → s.vol.blockBitmapAlloc = none ∨ (s.vol.inodeLoad d.toNat).iSectors 12 = 0))

/-- If the path names a file that is to be opened, it is in the root directory and there is no slot for
it; if it names one that is to be created, that fails without a trace. -/
def FailsCleanly (okIoBuf okInode : Bool) (s : FsView p) (path : List UInt8) (flags : UInt8) : Prop :=
  (flags &&& oCreat = 0 → ∀ n, s.NamesFile path n →
    (components path).length = 1 ∧ s.getFreeSlotInGlobal = none) ∧
  (flags &&& oCreat ≠ 0 → ∀ d filename, s.NamesNew path d → lastName path = some filename →
    s.CreateFailsCleanly okIoBuf okInode d filename)

variable {s s' s₁ : FsView p} {t : DirTree} {m : Nat} {path : List UInt8} {n d : UInt32} {flags : UInt8}
  {dir : DirPtr} {okIoBuf okInode : Bool}

lemma NoTrace.not_filled (h : s.NoTrace okIoBuf path flags s₁)
    (hslot : s.getFreeSlotInGlobal = some g) : (s₁.fileTable g).fdInode ≠ some x := by
  rw [h.fileTable, getFreeSlotInGlobal_eq_some hslot]
  nofun

lemma fileTable_pcbFdInstall (s : FsView p) (g : Nat) : (s.pcbFdInstall g).2.fileTable = s.fileTable := by
  rw [pcbFdInstall]
  split <;> rfl

lemma fileTable_dirClose (h : s.dirClose dir = some s₁) : s₁.fileTable = s.fileTable := by
  cases dir with
  | rootDir =>
    cases h
    rfl
  | opened a =>
    obtain ⟨c, -, rfl⟩ := map_eq_some_iff.mp h
    rfl

/-! ### Opening -/

lemma noTrace_fileOpen_iff (hs : s.Coherent 2) (hold : s.Holding d dir s')
    (hno : (s.vol.inodeLoad d.toNat).iNo = d)
    (hstep : s.sysOpenStep path flags = some (.fileOpen dir n s'))
    (h : s'.fileOpen n flags = some (-1, s₁)) :
    s.NoTrace okIoBuf path flags s₁ ↔ dir = .rootDir ∧ s.getFreeSlotInGlobal = none := by
  rw [← hold.getFreeSlotInGlobal]
  rcases fileOpen_cases (hold.coherent hs hno) n flags with ⟨hslot, heq⟩ | ⟨g, a, s'', hslot, hopen, hcase⟩
  · -- no slot: the directory is all there is
    obtain ⟨-, rfl⟩ := Prod.mk.inj (some.inj (heq.symm.trans h))
    constructor
    · intro hno
      have hheap := hno.heap
      rw [hstep] at hheap
      cases dir with
      | rootDir => exact ⟨rfl, hslot⟩
      | opened a => cases hheap
    · rintro ⟨rfl, -⟩
      cases hold
      exact ⟨rfl, rfl, rfl, fun _ => rfl, fun _ => rfl, fun _ => rfl, by rw [hstep]; rfl⟩
  -- in the other cases the slot is filled
  refine iff_of_false (fun hno => ?_) (by simp [hslot])
  have hslot' : s.getFreeSlotInGlobal = some g := by rw [← hold.getFreeSlotInGlobal, hslot]
  suffices hfilled : s₁.fileTable g = ⟨0, flags.toUInt32, some (.inode a)⟩ from
    hno.not_filled hslot' (congrArg File.fdInode hfilled)
  rcases hcase with ⟨-, -, heq⟩ | ⟨-, c, -, heq⟩
  · obtain ⟨-, rfl⟩ := Prod.mk.inj (some.inj (heq.symm.trans h))
    exact update_self ..
  · have hret := some.inj (heq.symm.trans h)
    rw [pcbFdInstall] at hret
    split at hret
    · cases hret
      exact update_self ..
    · obtain ⟨hfd, -⟩ := Prod.mk.inj hret
      omega

/-! ### Creating -/

section

variable (hold : s.Holding d dir s')
include hold

lemma Holding.dirClose_with (w : Vol p) (T : Nat → File) :
    ({ s' with vol := w, fileTable := T } : FsView p).dirClose dir =
      some { s with vol := w, fileTable := T } := by
  cases hold with
  | rootDir => rfl
  | opened hopen =>
    obtain ⟨c, hc, rfl⟩ := map_eq_some_iff.mp hopen.inodeClose
    rw [FsView.dirClose, FsView.inodeClose]
    simp only [hc, map_some]

/-- Closing the directory after its inode has changed: the change is there afterwards exactly when the
inode stays in memory. -/
lemma Holding.dirClose_set (hs : s.Coherent (m + 1))
    (hi : s'.inodeOf dir = some i) (hcnt : j.iOpenCnts = i.iOpenCnts) (w : Vol p) (T : Nat → File) :
    ∃ c, ({ s' with
        vol := w
        cache := s'.cache.set (s'.dirInode dir) (some j)
        fileTable := T } : FsView p).dirClose dir = some { s with vol := w, cache := c, fileTable := T } ∧
      ((∀ b, c.inode b = s.cache.inode b) ↔ (s.IsOpen d → j = i)) := by
  cases hold with
  | rootDir hd =>
    refine ⟨_, rfl, ?_⟩
    obtain ⟨i', hi', hno⟩ := hs.root
    obtain rfl := some.inj (hi.symm.trans hi')
    have hopen : s.IsOpen d := ⟨_, hs.memory _ (by simp [hi']), i, hi', by rw [hno, hd]⟩
    constructor
    · intro h _
      have hself := h s.rootInode
      rw [hi'] at hself
      exact some.inj ((InodeCache.inode_set_self ..).symm.trans hself)
    · intro h b
      rw [h hopen, dirInode, InodeCache.set, ← hi', update_eq_self]
  | @opened a _ hopen =>
    obtain ⟨c, hc⟩ : ∃ c, (s'.cache.set a (some j)).inodeClose a = some c :=
      ⟨_, by rw [InodeCache.inodeClose, InodeCache.inode_set_self, map_some]⟩
    refine ⟨c, ?_, ?_⟩
    · rw [FsView.dirClose, FsView.inodeClose]
      simp only [dirInode, hc, map_some]
      rw [hopen.view]
    obtain ⟨j', hj', hinode, -⟩ := InodeCache.inodeClose_eq_some hc
    obtain rfl := some.inj ((InodeCache.inode_set_self ..).symm.trans hj')
    rw [FsView.inodeOf, dirInode] at hi
    rcases hopen.cases with ⟨i0, hmem, hi0, hno, hcache⟩ | ⟨-, hnone, hothers, hcache⟩
    · -- the inode stays, with the count it had
      rw [hcache, InodeCache.inode_set_self] at hi
      cases hi
      obtain ⟨i', hi', hpos, -⟩ := hs.listed a hmem
      obtain rfl := some.inj (hi0.symm.trans hi')
      have hback : j.iOpenCnts - 1 = i0.iOpenCnts := by
        grind
      have hne : i0.iOpenCnts ≠ 0 := by
        intro h0
        rw [h0] at hpos
        exact absurd hpos (by decide)
      rw [hback, if_neg hne] at hinode
      constructor
      · intro h _
        have hself := h a
        rw [hinode, update_self, hi0] at hself
        have heq := congrArg (fun x : Inode => { x with iOpenCnts := j.iOpenCnts }) (some.inj hself)
        rw [hcnt] at heq
        exact (congrArg (fun x => { j with iOpenCnts := x }) hcnt).trans heq
      · intro h b
        rw [hinode, h ⟨a, hmem, i0, hi0, hno⟩, hcache]
        by_cases hb : b = a
        · rw [hb, update_self, hi0]
        · rw [update_of_ne hb, InodeCache.inode_set_of_ne _ hb, InodeCache.inode_set_of_ne _ hb]
    · -- the inode goes
      rw [hcache, InodeCache.inode_push_self] at hi
      have hone : j.iOpenCnts - 1 = 0 := by
        rw [hcnt, ← some.inj hi]
        exact UInt32.sub_self 1
      rw [hone, if_pos rfl] at hinode
      refine iff_of_true (fun b => ?_) ?_
      · rw [hinode, hcache]
        by_cases hb : b = a
        · rw [hb, update_self, hnone]
        · rw [update_of_ne hb, InodeCache.inode_set_of_ne _ hb, InodeCache.inode_push_of_ne _ hb]
      · rintro ⟨b, hb, i', hi', hno⟩
        obtain ⟨i'', hi'', hne⟩ := hothers b hb
        obtain rfl := some.inj (hi'.symm.trans hi'')
        exact absurd hno hne

lemma Holding.fileTable : s'.fileTable = s.fileTable := by
  cases hold with
  | rootDir => rfl
  | opened hopen => exact hopen.fileTable

lemma Holding.closeAndReturn_vol {ret : Int}
    (h : ({ s' with vol := w } : FsView p).closeAndReturn dir ret = some (-1, s₁)) :
    s₁ = { s with vol := w } := by
  have hclose := hold.dirClose_with w s'.fileTable
  rw [closeAndReturn, hclose, hold.fileTable] at h
  exact (Prod.mk.inj (some.inj h)).2.symm

end

lemma noTrace_vol_iff (hdisk : w.disk = s.vol.disk)
    (hblock : ∀ i, w.blockUsed i = s.vol.blockUsed i) (hinode : ∀ i, w.inodeUsed i = s.vol.inodeUsed i) :
    s.NoTrace okIoBuf path flags { s with vol := w } ↔
      (s.sysOpenStep path flags).map (·.left okIoBuf) = some [] :=
  ⟨fun h => h.heap, fun h => ⟨rfl, rfl, hdisk, hblock, hinode, fun _ => rfl, h⟩⟩

/-- A failed insertion leaves no trace on disk and in the directory's inode exactly when it has not
marked a block and not forgotten a table. -/
lemma syncDirEntry_fail_iff (hfail : (syncDirEntry (v.setInodeBit no b) i pDe ioBuf).ok = false) :
    ((syncDirEntry (v.setInodeBit no b) i pDe ioBuf).vol.disk = v.disk ↔ v.FirstFreeMarked) ∧
      ((syncDirEntry (v.setInodeBit no b) i pDe ioBuf).inode = i ↔
        v.blockBitmapAlloc = none ∨ i.iSectors 12 = 0) ∧
      (v.setInodeBit no b).SameBlocks (syncDirEntry (v.setInodeBit no b) i pDe ioBuf).vol := by
  rcases syncDirEntry_fail_cases hfail with ⟨hal, heq⟩ | ⟨lba, v1, hal, heq, -⟩
  · rw [heq]
    rw [Vol.blockBitmapAlloc_setInodeBit, map_eq_none_iff] at hal
    refine ⟨iff_of_true rfl fun lba v1 h => ?_, iff_of_true rfl (.inl hal), .refl _⟩
    rw [hal] at h
    cases h
  · rw [heq]
    refine ⟨?_, ?_, Vol.sameBlocks_of_alloc hal⟩
    all_goals
      rw [Vol.blockBitmapAlloc_setInodeBit] at hal
      obtain ⟨⟨lba', w⟩, hw, hpair⟩ := map_eq_some_iff.mp hal
      cases hpair
    · constructor
      · intro h lba2 w2 h2
        obtain ⟨rfl, rfl⟩ := Prod.mk.inj (some.inj (hw.symm.trans h2))
        exact h
      · intro h
        exact h lba' w hw
    · rw [hw]
      constructor
      · intro h
        have hsec : setEntry (setEntry i.iSectors 12 (UInt32.ofNat lba')) 12 0 12 = i.iSectors 12 :=
          congrFun (congrArg Inode.iSectors h) 12
        exact .inr hsec.symm
      · rintro (h | h)
        · cases h
        · have hsec : setEntry (setEntry i.iSectors 12 (UInt32.ofNat lba')) 12 0 = i.iSectors := by
            funext k
            by_cases hk : k = 12
            · rw [hk, setEntry_self, h]
            · rw [setEntry_of_ne _ _ hk, setEntry_of_ne _ _ hk]
          rw [hsec]

/-- What is left when the insertion into the directory has failed. -/
lemma noTrace_insert_iff (hs : s.Coherent 2) (hold : s.Holding d dir s')
    (hi : s'.inodeOf dir = some i) (hpers : i.SamePersistent (s.vol.inodeLoad d.toNat))
    (halloc : s.vol.inodeBitmapAlloc = some (no, v))
    (hheap : (s.sysOpenStep path flags).map (·.left okIoBuf) = some [])
    (hfail : (syncDirEntry v i pDe Bytes.zero).ok = false)
    (h : ({ s' with
        vol := (syncDirEntry v i pDe Bytes.zero).vol.setInodeBit no false
        cache := s'.cache.set (s'.dirInode dir) (some (syncDirEntry v i pDe Bytes.zero).inode)
        fileTable := update s'.fileTable g ⟨0, 0, none⟩ } : FsView p).closeAndReturn dir (-1) =
      some (-1, s₁)) :
    s.NoTrace okIoBuf path flags s₁ ↔ s.fileTable g = ⟨0, 0, none⟩ ∧ s.vol.FirstFreeMarked ∧
      (s.IsOpen d → s.vol.blockBitmapAlloc = none ∨ (s.vol.inodeLoad d.toNat).iSectors 12 = 0) := by
  have hkeep := (syncDirEntry_inode v i pDe Bytes.zero).2
  obtain ⟨c, hclose, hinodes⟩ := hold.dirClose_set (m := 1) hs hi hkeep
    ((syncDirEntry v i pDe Bytes.zero).vol.setInodeBit no false)
    (update s'.fileTable g ⟨0, 0, none⟩)
  rw [closeAndReturn, hclose, hold.fileTable] at h
  cases h
  obtain ⟨-, -, -, hv⟩ := Vol.inodeBitmapAlloc_eq_some halloc
  subst hv
  obtain ⟨hdisk, hinode, hsame⟩ := syncDirEntry_fail_iff hfail
  rw [hinode, hpers.2.2 12 (by omega)] at hinodes
  rw [← hinodes, ← hdisk]
  constructor
  · intro hno
    refine ⟨?_, hno.disk, hno.inodes⟩
    rw [← hno.fileTable]
    exact update_self ..
  · rintro ⟨hslot, hdisk, hinodes⟩
    refine ⟨?_, rfl, hdisk, hsame.blockUsed, Vol.inodeUsed_giveBack halloc hsame.inodeUsed, hinodes, hheap⟩
    simp only [← hslot, update_eq_self]

lemma noTrace_fileCreate_iff (hs : s.Coherent 2) (hold : s.Holding d dir s')
    (hstep : s.sysOpenStep path flags = some (.fileCreate dir filename s'))
    (h : ((s'.fileCreate okIoBuf okInode dir filename flags).bind fun (fd, s) =>
      s.closeAndReturn dir fd) = some (-1, s₁)) :
    s.NoTrace okIoBuf path flags s₁ ↔ s.CreateFailsCleanly okIoBuf okInode d filename := by
  obtain ⟨i, hi, hpers⟩ := hold.inodeOf hs
  have hheap : (s.sysOpenStep path flags).map (·.left okIoBuf) = some [] ↔
      ¬ (okIoBuf = true ∧ s.vol.inodeBitmapAlloc = none) := by
    rw [hstep, map_some, OpenStep.left, hold.vol]
    split_ifs with hc <;> simp [hc]
  rw [CreateFailsCleanly]
  rw [fileCreate, hold.vol, hold.getFreeSlotInGlobal, hi] at h
  cases hbuf : okIoBuf with
  | false =>
    rw [hbuf] at h hheap
    have hs1 := hold.closeAndReturn_vol (w := s'.vol) h
    rw [hs1, noTrace_vol_iff (by rw [hold.vol]) (by simp [hold.vol]) (by simp [hold.vol]), hheap]
    simp
  | true =>
    rw [hbuf] at h hheap
    rw [if_neg (by decide)] at h
    cases halloc : s.vol.inodeBitmapAlloc with
    | none =>
      -- the buffer is left
      refine iff_of_false (fun hno => ?_) (by simp)
      exact hheap.mp hno.heap ⟨rfl, halloc⟩
    | some r =>
      obtain ⟨no, v⟩ := r
      have hleft := hheap.mpr (by simp [halloc])
      rw [halloc] at h
      simp only at h
      obtain ⟨-, -, -, hv⟩ := Vol.inodeBitmapAlloc_eq_some halloc
      -- the inode bit is given back
      have hback : s₁ = { s with vol := v.setInodeBit no false } → s.NoTrace true path flags s₁ := by
        rintro rfl
        refine (noTrace_vol_iff ?_ ?_ ?_).mpr hleft
        · rw [hv]
          rfl
        · rw [hv]
          exact fun _ => rfl
        · exact Vol.inodeUsed_giveBack halloc fun _ => rfl
      cases hino : okInode with
      | false =>
        rw [hino] at h
        exact iff_of_true (hback (hold.closeAndReturn_vol h)) (.inr ⟨by simp, .inl rfl⟩)
      | true =>
        rw [hino, if_neg (by decide)] at h
        cases hslot : s.getFreeSlotInGlobal with
        | none =>
          rw [hslot] at h
          exact iff_of_true (hback (hold.closeAndReturn_vol h)) (.inr ⟨by simp, .inr (.inl rfl)⟩)
        | some g =>
          rw [hslot] at h
          simp only [bind_some] at h
          obtain ⟨pDe, hpDe⟩ : ∃ pDe, createDirEntry filename (UInt32.ofNat no) .regular Bytes.zero = pDe :=
            ⟨_, rfl⟩
          have hok : (s.vol.fileCreate true true true (s.vol.inodeLoad d.toNat) filename).ok =
              (syncDirEntry v i pDe Bytes.zero).ok := by
            rw [← hpers.fileCreate_ok, Vol.fileCreate, halloc, ← hpDe]
            simp only [Bool.not_true, Bool.or_self, Bool.false_eq_true, if_false]
            split_ifs with hok
            · exact hok.symm
            · exact (Bool.eq_false_iff.mpr hok).symm
          rw [hpDe] at h
          by_cases hsync : (syncDirEntry v i pDe Bytes.zero).ok = true
          · -- the file is there, and keeps its slot
            refine iff_of_false (fun hno => ?_) ?_
            · split_ifs at h with hnew
              swap
              · cases h
              obtain ⟨s2, hs2, hret⟩ := map_eq_some_iff.mp h
              obtain ⟨-, rfl⟩ := Prod.mk.inj hret
              refine hno.not_filled (x := .inode s'.newPtr) hslot ?_
              rw [fileTable_dirClose hs2, fileTable_pcbFdInstall]
              simp only [update_self]
            · simp [hok, hsync]
          · have hfail := Bool.eq_false_iff.mpr hsync
            rw [if_neg hsync] at h
            rw [noTrace_insert_iff hs hold hi hpers halloc hleft hfail h]
            constructor
            · rintro ⟨hclear, hmarked, hinode⟩
              exact .inr ⟨by simp, .inr (.inr ⟨g, rfl, hclear, hok.trans hfail, hmarked, hinode⟩)⟩
            · rintro (hbad | ⟨-, hbad | hbad | ⟨g', hg', hclear, -, hmarked, hinode⟩⟩)
              · cases hbad
              · cases hbad
              · cases hbad
              · obtain rfl := some.inj hg'
                exact ⟨hclear, hmarked, hinode⟩

/-- When a `sys_open` that returns `-1` leaves no trace. -/
theorem noTrace_iff (hs : s.Coherent 2) (ht : s.vol.IsTree t) (hnul : 0 ∉ path)
    (h : s.sysOpen okIoBuf okInode path flags = some (-1, s₁)) :
    s.NoTrace okIoBuf path flags s₁ ↔ s.FailsCleanly okIoBuf okInode path flags := by
  have hcase := sysOpenStep_cases hs ht hnul flags
  rw [sysOpen_eq] at h
  generalize hstep : s.sysOpenStep path flags = r at hcase h
  cases hcase with
  | tooLong => cases h
  | noSlash => cases h
  | @refused dir s' hclose hfile hnew =>
    rw [bind_some, OpenStep.run, closeAndReturn, hclose, map_some] at h
    cases h
    refine iff_of_true ⟨rfl, rfl, rfl, fun _ => rfl, fun _ => rfl, fun _ => rfl, by rw [hstep]; rfl⟩ ?_
    exact ⟨fun hflag n hn => absurd hflag (hfile n hn), fun hflag d _ hd => absurd (hnew d hd) hflag⟩
  | @file d n dir s' hfits hflag hfile hd hold hdir =>
    obtain ⟨init, last, hcomp, hinit, hlookup⟩ := hd
    have hno := ht.iNo d (ht.lawful.walkDirs ht.root hinit)
    rw [noTrace_fileOpen_iff hs hold hno hstep h, hdir]
    constructor
    · intro hclean
      exact ⟨fun _ _ _ => hclean, fun hne => absurd hflag hne⟩
    · intro hclean
      exact hclean.1 hflag n hfile
  | @create d dir s' filename hfits hflag hnew hname hold =>
    rw [noTrace_fileCreate_iff hs hold hstep h]
    constructor
    · intro hclean
      refine ⟨fun h0 => absurd h0 hflag, fun _ d' filename' hd' hname' => ?_⟩
      obtain rfl := hnew.inj hd'
      obtain rfl := some.inj (hname.symm.trans hname')
      exact hclean
    · intro hclean
      exact hclean.2 hflag d filename hnew hname

lemma Coherent.of_tables (hs : s.Coherent m) (T : Nat → File) (F : Nat → Option Nat)
    (hfiles : ∀ g a, (T g).fdInode = some (.inode a) → a ∈ s.cache.openInodes) :
    ({ s with fileTable := T, fdTable := F } : FsView p).Coherent m :=
  ⟨hs.listed, hs.memory, hs.nodup, hs.root, hfiles⟩

/-- A `file_table` in which every slot is in use. -/
def fullTable : Nat → File := fun _ => ⟨0, 0, some (.inode (.kernel 0))⟩

/-- Opening the file "/f" when no slot is free. -/
theorem noTrace_fullTable : ∃ s₁, ({ Image.sample.view .smallest with fileTable := fullTable } :
    FsView .smallest).sysOpen true true [47, 102] 0 = some (-1, s₁) ∧
      ({ Image.sample.view .smallest with fileTable := fullTable } : FsView .smallest).NoTrace true
        [47, 102] 0 s₁ := by
  have hs := (Image.coherent_view Image.sample .smallest (m := 2) (by decide)).of_tables fullTable
    (fun _ => none) (by rintro g a h; cases h; decide)
  have hret : (({ Image.sample.view .smallest with fileTable := fullTable } :
      FsView .smallest).sysOpen true true [47, 102] 0).map Prod.fst = some (-1) := by
    decide +kernel
  obtain ⟨⟨fd, s₁⟩, hopen, rfl⟩ := map_eq_some_iff.mp hret
  refine ⟨s₁, hopen, (noTrace_iff hs Image.ok_sample.isTree (by decide) hopen).mpr ?_⟩
  exact ⟨fun _ n _ => ⟨by decide, by decide +kernel⟩, fun h => absurd rfl h⟩

/-- Opening the file "/f" when the task has no free descriptor fails, and the file has a slot. -/
theorem not_forall_noTrace : ¬ ∀ (p : Partition) (s s₁ : FsView p) (t : DirTree) (path : List UInt8)
    (flags : UInt8), s.Coherent 2 → s.vol.Consistent t → path.head? = some slash → 0 ∉ path →
    s.sysOpen true true path flags = some (-1, s₁) → s.NoTrace true path flags s₁ := by
  intro hall
  have hs := (Image.coherent_view Image.sample .smallest (m := 2) (by decide)).of_tables
    (fun _ => ⟨0, 0, none⟩) (fun _ => some 0) nofun
  have hret : (({ Image.sample.view .smallest with fdTable := fun _ => some 0 } :
      FsView .smallest).sysOpen true true [47, 102] 0).map
        (fun r => (r.1, (r.2.fileTable 3).fdInode.isSome)) = some (-1, true) := by
    decide +kernel
  obtain ⟨⟨fd, s₁⟩, hopen, hpair⟩ := map_eq_some_iff.mp hret
  obtain ⟨rfl, hslot⟩ := Prod.mk.inj hpair
  have hno := hall _ _ s₁ _ _ _ hs (Image.ok_sample.consistent _) (by decide) (by decide) hopen
  rw [hno.fileTable] at hslot
  cases hslot

end FsView

end SimpleOs
