import SimpleOs.Fs.Dir.Insert
import SimpleOs.Fs.Path.Open

/-!
# How often inodes are open

`sys_open` opens a directory for each name of the path and closes it again, but for the last one: the
directory that `search_file` hands over stays open when the call goes on to `file_open`. An open file
that gets no descriptor stays open, too. When neither happens, `sys_close` brings the counts back.
-/

namespace SimpleOs

open Base Function Option List

variable {p : Partition}

variable {c c' c'' c1 : InodeCache InodePtr} {a : InodePtr} {i j : Inode} {d d' n : UInt32}
  {s s' : FsView p} {t : DirTree} {k m : Nat} {path : List UInt8} {flags : UInt8} {dir : DirPtr}

namespace InodeCache

/-- The same inodes are open, each of them as often. -/
def SameOpen (c c' : InodeCache InodePtr) : Prop :=
  c'.openInodes = c.openInodes ∧
    ∀ a, ((c'.inode a).map fun i => (i.iNo, i.iOpenCnts)) = (c.inode a).map fun i => (i.iNo, i.iOpenCnts)

/-- How often the inode at an address is open. -/
def openCnt (c : InodeCache InodePtr) (a : InodePtr) : Nat :=
  ((c.inode a).map fun i => i.iOpenCnts.toNat).getD 0

lemma SameOpen.refl (c : InodeCache InodePtr) : c.SameOpen c := ⟨rfl, fun _ => rfl⟩

section

variable (h : c.SameOpen c')
include h

lemma SameOpen.trans (h' : c'.SameOpen c'') : c.SameOpen c'' :=
  ⟨h'.1.trans h.1, fun a => (h'.2 a).trans (h.2 a)⟩

lemma SameOpen.openCnt_eq (a : InodePtr) : c'.openCnt a = c.openCnt a := by
  have heq := h.2 a
  rw [openCnt, openCnt]
  cases hc : c.inode a <;> cases hc' : c'.inode a <;> simp_all

lemma SameOpen.inode (hi : c.inode a = some i) :
    ∃ j, c'.inode a = some j ∧ j.iNo = i.iNo ∧ j.iOpenCnts = i.iOpenCnts := by
  have heq := h.2 a
  rw [hi] at heq
  obtain ⟨j, hj, hpair⟩ := map_eq_some_iff.mp heq
  obtain ⟨hno, hcnt⟩ := Prod.mk.inj hpair
  exact ⟨j, hj, hno, hcnt⟩

lemma SameOpen.set (hi : c.inode a = some i) (hno : j.iNo = i.iNo)
    (hcnt : j.iOpenCnts = i.iOpenCnts) : c.SameOpen (c'.set a (some j)) := by
  refine ⟨h.1, fun b => ?_⟩
  by_cases hb : b = a
  · subst hb
    rw [hi]
    simp [InodeCache.set, hno, hcnt]
  · rw [← h.2 b]
    simp [InodeCache.set, hb]

/-- `inode_close` looks at the counts only. -/
lemma SameOpen.inodeClose (hc : c.inodeClose a = some c1) :
    ∃ c2, c'.inodeClose a = some c2 ∧ c1.SameOpen c2 := by
  obtain ⟨i, hi, hinode, hlist⟩ := inodeClose_eq_some hc
  obtain ⟨j, hj, hno, hcnt⟩ := h.inode hi
  obtain ⟨c2, hc2⟩ : ∃ c2, c'.inodeClose a = some c2 := ⟨_, by rw [InodeCache.inodeClose, hj, map_some]⟩
  obtain ⟨j', hj', hinode', hlist'⟩ := inodeClose_eq_some hc2
  obtain rfl := some.inj (hj.symm.trans hj')
  rw [hcnt] at hinode' hlist'
  refine ⟨c2, hc2, by rw [hlist, hlist', h.1], fun b => ?_⟩
  rw [hinode, hinode']
  by_cases hb : b = a
  · subst hb
    simp only [update_self]
    split_ifs
    · rfl
    · simp [hno]
  · rw [update_of_ne hb, update_of_ne hb, h.2 b]

end

lemma find_congr
    (h : ∀ b ∈ l, (c'.inode b).map (·.iNo) = (c.inode b).map (·.iNo)) : c'.find n l = c.find n l := by
  induction l with
  | nil => rfl
  | cons b l ih =>
    rw [find, find]
    cases hb : c.inode b <;> cases hb' : c'.inode b <;> simp_all

end InodeCache

/-! ### Openings and counts -/

namespace FsView

/-- The inode that `inode_open` gives may not be opened for writing. -/
def writeDenied (s : FsView p) (n : UInt32) : Bool :=
  match s.cache.find n s.cache.openInodes with
  | some (some a) => (s.cache.inode a).any (·.writeDeny)
  | _ => (s.vol.inodeLoad n.toNat).writeDeny

lemma Opens.openCnt (h : s.Opens n a s') (hs : s.Coherent (m + 1)) :
    s'.cache.openCnt a = s.cache.openCnt a + 1 ∧ ∀ b, s.cache.openCnt b ≤ s'.cache.openCnt b := by
  have hcnt : s'.cache.openCnt a = s.cache.openCnt a + 1 ∧
      ∀ b, b ≠ a → s'.cache.inode b = s.cache.inode b := by
    rcases h.cases with ⟨i, hmem, hi, rfl, hc⟩ | ⟨ha, hnone, -, hc⟩
    · obtain ⟨j, hj, -, hlt, -⟩ := hs.listed a hmem
      obtain rfl := some.inj (hi.symm.trans hj)
      rw [hc]
      refine ⟨?_, fun b hb => update_of_ne hb ..⟩
      simp only [InodeCache.openCnt, InodeCache.set, update_self, hi, map_some,
        Option.getD_some, UInt32.toNat_add, UInt32.toNat_one]
      omega
    · rw [hc]
      refine ⟨?_, fun b hb => update_of_ne hb ..⟩
      simp [InodeCache.openCnt, InodeCache.push, hnone]
  refine ⟨hcnt.1, fun b => ?_⟩
  by_cases hb : b = a
  · rw [hb]
    omega
  · rw [InodeCache.openCnt, InodeCache.openCnt, hcnt.2 b hb]

lemma Opens.openInodes (h : s.Opens n a s') :
    a ∈ s'.cache.openInodes ∧ ∀ b ∈ s.cache.openInodes, b ∈ s'.cache.openInodes := by
  rcases h.cases with ⟨i, hmem, -, -, hc⟩ | ⟨-, -, -, hc⟩
  · rw [hc]
    exact ⟨hmem, fun b hb => hb⟩
  · rw [hc]
    exact ⟨mem_cons_self, fun b hb => mem_cons_of_mem _ hb⟩

lemma Holding.openCnt (h : s.Holding d dir s') (hs : s.Coherent (m + 1)) (b : InodePtr) :
    s.cache.openCnt b ≤ s'.cache.openCnt b := by
  cases h with
  | rootDir => exact le_refl _
  | opened h => exact (h.openCnt hs).2 b

lemma Opens.writeDeny (h : s.Opens n a s') :
    ∃ i, s'.cache.inode a = some i ∧ i.writeDeny = s.writeDenied n := by
  have hopen := h.inodeOpen
  rw [FsView.inodeOpen, InodeCache.inodeOpen] at hopen
  rw [writeDenied]
  split at hopen
  · cases hopen
  · next b hfind =>
    obtain ⟨-, i, hi, -⟩ := InodeCache.find_eq_some hfind
    rw [hi] at hopen
    obtain ⟨rfl, hs'⟩ := Prod.mk.inj (some.inj hopen)
    rw [← hs', hfind]
    exact ⟨_, update_self .., by simp [hi]⟩
  · next hfind =>
    split_ifs at hopen with hnone
    · obtain ⟨rfl, hs'⟩ := Prod.mk.inj (some.inj hopen)
      rw [← hs', hfind]
      exact ⟨_, update_self .., rfl⟩
    · cases hopen

/-- Another inode that is open makes no difference. -/
lemma Holding.writeDenied (h : s.Holding d dir s')
    (hno : (s.vol.inodeLoad d.toNat).iNo = d) (hne : d ≠ n) : s'.writeDenied n = s.writeDenied n := by
  cases h with
  | rootDir => rfl
  | @opened a _ h =>
    rw [FsView.writeDenied, FsView.writeDenied, h.vol]
    rcases h.cases with ⟨i, hmem, hi, rfl, hc⟩ | ⟨ha, hnone, -, hc⟩
    · rw [hc]
      have hfind : (s.cache.set a (some { i with iOpenCnts := i.iOpenCnts + 1 })).find n
          s.cache.openInodes = s.cache.find n s.cache.openInodes := by
        refine InodeCache.find_congr fun b _ => ?_
        by_cases hb : b = a
        · subst hb
          simp [InodeCache.set, hi]
        · simp [InodeCache.set, hb]
      have hlist : (s.cache.set a (some { i with iOpenCnts := i.iOpenCnts + 1 })).openInodes =
          s.cache.openInodes := rfl
      rw [hlist, hfind]
      split
      · next b hb =>
        by_cases hba : b = a
        · subst hba
          simp [InodeCache.set, hi]
        · simp [InodeCache.set, hba]
      · rfl
    · rw [hc]
      have hmem : ∀ b ∈ s.cache.openInodes, b ≠ a := by
        rintro b hb rfl
        exact freshAddr_notMem _ (ha ▸ hb)
      have hfind : (s.cache.push a ({ s.vol.inodeLoad d.toNat with iOpenCnts := 1 })).find n
          (a :: s.cache.openInodes) = s.cache.find n s.cache.openInodes := by
        rw [InodeCache.find, InodeCache.inode_push_self]
        simp only [hno, if_neg hne]
        refine InodeCache.find_congr fun b hb => ?_
        rw [InodeCache.inode_push_of_ne _ (hmem b hb)]
      rw [InodeCache.openInodes_push, hfind]
      split
      · next b hb =>
        rw [InodeCache.inode_push_of_ne _ (hmem b (InodeCache.find_eq_some hb).1)]
      · rfl

end FsView

/-! ### Insertions -/

/-- The fields of an inode that an insertion leaves alone. -/
lemma syncDirEntry_inode (v : Vol p) (ino : Inode) (pDe ioBuf : Bytes) :
    (syncDirEntry v ino pDe ioBuf).inode.iNo = ino.iNo ∧
      (syncDirEntry v ino pDe ioBuf).inode.iOpenCnts = ino.iOpenCnts := by
  cases hok : (syncDirEntry v ino pDe ioBuf).ok with
  | true =>
    rcases syncDirEntry_ok_cases hok with ⟨_, _, -, -, -, -, heq⟩ | ⟨_, _, _, _, -, -, -, heq⟩ |
      ⟨_, _, _, _, _, -, -, -, heq⟩
    all_goals
      rw [heq]
      exact ⟨rfl, rfl⟩
  | false =>
    rcases syncDirEntry_fail_cases hok with ⟨-, heq⟩ | ⟨_, _, -, heq, -⟩
    all_goals
      rw [heq]
      exact ⟨rfl, rfl⟩

/-- Whether there is room for an entry depends on the blocks of the directory only. -/
lemma syncNew_ok_congr {pDe : Bytes} {allBlocks : Nat → UInt32} {v : Vol p} (i j : Inode)
    {buf : Bytes} : (syncNew pDe allBlocks k v i buf).ok = (syncNew pDe allBlocks k v j buf).ok := by
  rw [syncNew, syncNew, newBlock, newBlock]
  cases v.blockBitmapAlloc with
  | none => rfl
  | some r =>
    simp only
    split_ifs
    · rfl
    · cases (r.2.bitmapSync (r.1 - p.sb.dataStartLba) .blockBitmap).blockBitmapAlloc with
      | none => rfl
      | some r' => rfl
    · rfl

lemma Inode.SamePersistent.syncDirEntry_ok (h : i.SamePersistent j) (v : Vol p)
    (pDe ioBuf : Bytes) : (syncDirEntry v i pDe ioBuf).ok = (syncDirEntry v j pDe ioBuf).ok := by
  have hblocks : directBlocks i = directBlocks j := by
    funext k
    simp only [directBlocks]
    split_ifs with hk
    · exact h.2.2 k (by omega)
    · rfl
  have hloop : ∀ n k buf, (syncBlocks pDe (directBlocks j) v i n k buf).ok =
      (syncBlocks pDe (directBlocks j) v j n k buf).ok := by
    intro n
    induction n with
    | zero => exact fun _ _ => rfl
    | succ n ih =>
      intro k buf
      rw [syncBlocks, syncBlocks]
      split_ifs
      · exact syncNew_ok_congr i j
      · simp only
        split
        · rfl
        · exact ih _ _
  rw [syncDirEntry, syncDirEntry, hblocks, hloop]

/-- `file_create` gets as far as the new inode, or gives up; nothing but the directory matters. -/
lemma Inode.SamePersistent.fileCreate_ok (h : i.SamePersistent j) (v : Vol p)
    (okIoBuf okInode okSlot : Bool) (filename : List UInt8) :
    (v.fileCreate okIoBuf okInode okSlot i filename).ok =
      (v.fileCreate okIoBuf okInode okSlot j filename).ok := by
  rw [Vol.fileCreate, Vol.fileCreate]
  by_cases hbuf : (!okIoBuf) = true
  · rw [if_pos hbuf, if_pos hbuf]
  rw [if_neg hbuf, if_neg hbuf]
  cases v.inodeBitmapAlloc with
  | none => rfl
  | some r =>
    simp only [h.syncDirEntry_ok]
    split_ifs <;> rfl

namespace FsView

/-! ### `file_open`, `file_create` and `sys_close` -/

/-- `file_open` finds no slot; or it opens the inode, and then refuses or looks for a descriptor. -/
lemma fileOpen_cases (hs : s.Coherent m) (n : UInt32) (flags : UInt8) :
    (s.getFreeSlotInGlobal = none ∧ s.fileOpen n flags = some (-1, s)) ∨
      ∃ g a s', s.getFreeSlotInGlobal = some g ∧ s.Opens n a s' ∧
        ((FdState.wantsWrite flags.toUInt32 = true ∧ s.writeDenied n = true ∧
          s.fileOpen n flags = some (-1, s'.setSlot g ⟨0, flags.toUInt32, some (.inode a)⟩)) ∨
        (¬ (FdState.wantsWrite flags.toUInt32 = true ∧ s.writeDenied n = true) ∧
          ∃ c, s'.cache.SameOpen c ∧ s.fileOpen n flags =
            some ({ s' with
              cache := c
              fileTable := update s'.fileTable g
                ⟨0, flags.toUInt32, some (.inode a)⟩ }.pcbFdInstall g))) := by
  cases hg : s.getFreeSlotInGlobal with
  | none => exact .inl ⟨rfl, by rw [fileOpen, hg]⟩
  | some g =>
    obtain ⟨a, s', hopen⟩ := hs.opens n
    obtain ⟨i, hi, hdeny⟩ := hopen.writeDeny
    refine .inr ⟨g, a, s', rfl, hopen, ?_⟩
    rw [fileOpen, hg]
    simp only [hopen.inodeOpen, bind_some, hi, map_some, hdeny]
    by_cases hw : FdState.wantsWrite flags.toUInt32 = true
    · rw [if_pos hw]
      by_cases hden : s.writeDenied n = true
      · exact .inl ⟨hw, hden, by rw [if_pos hden]⟩
      · rw [if_neg hden]
        exact .inr ⟨fun h => hden h.2, s'.cache.set a (some { i with writeDeny := true }),
          (InodeCache.SameOpen.refl s'.cache).set hi rfl rfl, rfl⟩
    · rw [if_neg hw]
      exact .inr ⟨fun h => hw h.1, s'.cache, .refl _, rfl⟩

lemma pcbFdInstall_of_none (h : s.freeFd = none) : s.pcbFdInstall g = (-1, s) := by
  rw [pcbFdInstall, h]

lemma pcbFdInstall_of_some (h : s.freeFd = some fd) :
    s.pcbFdInstall g = ((fd : Int), { s with fdTable := update s.fdTable fd (some g) }) := by
  rw [pcbFdInstall, h]

lemma freeFd_bounds (h : s.freeFd = some fd) : 3 ≤ fd ∧ fd < maxFilesOpenPerProc := by
  have hmem := mem_of_find?_eq_some h
  rw [mem_range'_1] at hmem
  omega

/-- `sys_close` of a descriptor that was made for an open inode. -/
lemma sysClose_of_opens (s1 : FsView p) (h : s.Opens n a s')
    (hfd : 3 ≤ fd ∧ fd < maxFilesOpenPerProc) (hcache : s'.cache.SameOpen s1.cache)
    (hslot : s1.fileTable g = ⟨0, flags.toUInt32, some (.inode a)⟩) (hentry : s1.fdTable fd = some g) :
    ∃ s2, s1.sysClose fd = some (0, s2) ∧ s.cache.SameOpen s2.cache := by
  obtain ⟨i, hi, -⟩ := h.inode
  obtain ⟨j, hj, hno, hcnt⟩ := hcache.inode hi
  have hclose : s'.cache.inodeClose a = some s.cache := by
    obtain ⟨c, hc, heq⟩ := map_eq_some_iff.mp h.inodeClose
    rw [hc, ← heq]
  obtain ⟨c2, hc2, hsame⟩ := (hcache.set (j := { j with writeDeny := false }) hi hno hcnt).inodeClose hclose
  have hpipe : flags.toUInt32 ≠ pipeFlag := by
    intro heq
    have hlt := flags.toNat_lt
    have hnat := congrArg UInt32.toNat heq
    rw [UInt8.toNat_toUInt32] at hnat
    rw [hnat] at hlt
    exact absurd hlt (by decide)
  refine ⟨{ s1 with
    cache := c2
    fileTable := update s1.fileTable g ⟨0, flags.toUInt32, none⟩
    fdTable := update s1.fdTable fd none }, ?_, hsame⟩
  rw [sysClose, if_pos (by omega), Int.toNat_natCast, if_pos hfd.2, hentry, bind_some, hslot]
  simp only [if_neg hpipe]
  rw [fileClose]
  simp only [hj, bind_some, inodeClose, hc2, map_some, setSlot, hslot]

lemma newPtr_notMem (s : FsView p) : s.newPtr ∉ s.cache.openInodes := by
  intro h
  have hlt := addr_lt_freshAddr h
  rw [newPtr] at hlt
  split_ifs at hlt <;> exact absurd hlt (lt_irrefl _)

lemma getFreeSlotInGlobal_eq_some (h : s.getFreeSlotInGlobal = some g) :
    (s.fileTable g).fdInode = none := by
  have hg := find?_some h
  simpa using hg

lemma set_inodeOf (hi : s.inodeOf dir = some i) :
    s.cache.set (s.dirInode dir) (some i) = s.cache := by
  rw [InodeCache.set, ← hi, inodeOf, update_eq_self]

/-- `file_create` gives up with everything open as before; or it puts the new inode on the list and looks
for a descriptor. -/
lemma fileCreate_cases (hs : s.Coherent m) (hi : s.inodeOf dir = some i)
    (okIoBuf okInode : Bool) (filename : List UInt8) (flags : UInt8)
    (hr : s.vol.fileCreate okIoBuf okInode s.getFreeSlotInGlobal.isSome i filename = r) :
    s.cache.SameOpen (s.cache.set (s.dirInode dir) (some r.inode)) ∧
    ((r.ok = false ∧ ∃ T : Nat → File, (∀ g, (T g).fdInode = (s.fileTable g).fdInode) ∧
      s.fileCreate okIoBuf okInode dir filename flags = some (-1, { s with
        vol := r.vol
        cache := s.cache.set (s.dirInode dir) (some r.inode)
        fileTable := T })) ∨
    (r.ok = true ∧ ∃ g n v, s.getFreeSlotInGlobal = some g ∧ s.vol.inodeBitmapAlloc = some (n, v) ∧
      s.fileCreate okIoBuf okInode dir filename flags = some ({ s with
        vol := r.vol
        cache := (s.cache.set (s.dirInode dir) (some r.inode)).push s.newPtr
          ({ Inode.inodeInit (UInt32.ofNat n) with iOpenCnts := 1 })
        fileTable := update s.fileTable g
          ⟨0, flags.toUInt32, some (.inode s.newPtr)⟩ }.pcbFdInstall g))) := by
  subst hr
  rw [Vol.fileCreate, fileCreate]
  by_cases hbuf : (!okIoBuf) = true
  · rw [if_pos hbuf, if_pos hbuf, set_inodeOf hi]
    exact ⟨.refl _, .inl ⟨rfl, s.fileTable, fun _ => rfl, rfl⟩⟩
  rw [if_neg hbuf, if_neg hbuf]
  cases s.vol.inodeBitmapAlloc with
  | none =>
    simp only [set_inodeOf hi]
    exact ⟨.refl _, .inl ⟨trivial, s.fileTable, fun _ => rfl, rfl⟩⟩
  | some r =>
    obtain ⟨inodeNo, v⟩ := r
    simp only
    by_cases hinode : (!okInode) = true
    · rw [if_pos (by rw [hinode]; rfl), if_pos hinode, set_inodeOf hi]
      exact ⟨.refl _, .inl ⟨rfl, s.fileTable, fun _ => rfl, rfl⟩⟩
    rw [if_neg hinode]
    cases hslot : s.getFreeSlotInGlobal with
    | none =>
      rw [if_pos (by simp), set_inodeOf hi]
      exact ⟨.refl _, .inl ⟨rfl, s.fileTable, fun _ => rfl, rfl⟩⟩
    | some g =>
      rw [if_neg (by simpa using hinode)]
      simp only [hi, bind_some]
      have hkeep := syncDirEntry_inode v i
        (createDirEntry filename (UInt32.ofNat inodeNo) .regular Bytes.zero) Bytes.zero
      generalize syncDirEntry v i (createDirEntry filename (UInt32.ofNat inodeNo) .regular Bytes.zero)
        Bytes.zero = r at hkeep
      have hsame := (InodeCache.SameOpen.refl s.cache).set hi hkeep.1 hkeep.2
      by_cases hok : r.ok = true
      · have hnew : (s.cache.set (s.dirInode dir) (some r.inode)).inode s.newPtr = none := by
          obtain ⟨hno, hmem⟩ : s.cache.inode s.newPtr = none ∧ s.dirInode dir ≠ s.newPtr := by
            refine ⟨?_, ?_⟩
            · by_contra hne
              exact s.newPtr_notMem (hs.memory _ hne)
            · intro heq
              refine s.newPtr_notMem (heq ▸ hs.memory _ ?_)
              rw [inodeOf] at hi
              simp [hi]
          exact (update_of_ne (Ne.symm hmem) ..).trans hno
        rw [if_pos hok, if_pos hok, if_pos hnew]
        exact ⟨hsame, .inr ⟨rfl, g, inodeNo, v, rfl, rfl, rfl⟩⟩
      · rw [if_neg hok, if_neg hok]
        have hfree : (s.fileTable g).fdInode = none := getFreeSlotInGlobal_eq_some hslot
        refine ⟨hsame, .inl ⟨rfl, _, fun g' => ?_, rfl⟩⟩
        by_cases hg : g' = g
        · subst hg
          rw [update_self, hfree]
        · rw [update_of_ne hg]

/-! ### The counts after `sys_open` -/

/-- Closing what a successful `sys_open` gives leaves the same inodes open as before, each as often, and
so does a `sys_open` that returns `-1`. -/
def OpenBalanced (okIoBuf okInode : Bool) (s : FsView p) (path : List UInt8) (flags : UInt8) : Prop :=
  (flags &&& oCreat = 0 → ∀ fd s₁, s.sysOpen okIoBuf okInode path flags = some (fd, s₁) → 0 ≤ fd →
    ∃ s₂, s₁.sysClose fd = some (0, s₂) ∧ s.cache.SameOpen s₂.cache) ∧
  ∀ s₁, s.sysOpen okIoBuf okInode path flags = some (-1, s₁) → s.cache.SameOpen s₁.cache

/-- A file that is opened is in the root directory, and unless there is no slot for it in `file_table`
it gets a descriptor; a file that is created gets a descriptor. -/
def OpensEvenly (okIoBuf okInode : Bool) (s : FsView p) (path : List UInt8) (flags : UInt8) : Prop :=
  Fits (components path) →
    (flags &&& oCreat = 0 → ∀ n, s.NamesFile path n → (components path).length = 1 ∧
      (s.getFreeSlotInGlobal = none ∨ s.freeFd ≠ none ∧
        ¬ (FdState.wantsWrite flags.toUInt32 = true ∧ s.writeDenied n = true))) ∧
    (flags &&& oCreat ≠ 0 → ∀ d filename, s.NamesNew path d → lastName path = some filename →
      (s.vol.fileCreate okIoBuf okInode s.getFreeSlotInGlobal.isSome (s.vol.inodeLoad d.toNat)
        filename).ok = true → s.freeFd ≠ none)

lemma Holding.getFreeSlotInGlobal (h : s.Holding d dir s') :
    s'.getFreeSlotInGlobal = s.getFreeSlotInGlobal := by
  cases h with
  | rootDir => rfl
  | opened h => rw [h.view]; rfl

lemma Holding.freeFd (h : s.Holding d dir s') : s'.freeFd = s.freeFd := by
  cases h with
  | rootDir => rfl
  | opened h => rw [h.view]; rfl

lemma Holding.sameOpen_iff (h : s.Holding d dir s') (hs : s.Coherent (m + 1)) :
    s.cache.SameOpen s'.cache ↔ dir = .rootDir := by
  cases h with
  | rootDir => simp [InodeCache.SameOpen.refl]
  | @opened a s' h =>
    have hcnt := (h.openCnt hs).1
    refine iff_of_false (fun hsame => ?_) (by simp)
    have heq := hsame.openCnt_eq a
    omega

/-- The counts after opening a file. -/
lemma fileOpen_balanced_iff (hs : s.Coherent 2) (hold : s.Holding d dir s')
    (hno : (s.vol.inodeLoad d.toNat).iNo = d) (hne : d ≠ n) (flags : UInt8) :
    ((∀ fd s1, s'.fileOpen n flags = some (fd, s1) → 0 ≤ fd →
        ∃ s2, s1.sysClose fd = some (0, s2) ∧ s.cache.SameOpen s2.cache) ∧
      ∀ s1, s'.fileOpen n flags = some (-1, s1) → s.cache.SameOpen s1.cache) ↔
    dir = .rootDir ∧ (s.getFreeSlotInGlobal = none ∨ s.freeFd ≠ none ∧
      ¬ (FdState.wantsWrite flags.toUInt32 = true ∧ s.writeDenied n = true)) := by
  have hs' : s'.Coherent 1 := hold.coherent hs hno
  rw [← hold.getFreeSlotInGlobal, ← hold.freeFd, ← hold.writeDenied hno hne, ← hold.sameOpen_iff hs]
  rcases fileOpen_cases hs' n flags with ⟨hslot, heq⟩ | ⟨g, a, s'', hslot, hopen, hcase⟩
  · -- no slot: nothing but the directory is open
    rw [heq, hslot]
    constructor
    · simp
    · rintro ⟨h, -⟩
      refine ⟨?_, ?_⟩
      · rintro fd s1 heq hfd
        cases heq
        exact absurd hfd (by decide)
      · rintro s1 heq
        cases heq
        exact h
  have hleak : ∀ c, s''.cache.SameOpen c → ¬ s.cache.SameOpen c := by
    intro c hc hsame
    have h1 := (hopen.openCnt (m := 0) hs').1
    have h2 := hold.openCnt (m := 1) hs a
    have h3 := hsame.openCnt_eq a
    have h4 := hc.openCnt_eq a
    omega
  rcases hcase with ⟨hw, hden, heq⟩ | ⟨hok, c, hc, heq⟩
  · -- refused, with the file open
    rw [heq, hslot]
    refine iff_of_false (fun h => ?_) (by simp [hw, hden])
    exact hleak s''.cache (.refl _) (h.2 (s''.setSlot g _) rfl)
  cases hfd : s'.freeFd with
  | none =>
    rw [pcbFdInstall_of_none (by rw [← hfd, hopen.view]; rfl)] at heq
    rw [heq, hslot]
    refine iff_of_false (fun h => ?_) (by simp)
    exact hleak c hc (h.2 _ rfl)
  | some fd =>
    rw [pcbFdInstall_of_some (by rw [← hfd, hopen.view]; rfl)] at heq
    obtain ⟨s2, hclose, hsame⟩ := sysClose_of_opens ({ s'' with
        cache := c
        fileTable := update s''.fileTable g ⟨0, flags.toUInt32, some (.inode a)⟩
        fdTable := update s''.fdTable fd (some g) }) hopen (freeFd_bounds hfd) hc
      (update_self ..) (update_self ..)
    rw [heq]
    constructor
    · rintro ⟨h, -⟩
      obtain ⟨s2', hclose', hsame'⟩ := h _ _ rfl (Int.natCast_nonneg fd)
      obtain ⟨-, rfl⟩ := Prod.mk.inj (some.inj (hclose.symm.trans hclose'))
      refine ⟨?_, .inr ⟨by simp, hok⟩⟩
      refine ⟨hsame.1.symm.trans hsame'.1, fun b => (hsame.2 b).symm.trans (hsame'.2 b)⟩
    · rintro ⟨h, -⟩
      refine ⟨?_, ?_⟩
      · rintro fd' s1 heq hpos
        cases heq
        exact ⟨s2, hclose, h.trans hsame⟩
      · simp

/-- The counts after creating a file. -/
lemma fileCreate_balanced_iff (hs : s.Coherent 2) (hold : s.Holding d dir s')
    (hno : (s.vol.inodeLoad d.toNat).iNo = d) (okIoBuf okInode : Bool) (filename : List UInt8)
    (flags : UInt8) :
    (∀ s1, ((s'.fileCreate okIoBuf okInode dir filename flags).bind fun (fd, s) =>
        s.closeAndReturn dir fd) = some (-1, s1) → s.cache.SameOpen s1.cache) ↔
    ((s.vol.fileCreate okIoBuf okInode s.getFreeSlotInGlobal.isSome (s.vol.inodeLoad d.toNat)
        filename).ok = true → s.freeFd ≠ none) := by
  have hs' : s'.Coherent 1 := hold.coherent hs hno
  obtain ⟨i, hi, hpers⟩ := hold.inodeOf hs
  rw [← hpers.fileCreate_ok, ← hold.getFreeSlotInGlobal, ← hold.freeFd, ← hold.vol]
  obtain ⟨hsame, ⟨hfail, T, -, heq⟩ | ⟨hok, g, no, v, -, -, heq⟩⟩ :=
    fileCreate_cases hs' hi okIoBuf okInode filename flags rfl
  · rw [heq, hfail]
    refine iff_of_true ?_ (by simp)
    intro s2 h
    obtain ⟨s3, hs3, hret⟩ := map_eq_some_iff.mp h
    cases hret
    cases hold with
    | rootDir =>
      cases hs3
      exact hsame
    | opened hopen =>
      obtain ⟨c1, hc1, rfl⟩ := map_eq_some_iff.mp hs3
      obtain ⟨c2, hc2, hs2⟩ := map_eq_some_iff.mp hopen.inodeClose
      obtain ⟨c3, hc3, hsame3⟩ := hsame.inodeClose hc2
      obtain rfl := some.inj (hc1.symm.trans hc3)
      rw [← hs2]
      exact hsame3
  rw [heq, hok]
  generalize s'.vol.fileCreate okIoBuf okInode s'.getFreeSlotInGlobal.isSome i filename = r at hsame
  cases hfree : s'.freeFd with
  | some fd =>
    rw [pcbFdInstall_of_some (by exact hfree)]
    refine iff_of_true ?_ (by simp)
    intro s2 h
    obtain ⟨s3, -, hret⟩ := map_eq_some_iff.mp h
    obtain ⟨hret, -⟩ := Prod.mk.inj hret
    omega
  | none =>
    rw [pcbFdInstall_of_none (by exact hfree)]
    refine iff_of_false (fun h => ?_) (by simp)
    obtain ⟨c, hc⟩ : ∃ c, c = s'.cache.set (s'.dirInode dir) (some r.inode) := ⟨_, rfl⟩
    rw [← hc] at hsame h
    obtain ⟨s1, hs1⟩ : ∃ s1 : FsView p, s1 = { s' with
      vol := r.vol
      cache := c.push s'.newPtr ({ Inode.inodeInit (UInt32.ofNat no) with iOpenCnts := 1 })
      fileTable := update s'.fileTable g ⟨0, flags.toUInt32, some (.inode s'.newPtr)⟩ } := ⟨_, rfl⟩
    have hcache := congrArg FsView.cache hs1
    rw [← hs1] at h
    -- the new inode stays on the list
    obtain ⟨s2, hs2, hmem⟩ : ∃ s2, s1.dirClose dir = some s2 ∧ s'.newPtr ∈ s2.cache.openInodes := by
      cases hold with
      | rootDir => exact ⟨s1, rfl, by simp [hcache]⟩
      | @opened a _ hopen =>
        have hne : a ≠ s'.newPtr := by
          rintro rfl
          exact s'.newPtr_notMem hopen.openInodes.1
        obtain ⟨k, hk, -⟩ := hsame.inode hi
        have hinode : s1.cache.inode a = some k := by
          rw [hcache, InodeCache.inode_push_of_ne _ hne]
          exact hk
        have hc1 : ∃ c1, s1.cache.inodeClose a = some c1 :=
          ⟨_, by rw [InodeCache.inodeClose, hinode, map_some]⟩
        obtain ⟨c1, hc1⟩ := hc1
        obtain ⟨k', -, -, hlist⟩ := InodeCache.inodeClose_eq_some hc1
        refine ⟨{ s1 with cache := c1 }, by rw [dirClose, inodeClose, hc1, map_some], ?_⟩
        rw [hlist, hcache]
        split_ifs
        · exact (mem_erase_of_ne (Ne.symm hne)).mpr mem_cons_self
        · exact mem_cons_self
    have hret : s1.closeAndReturn dir (-1) = some (-1, s2) := by rw [closeAndReturn, hs2, map_some]
    have hlist := (h s2 hret).1
    rw [hlist] at hmem
    refine s'.newPtr_notMem ?_
    cases hold with
    | rootDir => exact hmem
    | opened hopen => exact hopen.openInodes.2 _ hmem

lemma NamesNew.inj (h : s.NamesNew path d) (h' : s.NamesNew path d') : d = d' := by
  obtain ⟨-, init, last, hcomp, hd, -⟩ := h
  obtain ⟨-, init', last', hcomp', hd', -⟩ := h'
  obtain ⟨rfl, -⟩ := append_inj' (hcomp.symm.trans hcomp') rfl
  exact some.inj (hd.symm.trans hd')

/-- When `sys_open` leaves the counts even. -/
theorem openBalanced_iff (hs : s.Coherent 2) (ht : s.vol.IsTree t) (habs : path.head? = some slash)
    (hnul : 0 ∉ path) (okIoBuf okInode : Bool) (flags : UInt8) :
    s.OpenBalanced okIoBuf okInode path flags ↔ s.OpensEvenly okIoBuf okInode path flags := by
  have hcase := sysOpen_cases hs ht hnul okIoBuf okInode flags
  rw [OpenBalanced, OpensEvenly]
  generalize s.sysOpen okIoBuf okInode path flags = r at hcase ⊢
  cases hcase with
  | tooLong hfits =>
    refine iff_of_true ⟨fun _ fd s₁ h => ?_, fun s₁ h => ?_⟩ fun h => absurd h hfits
    · cases h
    · cases h
  | noSlash hslash => exact absurd (mem_of_mem_head? habs) hslash
  | refused hfile hnew =>
    refine iff_of_true ⟨fun _ fd s₁ h hpos => ?_, fun s₁ h => ?_⟩ fun _ =>
      ⟨fun hflag n hn => absurd hflag (hfile n hn), fun hflag d _ hd => absurd (hnew d hd) hflag⟩
    · cases h
      exact absurd hpos (by decide)
    · cases h
      exact .refl _
  | @file d n dir s' hfits hflag hfile hd hold hdir =>
    obtain ⟨init, last, hcomp, hinit, hlookup⟩ := hd
    have hdir' : t.IsDir d := ht.lawful.walkDirs ht.root hinit
    have hne : d ≠ n := by
      rintro rfl
      obtain ⟨hdot, hdotDot⟩ := ht.lookup_false hdir' hlookup
      obtain ⟨-, -, e, -, -, rfl, hb, -, hin⟩ := ht.of_lookup hdir' hdot hdotDot hlookup
      have hno : e.fType ≠ .directory := of_decide_eq_false hb.symm
      exact hno (hin.isDir.mpr hdir')
    have hiff := fileOpen_balanced_iff hs hold (ht.iNo d hdir') hne flags
    rw [hdir] at hiff
    constructor
    · rintro ⟨hopen, hfail⟩ -
      refine ⟨fun _ n' hn' => ?_, fun h => absurd hflag h⟩
      obtain ⟨rfl, -⟩ := Prod.mk.inj (some.inj (hfile.2.symm.trans hn'.2))
      exact hiff.mp ⟨hopen hflag, hfail⟩
    · intro h
      obtain ⟨hopen, hfail⟩ := hiff.mpr ((h hfits).1 hflag n hfile)
      exact ⟨fun _ => hopen, hfail⟩
  | @create d dir s' filename hfits hflag hnew hname hold =>
    have hdir' : t.IsDir d := by
      obtain ⟨-, init, last, -, hinit, -⟩ := hnew
      exact ht.lawful.walkDirs ht.root hinit
    have hiff := fileCreate_balanced_iff hs hold (ht.iNo d hdir') okIoBuf okInode filename flags
    constructor
    · rintro ⟨-, hfail⟩ -
      refine ⟨fun h => absurd h hflag, fun _ d' filename' hd' hname' => ?_⟩
      obtain rfl := hnew.inj hd'
      obtain rfl := some.inj (hname.symm.trans hname')
      exact hiff.mp hfail
    · intro h
      exact ⟨fun h => absurd h hflag, hiff.mpr ((h hfits).2 hflag d filename hnew hname)⟩

/-- Reading the file "/f". -/
theorem openBalanced_sample : (Image.sample.view .smallest).OpenBalanced true true [47, 102] 0 := by
  refine (openBalanced_iff (Image.coherent_view _ _ (by decide)) Image.ok_sample.isTree (by decide)
    (by decide) true true 0).mpr ?_
  intro _
  refine ⟨fun _ n _ => ⟨by decide, .inr ⟨by decide +kernel, fun h => ?_⟩⟩, fun h => absurd rfl h⟩
  exact absurd h.1 (by decide)

/-- After reading the file "/a/g" the directory "/a" is still open. -/
theorem not_forall_openBalanced : ¬ ∀ (p : Partition) (s : FsView p) (t : DirTree) (path : List UInt8)
    (flags : UInt8), s.Coherent 2 → s.vol.Consistent t → path.head? = some slash → 0 ∉ path →
    s.OpenBalanced true true path flags := by
  intro hall
  have hopen : ((Image.sample.view .smallest).sysOpen true true [47, 97, 47, 103] 0).map
      (fun r => (r.1, (r.2.sysClose r.1).map fun r => r.2.cache.openInodes.length)) = some (3, some 2) := by
    decide +kernel
  obtain ⟨⟨fd, s₁⟩, hs₁, hfd⟩ := map_eq_some_iff.mp hopen
  obtain ⟨rfl, hclose⟩ := Prod.mk.inj hfd
  obtain ⟨s₂, hs₂, hlist, -⟩ := (hall _ _ _ [47, 97, 47, 103] 0 (Image.coherent_view Image.sample .smallest
    (by decide)) (Image.ok_sample.consistent _) (by decide) (by decide)).1 rfl 3 s₁ hs₁ (by decide)
  rw [hs₂, map_some, hlist] at hclose
  cases hclose

end FsView

end SimpleOs
