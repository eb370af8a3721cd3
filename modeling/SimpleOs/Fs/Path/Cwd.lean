import SimpleOs.Fs.Path.Wash

/-!
# The working directory

`sys_chdir` follows a path down to a directory and keeps its inode number. `sys_getcwd` goes back up by
the ".." entries, looks in each parent for the entry with the number of the child, and turns the names
around. In a tree it gives the path that `wash_path` makes of the one `sys_chdir` was called with.
-/

namespace SimpleOs

open Base Option List

variable {p : Partition}

/-- The slots that are not in use have the inode number 0, as `delete_dir_entry` leaves them. -/
def Vol.FreeSlotsZero (v : Vol p) (t : DirTree) : Prop :=
  ∀ d σ k idx, t.slots d = some σ → σ k idx = none → idx < 21 →
    loadBlocks v.disk (v.inodeLoad d.toNat) k ≠ 0 →
    v.disk.u32 (entryAddr (loadBlocks v.disk (v.inodeLoad d.toNat) k) idx + 16) = 0

/-- The free slots of an image are blank. -/
lemma Image.Ok.freeSlotsZero {im : Image} (h : im.Ok) : (im.vol p).FreeSlotsZero im.tree := by
  intro d σ k idx hσ hs hidx hk
  obtain ⟨hne, hlt, rfl⟩ := Image.slots_eq hσ
  have hn : d.toNat < 4096 := hlt.trans_le h.length_le
  rw [Image.loadBlocks_inodeLoad im p hn] at hk ⊢
  obtain ⟨rfl, -⟩ := Image.holds_of_iSectors h.length_le hk
  have hnone : (im.entries d.toNat)[idx]? = none := hs
  have hzero : Bytes.zero.u32 0 = 0 := by decide
  rw [← hzero]
  apply Bytes.u32_congr
  intro r hr
  have hdiv : (24 * idx + (16 + r)) / 24 = idx := by omega
  rw [Nat.add_assoc, Image.disk_block hn hne hidx (by omega)]
  simp only [Image.block, hdiv, hnone, Bytes.zero]

lemma entryINo_ideRead (disk : Bytes) (b : UInt32) (hidx : idx < 21) :
    entryINo (ideRead disk b.toNat Bytes.zero 0 1) idx = disk.u32 (entryAddr b idx + 16) := by
  apply Bytes.u32_congr
  intro r hr
  rw [ideRead_sector _ _ _ (by omega), entryAddr]
  congr 1
  omega

/-! ### `get_child_dir_name` -/

lemma stringAt_of_sameName (h : sameName s a name = true)
    (hnul : 0 ∉ name) (hlen : name.length < n) : FsView.stringAt s n a = some name := by
  induction name generalizing n a with
  | nil =>
    obtain ⟨n, rfl⟩ : ∃ k, n = k + 1 := ⟨n - 1, by simp at hlen; omega⟩
    rw [sameName, decide_eq_true_eq] at h
    rw [FsView.stringAt, if_pos h]
  | cons c name ih =>
    obtain ⟨n, rfl⟩ : ∃ k, n = k + 1 := ⟨n - 1, by simp at hlen; omega⟩
    rw [sameName, Bool.and_eq_true, decide_eq_true_eq] at h
    rw [mem_cons, not_or] at hnul
    rw [length_cons] at hlen
    rw [FsView.stringAt, h.1, if_neg (Ne.symm hnul.1), ih h.2 hnul.2 (by omega), map_some]

/-- The loop finds the only entry with the number. -/
lemma childBlocks_eq (honly : ∀ k idx, allBlocks k ≠ 0 → idx < 21 →
      (entryINo (ideRead disk (allBlocks k).toNat Bytes.zero 0 1) idx = c ↔ k = k0 ∧ idx = idx0))
    (hk0 : allBlocks k0 ≠ 0) (hidx0 : idx0 < 21) (hle : k ≤ k0) (hlt : k0 < k + n) :
    FsView.childBlocks disk allBlocks c n k =
      some (ideRead disk (allBlocks k0).toNat Bytes.zero 0 1, 24 * idx0) := by
  induction n generalizing k with
  | zero => omega
  | succ n ih =>
    rw [FsView.childBlocks]
    split_ifs with hk
    · have hne : k ≠ k0 := fun heq => hk0 (heq ▸ hk)
      exact ih (by omega) (by omega)
    simp only
    split
    · next idx hfind =>
      obtain ⟨-, hidx, htest, -⟩ := firstFrom_eq_some hfind
      obtain ⟨rfl, rfl⟩ := (honly k idx hk (by omega)).mp (of_decide_eq_true htest)
      rfl
    · next hfind =>
      have hne : k ≠ k0 := by
        rintro rfl
        have hno := firstFrom_eq_none hfind idx0 (by omega) (by omega)
        exact of_decide_eq_false hno ((honly k idx0 hk hidx0).mpr ⟨rfl, rfl⟩)
      exact ih (by omega) (by omega)

namespace Vol.IsTree

variable {v : Vol p} {σ : SlotTable} {e : Entry}

lemma iNo_at (ht : v.IsTree t) (hσ : t.slots d = some σ) (he : σ k idx = some e) :
    v.disk.u32 (entryAddr (loadBlocks v.disk (v.inodeLoad d.toNat) k) idx + 16) = e.iNo := by
  obtain ⟨hk, hidx, -⟩ := (ht.rep d σ hσ).some_inv he
  have hslot := (ht.rep d σ hσ).slots k idx hk hidx
  rw [he] at hslot
  exact hslot.1.iNo

/-- The only slot of a directory with the number of one of the directories in it. `hup` says that this
is not its parent. -/
lemma slot_of_child (ht : v.IsTree t) (hfree : v.FreeSlotsZero t) (hσ : t.slots d = some σ)
    (he : σ k idx = some e) (ho : e.Ordinary) (hdir : e.fType = .directory) (hup : t.parent d ≠ e.iNo)
    (hk' : loadBlocks v.disk (v.inodeLoad d.toNat) k' ≠ 0) (hidx' : idx' < 21) :
    v.disk.u32 (entryAddr (loadBlocks v.disk (v.inodeLoad d.toNat) k') idx' + 16) = e.iNo ↔
      k' = k ∧ idx' = idx := by
  have hin := ht.entry d k idx e ⟨σ, hσ, he⟩ ho
  constructor
  · intro hno
    cases hs : σ k' idx' with
    | none =>
      rw [hfree d σ k' idx' hσ hs hidx' hk'] at hno
      exact absurd hno.symm hin.iNo_ne
    | some e' =>
      rw [ht.iNo_at hσ hs] at hno
      rcases ht.ordinary d k' idx' e' ⟨σ, hσ, hs⟩ with ⟨rfl, rfl | rfl⟩ | ho'
      · -- "." has the number of the directory
        obtain rfl := some.inj (hs.symm.trans (ht.dot d σ hσ))
        have hrank := hin.rank hdir
        rw [← hno] at hrank
        exact absurd hrank (lt_irrefl _)
      · obtain rfl := some.inj (hs.symm.trans (ht.dotDot d σ hσ))
        exact absurd hno hup
      · obtain ⟨-, rfl, rfl⟩ :=
          ht.entry_inj d k' idx' e' d k idx e ⟨σ, hσ, hs⟩ ⟨σ, hσ, he⟩ ho' ho hno
        exact ⟨rfl, rfl⟩
  · rintro ⟨rfl, rfl⟩
    exact ht.iNo_at hσ he

/-- The parent of a directory that is reached from the root is not one of those in it. -/
lemma parent_ne_child (ht : v.IsTree t)
    (hst : v.hierarchy.Plain st) (hq : v.hierarchy.walkDirs 0 st.reverse = some q)
    (hn : v.lookup q name = some (c, true)) (hdot : name ≠ dotName) (hdotDot : name ≠ dotDotName) :
    t.parent q ≠ c := by
  have hdir := ht.lawful.walkDirs ht.root hq
  obtain ⟨k, idx, e, -, -, rfl, hb, -, hin⟩ := ht.of_lookup hdir hdot hdotDot hn
  have hrank := hin.rank (of_decide_eq_true hb.symm)
  intro hup
  cases st with
  | nil =>
    cases hq
    rw [ht.parent_root] at hup
    exact hin.iNo_ne hup.symm
  | cons m st =>
    rw [reverse_cons] at hq
    obtain ⟨g, hg, hm⟩ := Hierarchy.walkDirs_concat.mp hq
    obtain ⟨hmdot, hmdotDot⟩ := hst m mem_cons_self
    obtain ⟨k', idx', e', -, -, rfl, hb', -, hin'⟩ :=
      ht.of_lookup (ht.lawful.walkDirs ht.root hg) hmdot hmdotDot hm
    have hrank' := hin'.rank (of_decide_eq_true hb'.symm)
    rw [hin'.parent (of_decide_eq_true hb'.symm)] at hup
    rw [← hup] at hrank
    omega

end Vol.IsTree

namespace FsView

variable {s : FsView p}

lemma getParentDirInodeNr_eq (hs : s.Coherent m) (ht : s.vol.IsTree t) (hc : t.IsDir c) :
    s.getParentDirInodeNr c = some (t.parent c, s) := by
  obtain ⟨a, s', hopen⟩ := hs.opens c
  obtain ⟨i, hi, hsame⟩ := hopen.inode
  obtain ⟨σ, hσ⟩ := Option.ne_none_iff_exists'.mp hc
  have hblock : i.iSectors 0 = loadBlocks s.vol.disk (s.vol.inodeLoad c.toNat) 0 := by
    exact hsame.2.2 0 (by decide)
  rw [getParentDirInodeNr, hopen.inodeOpen]
  simp only [hi, bind_some, hopen.inodeClose, map_some]
  rw [entryINo_ideRead _ _ (by decide), hblock, ht.iNo_at hσ (ht.dotDot c σ hσ)]

lemma getChildDirName_eq (hs : s.Coherent m) (ht : s.vol.IsTree t) (hfree : s.vol.FreeSlotsZero t)
    (hq : t.IsDir q) (hn : s.vol.lookup q name = some (c, true)) (hdot : name ≠ dotName)
    (hdotDot : name ≠ dotDotName) (hup : t.parent q ≠ c) :
    s.getChildDirName q c = some (some name, s) := by
  obtain ⟨a, s', hopen⟩ := hs.opens q
  obtain ⟨i, hi, hsame⟩ := hopen.inode
  obtain ⟨k, idx, e, ⟨σ, hσ, he⟩, rfl, rfl, hb, ho, hin⟩ := ht.of_lookup hq hdot hdotDot hn
  have hrep := ht.rep q σ hσ
  obtain ⟨hk, hidx, hval⟩ := hrep.some_inv he
  have hlt : k < if i.iSectors 12 ≠ 0 then 140 else 12 := by
    split_ifs with h12
    · exact lt_of_loadBlocks hk
    · by_contra hge
      rw [not_not, hsame.2.2 12 (by decide)] at h12
      exact hk (loadBlocks_of_table_eq_zero h12 (by omega))
  have honly : ∀ k' idx', loadBlocks s.vol.disk (s.vol.inodeLoad q.toNat) k' ≠ 0 → idx' < 21 →
      (entryINo (ideRead s.vol.disk (loadBlocks s.vol.disk (s.vol.inodeLoad q.toNat) k').toNat
        Bytes.zero 0 1) idx' = e.iNo ↔ k' = k ∧ idx' = idx) := by
    intro k' idx' hk' hidx'
    rw [entryINo_ideRead _ _ hidx']
    exact ht.slot_of_child hfree hσ he ho (of_decide_eq_true hb.symm) hup hk' hidx'
  have hfind := childBlocks_eq (n := if i.iSectors 12 ≠ 0 then 140 else 12) honly hk hidx (Nat.zero_le k)
    (by omega)
  have hname : stringAt (ideRead s.vol.disk (loadBlocks s.vol.disk (s.vol.inodeLoad q.toNat) k).toNat
      Bytes.zero 0 1) maxFileNameLen (24 * idx) = some e.name := by
    have hrow := hrep.row hk Bytes.zero idx hidx
    rw [he] at hrow
    have hle := hval.length_le
    exact stringAt_of_sameName hrow.1.name hval.no_nul (by rw [maxFileNameLen]; omega)
  rw [getChildDirName, hopen.inodeOpen]
  simp only [hi, bind_some, hopen.inodeClose, hsame.loadBlocks_eq, hfind, hname, map_some]

/-! ### `sys_getcwd` -/

/-- The first loop, from a directory that is reached by the names `st`, the last of them first. -/
lemma climb_eq (hs : s.Coherent m) (ht : s.vol.IsTree t) (hfree : s.vol.FreeSlotsZero t)
    (hst : s.vol.hierarchy.Plain st)
    (hc : s.vol.hierarchy.walkDirs 0 st.reverse = some c) (hfuel : st.length < fuel)
    (hlen : (acc ++ joinNames st).length < maxPathLen) :
    climb fuel s c acc = some (some (acc ++ joinNames st), s) := by
  induction st generalizing fuel c acc with
  | nil =>
    obtain ⟨fuel, rfl⟩ : ∃ f, fuel = f + 1 := ⟨fuel - 1, by simp at hfuel; omega⟩
    cases hc
    simp [climb, joinNames]
  | cons name st ih =>
    obtain ⟨fuel, rfl⟩ : ∃ f, fuel = f + 1 := ⟨fuel - 1, by simp at hfuel; omega⟩
    rw [reverse_cons] at hc
    obtain ⟨q, hq, hn⟩ := Hierarchy.walkDirs_concat.mp hc
    obtain ⟨hdot, hdotDot⟩ := hst name mem_cons_self
    have hst' : s.vol.hierarchy.Plain st := fun n hn => hst n (mem_cons_of_mem _ hn)
    have hqdir := ht.lawful.walkDirs ht.root hq
    have hcdir := ht.lawful.dir q name c hqdir hn
    obtain ⟨-, -, e, -, -, rfl, -, -, hin⟩ := ht.of_lookup hqdir hdot hdotDot hn
    have hacc : acc ++ joinNames (name :: st) = acc ++ slash :: name ++ joinNames st := by
      simp [joinNames]
    rw [hacc] at hlen ⊢
    have hfits : ¬ maxPathLen ≤ (acc ++ slash :: name).length := by
      rw [length_append] at hlen
      omega
    rw [climb, if_neg hin.iNo_ne, getParentDirInodeNr_eq hs ht hcdir, bind_some]
    simp only [ht.lawful.parent q name e.iNo hqdir hdot hdotDot hn]
    rw [getChildDirName_eq hs ht hfree hqdir hn hdot hdotDot
      (ht.parent_ne_child hst' hq hn hdot hdotDot), bind_some]
    simp only [if_neg hfits]
    exact ih hst' hq (by simp at hfuel; omega) hlen

/-- The second loop turns the names around. -/
lemma reversePath_eq (hst : ∀ name ∈ st, slash ∉ name) (hfuel : st.length < fuel) :
    reversePath fuel (joinNames st) buf = some (buf ++ joinNames st.reverse) := by
  induction st using List.reverseRecOn generalizing fuel buf with
  | nil =>
    obtain ⟨fuel, rfl⟩ : ∃ f, fuel = f + 1 := ⟨fuel - 1, by simp at hfuel; omega⟩
    simp [reversePath, joinNames, strrchrSlash, strrchrLoop]
  | append_singleton st name ih =>
    obtain ⟨fuel, rfl⟩ : ∃ f, fuel = f + 1 := ⟨fuel - 1, by simp at hfuel; omega⟩
    have hslash := hst name (by simp)
    rw [reversePath, joinNames_concat, strrchrSlash, strrchrLoop_append _ hslash, Nat.zero_add]
    simp only [take_left, drop_left]
    rw [ih (fun n hn => hst n (by simp [hn])) (by simp at hfuel; omega)]
    simp [joinNames]

lemma length_joinNames_reverse (st : List (List UInt8)) :
    (joinNames st.reverse).length = (joinNames st).length ∧ st.length ≤ (joinNames st).length := by
  induction st with
  | nil => exact ⟨rfl, le_refl _⟩
  | cons name st ih =>
    rw [reverse_cons, joinNames_concat]
    simp only [joinNames, flatMap_cons, length_append, length_cons] at ih ⊢
    omega

/-- `sys_getcwd` in a directory that is reached by the names `st`, the last of them first. -/
lemma sysGetcwd_eq (hs : s.Coherent m) (ht : s.vol.IsTree t) (hfree : s.vol.FreeSlotsZero t)
    (hst : s.vol.hierarchy.Plain st) (hslash : ∀ name ∈ st, slash ∉ name)
    (hc : s.vol.hierarchy.walkDirs 0 st.reverse = some s.cwdInodeNr) (hfuel : st.length < fuel)
    (hlen : (absPath st).length < maxPathLen) :
    s.sysGetcwd true fuel maxPathLen = some (some (absPath st), s) := by
  rw [sysGetcwd, if_neg (by decide)]
  cases st with
  | nil =>
    rw [if_pos (some.inj hc).symm]
    rfl
  | cons name st =>
    have hne : s.cwdInodeNr ≠ 0 := by
      rw [reverse_cons] at hc
      obtain ⟨q, hq, hn⟩ := Hierarchy.walkDirs_concat.mp hc
      obtain ⟨hdot, hdotDot⟩ := hst name mem_cons_self
      obtain ⟨-, -, e, -, -, heq, -, -, hin⟩ :=
        ht.of_lookup (ht.lawful.walkDirs ht.root hq) hdot hdotDot hn
      exact heq ▸ hin.iNo_ne
    obtain ⟨hrev, hcount⟩ := length_joinNames_reverse (name :: st)
    rw [absPath, if_neg (List.cons_ne_nil name st)] at hlen ⊢
    rw [if_neg hne, climb_eq hs ht hfree hst hc hfuel (by rw [List.nil_append, ← hrev]; exact hlen),
      bind_some, List.nil_append]
    simp only
    rw [reversePath_eq hslash (by omega), bind_some, List.nil_append, if_neg (by omega)]

/-- The working directory is no part of what `inode_close` changes. -/
lemma dirClose_cwd (dir : DirPtr) (n : UInt32) :
    { s with cwdInodeNr := n }.dirClose dir = (s.dirClose dir).map fun s => { s with cwdInodeNr := n } := by
  cases dir with
  | rootDir => rfl
  | opened a => simp [dirClose, inodeClose, Function.comp_def]

/-- `sys_chdir` to a path whose names are all those of directories. -/
lemma sysChdir_eq (hs : s.Coherent m) (ht : s.vol.IsTree t) (hpath : Readable path)
    (hne : components path ≠ [] ∨ IsRootPath path)
    (hdirs : s.vol.hierarchy.walkDirs 0 (components path) = some c) :
    s.sysChdir path = some (0, { s with cwdInodeNr := c }) := by
  have hwalk := Hierarchy.walk_eq_some_true.mpr hdirs
  by_cases hroot : IsRootPath path
  · obtain ⟨rfl, -⟩ := Prod.mk.inj (some.inj ((walk_of_isRootPath ht hroot).symm.trans hwalk))
    simp [sysChdir, searchFile, if_pos hroot, closeAndReturn, dirClose]
  · obtain ⟨⟨no, record, s'⟩, hr, hout⟩ := searchFile_spec hs ht hpath hroot
    obtain ⟨rfl, htype⟩ := hout.walk (hne.resolve_right hroot) hwalk
    have hclose : s'.dirClose record.parentDir = some s := hout.dirClose
    have hdir : record.fileType = .directory := htype
    rw [sysChdir, hr, bind_some]
    simp only [hdir, if_true]
    rw [closeAndReturn, dirClose_cwd, hclose, map_some, map_some]

end FsView

end SimpleOs
