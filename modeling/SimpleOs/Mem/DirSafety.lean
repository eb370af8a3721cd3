import SimpleOs.Mem.DirCalls

/-!
# The kernel is the same in every address space

Every step of the system keeps the directories and page tables in order, also while `sys_fork` has
the directory of the child in use, as long as `get_a_page` is called at addresses that have a bit in
the bitmap of the process. Below `USER_VADDR_START` the number of the bit wraps around, and the bit
that is set lies behind the bitmap, where the directory of another process can be.
-/

namespace SimpleOs

open Base Option

namespace PageDir

variable {m m' : Memory} {procs procs' : List UserTask} {held held' : List Block} {t parent : UserTask}
  {s s' : State} {f : Forking}

/-- The kernel's part of the address space is one: all directories agree on the entries 768 to 1022,
the addresses behind them are translated alike, and the last entry of each directory points to it. -/
structure SameEverywhere (s : State) : Prop where
  entries : ∀ d ∈ s.directories, ∀ d' ∈ s.directories, ∀ i, 768 ≤ i → i ≤ 1022 →
    s.mem.entry d i = s.mem.entry d' i
  translate : ∀ d ∈ s.directories, ∀ d' ∈ s.directories, ∀ vaddr, 0xc0000000 ≤ vaddr →
    vaddr < 0xffc00000 → s.translate d vaddr = s.translate d' vaddr
  self : ∀ d ∈ s.directories, entryPresent (s.mem.entry d 1023) = true ∧
    entryFrame (s.mem.entry d 1023) = d

/-- `get_a_page` is called for pages that have a bit in the bitmap. -/
def AboveStart (_ : State) : Act → Prop
  | .getAPage vaddr => userVaddrStart ≤ vaddr
  | _ => True

/-! ### The invariant -/

/-- The directory of the task that runs. -/
def State.curDir (s : State) : Nat :=
  match s.cur with
  | none => bootDir
  | some t => dirOf s.mem t

/-- What holds in `copy_body_stack3`. -/
structure ForkInv (s : State) (f : Forking) : Prop where
  child : f.child ∈ s.procs
  live : f.child.hanging = false
  buf : (⟨f.bufPage, 1⟩ : Block) ∈ s.held
  next : f.inChild = true → f.next < 8 * userBitmapLen
  cr3 : s.cr3 = if f.inChild then dirOf s.mem f.child else s.curDir

/-- What holds in every state. -/
structure Inv (s : State) : Prop where
  good : Good s.mem s.procs s.held
  first : UserOrZero s.mem s.firstPte.frame
  cur : ∀ t, s.cur = some t → t ∈ s.procs
  idle : s.forking = none → s.cr3 = s.curDir
  fork : ∀ f, s.forking = some f → ForkInv s f

lemma State.running_eq_some (h : s.running = some t) : s.cur = some t ∧ t.hanging = false := by
  obtain ⟨hcur, hlive⟩ := Option.filter_eq_some_iff.mp h
  exact ⟨hcur, by simpa using hlive⟩

lemma mem_directories : d ∈ s.directories ↔ IsDir s.mem s.procs d := by
  simp only [State.directories, List.mem_cons, List.mem_map, IsDir, State.dir, dirOf, eq_comm]

lemma Good.perm_held (h : Good m procs held) (hp : held.Perm held') : Good m procs held' :=
  h.retask (h.book.perm (hp.append_right _)) h.half fun _ _ htab => htab

/-- Directories in order are the same in the kernel's part. -/
lemma Good.sameEverywhere (h : Good s.mem s.procs s.held) : SameEverywhere s := by
  have hhalf : ∀ d ∈ s.directories, s.mem.KernelHalf d := fun d hd => h.halfAt (mem_directories.mp hd)
  have hentries : ∀ d ∈ s.directories, ∀ d' ∈ s.directories, ∀ i, 768 ≤ i → i ≤ 1022 →
      s.mem.entry d i = s.mem.entry d' i := by
    intro d hd d' hd' i h1 h2
    rw [(hhalf d hd).1 i (by omega) h1, (hhalf d' hd').1 i (by omega) h1]
  refine ⟨hentries, fun d hd d' hd' vaddr h1 h2 => ?_, fun d hd => ?_⟩
  · have hentry := hentries d hd d' hd' (vaddr / 0x400000) (by omega) (by omega)
    simp only [State.translate, hentry]
  · have hstruct := (mem_directories.mp hd).isStruct
    have hdvd := (h.struct_dvd hstruct).1
    have hlt := h.struct_lt hstruct
    rw [(hhalf d hd).2]
    exact ⟨entryPresent_mkEntry hdvd hlt, entryFrame_mkEntry hdvd hlt⟩

namespace Inv

lemma isDir_curDir (h : Inv s) : IsDir s.mem s.procs s.curDir := by
  rw [State.curDir]
  cases hcur : s.cur with
  | none => exact .inl rfl
  | some t => exact .inr ⟨t, h.cur t hcur, rfl⟩

lemma isDir_cr3 (h : Inv s) : IsDir s.mem s.procs s.cr3 := by
  cases hf : s.forking with
  | none => exact h.idle hf ▸ h.isDir_curDir
  | some f =>
    rw [(h.fork f hf).cr3]
    split_ifs
    · exact .inr ⟨f.child, (h.fork f hf).child, rfl⟩
    · exact h.isDir_curDir

lemma kernelHalf (h : Inv s) : s.mem.KernelHalf s.cr3 := h.good.halfAt h.isDir_cr3

lemma serves (h : Inv s) (hidle : s.forking = none) (hrun : s.running = some t) : Serves s t := by
  obtain ⟨hcur, hlive⟩ := State.running_eq_some hrun
  refine ⟨h.good, h.first, h.cur t hcur, hlive, ?_⟩
  rw [h.idle hidle, State.curDir, hcur]

/-- A call of a process on its own address space. -/
lemma of_serves (hidle : s.forking = none) (hrun : s.running = some t)
    (hs' : Serves s' t ∧ SameTasks s s') : Inv s' := by
  obtain ⟨hserves, hsame⟩ := hs'
  have hcur : s'.cur = some t := hsame.cur.trans (State.running_eq_some hrun).1
  refine ⟨hserves.good, hserves.first, ?_, fun _ => ?_, fun f hf => ?_⟩
  · intro t' ht'
    rw [hcur] at ht'
    cases ht'
    exact hserves.mem
  · rw [State.curDir, hcur]
    exact hserves.cr3
  · rw [hsame.forking, hidle] at hf
    cases hf

variable (h : Inv s)
include h

section

variable (hidle : s.forking = none)
include hidle

lemma of_pages (hgood : Good m' procs' held')
    (hpools : s.mem.SamePools m') (hcur : ∀ t, s.cur = some t → t ∈ procs')
    (hpte : ∀ t, s.cur = some t → m'.pte t.pgdir = s.mem.pte t.pgdir) :
    Inv { s with mem := m', procs := procs', held := held' } := by
  refine ⟨hgood, (userOrZero_samePools hpools).mpr h.first, hcur, fun _ => ?_, fun f hf => ?_⟩
  · have hcr3 := h.idle hidle
    rw [State.curDir] at hcr3 ⊢
    cases htask : s.cur with
    | none => simpa only [htask] using hcr3
    | some t => simpa only [htask, dirOf, hpte t htask] using hcr3
  · exact absurd (hidle.symm.trans hf) (by simp)

lemma of_leaves (hgood : Good m' procs' held')
    (hleaves : Leaves (blocks s.procs held) s.mem m') (hsub : ∀ t ∈ s.procs, t ∈ procs') :
    Inv { s with mem := m', procs := procs', held := held' } :=
  h.of_pages hidle hgood hleaves.pools (fun t ht => hsub t (h.cur t ht))
    fun t ht => hleaves.pte _ (mem_pages_pgdir (h.cur t ht))

/-! ### The calls -/

lemma mallocKernel (hs' : s.call (.mallocKernel cnt) = some s') : Inv s' := by
  simp only [State.call] at hs'
  split at hs'
  · next m' hmalloc =>
    cases hs'
    obtain ⟨hgood, hleaves, -⟩ := h.good.mallocPage hmalloc
    exact h.of_leaves hidle hgood hleaves fun _ ht => ht
  · next v m' hmalloc =>
    cases hs'
    obtain ⟨-, hleaves, hsome⟩ := h.good.mallocPage hmalloc
    exact h.of_leaves hidle (hsome v rfl).2 hleaves fun _ ht => ht

lemma mfreeKernel (hb : b ∈ s.held) :
    Inv { s with mem := s.mem.mfreePage (b.page * pgSize) b.cnt, held := s.held.erase b } := by
  obtain ⟨hgood, hleaves⟩ := (h.good.perm_held (List.perm_cons_erase hb)).mfreePage
  exact h.of_leaves hidle hgood hleaves fun _ ht => ht

lemma processExecute (hs' : s.processExecute = some s') : Inv s' := by
  simp only [State.processExecute] at hs'
  split at hs'
  · cases hs'
  next pcb m1 hpcb =>
  split at hs'
  · cases hs'
  next bits m2 hbits =>
  obtain ⟨-, hleaves1, hsome1⟩ := h.good.getKernelPages hpcb
  obtain ⟨-, hgood1, -⟩ := hsome1 pcb rfl
  obtain ⟨-, hleaves2, hsome2⟩ := hgood1.getKernelPages hbits
  obtain ⟨hdiv, hgood2, -⟩ := hsome2 bits rfl
  obtain ⟨hgood3, -⟩ := hgood2.store_held (v := bits) (n := userBitmapLen) (fun _ => 0)
    (List.mem_cons_self ..) (by rw [hdiv]) (by
      have hlen : userBitmapLen ≤ vaddrBitmapPages * pgSize := by decide
      rw [Nat.add_mul, hdiv]
      exact Nat.add_le_add_left hlen bits)
  have hleaves3 : Leaves (blocks s.procs s.held) s.mem (m2.memset bits 0 userBitmapLen) :=
    hleaves1.trans ⟨hleaves2.pte, hleaves2.pools.trans (.of_eq rfl rfl)⟩ fun b hb => List.mem_cons_of_mem _ hb
  have hcr3 : IsDir (m2.memset bits 0 userBitmapLen) s.procs s.cr3 :=
    Good.isDir_congr h.isDir_cr3 fun t ht => hleaves3.pte _ (mem_pages_pgdir ht)
  split at hs'
  · next m' hcreate =>
    cases hs'
    obtain ⟨hgood, hleaves, -⟩ := hgood3.createPageDir hcr3 hcreate
    exact h.of_leaves hidle hgood.drop_held.drop_held (hleaves3.trans hleaves fun b hb =>
      List.mem_cons_of_mem _ (List.mem_cons_of_mem _ hb)) fun _ ht => ht
  · next pgdir m' hcreate =>
    cases hs'
    obtain ⟨-, hleaves, hsome⟩ := hgood3.createPageDir hcr3 hcreate
    obtain ⟨-, hgood, hhalf, hzero⟩ := hsome pgdir rfl
    exact h.of_leaves hidle (hgood.adopt (.cons _ (.swap ..)) hhalf hzero) (hleaves3.trans hleaves fun b hb =>
      List.mem_cons_of_mem _ (List.mem_cons_of_mem _ hb)) fun _ ht => List.mem_cons_of_mem _ ht

/-- `sys_fork` up to `copy_body_stack3`. -/
lemma forkBegin (parent : UserTask) : Inv (s.forkBegin parent) := by
  have hcons {bs : List Block} {b : Block} : ∀ c ∈ bs, c ∈ b :: bs := fun c hc => List.mem_cons_of_mem _ hc
  simp only [State.forkBegin]
  split
  · next m' hget =>
    obtain ⟨hgood, hleaves, -⟩ := h.good.getKernelPages hget
    exact h.of_leaves hidle hgood hleaves fun _ ht => ht
  next pcb m1 hpcb =>
  obtain ⟨-, hleaves1, hsome1⟩ := h.good.getKernelPages hpcb
  obtain ⟨hdiv1, hgood1, -⟩ := hsome1 pcb rfl
  split
  · next m' hget =>
    obtain ⟨hgood, hleaves, -⟩ := hgood1.getKernelPages hget
    exact h.of_leaves hidle hgood.drop_held (hleaves1.trans hleaves hcons) fun _ ht => ht
  next buf m2 hbuf =>
  obtain ⟨-, hleaves2, hsome2⟩ := hgood1.getKernelPages hbuf
  obtain ⟨-, hgood2, -⟩ := hsome2 buf rfl
  -- the PCB is copied
  obtain ⟨hgood3, -⟩ := hgood2.store_held (v := pcb) (n := pgSize)
    (fun r => m2.view (parent.pcb * pgSize + r)) (List.mem_cons_of_mem _ (List.mem_cons_self ..))
    (by rw [hdiv1]) (by rw [Nat.add_mul, hdiv1, Nat.one_mul])
  generalize hm3 : m2.store pcb (fun r => m2.view (parent.pcb * pgSize + r)) pgSize = m3 at hgood3 ⊢
  have hleaves3 : Leaves (blocks s.procs s.held) s.mem m3 := by
    rw [← hm3]
    exact hleaves1.trans ⟨hleaves2.pte, hleaves2.pools.trans (.of_eq rfl rfl)⟩ hcons
  split
  · next m' hget =>
    obtain ⟨hgood, hleaves, -⟩ := hgood3.getKernelPages hget
    exact h.of_leaves hidle hgood.drop_held.drop_held
      (hleaves3.trans hleaves fun b hb => hcons _ (hcons _ hb)) fun _ ht => ht
  next bits m4 hbits =>
  obtain ⟨-, hleaves4, hsome4⟩ := hgood3.getKernelPages hbits
  obtain ⟨hdiv4, hgood4, -⟩ := hsome4 bits rfl
  -- the bitmap is copied
  obtain ⟨hgood5, -⟩ := hgood4.store_held (v := bits) (n := vaddrBitmapPages * pgSize)
    (fun r => m4.view (parent.bits * pgSize + r)) (List.mem_cons_self ..) (by rw [hdiv4])
    (by rw [Nat.add_mul, hdiv4])
  generalize hm5 : m4.store bits (fun r => m4.view (parent.bits * pgSize + r))
    (vaddrBitmapPages * pgSize) = m5 at hgood5 ⊢
  have hleaves5 : Leaves (blocks s.procs s.held) s.mem m5 := by
    rw [← hm5]
    exact hleaves3.trans ⟨hleaves4.pte, hleaves4.pools.trans (.of_eq rfl rfl)⟩
      fun b hb => hcons _ (hcons _ hb)
  have hcr3 : IsDir m5 s.procs s.cr3 :=
    Good.isDir_congr h.isDir_cr3 fun t ht => hleaves5.pte _ (mem_pages_pgdir ht)
  split
  · next m' hcreate =>
    obtain ⟨hgood, hleaves, -⟩ := hgood5.createPageDir hcr3 hcreate
    exact h.of_leaves hidle hgood.drop_held.drop_held.drop_held
      (hleaves5.trans hleaves fun b hb => hcons _ (hcons _ (hcons _ hb))) fun _ ht => ht
  next pgdir m' hcreate =>
  obtain ⟨-, hleaves, hsome⟩ := hgood5.createPageDir hcr3 hcreate
  obtain ⟨-, hgood, hhalf, hzero⟩ := hsome pgdir rfl
  have hleaves' := hleaves5.trans hleaves fun b hb => hcons _ (hcons _ (hcons _ hb))
  have hgood' : Good m' (⟨pcb / pgSize, pgdir / pgSize, bits / pgSize, false⟩ :: s.procs)
      (⟨buf / pgSize, 1⟩ :: s.held) :=
    hgood.adopt (.cons _ (List.perm_middle : ([_, _] ++ _ :: _).Perm _)) hhalf hzero
  have hinv := h.of_leaves hidle hgood' hleaves' fun _ ht => List.mem_cons_of_mem _ ht
  refine ⟨hinv.good, hinv.first, hinv.cur, fun hnone => (by cases hnone), fun f hf => ?_⟩
  cases hf
  exact ⟨List.mem_cons_self .., rfl, List.mem_cons_self .., by simp, hinv.idle hidle⟩

end

/-- Steps a and b of `copy_body_stack3`. -/
lemma forkRead (hf : s.forking = some f) (hlt : f.next < 8 * userBitmapLen)
    (hout : f.inChild = false) (hs' : s.forkRead parent f = some s') : Inv s' := by
  have hfork := h.fork f hf
  have hcr3 : s.cr3 = s.curDir := by simpa [hout] using hfork.cr3
  simp only [State.forkRead] at hs'
  split_ifs at hs'
  · obtain ⟨a, -, rfl⟩ := map_eq_some_iff.mp hs'
    obtain ⟨hgood, -⟩ := h.good.store_held (v := f.bufPage * pgSize) (n := pgSize)
      (fun r => s.mem.phys (a + r)) hfork.buf le_rfl (by rw [Nat.add_mul, Nat.one_mul])
    refine ⟨hgood, h.first, h.cur, fun hnone => (by cases hnone), fun f' hf' => ?_⟩
    cases hf'
    exact ⟨hfork.child, hfork.live, hfork.buf, fun _ => hlt, rfl⟩
  · cases hs'
    refine ⟨h.good, h.first, h.cur, fun hnone => (by cases hnone), fun f' hf' => ?_⟩
    cases hf'
    refine ⟨hfork.child, hfork.live, hfork.buf, fun hin => absurd hin (by simp [hout]), ?_⟩
    simp only [hout]
    exact hcr3

/-- Steps c to e: what is written while the directory of the child is in use. -/
lemma forkWrite (hf : s.forking = some f) (hrun : s.running = some parent)
    (hin : f.inChild = true) (hs' : s.forkWrite parent f = some s') : Inv s' := by
  have hfork := h.fork f hf
  have hserves : Serves s f.child := by
    refine ⟨h.good, h.first, hfork.child, hfork.live, ?_⟩
    rw [hfork.cr3, if_pos hin]
  obtain ⟨⟨frame, m⟩, hpalloc, hs'⟩ := bind_eq_some_iff.mp hs'
  obtain ⟨⟨h1, hsame1⟩, hdvd, hlt, huser⟩ := hserves.palloc hpalloc
  have hpages : firstUserPage + 8 * userBitmapLen = kernelPage := by decide
  have hnext := hfork.next hin
  obtain ⟨h2, hsame2, htrans⟩ := h1.pageTableAdd (show firstUserPage + f.next ≤ kernelPage by omega) hdvd hlt huser
  have hsame := hsame1.trans hsame2
  -- the page is found in the frame it was just given
  obtain ⟨a, ha, rfl⟩ := map_eq_some_iff.mp hs'
  rw [hsame2.cr3, htrans (by omega)] at ha
  cases ha
  have huser2 : ({ s with mem := m }.pageTableAdd (firstUserPage + f.next) frame).mem.userPool.phyAddrStart ≤
      frame := by
    have hstart := hsame2.pools.start .user
    simp only [Memory.pool] at hstart
    rwa [hstart]
  have hgood := h2.good.setFrame_user (fun r =>
    ({ s with mem := m }.pageTableAdd (firstUserPage + f.next) frame).mem.view (f.bufPage * pgSize + r))
    hdvd huser2
  generalize { s with mem := m }.pageTableAdd (firstUserPage + f.next) frame = s2 at *
  refine ⟨hgood, h2.first, ?_, fun hnone => (by cases hnone), fun f' hf' => ?_⟩
  · intro t ht
    rw [hsame.cur] at ht
    rw [hsame.procs]
    exact h.cur t ht
  · cases hf'
    refine ⟨?_, hfork.live, ?_, fun hin => absurd hin (by simp), ?_⟩
    · rw [hsame.procs]
      exact hfork.child
    · rw [hsame.held]
      exact hfork.buf
    · simp only [State.curDir, hsame.cur, (State.running_eq_some hrun).1]
      rfl

/-- The end of `sys_fork`. -/
lemma forkEnd (hf : s.forking = some f) (hout : f.inChild = false) : Inv (s.forkEnd f) := by
  have hfork := h.fork f hf
  have hcr3 : s.cr3 = s.curDir := by simpa [hout] using hfork.cr3
  have hidle : Inv { s with forking := none } :=
    ⟨h.good, h.first, h.cur, fun _ => hcr3, fun f' hf' => by cases hf'⟩
  have hfree := hidle.mfreeKernel rfl hfork.buf
  exact hfree

lemma sysExit (hidle : s.forking = none) (hrun : s.running = some t) : Inv (s.sysExit t) := by
  obtain ⟨hcur, hlive⟩ := State.running_eq_some hrun
  have hcr3 : s.cr3 = dirOf s.mem t := by rw [h.idle hidle, State.curDir, hcur]
  obtain ⟨hgood, hleaves⟩ := h.good.exit (h.cur t hcur) hlive
  rw [← hcr3] at hgood hleaves
  rw [State.sysExit]
  refine ⟨hgood, (userOrZero_samePools hleaves.pools).mpr h.first, ?_, fun _ => ?_, fun f hf => ?_⟩
  · simp
  · have hpte := hleaves.pte t.pgdir (mem_pages_pgdir (t := { t with hanging := true }) (List.mem_cons_self ..))
    simp only [State.curDir, dirOf, hpte]
    exact hcr3
  · exact absurd (hidle.symm.trans hf) (by simp)

lemma threadExit (hidle : s.forking = none) (ht : t ∈ s.procs) (hhang : t.hanging = true)
    (hcur : s.cur ≠ some t) : Inv (s.threadExit t) := by
  have hblocks : t.blocks = [⟨t.pgdir, 1⟩, ⟨t.pcb, 1⟩] := by simp [UserTask.blocks, hhang]
  have hgood := h.good.disown ht
  rw [hblocks] at hgood
  obtain ⟨hgood1, hleaves1⟩ := hgood.mfreePage
  obtain ⟨hgood2, hleaves2⟩ := hgood1.mfreePage
  have hrest : ∀ t', s.cur = some t' → t' ∈ s.procs.erase t := by
    intro t' ht'
    refine (List.mem_erase_of_ne ?_).mpr (h.cur t' ht')
    rintro rfl
    exact hcur ht'
  refine h.of_pages hidle hgood2 (hleaves1.pools.trans hleaves2.pools) hrest fun t' ht' => ?_
  have hpage : _ ∈ pagesOf (blocks (s.procs.erase t) s.held) := mem_pages_pgdir (hrest t' ht')
  exact (hleaves2.pte _ hpage).trans (hleaves1.pte _ (mem_pages_pgdir (hrest t' ht')))

lemma schedule (hidle : s.forking = none)
    (hnext : ∀ t, next = some t → t ∈ s.procs) : Inv (s.schedule next) := by
  refine ⟨h.good, h.first, hnext, fun _ => ?_, fun f hf => ?_⟩
  · cases next <;> rfl
  · exact absurd (hidle.symm.trans hf) (by simp)

/-! ### Every step -/

lemma call (hidle : s.forking = none) (ha : AboveStart s a)
    (hs' : s.call a = some s') : Inv s' := by
  cases a with
  | mallocKernel cnt => exact h.mallocKernel hidle hs'
  | mfreeKernel b =>
    simp only [State.call] at hs'
    split_ifs at hs' with hb
    exact some.inj hs' ▸ h.mfreeKernel hidle hb
  | processExecute => exact h.processExecute hidle hs'
  | mallocUser cnt =>
    obtain ⟨t, hrun, hmap⟩ := bind_eq_some_iff.mp hs'
    obtain ⟨⟨r, s1⟩, hmalloc, rfl⟩ := map_eq_some_iff.mp hmap
    exact of_serves hidle hrun ((h.serves hidle hrun).mallocUser hmalloc)
  | mfreeUser page cnt =>
    simp only [State.call] at hs'
    split_ifs at hs' with hpages
    obtain ⟨t, hrun, hfree⟩ := bind_eq_some_iff.mp hs'
    exact of_serves hidle hrun ((h.serves hidle hrun).mfreeUser hpages.1 hpages.2 hfree)
  | getAPage vaddr =>
    simp only [State.call] at hs'
    split_ifs at hs' with hlt
    obtain ⟨t, hrun, hget⟩ := bind_eq_some_iff.mp hs'
    exact of_serves hidle hrun ((h.serves hidle hrun).getAPage ha hlt hget)
  | forkBegin =>
    obtain ⟨t, -, rfl⟩ := map_eq_some_iff.mp hs'
    exact h.forkBegin hidle t
  | forkRead | forkWrite | forkEnd => cases hs'
  | sysExit =>
    obtain ⟨t, hrun, rfl⟩ := map_eq_some_iff.mp hs'
    exact h.sysExit hidle hrun
  | threadExit t =>
    simp only [State.call] at hs'
    split_ifs at hs' with ht
    exact some.inj hs' ▸ h.threadExit hidle ht.1 ht.2.1 ht.2.2
  | schedule next =>
    cases next with
    | none => exact some.inj hs' ▸ h.schedule hidle (by simp)
    | some t =>
      simp only [State.call] at hs'
      split_ifs at hs' with ht
      refine some.inj hs' ▸ h.schedule hidle fun t' ht' => ?_
      exact some.inj ht' ▸ ht.1

lemma forkStep (hf : s.forking = some f) (hrun : s.running = some parent)
    (hs' : s.forkStep parent f a = some s') : Inv s' := by
  cases a with
  | forkRead =>
    simp only [State.forkStep] at hs'
    split_ifs at hs' with hguard
    exact h.forkRead hf hguard.1 (by simpa using hguard.2) hs'
  | forkWrite =>
    simp only [State.forkStep] at hs'
    split_ifs at hs' with hguard
    exact h.forkWrite hf hrun hguard hs'
  | forkEnd =>
    simp only [State.forkStep] at hs'
    split_ifs at hs' with hguard
    exact some.inj hs' ▸ h.forkEnd hf (by simpa using hguard.2)
  | _ => cases hs'

lemma exec (ha : AboveStart s a) (hs' : s.exec a = some s') : Inv s' := by
  unfold State.exec at hs'
  rw [if_pos h.kernelHalf] at hs'
  cases hf : s.forking with
  | none =>
    rw [hf] at hs'
    exact h.call hf ha hs'
  | some f =>
    rw [hf] at hs'
    obtain ⟨parent, hrun, hstep⟩ := bind_eq_some_iff.mp hs'
    exact h.forkStep hf hrun hstep

end Inv

lemma inv_booted (h : Booted s) : Inv s := by
  obtain ⟨allMem, pte, phys, vaddrBits, hpte, rfl, hboot⟩ := h
  have howns := owns_memPoolInit allMem hpte phys vaddrBits
  have hpages : pagesOf (blocks [] []) = ∅ := by
    simp [pagesOf, blocks]
  have hnone : ∀ t i, ¬HasTable (memPoolInit allMem pte phys vaddrBits) [] t i := fun t i htab => by
    cases htab.1
  have htabs : ∀ k, k ∉ tabs (memPoolInit allMem pte phys vaddrBits) [] := by
    rintro k ⟨t, i, htab, -⟩
    exact hnone t i htab
  have hbook : Book (memPoolInit allMem pte phys vaddrBits) (blocks [] [])
      (tabs (memPoolInit allMem pte phys vaddrBits) []) :=
    ⟨hpages ▸ howns, .nil, rfl, fun k hk => absurd hk (htabs k), fun k hk => absurd hk (htabs k),
      fun k hk => absurd hk (htabs k)⟩
  have hgood : Good (memPoolInit allMem pte phys vaddrBits) [] [] :=
    ⟨hbook, Memory.layout_memPoolInit allMem pte phys vaddrBits, hboot, fun t ht => absurd ht List.not_mem_nil,
      fun t i htab => absurd htab (hnone t i), fun t i _ _ htab => absurd htab (hnone t i),
      fun t i htab => absurd htab (hnone t i)⟩
  refine ⟨hgood, .inl rfl, ?_, fun _ => rfl, ?_⟩
  · simp
  · simp

lemma inv_of_reachable (h : system.Reachable AboveStart s) : Inv s :=
  h.invariant Inv (fun _ => inv_booted) fun _ _ _ hinv ha hstep => hinv.exec ha hstep

/-- In every state of a run in which `get_a_page` is called for pages that have a bit in the bitmap,
the kernel is the same in every address space. -/
theorem sameEverywhere_of_reachable (s : State) (h : system.Reachable AboveStart s) :
    SameEverywhere s :=
  (inv_of_reachable h).good.sameEverywhere

/-! ### A bit behind the bitmap -/

instance (s : State) (a : Act) : Decidable (AboveStart s a) :=
  match a with
  | .getAPage vaddr => inferInstanceAs (Decidable (userVaddrStart ≤ vaddr))
  | .mallocKernel _ | .mfreeKernel _ | .processExecute | .mallocUser _ | .mfreeUser _ _ | .forkBegin
  | .forkRead | .forkWrite | .forkEnd | .sysExit | .threadExit _ | .schedule _ => isTrue trivial

/-- Calls lead from states that are reached to states that are reached: the directory in use has its
kernel's quarter. -/
lemma reachable_calls (h : system.Reachable AboveStart s)
    (hs' : System.follow State.call (fun s a => s.forking.isNone && decide (AboveStart s a)) s as = some s') :
    system.Reachable AboveStart s' := by
  induction as generalizing s with
  | nil =>
    cases hs'
    exact h
  | cons a as ih =>
    simp only [System.follow] at hs'
    split_ifs at hs' with htest
    obtain ⟨s1, hs1, hrest⟩ := bind_eq_some_iff.mp hs'
    obtain ⟨hidle, habove⟩ := Bool.and_eq_true_iff.mp htest
    have hexec : s.exec a = some s1 := by
      unfold State.exec
      rw [if_pos (inv_of_reachable h).kernelHalf, isNone_iff_eq_none.mp hidle]
      exact hs1
    exact ih (h.step (of_decide_eq_true habove) hexec) hrest

/-- What `loader.s` leaves in the memory. -/
def loaderPhys : Bytes :=
  (Bytes.zero.setWords (bootDir + 4 * 768) (fun j => loaderEntry (768 + j)) 255).setU32 (bootDir + 4 * 1023)
    (mkEntry bootDir)

/-- A machine with 32 MB. -/
def bootState : State :=
  ⟨memPoolInit 0x2000000 (fun p => ⟨(p - 0xc0000) * pgSize, true⟩) loaderPhys Bytes.zero, ⟨0, true⟩, bootDir,
    none, [], [], none⟩

lemma booted_bootState : Booted bootState := by
  refine ⟨0x2000000, _, loaderPhys, Bytes.zero, fun _ _ _ => rfl, rfl, fun i hi h768 => ?_, ?_⟩
  · have hword := Bytes.u32_setWords Bytes.zero (bootDir + 4 * 768) (fun j => loaderEntry (768 + j))
      (n := 255) (j := i - 768) (by omega)
    rw [show bootDir + 4 * 768 + 4 * (i - 768) = bootDir + 4 * i by omega,
      show 768 + (i - 768) = i by omega] at hword
    exact (Bytes.u32_setU32_of_ne _ _ (by omega)).trans hword
  · exact Bytes.u32_setU32_self _ _ _

/-- The first process. -/
def firstTask : UserTask := ⟨0xc0100, 0xc0118, 0xc0101, false⟩

/-- The second process: its directory is 31 pages behind the start of the first one's bitmap. -/
def secondTask : UserTask := ⟨0xc0119, 0xc0120, 0xc0122, false⟩

/-- Two processes, and kernel pages in between. -/
def twoTasks : List Act :=
  [.processExecute, .mallocKernel 1, .mallocKernel 6, .mallocKernel 1, .mallocKernel 1,
    .mfreeKernel ⟨0xc0119, 1⟩, .mfreeKernel ⟨0xc0120, 1⟩, .processExecute, .schedule (some firstTask)]

lemma follow_twoTasks :
    (System.follow State.call (fun s a => s.forking.isNone && decide (AboveStart s a)) bootState
      twoTasks).map (fun s => (s.procs, s.cur, s.forking.isNone, s.mem.userPool.phyAddrStart)) =
      some ([secondTask, firstTask], some firstTask, true, 0x1100000) := by
  decide +kernel

lemma exists_twoTasks :
    ∃ s, system.Reachable AboveStart s ∧ s.procs = [secondTask, firstTask] ∧ s.cur = some firstTask ∧
      s.forking = none ∧ s.mem.userPool.phyAddrStart = 0x1100000 := by
  obtain ⟨s, hs, heq⟩ := map_eq_some_iff.mp follow_twoTasks
  simp only [Prod.mk.injEq] at heq
  exact ⟨s, reachable_calls (.init booted_bootState) hs, heq.1, heq.2.1,
    isNone_iff_eq_none.mp heq.2.2.1, heq.2.2.2⟩

theorem sameEverywhere_twoTasks :
    ∃ s, system.Reachable AboveStart s ∧ s.procs = [secondTask, firstTask] ∧ SameEverywhere s := by
  obtain ⟨s, hs, hprocs, -⟩ := exists_twoTasks
  exact ⟨s, hs, hprocs, sameEverywhere_of_reachable s hs⟩

lemma setPteAt_retask (s : State) (procs : List UserTask) (held : List Block) (table j frame : Nat) :
    ({ s with procs := procs, held := held } : State).setPteAt table j frame =
      { s.setPteAt table j frame with procs := procs, held := held } := by
  rw [State.setPteAt, State.setPteAt]
  cases State.kernelTable table with
  | none => rfl
  | some i =>
    simp only [State.setKernelPte]
    split_ifs <;> rfl

/-- `page_table_add` asks for no process. -/
lemma pageTableAdd_retask (s : State) (procs : List UserTask) (held : List Block) (page frame : Nat) :
    ({ s with procs := procs, held := held } : State).pageTableAdd page frame =
      { s.pageTableAdd page frame with procs := procs, held := held } := by
  simp only [State.pageTableAdd]
  split_ifs
  · exact setPteAt_retask s procs held _ _ _
  · exact setPteAt_retask (s.addTable (page / 1024)) procs held _ _ _

lemma le_toNat_u32 (b : Bytes) (i : Nat) : 16777216 * (b (i + 3)).toNat ≤ (b.u32 i).toNat := by
  have h0 := (b i).toNat_lt
  have h1 := (b (i + 1)).toNat_lt
  have h2 := (b (i + 2)).toNat_lt
  have h3 := (b (i + 3)).toNat_lt
  simp only [Bytes.u32, UInt32.toNat_ofNat']
  omega

lemma not_sameEverywhere (ht : t ∈ s.procs) (hlow : s.dir t < 0x1100000)
    (hbit : 128 ≤ (s.mem.view (t.pgdir * pgSize + 4 * 1023 + 3)).toNat) : ¬SameEverywhere s := by
  intro hsame
  have hdir : s.dir t ∈ s.directories := List.mem_cons_of_mem _ (List.mem_map.mpr ⟨t, ht, rfl⟩)
  have hself := (hsame.self _ hdir).2
  have hle := le_toNat_u32 s.mem.view (t.pgdir * pgSize + 4 * 1023)
  have hentry : s.mem.entry (s.dir t) 1023 = s.mem.view.u32 (t.pgdir * pgSize + 4 * 1023) :=
    Memory.entry_eq_view rfl (by omega)
  rw [hentry, entryFrame] at hself
  simp only [pgSize] at hself hle hbit
  omega

lemma exists_getAPage_not_sameEverywhere (h : Inv s) (hprocs : s.procs = [secondTask, firstTask])
    (hcur : s.cur = some firstTask) (hidle : s.forking = none)
    (hstart : s.mem.userPool.phyAddrStart = 0x1100000) :
    ∃ s', s.exec (.getAPage 0x8047000) = some s' ∧ ¬SameEverywhere s' := by
  have hsecond : secondTask ∈ s.procs := by simp [hprocs]
  have hrun : s.running = some firstTask := by simp [State.running, hcur, firstTask]
  -- the pages of the second process, as pages the kernel has in hand
  have hgood : Good s.mem [firstTask] (secondTask.blocks ++ s.held) := by
    have herase : s.procs.erase secondTask = [firstTask] := by simp [hprocs]
    exact herase ▸ h.good.disown hsecond
  have hblock : (⟨0xc0120, 1⟩ : Block) ∈ secondTask.blocks ++ s.held := List.mem_append_left _ (by decide)
  set byte : UInt8 := s.mem.view (0xc0120 * pgSize + 4095) ||| 128 with hbyte
  obtain ⟨hgood1, hview1⟩ := hgood.store_held (v := 0xc0120 * pgSize + 4095) (n := 1) (fun _ => byte) hblock
    (Nat.le_add_right _ _) (by simp only [pgSize]; omega)
  set m1 := s.mem.store (0xc0120 * pgSize + 4095) (fun _ => byte) 1 with hm1
  have hset : s.bitmapSet firstTask 1048575 true = some { s with mem := m1 } := by
    obtain ⟨k, -, hpresent, -⟩ := h.good.book.frame_of_page (mem_pages_pgdir hsecond)
    exact if_pos hpresent
  set r : State := { s with mem := m1, procs := [firstTask], held := secondTask.blocks ++ s.held } with hr
  have hserves : Serves r firstTask := by
    have hserves := h.serves hidle hrun
    exact ⟨hgood1, h.first, List.mem_singleton_self _, rfl, hserves.cr3⟩
  -- what follows leaves the byte as it is
  obtain ⟨r', hsame, hs'⟩ : ∃ r', SameTasks r r' ∧ s.exec (.getAPage 0x8047000) =
      some { r' with procs := s.procs, held := s.held } := by
    have hexec : s.exec (.getAPage 0x8047000) = s.getAPage firstTask 0x8047000 := by
      unfold State.exec
      rw [if_pos h.kernelHalf, hidle]
      simp only [State.call, hrun]
      rfl
    have hidx : (0x8047000 + 2 ^ 32 - userVaddrStart) % 2 ^ 32 / pgSize = 1048575 := by decide
    rw [hexec, State.getAPage, hidx, hset, map_some]
    cases hpalloc : m1.palloc .user with
    | none => exact ⟨r, .refl r, rfl⟩
    | some p =>
      obtain ⟨⟨h1, hsame1⟩, hdvd, hlt, huser⟩ := hserves.palloc hpalloc
      obtain ⟨-, hsame2, -⟩ := h1.pageTableAdd (show 0x8047000 / pgSize ≤ kernelPage by decide) hdvd hlt huser
      refine ⟨_, hsame1.trans hsame2, ?_⟩
      rw [← pageTableAdd_retask]
  refine ⟨_, hs', not_sameEverywhere (t := secondTask) hsecond ?_ ?_⟩
  · obtain ⟨k, -, -, -, hlt⟩ := h.good.dir_eq hsecond
    rw [hstart] at hlt
    simp only [State.dir, hsame.pte]
    exact hlt
  · have hpage : (0xc0120 * pgSize + 4095) / pgSize = 0xc0120 := by decide
    have hheld : (0xc0120 * pgSize + 4095) / pgSize ∈ pagesOf r.held :=
      mem_pagesOf hblock (by rw [hpage]) (by rw [hpage]; decide)
    have hnew : r'.mem.view (0xc0120 * pgSize + 4095) = byte := by
      rw [hsame.view _ hheld]
      exact (hview1 _ (by rw [hpage]) (by rw [hpage]; decide)).trans (if_pos ⟨le_rfl, Nat.lt_succ_self _⟩)
    have hgoal : 128 ≤ (r'.mem.view (0xc0120 * pgSize + 4095)).toNat := by
      rw [hnew]
      exact Nat.right_le_or
    exact hgoal

/-- A process has `get_a_page` map the page before `USER_VADDR_START`: its bit is the last one of the
last byte of a page directory. -/
theorem not_forall_sameEverywhere :
    ¬∀ s, system.Reachable (fun _ _ => True) s → SameEverywhere s := by
  intro hall
  obtain ⟨s, hs, hprocs, hcur, hidle, hstart⟩ := exists_twoTasks
  obtain ⟨s', hstep, hbad⟩ :=
    exists_getAPage_not_sameEverywhere (inv_of_reachable hs) hprocs hcur hidle hstart
  exact hbad (hall s' (.step (hs.mono fun _ _ _ => trivial) trivial hstep))

end PageDir

end SimpleOs
