import SimpleOs.Fs.Calls
import SimpleOs.Fs.Fd.Basic
import SimpleOs.Fs.Path.Names

/-!
# The calls that take a path

`search_file` and the system calls of `fs/fs.c` that start with it, with `dir_open`, `dir_close` and
`dir_remove` of `fs/dir.c` and `file_create` and `file_open` of `fs/file.c`. They work on the partition
and on the inodes in memory, as the calling task sees them.

The memory that `search_file` needs is taken to be there: of its four requests the code checks one.
Elsewhere a flag says whether a request that is checked succeeds.
-/

namespace SimpleOs

open Base Function

variable {p : Partition}

/-- The file system as the calling task sees it. `pageWord` is the word that stands in the page of a
pipe where an inode has `i_no`. -/
structure FsView (p : Partition) where
  vol : Vol p
  cache : InodeCache InodePtr
  rootInode : InodePtr
  fileTable : Nat → File
  pageWord : Nat → UInt32
  fdTable : Nat → Option Nat
  pgdir : Bool
  cwdInodeNr : UInt32

/-- A `struct dir *`: `&root_dir`, or memory that `dir_open` has taken for the directory with the given
inode. -/
inductive DirPtr where
  | rootDir
  | opened (inode : InodePtr)
deriving DecidableEq

/-- The address within its heap. -/
def InodePtr.addr : InodePtr → Nat
  | .kernel a => a
  | .user a => a

/-- An address that no open inode has. -/
def freshAddr (openInodes : List InodePtr) : Nat := openInodes.foldr (fun a n => max (a.addr + 1) n) 0

/-- What `search_file` returns: `-1`, the field `i_no` of a directory entry, or that of one that was
never filled in. -/
inductive SearchResult where
  | notFound
  | uninit
  | inode (inodeNo : UInt32)
deriving DecidableEq

/-- The field `i_no` of an entry, returned as an `int`. -/
def SearchResult.ofINo (iNo : UInt32) : SearchResult := if iNo = 0xFFFFFFFF then .notFound else .inode iNo

/-- `struct path_search_record`. -/
structure PathSearchRecord where
  searchedPath : List UInt8
  parentDir : DirPtr
  fileType : FileType
deriving DecidableEq

/-- `struct stat`. -/
structure Stat where
  stIno : UInt32
  stSize : UInt32
  stFiletype : FileType
deriving DecidableEq

namespace FsView

/-! ### Inodes and directories in memory -/

/-- `inode_open`. -/
def inodeOpen (s : FsView p) (inodeNo : UInt32) : Option (InodePtr × FsView p) :=
  (s.cache.inodeOpen inodeNo (.kernel (freshAddr s.cache.openInodes)) (s.vol.inodeLoad inodeNo.toNat)).map
    fun (a, cache) => (a, { s with cache := cache })

/-- `inode_close`. -/
def inodeClose (s : FsView p) (a : InodePtr) : Option (FsView p) :=
  (s.cache.inodeClose a).map fun cache => { s with cache := cache }

/-- `inode_release`. -/
def inodeRelease (s : FsView p) (inodeNo : UInt32) : Option (FsView p) :=
  (s.inodeOpen inodeNo).bind fun (a, s) => (s.cache.inode a).bind fun inodeToDel =>
    { s with vol := s.vol.inodeRelease inodeNo.toNat inodeToDel }.inodeClose a

variable (s : FsView p)

/-- The address of the inode of a directory. -/
def dirInode : DirPtr → InodePtr
  | .rootDir => s.rootInode
  | .opened a => a

/-- The inode of a directory. -/
def inodeOf (dir : DirPtr) : Option Inode := s.cache.inode (s.dirInode dir)

/-- `dir_open`. -/
def dirOpen (inodeNo : UInt32) : Option (DirPtr × FsView p) :=
  (s.inodeOpen inodeNo).map fun (a, s) => (.opened a, s)

/-- `dir_close`. -/
def dirClose : DirPtr → Option (FsView p)
  | .rootDir => some s
  | .opened a => s.inodeClose a

/-- `dir_close` at the end of a call that returns `ret`. -/
def closeAndReturn (dir : DirPtr) (ret : Int) : Option (Int × FsView p) :=
  (s.dirClose dir).map fun s => (ret, s)

/-- `delete_dir_entry` on an open directory; nobody looks at what it returns. -/
def deleteEntry (dir : DirPtr) (inodeNo : UInt32) : Option (FsView p) :=
  (s.inodeOf dir).bind fun dirInode => (deleteDirEntry s.vol dirInode inodeNo).map fun r =>
    { s with vol := r.vol, cache := s.cache.set (s.dirInode dir) (some r.inode) }

/-! ### `search_file` -/

/-- The loop of `search_file`, with the name that was read last. `iNo` is `dir_e.i_no`. It fails when a
name or the path does not fit into its buffer. -/
def searchLoop : (fuel : Nat) → (s : FsView p) → (name : List UInt8) → (subPath : Option (List UInt8)) →
    (parentDir : DirPtr) → (parentInodeNo : UInt32) → (iNo : SearchResult) → (searchedPath : List UInt8) →
    Option (SearchResult × PathSearchRecord × FsView p)
  | 0, _, _, _, _, _, _, _ => none
  | fuel + 1, s, name, subPath, parentDir, parentInodeNo, iNo, searchedPath =>
    if name = [] then
      (s.dirClose parentDir).bind fun s => (s.dirOpen parentInodeNo).map fun (dir, s) =>
        (iNo, ⟨searchedPath, dir, .directory⟩, s)
    else
      let searchedPath := searchedPath ++ slash :: name
      if maxFileNameLen ≤ name.length ∨ maxPathLen ≤ searchedPath.length then none
      else
        (s.inodeOf parentDir).bind fun dirInode =>
          match searchDirEntry true s.vol dirInode name with
          | none => some (.notFound, ⟨searchedPath, parentDir, .unknown⟩, s)
          | some dirE =>
            (nextName subPath).bind fun (name, subPath) =>
              let iNo := SearchResult.ofINo (dirE.u32 16)
              if dirE.u32 20 = FileType.directory.code then
                (s.dirClose parentDir).bind fun s => (s.dirOpen (dirE.u32 16)).bind fun (dir, s) =>
                  searchLoop fuel s name subPath dir dirInode.iNo iNo searchedPath
              else if dirE.u32 20 = FileType.regular.code then
                some (iNo, ⟨searchedPath, parentDir, .regular⟩, s)
              else searchLoop fuel s name subPath parentDir parentInodeNo iNo searchedPath

/-- The paths of the root that `search_file` and `sys_stat` know. -/
def IsRootPath (pathname : List UInt8) : Prop :=
  pathname = [slash] ∨ pathname = slash :: dotName ∨ pathname = slash :: dotDotName

instance (pathname : List UInt8) : Decidable (IsRootPath pathname) :=
  inferInstanceAs (Decidable (_ ∨ _))

/-- `search_file`. -/
def searchFile (pathname : List UInt8) : Option (SearchResult × PathSearchRecord × FsView p) :=
  if IsRootPath pathname then some (.inode 0, ⟨[], .rootDir, .directory⟩, s)
  else
    (pathParse pathname).bind fun (name, subPath) =>
      s.searchLoop (pathname.length + 1) name subPath .rootDir 0 .uninit []

/-! ### Descriptors -/

/-- `get_free_slot_in_global`. -/
def getFreeSlotInGlobal : Option Nat :=
  (List.range' 3 (maxFileOpen - 3)).find? fun g => (s.fileTable g).fdInode = none

/-- The first entry of the task's own table that is not in use. -/
def freeFd : Option Nat :=
  (List.range' 3 (maxFilesOpenPerProc - 3)).find? fun fd => s.fdTable fd = none

/-- `pcb_fd_install`. -/
def pcbFdInstall (g : Nat) : Int × FsView p :=
  match s.freeFd with
  | none => (-1, s)
  | some fd => (fd, { s with fdTable := update s.fdTable fd (some g) })

/-- Fill in a slot of `file_table`. -/
def setSlot (g : Nat) (file : File) : FsView p :=
  { s with fileTable := update s.fileTable g file }

/-- `file_open`. A file that is open for writing already is refused, but the slot stays in use. -/
def fileOpen (inodeNo : UInt32) (flag : UInt8) : Option (Int × FsView p) :=
  match s.getFreeSlotInGlobal with
  | none => some (-1, s)
  | some g =>
    (s.inodeOpen inodeNo).bind fun (a, s) => (s.cache.inode a).map fun i =>
      let s := s.setSlot g ⟨0, flag.toUInt32, some (.inode a)⟩
      if FdState.wantsWrite flag.toUInt32 then
        if i.writeDeny then (-1, s)
        else { s with cache := s.cache.set a (some { i with writeDeny := true }) }.pcbFdInstall g
      else s.pcbFdInstall g

/-- The memory that `sys_malloc` takes for the inode of a new file is that of the calling task. -/
def newPtr : InodePtr :=
  if s.pgdir then .user (freshAddr s.cache.openInodes) else .kernel (freshAddr s.cache.openInodes)

/-- `file_create`. -/
def fileCreate (okIoBuf okInode : Bool) (s : FsView p) (parentDir : DirPtr) (filename : List UInt8)
    (flag : UInt8) : Option (Int × FsView p) :=
  if !okIoBuf then some (-1, s)
  else
    match s.vol.inodeBitmapAlloc with
    | none => some (-1, s)
    | some (inodeNo, v) =>
      if !okInode then some (-1, { s with vol := v.setInodeBit inodeNo false })
      else
        match s.getFreeSlotInGlobal with
        | none => some (-1, { s with vol := v.setInodeBit inodeNo false })
        | some g =>
          (s.inodeOf parentDir).bind fun parent =>
            let pDe := createDirEntry filename (UInt32.ofNat inodeNo) .regular Bytes.zero
            let r := syncDirEntry v parent pDe Bytes.zero
            let cache := s.cache.set (s.dirInode parentDir) (some r.inode)
            if r.ok then
              if cache.inode s.newPtr = none then
                let newFileInode := Inode.inodeInit (UInt32.ofNat inodeNo)
                let v := r.vol.inodeSync r.inode Bytes.zero
                let v := v.inodeSync newFileInode Bytes.zero
                let cache := cache.set s.newPtr (some { newFileInode with iOpenCnts := 1 })
                some ({ s with
                  vol := v.bitmapSync inodeNo .inodeBitmap
                  cache := { cache with openInodes := s.newPtr :: cache.openInodes }
                  fileTable := update s.fileTable g
                    ⟨0, flag.toUInt32, some (.inode s.newPtr)⟩ }.pcbFdInstall g)
              else none
            else
              some (-1, { s with
                vol := r.vol.setInodeBit inodeNo false
                cache := cache
                fileTable := update s.fileTable g ⟨0, 0, none⟩ })

/-- `file_close`. -/
def fileClose (g : Nat) : Option (FsView p) :=
  match (s.fileTable g).fdInode with
  | some (.inode a) =>
    (s.cache.inode a).bind fun i =>
      ({ s with cache := s.cache.set a (some { i with writeDeny := false }) }.inodeClose a).map
        fun s : FsView p => s.setSlot g { s.fileTable g with fdInode := none }
  | _ => none

/-- What `sys_close` does with a pipe, less the memory of its page. -/
def dropPipe (g : Nat) : FsView p :=
  let file := s.fileTable g
  s.setSlot g { file with
    fdPos := file.fdPos - 1
    fdInode := if file.fdPos - 1 = 0 then none else file.fdInode }

/-- `sys_close`. -/
def sysClose (fd : Int) : Option (Int × FsView p) :=
  if 2 < fd then
    if fd.toNat < maxFilesOpenPerProc then
      (s.fdTable fd.toNat).bind fun g =>
        (if (s.fileTable g).fdFlag = pipeFlag then some (s.dropPipe g) else s.fileClose g).map
          fun s : FsView p => (0, { s with fdTable := update s.fdTable fd.toNat none })
    else none
  else some (-1, s)

/-! ### The system calls -/

/-- The name behind the last slash of a path. -/
def lastName (pathname : List UInt8) : Option (List UInt8) :=
  (strrchrSlash pathname).map fun k => pathname.drop (k + 1)

/-- `sys_open`, with the flags for the memory that `file_create` asks for. -/
def sysOpen (okIoBuf okInode : Bool) (s : FsView p) (pathname : List UInt8) (flags : UInt8) :
    Option (Int × FsView p) :=
  if pathname.getLast? = some slash then some (-1, s)
  else
    (pathDepthCnt pathname).bind fun pathnameDepth => (s.searchFile pathname).bind fun (inodeNo, record, s) =>
      if record.fileType = .directory then s.closeAndReturn record.parentDir (-1)
      else
        (pathDepthCnt record.searchedPath).bind fun pathSearchedDepth =>
          if pathnameDepth ≠ pathSearchedDepth then s.closeAndReturn record.parentDir (-1)
          else
            match inodeNo with
            | .uninit => none
            | .notFound =>
              if flags &&& oCreat = 0 then s.closeAndReturn record.parentDir (-1)
              else
                (lastName pathname).bind fun filename =>
                  (s.fileCreate okIoBuf okInode record.parentDir filename flags).bind fun (fd, s) =>
                    s.closeAndReturn record.parentDir fd
            | .inode inodeNo =>
              if flags &&& oCreat ≠ 0 then s.closeAndReturn record.parentDir (-1)
              else s.fileOpen inodeNo flags

/-- The loop of `sys_unlink` over `n` slots of `file_table` from `g` on: whether one of them holds the
file. -/
def inUseLoop (s : FsView p) (inodeNo : UInt32) : (n g : Nat) → Option Bool
  | 0, _ => some false
  | n + 1, g =>
    match (s.fileTable g).fdInode with
    | none => s.inUseLoop inodeNo n (g + 1)
    | some (.inode a) =>
      (s.cache.inode a).bind fun i =>
        if i.iNo = inodeNo then some true else s.inUseLoop inodeNo n (g + 1)
    | some (.page a) => if s.pageWord a = inodeNo then some true else s.inUseLoop inodeNo n (g + 1)

variable (okIoBuf : Bool)

/-- `sys_unlink`. What `search_file` returns for a path without a name makes no difference. -/
def sysUnlink (s : FsView p) (pathname : List UInt8) : Option (Int × FsView p) :=
  (s.searchFile pathname).bind fun (inodeNo, record, s) =>
    match inodeNo with
    | .notFound => s.closeAndReturn record.parentDir (-1)
    | .uninit => s.closeAndReturn record.parentDir (-1)
    | .inode inodeNo =>
      if record.fileType = .directory then s.closeAndReturn record.parentDir (-1)
      else
        (s.inUseLoop inodeNo maxFileOpen 0).bind fun inUse =>
          if inUse || !okIoBuf then s.closeAndReturn record.parentDir (-1)
          else
            (s.deleteEntry record.parentDir inodeNo).bind fun s => (s.inodeRelease inodeNo).bind fun s =>
              s.closeAndReturn record.parentDir 0

/-- `dir_remove`. -/
def dirRemove (s : FsView p) (parentDir childDir : DirPtr) : Option (Int × FsView p) :=
  if !okIoBuf then some (-1, s)
  else
    (s.inodeOf childDir).bind fun child => (s.deleteEntry parentDir child.iNo).bind fun s =>
      (s.inodeRelease child.iNo).map fun s => (0, s)

/-- `sys_rmdir`. -/
def sysRmdir (s : FsView p) (pathname : List UInt8) : Option (Int × FsView p) :=
  (s.searchFile pathname).bind fun (inodeNo, record, s) =>
    match inodeNo with
    | .uninit => none
    | .notFound => s.closeAndReturn record.parentDir (-1)
    | .inode inodeNo =>
      if record.fileType = .regular then s.closeAndReturn record.parentDir (-1)
      else
        (s.dirOpen inodeNo).bind fun (dir, s) => (s.inodeOf dir).bind fun dirInode =>
          -- `dir_is_empty`
          (if dirInode.iSize ≠ 48 then some (-1, s) else s.dirRemove okIoBuf record.parentDir dir).bind
            fun (retval, s) => (s.dirClose dir).bind fun s => s.closeAndReturn record.parentDir retval

/-- `sys_chdir`. -/
def sysChdir (path : List UInt8) : Option (Int × FsView p) :=
  (s.searchFile path).bind fun (inodeNo, record, s) =>
    match inodeNo with
    | .uninit => none
    | .notFound => s.closeAndReturn record.parentDir (-1)
    | .inode inodeNo =>
      if record.fileType = .directory then
        { s with cwdInodeNr := inodeNo }.closeAndReturn record.parentDir 0
      else s.closeAndReturn record.parentDir (-1)

/-- `sys_stat`; the result is what it fills in when it returns 0. -/
def sysStat (path : List UInt8) : Option (Option Stat × FsView p) :=
  if IsRootPath path then
    (s.inodeOf .rootDir).map fun i => (some ⟨0, i.iSize, .directory⟩, s)
  else
    (s.searchFile path).bind fun (inodeNo, record, s) =>
      match inodeNo with
      | .uninit => none
      | .notFound => (s.dirClose record.parentDir).map fun s => (none, s)
      | .inode inodeNo =>
        (s.inodeOpen inodeNo).bind fun (a, s) => (s.cache.inode a).bind fun objInode =>
          (s.inodeClose a).bind fun s => (s.dirClose record.parentDir).map fun s =>
            (some ⟨inodeNo, objInode.iSize, record.fileType⟩, s)

/-! ### `sys_getcwd` -/

/-- `get_parent_dir_inode_nr`. -/
def getParentDirInodeNr (childInodeNr : UInt32) : Option (UInt32 × FsView p) :=
  (s.inodeOpen childInodeNr).bind fun (a, s) => (s.cache.inode a).bind fun childDirInode =>
    (s.inodeClose a).map fun s =>
      (entryINo (ideRead s.vol.disk (childDirInode.iSectors 0).toNat Bytes.zero 0 1) 1, s)

/-- The loop of `get_child_dir_name` over `n` blocks from `k` on: the entry with the inode number. -/
def childBlocks (disk : Bytes) (allBlocks : Nat → UInt32) (cInodeNr : UInt32) :
    (n k : Nat) → Option (Bytes × Nat)
  | 0, _ => none
  | n + 1, k =>
    if allBlocks k = 0 then childBlocks disk allBlocks cInodeNr n (k + 1)
    else
      let ioBuf := ideRead disk (allBlocks k).toNat Bytes.zero 0 1
      match firstFrom (fun i => entryINo ioBuf i = cInodeNr) 21 0 with
      | some idx => some (ioBuf, 24 * idx)
      | none => childBlocks disk allBlocks cInodeNr n (k + 1)

/-- The string at address `a` of a buffer, if it ends within `n` bytes. -/
def stringAt (buf : Bytes) : (n a : Nat) → Option (List UInt8)
  | 0, _ => none
  | n + 1, a => if buf a = 0 then some [] else (stringAt buf n (a + 1)).map (buf a :: ·)

/-- `get_child_dir_name`; the result is `-1` or the name. An entry's name has to end before the entry
does. -/
def getChildDirName (pInodeNr cInodeNr : UInt32) : Option (Option (List UInt8) × FsView p) :=
  (s.inodeOpen pInodeNr).bind fun (a, s) => (s.cache.inode a).bind fun parentDirInode =>
    let blockCnt := if parentDirInode.iSectors 12 ≠ 0 then 140 else 12
    (s.inodeClose a).bind fun s =>
      match childBlocks s.vol.disk (loadBlocks s.vol.disk parentDirInode) cInodeNr blockCnt 0 with
      | none => some (none, s)
      | some (ioBuf, a) => (stringAt ioBuf maxFileNameLen a).map fun name => (some name, s)

/-- The first loop of `sys_getcwd`, from the directory up to the root: the names in reverse order. It
fails when they do not fit into the buffer. -/
def climb : (fuel : Nat) → (s : FsView p) → (childInodeNr : UInt32) → (fullPathReverse : List UInt8) →
    Option (Option (List UInt8) × FsView p)
  | 0, _, _, _ => none
  | fuel + 1, s, childInodeNr, fullPathReverse =>
    if childInodeNr = 0 then some (some fullPathReverse, s)
    else
      (s.getParentDirInodeNr childInodeNr).bind fun (parentInodeNr, s) =>
        (s.getChildDirName parentInodeNr childInodeNr).bind fun (name, s) =>
          match name with
          | none => some (none, s)
          | some name =>
            let fullPathReverse := fullPathReverse ++ slash :: name
            if maxPathLen ≤ fullPathReverse.length then none
            else climb fuel s parentInodeNr fullPathReverse

/-- The second loop of `sys_getcwd`: move the last name over to `buf`. -/
def reversePath : (fuel : Nat) → (fullPathReverse buf : List UInt8) → Option (List UInt8)
  | 0, _, _ => none
  | fuel + 1, fullPathReverse, buf =>
    match strrchrSlash fullPathReverse with
    | none => some buf
    | some k => reversePath fuel (fullPathReverse.take k) (buf ++ fullPathReverse.drop k)

/-- `sys_getcwd`; the result is `NULL` or the string in `buf`. It fails when `buf` is too small. -/
def sysGetcwd (fuel : Nat) (s : FsView p) (size : Nat) :
    Option (Option (List UInt8) × FsView p) :=
  if !okIoBuf then some (none, s)
  else if s.cwdInodeNr = 0 then if 2 ≤ size then some (some [slash], s) else none
  else
    (climb fuel s s.cwdInodeNr []).bind fun (fullPathReverse, s) =>
      match fullPathReverse with
      | none => some (none, s)
      | some fullPathReverse =>
        (reversePath (fullPathReverse.length + 1) fullPathReverse []).bind fun buf =>
          if size ≤ buf.length then none else some (some buf, s)

end FsView

end SimpleOs
