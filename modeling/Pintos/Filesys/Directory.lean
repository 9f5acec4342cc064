import Pintos.Filesys.DirEntry
import Pintos.Filesys.Inode

/-!
# Directories

Model of `src/filesys/directory.c`. A `struct dir` that is not null is the sector of
its inode, which is open. A local variable `struct dir_entry e` is its 36 bytes. It
starts with whatever the stack holds, and bytes of it that no statement sets reach
the disk; the functions take them as the argument `stack`.
-/

namespace Pintos

/-! ## The bytes of an entry -/

/-- The 36 bytes of a `struct dir_entry` (`directory.c:18-23`): the sector in bytes
    0 to 3, the name in bytes 4 to 34 and `in_use` in byte 35. -/
abbrev EntryBytes := Nat → Byte

/-- `sizeof (struct dir_entry)`. -/
abbrev entrySize : Nat := 36

namespace EntryBytes

/-- The entry; its name ends at the first null character. -/
def decode (e : EntryBytes) : DirEntry where
  inodeSector := wordAt e 0
  name := ((List.range (nameMax + 1)).map fun k => e (4 + k)).takeWhile (· != 0)
  inUse := e 35 != 0

/-- `e.inode_sector = sector`. -/
def setInodeSector (sector : BlockSector) (e : EntryBytes) : EntryBytes :=
  fun k => if k < 4 then bytesOf (fun _ => sector) k else e k

/-- `strlcpy (e.name, name, sizeof e.name)`: the bytes after the terminating null
    character stay as they are. -/
def setName (name : FileName) (e : EntryBytes) : EntryBytes := fun k =>
  if k < 4 ∨ 4 + min name.length nameMax < k then e k
  else if k = 4 + min name.length nameMax then 0
  else name.getD (k - 4) 0

/-- `e.in_use = inUse`. -/
def setInUse (inUse : Bool) (e : EntryBytes) : EntryBytes :=
  fun k => if k = 35 then (if inUse then 1 else 0) else e k

/-- A read into `e` that may be short. -/
def fill (bytes : List Byte) (e : EntryBytes) : EntryBytes :=
  fun k => if k < bytes.length then bytes.getD k 0 else e k

end EntryBytes

/-- The tokens that repeated calls of `strtok_r (path, "/", ...)` return. -/
def pathTokens (path : List Byte) : List FileName :=
  (path.splitOn 0x2f).filter (· ≠ [])

namespace FS

variable (fs : FS)

/-- `dir_create` (`directory.c:27-32`). -/
def dirCreate (sector : BlockSector) (entryCnt : Nat) (parent : BlockSector) :
    Option (Bool × FS) :=
  fs.inodeCreate sector (entryCnt * entrySize : Nat) true parent

/-- `dir_open` (`directory.c:36-52`) of an open inode. -/
def dirOpen (inode : BlockSector) : Option (Option BlockSector × FS) := do
  if ← fs.inodeIsDir inode then some (some inode, fs)
  else do
    let fs ← fs.inodeClose inode
    some (none, fs)

/-- `dir_close` (`directory.c:78-86`). -/
def dirClose (dir : BlockSector) : Option FS := fs.inodeClose dir

/-- A bound for the iterations of the loops over the entries: the read that is short ends them. -/
def entryBound (dir : BlockSector) : Option Nat := do
  let length ← fs.inodeLength dir
  some (length.toNat / entrySize + 1)

end FS

/-- The loop of `lookup` (`directory.c:179-188`): the entry and its offset. -/
def lookupLoop (dir : BlockSector) (name : FileName) :
    Nat → Nat → FS → Option (Option (EntryBytes × Nat) × FS)
  | 0, _, _ => none
  | bound + 1, ofs, fs => do
      let (bytes, fs) ← fs.inodeReadAt dir entrySize ofs
      if bytes.length = entrySize then
        let e : EntryBytes := fun k => bytes.getD k 0
        if e.decode.isNamed name then some (some (e, ofs), fs)
        else lookupLoop dir name bound (ofs + entrySize) fs
      else some (none, fs)

/-- The loop of `dir_add` that looks for a free slot (`directory.c:245-248`): the
    offset after the loop, and `e`. -/
def freeSlotLoop (dir : BlockSector) :
    Nat → Nat → EntryBytes → FS → Option (Nat × EntryBytes × FS)
  | 0, _, _, _ => none
  | bound + 1, ofs, e, fs => do
      let (bytes, fs) ← fs.inodeReadAt dir entrySize ofs
      let e := e.fill bytes
      if bytes.length = entrySize ∧ e.decode.inUse = true then
        freeSlotLoop dir bound (ofs + entrySize) e fs
      else some (ofs, e, fs)

namespace FS

variable (fs : FS)

/-- `lookup` (`directory.c:143-190`): `*ep` and `*ofsp` if the name is found. -/
def lookup (dir : BlockSector) (name : FileName) (stack : EntryBytes) :
    Option (Option (EntryBytes × Nat) × FS) :=
  if name = dotName then
    let e := ((stack.setInUse true).setInodeSector dir).setName dotName
    some (some (e, 0), fs)
  else if name = dotDotName then do
    let parent ← fs.inodeGetParent dir
    let e := ((stack.setInUse true).setInodeSector parent).setName dotDotName
    some (some (e, 0), fs)
  else do
    let bound ← fs.entryBound dir
    lookupLoop dir name bound 0 fs

/-- `dir_lookup` (`directory.c:196-210`): the inode, opened. Of the entry that
    `lookup` returns only the sector is used, which the stack does not reach. -/
def dirLookup (dir : BlockSector) (name : FileName) : Option (Option BlockSector × FS) := do
  match ← fs.lookup dir name fun _ => 0 with
  | (none, fs) => some (none, fs)
  | (some (e, _), fs) =>
      let sector := e.decode.inodeSector
      let fs ← fs.inodeOpen sector
      some (some sector, fs)

/-- `dir_add` (`directory.c:218-260`). -/
def dirAdd (dir : BlockSector) (name : FileName) (inodeSector : BlockSector)
    (stack : EntryBytes) : Option (Bool × FS) :=
  if validName name then do
    match ← fs.lookup dir name stack with
    | (some _, fs) => some (false, fs)
    | (none, fs) =>
        let bound ← fs.entryBound dir
        let (ofs, e, fs) ← freeSlotLoop dir bound 0 stack fs
        let e := ((e.setInUse true).setName name).setInodeSector inodeSector
        let (written, fs) ← fs.inodeWriteAt dir e entrySize ofs
        let fs ← fs.inodeUpdateFileCnt dir 1
        some (decide (written = entrySize), fs)
  else some (false, fs)

end FS

/-- `dir_walk` (`directory.c:97-136`) over the tokens of the path: the result and
    the directory that `*dir` is afterwards. -/
def dirWalk : List FileName → BlockSector → FS → Option (Bool × BlockSector × FS)
  | [], dir, fs => some (true, dir, fs)
  | token :: rest, dir, fs =>
      if token = dotName then dirWalk rest dir fs
      else if token = dotDotName then do
        let parent ← fs.inodeGetParent dir
        let fs ← fs.inodeOpen parent
        match ← fs.dirOpen parent with
        | (none, fs) => some (false, dir, fs)
        | (some parentDir, fs) =>
            let fs ← fs.dirClose dir
            dirWalk rest parentDir fs
      else do
        match ← fs.dirLookup dir token with
        | (none, fs) => some (false, dir, fs)
        | (some inode, fs) =>
            -- a file is closed by `dir_walk` itself, so that `dir_open` only succeeds
            match ← fs.dirOpen inode with
            | (none, fs) => some (false, dir, fs)
            | (some newDir, fs) =>
                let fs ← fs.dirClose dir
                dirWalk rest newDir fs

end Pintos
