import Pintos.Filesys.Directory

/-!
# The file system

Model of `src/filesys/filesys.c`, of the open files of `file.c` and of the part of
`free-map.c` that creates, opens and closes the free map's file. The functions that
the source runs on behalf of `thread_current ()` take the current directory of that
thread, the only field of it that they read or set, as the argument `cwd`.
-/

namespace Pintos

/-! ## Paths -/

/-- The character `/`. -/
def slash : Byte := 0x2f

/-- The loop of `path_split` that makes one slash of several (`filesys.c:62-76`);
    `prevSlash` is `prev_slash`. -/
def squeezeSlashes (prevSlash : Bool) : List Byte → List Byte
  | [] => []
  | c :: rest =>
      if c = slash then
        if prevSlash then squeezeSlashes true rest else c :: squeezeSlashes true rest
      else c :: squeezeSlashes false rest

/-- `prev_slash` after the loop, or the test with which `filesys_remove` guesses
    that a name is a directory's. -/
def endsInSlash (name : List Byte) : Bool := name.getLast? == some slash

/-- `path_split` (`filesys.c:52-123`): the path name and the file name. -/
def pathSplit (name : List Byte) (isDir : Bool) : Option (List Byte × FileName) :=
  let squeezed := squeezeSlashes false name
  let nameCopy := if isDir && endsInSlash name then squeezed.dropLast else squeezed
  if nameCopy = [] then none
  else
    let fileName := (nameCopy.reverse.takeWhile (· != slash)).reverse
    match nameCopy.reverse.dropWhile (· != slash) with
    | [] => some (dotName, nameCopy)
    | _ :: before =>
        if fileName = [] then none
        else some (if before = [] then [slash] else before.reverse, fileName)

/-- The loops of `filesys_open` and `filesys_chdir` that recognise the root. -/
def isRootPath (name : List Byte) : Bool := name.all (· == slash)

/-! ## Open files -/

/-- `struct file` (`file.c:7-12`). -/
structure File where
  inode : BlockSector
  pos : Int
  denyWrite : Bool
  deriving DecidableEq

/-- `file_open` (`file.c:17-34`) of an open inode. -/
def fileOpen (inode : BlockSector) : File := { inode, pos := 0, denyWrite := false }

namespace FS

variable (fs : FS)

/-- `inode_allow_write` (`inode.c:748-757`). -/
def inodeAllowWrite (sector : BlockSector) : Option FS := do
  let inode ← fs.openInodes sector
  if 0 < inode.denyWriteCnt ∧ inode.denyWriteCnt ≤ inode.openCnt then
    some (fs.setInode sector (some { inode with denyWriteCnt := inode.denyWriteCnt - 1 }))
  else none

/-- `file_allow_write` (`file.c:132-141`) of a file that is closed next. -/
def fileAllowWrite (file : File) : Option FS :=
  if file.denyWrite then fs.inodeAllowWrite file.inode else some fs

/-- `file_close` (`file.c:45-54`). -/
def fileClose (file : File) : Option FS := do
  let fs ← fs.fileAllowWrite file
  fs.inodeClose file.inode

/-- `file_write` (`file.c:96-104`). -/
def fileWrite (file : File) (buffer : Nat → Byte) (size : Int) : Option (Int × File × FS) := do
  if ← fs.inodeIsDir file.inode then some (-1, file, fs)
  else do
    let (bytesWritten, fs) ← fs.inodeWriteAt file.inode buffer size file.pos
    some (bytesWritten, { file with pos := int32 (file.pos + bytesWritten) }, fs)

/-! ## Operations on names -/

/-- `dir_open_root ()` or `dir_open_cwd ()`, as the first character of the name says. -/
def dirOpenFor (cwd : BlockSector) (name : List Byte) : Option (Option BlockSector × FS) := do
  let sector := if name.head? = some slash then rootDirSector else cwd
  let fs ← fs.inodeOpen sector
  fs.dirOpen sector

/-- The part of `filesys_create` that makes the inode and enters it in the directory
    (`filesys.c:151-159`): `ok` and `inode_sector` after it. -/
def createIn (dir : BlockSector) (fileName : FileName) (initialSize : Int) (isDir : Bool)
    (stack : EntryBytes) : Option (Bool × BlockSector × FS) := do
  match ← fs.freeMapAllocate with
  | (none, fs) => some (false, 0, fs)
  | (some inodeSector, fs) => do
      match ← fs.inodeCreate inodeSector initialSize isDir dir with
      | (false, fs) => some (false, inodeSector, fs)
      | (true, fs) =>
          let (ok, fs) ← fs.dirAdd dir fileName inodeSector stack
          some (ok, inodeSector, fs)

/-- The sector of an inode that was not entered is given up (`filesys.c:160-161`). -/
def createUndo (ok : Bool) (inodeSector : BlockSector) : Option FS :=
  if ok = false ∧ inodeSector ≠ 0 then fs.freeMapRelease inodeSector else some fs

/-- `filesys_create` (`filesys.c:129-166`). -/
def filesysCreate (cwd : BlockSector) (name : List Byte) (initialSize : Int) (isDir : Bool)
    (stack : EntryBytes) : Option (Bool × FS) :=
  match pathSplit name isDir with
  | none => some (false, fs)
  | some (pathName, fileName) => do
      match ← fs.dirOpenFor cwd name with
      | (none, fs) => some (false, fs)
      | (some dir, fs) =>
          match ← dirWalk (pathTokens pathName) dir fs with
          | (false, dir, fs) =>
              let fs ← fs.dirClose dir
              some (false, fs)
          | (true, dir, fs) =>
              let (ok, inodeSector, fs) ← fs.createIn dir fileName initialSize isDir stack
              let fs ← fs.createUndo ok inodeSector
              let fs ← fs.dirClose dir
              some (ok, fs)

/-- `filesys_open` (`filesys.c:173-208`). With a null `dir` it panics, in `dir_walk`
    or in `dir_lookup`. -/
def filesysOpen (cwd : BlockSector) (name : List Byte) : Option (Option File × FS) :=
  if name = [] then some (none, fs)
  else if isRootPath name then do
    let fs ← fs.inodeOpen rootDirSector
    some (some (fileOpen rootDirSector), fs)
  else
    match pathSplit name false with
    | none => some (none, fs)
    | some (pathName, fileName) => do
        match ← fs.dirOpenFor cwd name with
        | (none, _) => none
        | (some dir, fs) =>
            match ← dirWalk (pathTokens pathName) dir fs with
            | (false, dir, fs) =>
                let fs ← fs.dirClose dir
                some (none, fs)
            | (true, dir, fs) =>
                let (inode, fs) ← fs.dirLookup dir fileName
                let fs ← fs.dirClose dir
                some (inode.map fileOpen, fs)

/-! ## Formatting -/

/-- `free_map_create` (`free-map.c:71-85`). -/
def freeMapCreate : Option FS := do
  match ← fs.inodeCreate freeMapSector (bitmapFileSize fs.freeMap) false blockSectorNone with
  | (false, _) => none
  | (true, fs) =>
      let fs ← fs.inodeOpen freeMapSector
      let (success, fs) ← { fs with freeMapFile := true }.bitmapWrite
      if success then some fs else none

/-- `free_map_close` (`free-map.c:63-67`). The pointer `free_map_file` dangles
    afterwards; no function uses it before `free_map_open` sets it again. -/
def freeMapClose : Option FS := do
  let fs ← fs.inodeClose freeMapSector
  some { fs with freeMapFile := false }

/-- `free_map_open` (`free-map.c:52-60`) with `bitmap_read` (`bitmap.c:340-351`). -/
def freeMapOpen : Option FS := do
  let fs ← fs.inodeOpen freeMapSector
  let size := bitmapFileSize fs.freeMap
  let (bytes, fs) ← fs.inodeReadAt freeMapSector size 0
  if bytes.length = size then
    let freeMap := bitmapOfBytes fs.freeMap.bitCnt fun k => bytes.getD k 0
    some { fs with freeMap, freeMapFile := true }
  else none

/-- `do_format` (`filesys.c:241-250`). -/
def doFormat : Option FS := do
  let fs ← fs.freeMapCreate
  match ← fs.dirCreate rootDirSector 16 rootDirSector with
  | (false, _) => none
  | (true, fs) => fs.freeMapClose

end FS

/-- The state after `cache_init`, `inode_init` and `free_map_init`
    (`free-map.c:12-20`), on a device of `size` sectors with contents `disk`. -/
def bootFS (size : BlockSector) (disk : BlockSector → SectorData) : FS where
  store := cacheInit () (fun _ => disk) (fun _ => size.toNat)
  freeMap := bitmapSetMultiple { bitCnt := size.toNat, bits := fun _ => false } 0 2 true
  freeMapFile := false
  openInodes := fun _ => none
  allocFailed := false
  growFailed := false

/-- `filesys_init (true)` (`filesys.c:22-38`). -/
def filesysInit (size : BlockSector) (disk : BlockSector → SectorData) : Option FS := do
  let fs ← (bootFS size disk).doFormat
  fs.freeMapOpen

end Pintos
