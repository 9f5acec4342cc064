import Pintos.Filesys.Filesys

/-!
# Open files

The functions of `src/filesys/file.c` that the system calls use besides those of
`Pintos.Filesys.Filesys`, and `filesys_readdir`. The loops of `inode_read_at` and
`inode_write_at` move bytes to and from a buffer of the caller; `bytesRead` and
`bytesWritten` are how many of them, also if the kernel stops in the loop.
-/

namespace Pintos

/-- `bytes_read` when the loop of `inode_read_at` (`inode.c:618-660`) ends, or where the
    kernel stops in it. -/
def bytesRead (data : InodeDisk) (size offset : Int) (fs : FS) : Nat :=
  if 0 < size then
    match fs.byteToSectorUnlocked data offset with
    | none => 0
    | some (sectorIdx, fs) =>
        if sectorIdx = blockSectorNone then 0
        else
          let chunk := FS.chunkSize data size offset
          if _h : chunk ≤ 0 then 0
          else
            match fs.cacheRead sectorIdx chunk.toNat (offset.tmod 512).toNat with
            | none => 0
            | some (_, fs) =>
                match fs.byteToSectorUnlocked data (int32 (offset + 512)) with
                | none => chunk.toNat
                | some (_, fs) => chunk.toNat + bytesRead data (size - chunk) (offset + chunk) fs
  else 0
termination_by size.toNat

/-- `bytes_written` when the loop of `inode_write_at` (`inode.c:702-727`) ends, or where
    the kernel stops in it; `written` bytes were moved before. -/
def bytesWritten (data : InodeDisk) (buffer : Nat → Byte) (size offset : Int) (written : Nat)
    (fs : FS) : Nat :=
  if 0 < size then
    match fs.byteToSectorUnlocked data offset with
    | none => written
    | some (sectorIdx, fs) =>
        if sectorIdx = blockSectorNone then written
        else
          let chunk := FS.chunkSize data size offset
          if _h : chunk ≤ 0 then written
          else
            match fs.cacheWrite sectorIdx (fun k => buffer (written + k)) chunk.toNat
                (offset.tmod 512).toNat with
            | none => written
            | some fs =>
                bytesWritten data buffer (size - chunk) (offset + chunk) (written + chunk.toNat) fs
  else written
termination_by size.toNat

namespace FS

variable (fs : FS)

/-- `file_read` (`file.c:68-76`): the result, the bytes that the buffer receives, the file
    and the state. -/
def fileRead (file : File) (size : Int) : Option (Int × List Byte × File × FS) := do
  if ← fs.inodeIsDir file.inode then some (-1, [], file, fs)
  else do
    let (bytes, fs) ← fs.inodeReadAt file.inode size file.pos
    some (bytes.length, bytes, { file with pos := int32 (file.pos + bytes.length) }, fs)

/-- `file_length` (`file.c:143-149`). -/
def fileLength (file : File) : Option Int := fs.inodeLength file.inode

/-- `inode_deny_write` (`inode.c:735-743`). -/
def inodeDenyWrite (sector : BlockSector) : Option FS := do
  let inode ← fs.openInodes sector
  if inode.denyWriteCnt + 1 ≤ inode.openCnt then
    some (fs.setInode sector (some { inode with denyWriteCnt := inode.denyWriteCnt + 1 }))
  else none

/-- `file_deny_write` (`file.c:119-129`). -/
def fileDenyWrite (file : File) : Option (File × FS) :=
  if file.denyWrite then some (file, fs)
  else do
    let fs ← fs.inodeDenyWrite file.inode
    some ({ file with denyWrite := true }, fs)

/-- `file_reopen` (`file.c:36-42`). -/
def fileReopen (file : File) : Option (File × FS) := do
  let inode ← fs.openInodes file.inode
  some (fileOpen file.inode, fs.inodeReopen file.inode inode)

/-- `open_cnt`, which is 0 for an inode that is not in `open_inodes`. -/
def openCnt (sector : BlockSector) : Int :=
  match fs.openInodes sector with
  | none => 0
  | some inode => inode.openCnt

/-- Each inode is open as often as it is in the list. -/
def Counts (held : List BlockSector) : Prop :=
  ∀ sector, fs.openCnt sector = held.count sector

end FS

/-- `file_seek` (`file.c:151-159`). -/
def fileSeek (file : File) (newPos : Int) : Option File :=
  if newPos < 0 then none else some { file with pos := newPos }

/-- The loop of `dir_readdir` (`directory.c:315-329`): the name, and `dir->pos` after the loop. -/
def readdirLoop (dir : BlockSector) : Nat → Int → FS → Option (Option FileName × Int × FS)
  | 0, _, _ => none
  | bound + 1, pos, fs => do
      let (bytes, fs) ← fs.inodeReadAt dir entrySize pos
      if bytes.length = entrySize then
        let e : EntryBytes := fun k => bytes.getD k 0
        if e.decode.inUse then some (some e.decode.name, pos + entrySize, fs)
        else readdirLoop dir bound (pos + entrySize) fs
      else some (none, pos, fs)

/-- `filesys_readdir` (`filesys.c:295-302`), which uses a null pointer if the file is not a
    directory. -/
def FS.filesysReaddir (fs : FS) (file : File) : Option (Option FileName × File × FS) := do
  if ← fs.inodeIsDir file.inode then do
    let bound ← fs.entryBound file.inode
    let (name, pos, fs) ← readdirLoop file.inode bound file.pos fs
    let file ← fileSeek file pos
    some (name, file, fs)
  else none

end Pintos
