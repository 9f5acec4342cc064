import Pintos.Filesys.Cache
import Pintos.Filesys.InodeDisk
import Pintos.Lib.Bitmap

/-!
# The file system state, file data and the free map

The state shared by the modules of `src/filesys`, executed by one thread at a
time: the buffer cache over `fs_device`, the free map and the open inodes. `none`
is a kernel panic or an access outside an object. Locks have no effect in a
sequential execution, `malloc` is taken to succeed, and the read-ahead thread,
which only touches the cache, is left out.

`inode.c` and `free-map.c` call each other: growing an inode allocates sectors,
and every allocation writes the free map to its own file. The file has its final
size from `free_map_create` on, so the write back is given here, before growth.
-/

namespace Pintos

/-- `struct inode` (`inode.c:62-71`) without list element and lock; its sector is
    the key under which `open_inodes` finds it. -/
structure Inode where
  openCnt : Int
  removed : Bool
  denyWriteCnt : Int
  data : InodeDisk

/-- The state of the file system. -/
structure FS where
  /-- `cache.c` over `fs_device`, the only device of the file system. -/
  store : CacheState Unit
  /-- `free_map` (`free-map.c:9`). -/
  freeMap : Bitmap
  /-- `free_map_file` is not null (`free-map.c:8`). -/
  freeMapFile : Bool
  /-- `open_inodes` (`inode.c:75`), searched by sector. -/
  openInodes : BlockSector → Option Inode
  /-- History: some `free_map_allocate` has returned false. -/
  allocFailed : Bool
  /-- History: some `inode_grow_unlocked` has returned false. -/
  growFailed : Bool

namespace FS

variable (fs : FS)

/-! ## Access to sectors -/

/-- `cache_read (fs_device, sector, ...)`. -/
def cacheRead (sector : BlockSector) (size offset : Nat) : Option (List Byte × FS) := do
  let (bytes, store) ← fs.store.cacheRead () sector size offset
  some (bytes, { fs with store })

/-- `cache_write (fs_device, sector, ...)`. -/
def cacheWrite (sector : BlockSector) (src : Nat → Byte) (size offset : Nat) : Option FS := do
  let store ← fs.store.cacheWrite () sector src size offset
  some { fs with store }

/-- `cache_free (fs_device, sector)`. -/
def cacheFree (sector : BlockSector) : Option FS := do
  let store ← fs.store.cacheFree () sector
  some { fs with store }

/-- `cache_flush (false)`. -/
def cacheFlush : Option FS := do
  let store ← fs.store.cacheFlush
  some { fs with store }

/-- Reading a `struct inode_disk`. -/
def readInode (sector : BlockSector) : Option (InodeDisk × FS) := do
  let (bytes, fs) ← fs.cacheRead sector blockSectorSize 0
  some (InodeDisk.decode fun k => bytes.getD k 0, fs)

/-- Writing a `struct inode_disk`. -/
def writeInode (sector : BlockSector) (data : InodeDisk) : Option FS :=
  fs.cacheWrite sector data.encode blockSectorSize 0

/-- Reading a `struct indirect_block`. -/
def readIndirect (sector : BlockSector) : Option (IndirectBlock × FS) := do
  let (bytes, fs) ← fs.cacheRead sector blockSectorSize 0
  some (IndirectBlock.decode fun k => bytes.getD k 0, fs)

/-- Writing a `struct indirect_block`. -/
def writeIndirect (sector : BlockSector) (ib : IndirectBlock) : Option FS :=
  fs.cacheWrite sector ib.encode blockSectorSize 0

/-! ## From byte offsets to sectors -/

/-- `indirect_lookup` (`inode.c:104-117`). -/
def indirectLookup (sector : BlockSector) (pos : Int) : Option (BlockSector × FS) :=
  if sector = blockSectorNone then some (blockSectorNone, fs)
  else do
    let (ib, fs) ← fs.readIndirect sector
    let idx := pos.tdiv 512
    if h : 0 ≤ idx ∧ idx < 128 then some (ib ⟨idx.toNat, by omega⟩, fs) else none

/-- `doubly_indirect_lookup` (`inode.c:120-133`). -/
def doublyIndirectLookup (sector : BlockSector) (pos : Int) : Option (BlockSector × FS) :=
  if sector = blockSectorNone then some (blockSectorNone, fs)
  else do
    let (ib, fs) ← fs.readIndirect sector
    let idx := pos.tdiv (512 * 128)
    if h : 0 ≤ idx ∧ idx < 128 then
      fs.indirectLookup (ib ⟨idx.toNat, by omega⟩) (pos.tmod (512 * 128))
    else none

/-- `byte_to_sector_unlocked` (`inode.c:139-161`). -/
def byteToSectorUnlocked (data : InodeDisk) (pos : Int) : Option (BlockSector × FS) :=
  if pos < 10 * 512 then
    let idx := pos.tdiv 512
    if h : 0 ≤ idx ∧ idx < 10 then some (data.direct ⟨idx.toNat, by omega⟩, fs) else none
  else if pos < 10 * 512 + 128 * 512 then
    fs.indirectLookup data.indirect (pos - 10 * 512)
  else if pos < 10 * 512 + 128 * 512 + 128 * 128 * 512 then
    fs.doublyIndirectLookup data.doublyIndirect (pos - (10 * 512 + 128 * 512))
  else some (blockSectorNone, fs)

/-- `chunk_size` of `inode_read_at` and `inode_write_at`: the least of the bytes
    asked for, left in the inode and left in the sector. -/
def chunkSize (data : InodeDisk) (size offset : Int) : Int :=
  min size (min (int32 (data.length.toInt - offset)) (512 - offset.tmod 512))

end FS

/-- The loop of `inode_read_at` (`inode.c:618-660`): the bytes that reach the
    buffer. The sector after the current one is looked up for the read-ahead. -/
def readLoop (data : InodeDisk) (size offset : Int) (fs : FS) : Option (List Byte × FS) :=
  if 0 < size then do
    let (sectorIdx, fs) ← fs.byteToSectorUnlocked data offset
    if sectorIdx = blockSectorNone then some ([], fs)
    else
      let chunk := FS.chunkSize data size offset
      if _h : chunk ≤ 0 then some ([], fs)
      else do
        let (bytes, fs) ← fs.cacheRead sectorIdx chunk.toNat (offset.tmod 512).toNat
        let (_, fs) ← fs.byteToSectorUnlocked data (int32 (offset + 512))
        let (more, fs) ← readLoop data (size - chunk) (offset + chunk) fs
        some (bytes ++ more, fs)
  else some ([], fs)
termination_by size.toNat

/-- The loop of `inode_write_at` (`inode.c:702-727`); `written` is `bytes_written`
    and the result its final value. -/
def writeLoop (data : InodeDisk) (buffer : Nat → Byte) (size offset : Int) (written : Nat)
    (fs : FS) : Option (Int × FS) :=
  if 0 < size then do
    let (sectorIdx, fs) ← fs.byteToSectorUnlocked data offset
    if sectorIdx = blockSectorNone then none
    else
      let chunk := FS.chunkSize data size offset
      if _h : chunk ≤ 0 then some (written, fs)
      else do
        let fs ← fs.cacheWrite sectorIdx (fun k => buffer (written + k)) chunk.toNat
          (offset.tmod 512).toNat
        writeLoop data buffer (size - chunk) (offset + chunk) (written + chunk.toNat) fs
  else some (written, fs)
termination_by size.toNat

/-! ## The bitmap in its file -/

/-- `byte_cnt` (`bitmap.c:60-64`), the size of the bitmap's array of 32-bit elements. -/
def bitmapFileSize (b : Bitmap) : Nat := 4 * ((b.bitCnt + 31) / 32)

/-- The bytes of the bitmap's array. -/
def bitmapBytes (b : Bitmap) (k : Nat) : Byte :=
  BitVec.ofBoolListLE [b.bits (8 * k), b.bits (8 * k + 1), b.bits (8 * k + 2), b.bits (8 * k + 3),
    b.bits (8 * k + 4), b.bits (8 * k + 5), b.bits (8 * k + 6), b.bits (8 * k + 7)]

/-- The bitmap that `bitmap_read` (`bitmap.c:340-351`) makes of the bytes of its
    file; the bits after the last one are masked out. -/
def bitmapOfBytes (bitCnt : Nat) (bytes : Nat → Byte) : Bitmap where
  bitCnt := bitCnt
  bits := fun i => decide (i < bitCnt) && (bytes (i / 8)).getLsbD (i % 8)

namespace FS

variable (fs : FS)

/-- `bitmap_write (free_map, free_map_file)` (`bitmap.c:355-360`), which is
    `inode_write_at` at offset 0 of the free map's inode. A file too short for the
    bitmap would have to grow here; `free_map_create` makes it long enough. -/
def bitmapWrite : Option (Bool × FS) := do
  let inode ← fs.openInodes freeMapSector
  let size : Int := bitmapFileSize fs.freeMap
  if inode.denyWriteCnt ≠ 0 then some (decide (0 = size), fs)
  else if inode.data.length.toInt < int32 size then none
  else do
    let (written, fs) ← writeLoop inode.data (bitmapBytes fs.freeMap) size 0 0 fs
    some (decide (written = size), fs)

/-- `free_map_allocate (1, ...)` (`free-map.c:27-42`). -/
def freeMapAllocate : Option (Option BlockSector × FS) :=
  match bitmapScanAndFlip fs.freeMap 0 1 false with
  | (none, _) => some (none, { fs with allocFailed := true })
  | (some idx, freeMap) =>
      if fs.freeMapFile then do
        let (success, fs) ← { fs with freeMap }.bitmapWrite
        if success then some (some (BitVec.ofNat 32 idx), fs)
        else
          let freeMap := bitmapSetMultiple fs.freeMap idx 1 false
          some (none, { fs with freeMap, allocFailed := true })
      else some (some (BitVec.ofNat 32 idx), { fs with freeMap })

/-- `free_map_release (sector, 1)` (`free-map.c:45-51`). -/
def freeMapRelease (sector : BlockSector) : Option FS :=
  if bitmapAll fs.freeMap sector.toNat 1 then
    let freeMap := bitmapSetMultiple fs.freeMap sector.toNat 1 false
    if fs.freeMapFile then do
      let (_, fs) ← { fs with freeMap }.bitmapWrite
      some fs
    else none
  else none

/-- `cache_free` followed by `free_map_release`, the two calls with which `inode.c`
    gives up a sector. -/
def releaseSector (sector : BlockSector) : Option FS := do
  let fs ← fs.cacheFree sector
  fs.freeMapRelease sector

end FS

end Pintos
