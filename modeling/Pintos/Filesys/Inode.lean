import Pintos.Filesys.FreeMap

/-!
# Inodes

Model of `src/filesys/inode.c`: growing an inode with its failure path, creating,
opening, closing and removing inodes, reading and writing them.

`inode_grow_unlocked` is cut at its three levels of pointers. The loops over the
slots of the inode, of the indirect block and of a block below the doubly
indirect one are the same code and appear once, as `fillSlots` on the way up and
as `releaseSlots` on the way down.
-/

namespace Pintos

open Function

namespace FS

variable (fs : FS)

/-- `inode_indirect_allocate` (`inode.c:164-175`). -/
def inodeIndirectAllocate : Option (Option BlockSector × FS) := do
  match ← fs.freeMapAllocate with
  | (none, fs) => some (none, fs)
  | (some sector, fs) =>
      let fs ← fs.writeIndirect sector fun _ => blockSectorNone
      some (some sector, fs)

/-- An index block is allocated where the pointer to it is `BLOCK_SECTOR_NONE`. -/
def ensureIndirect (sector : BlockSector) : Option (Option BlockSector × FS) :=
  if sector = blockSectorNone then fs.inodeIndirectAllocate else some (some sector, fs)

end FS

/-! ## Growing -/

/-- The loop that allocates data sectors for the empty ones among `n` slots
    (`inode.c:188-201`, `212-230`, `258-279`). The flag is false after a failed
    allocation, where the source leaves the loop by a jump. -/
def fillSlots {n : Nat} (sectors : Int) :
    List (Fin n) → (Fin n → BlockSector) → Int → FS →
      Option (Bool × (Fin n → BlockSector) × Int × FS)
  | [], slots, allocated, fs => some (true, slots, allocated, fs)
  | i :: rest, slots, allocated, fs =>
      if allocated < sectors then
        if slots i ≠ blockSectorNone then fillSlots sectors rest slots allocated fs
        else do
          match ← fs.freeMapAllocate with
          | (none, fs) => some (false, slots, allocated, fs)
          | (some sector, fs) =>
              let fs ← fs.cacheWrite sector (fun _ => 0) blockSectorSize 0
              fillSlots sectors rest (update slots i sector) (allocated + 1) fs
      else some (true, slots, allocated, fs)

/-- An index block is read, its empty slots are filled, and it is written back, also
    after a failure (`inode.c:210-232`, `256-281`). -/
def fillIndirect (sectors : Int) (sector : BlockSector) (allocated : Int) (fs : FS) :
    Option (Bool × Int × FS) := do
  let (ib, fs) ← fs.readIndirect sector
  let (ok, ib, allocated, fs) ← fillSlots sectors (List.finRange 128) ib allocated fs
  let fs ← fs.writeIndirect sector ib
  some (ok, allocated, fs)

/-- The loop over the blocks of the doubly indirect one (`inode.c:246-282`). -/
def fillDoubly (sectors : Int) :
    List (Fin 128) → IndirectBlock → Int → FS → Option (Bool × IndirectBlock × Int × FS)
  | [], dib, allocated, fs => some (true, dib, allocated, fs)
  | i :: rest, dib, allocated, fs =>
      if allocated < sectors then do
        match ← fs.ensureIndirect (dib i) with
        | (none, fs) => some (false, dib, allocated, fs)
        | (some sector, fs) =>
            let dib := update dib i sector
            let (ok, allocated, fs) ← fillIndirect sectors sector allocated fs
            if ok then fillDoubly sectors rest dib allocated fs
            else some (false, dib, allocated, fs)
      else some (true, dib, allocated, fs)

/-- The doubly indirect block is read, its blocks are filled, and it is written back
    (`inode.c:243-285`). -/
def fillDoublyIndirect (sectors : Int) (sector : BlockSector) (allocated : Int) (fs : FS) :
    Option (Bool × Int × FS) := do
  let (dib, fs) ← fs.readIndirect sector
  let (ok, dib, allocated, fs) ← fillDoubly sectors (List.finRange 128) dib allocated fs
  let fs ← fs.writeIndirect sector dib
  some (ok, allocated, fs)

/-- The direct pointers (`inode.c:188-201`). -/
def growDirect (data : InodeDisk) (sectors allocated : Int) (fs : FS) :
    Option (Bool × InodeDisk × Int × FS) := do
  let (ok, direct, allocated, fs) ← fillSlots sectors (List.finRange 10) data.direct allocated fs
  some (ok, { data with direct }, allocated, fs)

/-- The indirect pointer (`inode.c:206-233`). -/
def growIndirect (data : InodeDisk) (sectors allocated : Int) (fs : FS) :
    Option (Bool × InodeDisk × Int × FS) := do
  match ← fs.ensureIndirect data.indirect with
  | (none, fs) => some (false, data, allocated, fs)
  | (some sector, fs) =>
      let (ok, allocated, fs) ← fillIndirect sectors sector allocated fs
      some (ok, { data with indirect := sector }, allocated, fs)

/-- The doubly indirect pointer (`inode.c:239-285`). -/
def growDoubly (data : InodeDisk) (sectors allocated : Int) (fs : FS) :
    Option (Bool × InodeDisk × Int × FS) := do
  match ← fs.ensureIndirect data.doublyIndirect with
  | (none, fs) => some (false, data, allocated, fs)
  | (some sector, fs) =>
      let (ok, allocated, fs) ← fillDoublyIndirect sectors sector allocated fs
      some (ok, { data with doublyIndirect := sector }, allocated, fs)

/-- `inode_grow_unlocked` before its label `fail`: whether the function returns
    true, with the inode, `allocated_sectors` and the state at that point. -/
def growSectors (data : InodeDisk) (sectors : Int) (fs : FS) :
    Option (Bool × InodeDisk × Int × FS) := do
  let (ok, data, allocated, fs) ← growDirect data sectors 0 fs
  if !ok || decide (sectors ≤ allocated) then some (ok, data, allocated, fs)
  else do
    let (ok, data, allocated, fs) ← growIndirect data sectors allocated fs
    if !ok || decide (sectors ≤ allocated) then some (ok, data, allocated, fs)
    else do
      let (ok, data, allocated, fs) ← growDoubly data sectors allocated fs
      some (ok && decide (sectors ≤ allocated), data, allocated, fs)

/-- The loop that gives up the data sectors of `n` slots, the last one first (`inode.c:304-340`,
    `356-377`, `384-391`). The first component is the slot at which `allocated_sectors` became 0. -/
def releaseSlots {n : Nat} :
    List (Fin n) → (Fin n → BlockSector) → Int → FS →
      Option (Option (Fin n) × (Fin n → BlockSector) × Int × FS)
  | [], slots, allocated, fs => some (none, slots, allocated, fs)
  | i :: rest, slots, allocated, fs =>
      if 0 < allocated then
        if slots i ≠ blockSectorNone then do
          let fs ← fs.releaseSector (slots i)
          let slots := update slots i blockSectorNone
          if allocated - 1 ≤ 0 then some (some i, slots, allocated - 1, fs)
          else releaseSlots rest slots (allocated - 1) fs
        else releaseSlots rest slots allocated fs
      else some (none, slots, allocated, fs)

/-- The loop over the blocks of the doubly indirect block `doubly` (`inode.c:297-345`). The first
    component is the pointer to that block if the function returns from inside the loop. -/
def releaseDoubly (doubly : BlockSector) :
    List (Fin 128) → IndirectBlock → Int → FS → Option (Option BlockSector × Int × FS)
  | [], _, allocated, fs => some (none, allocated, fs)
  | i :: rest, dib, allocated, fs =>
      if 0 < allocated then
        if dib i = blockSectorNone then releaseDoubly doubly rest dib allocated fs
        else do
          let (ib, fs) ← fs.readIndirect (dib i)
          let (stop, ib, allocated, fs) ←
            releaseSlots (List.finRange 128).reverse ib allocated fs
          match stop with
          | some j =>
              if j = 0 then do
                let fs ← fs.releaseSector (dib i)
                if i = 0 then do
                  let fs ← fs.releaseSector doubly
                  some (some blockSectorNone, allocated, fs)
                else do
                  let fs ← fs.writeIndirect doubly (update dib i blockSectorNone)
                  some (some doubly, allocated, fs)
              else do
                let fs ← fs.writeIndirect (dib i) ib
                let fs ← fs.writeIndirect doubly dib
                some (some doubly, allocated, fs)
          | none => do
              let fs ← fs.releaseSector (dib i)
              releaseDoubly doubly rest (update dib i blockSectorNone) allocated fs
      else some (none, allocated, fs)

/-- The doubly indirect part after the label `fail` (`inode.c:292-350`); the flag
    is true if the function returns there. -/
def failDoubly (data : InodeDisk) (allocated : Int) (fs : FS) :
    Option (Bool × InodeDisk × Int × FS) :=
  if data.doublyIndirect = blockSectorNone then some (false, data, allocated, fs)
  else do
    let (dib, fs) ← fs.readIndirect data.doublyIndirect
    match ← releaseDoubly data.doublyIndirect (List.finRange 128).reverse dib allocated fs with
    | (some doublyIndirect, allocated, fs) =>
        some (true, { data with doublyIndirect }, allocated, fs)
    | (none, allocated, fs) =>
        let fs ← fs.releaseSector data.doublyIndirect
        some (false, { data with doublyIndirect := blockSectorNone }, allocated, fs)

/-- The indirect part after the label `fail` (`inode.c:352-382`). -/
def failIndirect (data : InodeDisk) (allocated : Int) (fs : FS) :
    Option (Bool × InodeDisk × Int × FS) :=
  if data.indirect = blockSectorNone then some (false, data, allocated, fs)
  else do
    let (ib, fs) ← fs.readIndirect data.indirect
    match ← releaseSlots (List.finRange 128).reverse ib allocated fs with
    | (some i, ib, allocated, fs) =>
        if i = 0 then do
          let fs ← fs.releaseSector data.indirect
          some (true, { data with indirect := blockSectorNone }, allocated, fs)
        else do
          let fs ← fs.writeIndirect data.indirect ib
          some (true, data, allocated, fs)
    | (none, _, allocated, fs) =>
        let fs ← fs.releaseSector data.indirect
        some (false, { data with indirect := blockSectorNone }, allocated, fs)

/-- The direct part after the label `fail` (`inode.c:384-391`). -/
def failDirect (data : InodeDisk) (allocated : Int) (fs : FS) : Option (InodeDisk × FS) := do
  let (_, direct, _, fs) ← releaseSlots (List.finRange 10).reverse data.direct allocated fs
  some ({ data with direct }, fs)

/-- Everything after the label `fail` (`inode.c:291-393`). -/
def growFail (data : InodeDisk) (allocated : Int) (fs : FS) : Option (InodeDisk × FS) := do
  let (returned, data, allocated, fs) ← failDoubly data allocated fs
  if returned then some (data, fs)
  else do
    let (returned, data, allocated, fs) ← failIndirect data allocated fs
    if returned then some (data, fs) else failDirect data allocated fs

/-- `inode_grow_unlocked` (`inode.c:179-394`): the result, the inode as the
    function leaves it, and the state. -/
def inodeGrowUnlocked (data : InodeDisk) (sectors : Int) (fs : FS) :
    Option (Bool × InodeDisk × FS) :=
  if sectors = 0 then some (true, data, fs)
  else do
    let (ok, data, allocated, fs) ← growSectors data sectors fs
    if ok then some (true, data, fs)
    else do
      let (data, fs) ← growFail data allocated fs
      some (false, data, { fs with growFailed := true })

/-! ## Operations on inodes -/

/-- The inode that `inode_create` builds before it grows it (`inode.c:414-426`). -/
def newInode (length : Int) (isDir : Bool) (parent : BlockSector) : InodeDisk where
  isDir := if isDir then 1 else 0
  fileCnt := 0
  length := BitVec.ofInt 32 length
  parent := parent
  direct := fun _ => blockSectorNone
  indirect := blockSectorNone
  doublyIndirect := blockSectorNone
  magic := inodeMagic

namespace FS

variable (fs : FS)

/-- `inode_create` (`inode.c:401-435`). -/
def inodeCreate (sector : BlockSector) (length : Int) (isDir : Bool) (parent : BlockSector) :
    Option (Bool × FS) :=
  if length < 0 then none
  else do
    let (ok, data, fs) ← inodeGrowUnlocked (newInode length isDir parent) (bytesToSectors length) fs
    if ok then do
      let fs ← fs.writeInode sector data
      some (true, fs)
    else some (false, fs)

/-- Replace one entry of `open_inodes`. -/
def setInode (sector : BlockSector) (inode : Option Inode) : FS :=
  { fs with openInodes := update fs.openInodes sector inode }

/-- `inode_reopen` (`inode.c:478-489`). -/
def inodeReopen (sector : BlockSector) (inode : Inode) : FS :=
  fs.setInode sector (some { inode with openCnt := inode.openCnt + 1 })

/-- `inode_open` (`inode.c:440-475`). -/
def inodeOpen (sector : BlockSector) : Option FS :=
  match fs.openInodes sector with
  | some inode => some (fs.inodeReopen sector inode)
  | none => do
      let (data, fs) ← fs.readInode sector
      some (fs.setInode sector
        (some { openCnt := 1, removed := false, denyWriteCnt := 0, data }))

/-- `inode_get_parent` (`inode.c:502-509`). -/
def inodeGetParent (sector : BlockSector) : Option BlockSector := do
  let inode ← fs.openInodes sector
  some inode.data.parent

/-- `inode_is_dir` (`inode.c:778-785`). -/
def inodeIsDir (sector : BlockSector) : Option Bool := do
  let inode ← fs.openInodes sector
  some (inode.data.isDir != 0)

/-- `inode_length` (`inode.c:760-776`). -/
def inodeLength (sector : BlockSector) : Option Int := do
  let inode ← fs.openInodes sector
  some inode.data.length.toInt

/-- Replace the `data` of an open inode. -/
def setData (sector : BlockSector) (inode : Inode) (data : InodeDisk) : FS :=
  fs.setInode sector (some { inode with data })

/-- `inode_update_file_cnt` (`inode.c:797-805`). -/
def inodeUpdateFileCnt (sector : BlockSector) (delta : BitVec 32) : Option FS := do
  let inode ← fs.openInodes sector
  let (data, fs) ← fs.readInode sector
  let data := { data with fileCnt := data.fileCnt + delta }
  (fs.setData sector inode data).writeInode sector data

/-- The loops of `inode_close` and `inode_indirect_close` over `n` slots
    (`inode.c:519-524`, `559-564`). -/
def closeSlots {n : Nat} (slots : Fin n → BlockSector) : List (Fin n) → FS → Option FS
  | [], fs => some fs
  | i :: rest, fs =>
      if slots i ≠ blockSectorNone then do
        let fs ← fs.releaseSector (slots i)
        closeSlots slots rest fs
      else closeSlots slots rest fs

/-- `inode_indirect_close` (`inode.c:513-529`). -/
def inodeIndirectClose (sector : BlockSector) : Option FS := do
  let (ib, fs) ← fs.readIndirect sector
  let fs ← closeSlots ib (List.finRange 128) fs
  fs.releaseSector sector

/-- The loop of `inode_close` over the doubly indirect block (`inode.c:575-577`). -/
def closeDoubly (dib : IndirectBlock) : List (Fin 128) → FS → Option FS
  | [], fs => some fs
  | i :: rest, fs =>
      if dib i ≠ blockSectorNone then do
        let fs ← fs.inodeIndirectClose (dib i)
        closeDoubly dib rest fs
      else closeDoubly dib rest fs

/-- The indirect block of a removed inode (`inode.c:565-566`). -/
def closeIndirect (sector : BlockSector) : Option FS :=
  if sector ≠ blockSectorNone then fs.inodeIndirectClose sector else some fs

/-- The doubly indirect block of a removed inode (`inode.c:568-581`). -/
def closeDoublyIndirect (sector : BlockSector) : Option FS :=
  if sector ≠ blockSectorNone then do
    let (dib, fs) ← fs.readIndirect sector
    let fs ← closeDoubly dib (List.finRange 128) fs
    fs.releaseSector sector
  else some fs

/-- The deallocation of a removed inode (`inode.c:559-584`). -/
def inodeDeallocate (sector : BlockSector) (data : InodeDisk) : Option FS := do
  let fs ← closeSlots data.direct (List.finRange 10) fs
  let fs ← fs.closeIndirect data.indirect
  let fs ← fs.closeDoublyIndirect data.doublyIndirect
  fs.releaseSector sector

/-- `inode_close` (`inode.c:534-594`). -/
def inodeClose (sector : BlockSector) : Option FS := do
  let inode ← fs.openInodes sector
  if inode.openCnt - 1 = 0 then do
    let fs ← (fs.setInode sector none).cacheFlush
    if inode.removed then fs.inodeDeallocate sector inode.data else some fs
  else some (fs.setInode sector (some { inode with openCnt := inode.openCnt - 1 }))

/-- `inode_read_at` (`inode.c:610-664`): the bytes read. -/
def inodeReadAt (sector : BlockSector) (size offset : Int) : Option (List Byte × FS) := do
  let inode ← fs.openInodes sector
  readLoop inode.data size offset fs

/-- `inode_write_at` (`inode.c:669-731`). -/
def inodeWriteAt (sector : BlockSector) (buffer : Nat → Byte) (size offset : Int) :
    Option (Int × FS) := do
  let inode ← fs.openInodes sector
  if inode.denyWriteCnt ≠ 0 then some (0, fs)
  else if inode.data.length.toInt < int32 (offset + size) then do
    let sectors :=
      int32 (bytesToSectors (int32 (offset + size)) - bytesToSectors inode.data.length.toInt)
    let (ok, data, fs) ← inodeGrowUnlocked inode.data sectors fs
    if ok then do
      let data := { data with length := BitVec.ofInt 32 (offset + size) }
      let fs ← (fs.setData sector inode data).writeInode sector data
      writeLoop data buffer size offset 0 fs
    else some (0, fs.setData sector inode data)
  else writeLoop inode.data buffer size offset 0 fs

end FS

end Pintos
