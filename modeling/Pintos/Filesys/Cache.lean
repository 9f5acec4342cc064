import Pintos.Devices.Block

/-!
# The buffer cache

`src/filesys/cache.c`, executed by one thread at a time: the 64 cache blocks, the
list `cache_list` that orders them by reference time, and the sectors of the
block devices behind them. `none` is a kernel panic: an `ASSERT` of the cache or
the range check of `block_read` and `block_write` (`block.c:99-109`).

The `memcpy` of `cache_read` and `cache_write` is a step of its own, between
`cacheEnter`, which finds or fills the cache block, and `cacheLeave`, which makes
it valid: a page fault on the user's buffer happens exactly there.
-/

namespace Pintos

variable {Dev : Type}

/-- `CACHE_SIZE` (`cache.c:12`). -/
abbrev cacheSize : Nat := 64

/-- `struct cache_block` (`cache.c:15-24`) without its lock; the list element is
    the block's index. -/
structure CacheBlock (Dev : Type) where
  block : Dev
  sector : BlockSector
  dirty : Bool
  valid : Bool
  data : SectorData

/-- The cache blocks with `cache_list`, and the devices they cache. -/
structure CacheState (Dev : Type) where
  cache : Fin cacheSize → CacheBlock Dev
  cacheList : List (Fin cacheSize)
  disk : Dev → BlockSector → SectorData
  blockSize : Dev → Nat

namespace CacheState

variable (st : CacheState Dev)

/-- Replace one cache block. -/
def setBlock (i : Fin cacheSize) (cb : CacheBlock Dev) : CacheState Dev :=
  { st with cache := Function.update st.cache i cb }

section

variable (i : Fin cacheSize) (cb : CacheBlock Dev)

@[simp] theorem setBlock_same :
    (st.setBlock i cb).cache i = cb := by simp [setBlock]

@[simp] theorem setBlock_of_ne {i j : Fin cacheSize} (ne : j ≠ i) :
    (st.setBlock i cb).cache j = st.cache j := by simp [setBlock, ne]

@[simp] theorem setBlock_cacheList :
    (st.setBlock i cb).cacheList = st.cacheList := rfl

@[simp] theorem setBlock_disk :
    (st.setBlock i cb).disk = st.disk := rfl

@[simp] theorem setBlock_blockSize :
    (st.setBlock i cb).blockSize = st.blockSize := rfl

end

/-- `list_remove` and `list_push_back`: the block was referenced last. -/
def touch (i : Fin cacheSize) : CacheState Dev :=
  { st with cacheList := st.cacheList.erase i ++ [i] }

variable [DecidableEq Dev]

/-- The test of the search loops: a valid block for this sector. -/
def holds (cb : CacheBlock Dev) (block : Dev) (sector : BlockSector) : Bool :=
  cb.valid && cb.block == block && cb.sector == sector

/-- The search loop of `cache_read`, `cache_write` and `cache_free`. -/
def find (block : Dev) (sector : BlockSector) : Option (Fin cacheSize) :=
  (List.finRange cacheSize).find? fun i => holds (st.cache i) block sector

/-- `block_read` (`block.c:115-121`). -/
def blockRead (block : Dev) (sector : BlockSector) : Option SectorData :=
  if sector.toNat < st.blockSize block then some (st.disk block sector) else none

/-- `block_write` (`block.c:128-135`). -/
def blockWrite (block : Dev) (sector : BlockSector) (data : SectorData) :
    Option (CacheState Dev) :=
  if sector.toNat < st.blockSize block then
    some { st with disk := fun b s => if b = block ∧ s = sector then data else st.disk b s }
  else none

/-- Writing a victim back to disk if it is valid and dirty. -/
def writeBack (cb : CacheBlock Dev) : Option (CacheState Dev) :=
  if cb.valid && cb.dirty then st.blockWrite cb.block cb.sector cb.data else some st

/-- The bodies of `cache_read` and `cache_write` up to their `memcpy`
    (`cache.c:56-100`, `114-159`). The two differ in the dirty bit alone: a hit of
    `cache_write` sets it and a miss leaves it as `write`. -/
def cacheEnter (write : Bool) (block : Dev) (sector : BlockSector) :
    Option (Fin cacheSize × CacheState Dev) :=
  if sector = blockSectorNone then none
  else
    match st.find block sector with
    | some i =>
        let cb := st.cache i
        some (i, (st.touch i).setBlock i { cb with dirty := cb.dirty || write })
    | none =>
        match st.cacheList with
        | [] => none
        | i :: rest => do
            let st' ← ({ st with cacheList := rest ++ [i] } : CacheState Dev).writeBack (st.cache i)
            let data ← st'.blockRead block sector
            some (i, st'.setBlock i { block, sector, valid := false, dirty := write, data })

/-- The end of `cache_read` and `cache_write`: the block becomes valid. -/
def cacheLeave (i : Fin cacheSize) : CacheState Dev :=
  st.setBlock i { st.cache i with valid := true }

/-- The `memcpy` of `cache_write`. -/
def cacheStore (i : Fin cacheSize) (src : Nat → Byte) (size offset : Nat) : CacheState Dev :=
  st.setBlock i { st.cache i with data := (st.cache i).data.copyIn offset size src }

/-- `cache_read` (`cache.c:52-106`) into a buffer that does not fault; the first
    component is what the buffer receives. -/
def cacheRead (block : Dev) (sector : BlockSector) (size offset : Nat) :
    Option (List Byte × CacheState Dev) := do
  let (i, st') ← st.cacheEnter false block sector
  some ((st'.cache i).data.copyOut offset size, st'.cacheLeave i)

/-- `cache_write` (`cache.c:110-165`) from a buffer that does not fault. -/
def cacheWrite (block : Dev) (sector : BlockSector) (src : Nat → Byte) (size offset : Nat) :
    Option (CacheState Dev) := do
  let (i, st') ← st.cacheEnter true block sector
  some ((st'.cacheStore i src size offset).cacheLeave i)

/-- One iteration of the loop of `cache_flush`. -/
def flushBlock (i : Fin cacheSize) : Option (CacheState Dev) := do
  let st' ← st.writeBack (st.cache i)
  if (st.cache i).valid && (st.cache i).dirty then
    some (st'.setBlock i { st.cache i with dirty := false })
  else some st'

/-- `cache_flush` (`cache.c:168-185`). -/
def cacheFlush : Option (CacheState Dev) :=
  (List.finRange cacheSize).foldlM (fun st' i => st'.flushBlock i) st

/-- `cache_free` (`cache.c:202-221`): a cached sector is dropped, dirty or not. -/
def cacheFree (block : Dev) (sector : BlockSector) : Option (CacheState Dev) :=
  if sector = blockSectorNone then none
  else
    match st.find block sector with
    | some i => some (st.setBlock i { st.cache i with valid := false, dirty := false })
    | none => some st

end CacheState

/-- `cache_init` (`cache.c:35-48`) on devices with the given contents. The blocks
    are invalid; their remaining fields are those of static storage. -/
def cacheInit (device : Dev) (disk : Dev → BlockSector → SectorData) (blockSize : Dev → Nat) :
    CacheState Dev where
  cache := fun _ => { block := device, sector := 0, dirty := false, valid := false, data := 0 }
  cacheList := List.finRange cacheSize
  disk := disk
  blockSize := blockSize

end Pintos
