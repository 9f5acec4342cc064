import Pintos.Filesys.InodeDisk
import Pintos.Filesys.Volume
import Pintos.Threads.RwlockRuns

/-!
# Reads and writes of one inode by many threads

`inode_read_at` and `inode_write_at` (`src/filesys/inode.c:610-731`) of one open
inode, run by any number of threads. Another thread may run between the test of the
length that chooses the mode of the lock, the call that takes the lock, the second
test with `inode_grow_unlocked` and the update of the length, each turn of the loops
over the sectors, and the release.

The inode is its byte array and the number of its data sectors; where the bytes are
on disk does not matter here. A growth that fails before it has a data sector frees
the index blocks, and with them all data sectors but the direct ones. A run also keeps
the versions of the inode: what it held after each write that extends it, the whole
write counted as one change, and after each turn of a write inside it.
-/

namespace Pintos

/-- The arguments of an `inode_write_at`; `off_t` has 31 bits for them. -/
structure WriteCall where
  buffer : Nat → Byte
  size : Nat
  offset : Nat
  sizeFits : size < 2 ^ 31
  offsetFits : offset < 2 ^ 31

/-- `offset + size` in `off_t`. -/
def WriteCall.endOfs (w : WriteCall) : Int := int32 (w.offset + w.size)

/-- How `inode_grow_unlocked` ends. -/
inductive GrowResult where
  | grown
  /-- It fails and gives back the data sectors it has allocated. -/
  | givesBack
  /-- It fails without a data sector to give back. -/
  | noSector
  deriving DecidableEq

/-- The contents of the inode. -/
structure InodeData where
  file : FileBytes
  sectors : Nat

namespace InodeData

/-- `offset + size > inode->data.length`. -/
def Extends (d : InodeData) (w : WriteCall) : Prop := (d.file.length : Int) < w.endOfs

instance (d : InodeData) (w : WriteCall) : Decidable (d.Extends w) :=
  inferInstanceAs (Decidable (_ < _))

/-- The sectors that `inode_grow_unlocked` is to add; with a negative count it adds none. -/
def missing (d : InodeData) (w : WriteCall) : Nat :=
  (int32 (bytesToSectors w.endOfs - bytesToSectors d.file.length)).toNat

/-- `inode_grow_unlocked` and the new length (`inode.c:690-699`). The new sectors are zeros. -/
def grow (d : InodeData) (w : WriteCall) : InodeData where
  file := d.file.extend w.endOfs.toNat
  sectors := d.sectors + d.missing w

/-- The ten direct sectors are left; a sector that takes the place of a lost one is zeros. -/
def direct (d : InodeData) : InodeData where
  file := ⟨d.file.length, fun k => if k < 5120 then d.file.byte k else 0, fun k after => by
    rw [d.file.zero k after, ite_self]⟩
  sectors := 10

/-- The fail path of `inode_grow_unlocked` (`inode.c:290-393`). -/
def growFailed (d : InodeData) (result : GrowResult) : InodeData :=
  if result = .noSector ∧ 10 < d.sectors then d.direct else d

/-- A write that extends the inode, after `written` of its bytes. -/
def partly (d : InodeData) (w : WriteCall) (written : Nat) : InodeData :=
  { d.grow w with file := (d.grow w).file.write w.buffer written w.offset }

/-- `chunk_size`, where the offset is inside the inode. -/
def chunk (d : InodeData) (size offset : Nat) : Nat :=
  min size (min (d.file.length - offset) (512 - offset % 512))

/-- One chunk of a write. -/
def writeChunk (d : InodeData) (w : WriteCall) (written : Nat) : InodeData :=
  { d with file := d.file.write (fun k => w.buffer (written + k))
             (d.chunk (w.size - written) (w.offset + written)) (w.offset + written) }

/-- The bytes that a read can reach. -/
def readable (d : InodeData) : Nat := min d.file.length (512 * d.sectors)

end InodeData

/-- Where a thread is in its call. `ended` is set when the loop is left. -/
inductive InodePlace where
  | outside
  /-- In `inode_read_at`, from `rwlock_acquire_reader` on. -/
  | reading (size offset : Nat) (got : List Byte) (ended : Bool)
  /-- In `inode_write_at`, behind the first test of the length. -/
  | tested (w : WriteCall) (longer : Bool)
  /-- In `inode_write_at`, from the call for the lock on. -/
  | locking (w : WriteCall) (writer : Bool)
  /-- In the loop of `inode_write_at`; `grown` tells if the call extended the inode. -/
  | writing (w : WriteCall) (writer grown : Bool) (written : Nat) (ended : Bool)

/-- What the inode held when `extended` writes had extended it, all of them in full. -/
structure Version where
  extended : Nat
  data : InodeData

/-- A finished `inode_read_at`, with the number of extending writes before it. -/
structure ReadReply where
  size : Nat
  offset : Nat
  bytes : List Byte
  extended : Nat

structure InodeThreads (Tid : Type) where
  data : InodeData
  denyWriteCnt : Nat
  lock : RwlockRun Tid
  place : Tid → InodePlace
  /-- The last version. -/
  settled : Version
  versions : List Version
  replies : List ReadReply

inductive InodeStep (Tid : Type) where
  | readCall (t : Tid) (size offset : Nat)
  | readTurn (t : Tid)
  | readReturn (t : Tid)
  | writeCall (t : Tid) (w : WriteCall)
  | writeLock (t : Tid)
  /-- The second test; `result` is used if `inode_grow_unlocked` has sectors to add. -/
  | writeGrow (t : Tid) (result : GrowResult)
  | writeTurn (t : Tid)
  | writeReturn (t : Tid)

namespace InodeThreads

variable {Tid : Type} [DecidableEq Tid] (s : InodeThreads Tid)

/-- Move one thread. -/
def goto (t : Tid) (place : InodePlace) : InodeThreads Tid :=
  { s with place := Function.update s.place t place }

/-- The inode has changed from one version to the next. -/
def settle (version : Version) : InodeThreads Tid :=
  { s with settled := version, versions := version :: s.versions }

/-- An acquire of the lock by a thread that goes to `place`. -/
def acquire (t : Tid) (writer : Bool) (place : InodePlace) : Option (InodeThreads Tid) :=
  (s.lock.acquire t writer).map fun lock => { s with lock }.goto t place

/-- A release of the lock by a thread that returns. -/
def release (t : Tid) (writer : Bool) : Option (InodeThreads Tid) :=
  (s.lock.release t writer).map fun lock => { s with lock }.goto t .outside

/-- One turn of the loop of `inode_read_at` (`inode.c:618-660`). -/
def readTurn (t : Tid) (size offset : Nat) (got : List Byte) : InodeThreads Tid :=
  let pos := offset + got.length
  if size ≤ got.length ∨ s.data.sectors ≤ pos / 512 ∨ s.data.file.length ≤ pos then
    s.goto t (.reading size offset got true)
  else
    let bytes := s.data.file.read (s.data.chunk (size - got.length) pos) pos
    s.goto t (.reading size offset (got ++ bytes) false)

/-- The second test of the length and what it decides (`inode.c:687-700`). -/
def writeGrow (t : Tid) (w : WriteCall) (writer : Bool) (result : GrowResult) :
    Option (InodeThreads Tid) :=
  if s.data.Extends w then
    if result = .grown ∨ s.data.missing w = 0 then
      some ({ s with data := s.data.grow w }.goto t (.writing w writer true 0 false))
    else { s with data := s.data.growFailed result }.release t writer
  else some (s.goto t (.writing w writer false 0 false))

/-- One turn of the loop of `inode_write_at` (`inode.c:702-727`). -/
def writeTurn (t : Tid) (w : WriteCall) (writer grown : Bool) (written : Nat) :
    Option (InodeThreads Tid) :=
  let pos := w.offset + written
  if w.size ≤ written then some (s.goto t (.writing w writer grown written true))
  else if s.data.sectors ≤ pos / 512 then none
  else if s.data.file.length ≤ pos then some (s.goto t (.writing w writer grown written true))
  else
    let place :=
      .writing w writer grown (written + s.data.chunk (w.size - written) pos) false
    let s' := { s with data := s.data.writeChunk w written }.goto t place
    -- the turns of an extending write become one version when the call returns
    some (if grown then s'
          else s'.settle ⟨s.settled.extended, s.settled.data.writeChunk w written⟩)

/-- The end of `inode_write_at`. -/
def writeReturn (t : Tid) (w : WriteCall) (writer grown : Bool) : Option (InodeThreads Tid) :=
  let s' := if grown then s.settle ⟨s.settled.extended + 1, s.settled.data.partly w w.size⟩ else s
  s'.release t writer

/-- One step; `none` when the thread cannot take it now or an assertion fails. -/
def next : InodeStep Tid → Option (InodeThreads Tid)
  | .readCall t size offset =>
      match s.place t with
      | .outside => s.acquire t false (.reading size offset [] false)
      | _ => none
  | .readTurn t =>
      match s.place t with
      | .reading size offset got false =>
          if (t, false) ∈ s.lock.holders then some (s.readTurn t size offset got) else none
      | _ => none
  | .readReturn t =>
      match s.place t with
      | .reading size offset got true =>
          { s with replies := ⟨size, offset, got, s.settled.extended⟩ :: s.replies }.release t false
      | _ => none
  | .writeCall t w =>
      match s.place t with
      | .outside =>
          if s.denyWriteCnt ≠ 0 then some s else some (s.goto t (.tested w (s.data.Extends w)))
      | _ => none
  | .writeLock t =>
      match s.place t with
      | .tested w longer => s.acquire t longer (.locking w longer)
      | _ => none
  | .writeGrow t result =>
      match s.place t with
      | .locking w writer =>
          if (t, writer) ∈ s.lock.holders then s.writeGrow t w writer result else none
      | _ => none
  | .writeTurn t =>
      match s.place t with
      | .writing w writer grown written false => s.writeTurn t w writer grown written
      | _ => none
  | .writeReturn t =>
      match s.place t with
      | .writing w writer grown _ true => s.writeReturn t w writer grown
      | _ => none

/-- No thread is in a call, and the inode's sectors hold its bytes. -/
def Initial (s : InodeThreads Tid) : Prop :=
  s.lock = .init ∧ (∀ t, s.place t = .outside) ∧ s.settled.data = s.data ∧
    s.versions = [s.settled] ∧ s.replies = []

/-- A growth that fails is undone: it gives back a data sector, or the inode has no index blocks. -/
def GrowthUndone : InodeStep Tid → Prop
  | .writeGrow _ .noSector => s.data.sectors ≤ 10
  | _ => True

end InodeThreads

/-- Every byte is from a version with the given number of extending writes, and the
    read stopped only where such a version ends. -/
def ReadReply.Whole (versions : List Version) (r : ReadReply) : Prop :=
  (∀ i < r.bytes.length, ∃ v ∈ versions, v.extended = r.extended ∧
    r.bytes[i]? = some (v.data.file.byte (r.offset + i))) ∧
  ∃ v ∈ versions, v.extended = r.extended ∧ r.bytes.length = min r.size (v.data.readable - r.offset)

end Pintos
