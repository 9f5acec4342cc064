import Pintos.Filesys.Cache

/-!
# Cache calls that fault

The buffer of `cache_read` and `cache_write` may be user memory. When their
`memcpy` faults, `page_fault` (`src/userprog/exception.c:179-193`) runs
`page_full_load` (`src/vm/page.c:77-167`) in the same thread, which reads the page
from its file and so calls the cache again before the outer call has returned.

A state holds, for each thread, the stack of its calls that have found their
cache block but not yet made it valid, and the holder of each cache block's lock.
The search of a call takes the locks of the blocks it looks at
(`lock_held_by_current_thread` skips those of the thread's outer calls), so it
waits for other threads; `cache_lock` is free whenever a step ends.
-/

namespace Pintos

open Function

/-- A call of `cache_read` or, with `write`, of `cache_write` at its `memcpy`: its
    cache block and the value of `is_cache_block_lock_held`. -/
structure CacheFrame where
  entry : Fin cacheSize
  write : Bool
  lockHeld : Bool
  deriving DecidableEq

/-- The cache with the unfinished calls of every thread. -/
structure CacheThreads (Dev Tid : Type) where
  st : CacheState Dev
  frames : Tid → List CacheFrame
  lock : Fin cacheSize → Option Tid

/-- The steps of the threads between two calls' `memcpy`s. -/
inductive CacheStep (Dev Tid : Type) where
  /-- A call up to its `memcpy`; nested when the thread has unfinished calls. -/
  | enter (t : Tid) (write : Bool) (block : Dev) (sector : BlockSector)
  /-- Some bytes of the `memcpy` of a `cache_write`. -/
  | copy (t : Tid) (src : Nat → Byte) (size offset : Nat)
  /-- The rest of the call, after its `memcpy`. -/
  | leave (t : Tid)
  /-- The `fail` path of `page_fault`: `cache_lock_release`, and the thread exits. -/
  | kill (t : Tid)
  | flush
  | free (block : Dev) (sector : BlockSector)

namespace CacheThreads

variable {Dev Tid : Type} [DecidableEq Dev] [DecidableEq Tid]

/-- The cache blocks the search loop looks at: up to the first that holds the
    sector, all of them when none does. -/
def scanned (st : CacheState Dev) (block : Dev) (sector : BlockSector) : List (Fin cacheSize) :=
  match st.find block sector with
  | some i => (List.finRange cacheSize).filter (· ≤ i)
  | none => List.finRange cacheSize

/-- One step; `none` when the thread has to wait for a lock, when the kernel
    panics or when there is no such call. -/
def next (s : CacheThreads Dev Tid) : CacheStep Dev Tid → Option (CacheThreads Dev Tid)
  | .enter t write block sector =>
      if ∀ i ∈ scanned s.st block sector, s.lock i = none ∨ s.lock i = some t then do
        let (i, st') ← s.st.cacheEnter write block sector
        let frame : CacheFrame := { entry := i, write, lockHeld := s.lock i = some t }
        some { st := st',
               frames := update s.frames t (frame :: s.frames t),
               lock := update s.lock i (some t) }
      else none
  | .copy t src size offset =>
      match s.frames t with
      | [] => none
      | frame :: _ =>
          if frame.write then some { s with st := s.st.cacheStore frame.entry src size offset }
          else none
  | .leave t =>
      match s.frames t with
      | [] => none
      | frame :: outer =>
          some { st := s.st.cacheLeave frame.entry,
                 frames := update s.frames t outer,
                 lock := if frame.lockHeld then s.lock
                   else update s.lock frame.entry none }
  | .kill t =>
      some { s with frames := update s.frames t [],
                    lock := fun i => if s.lock i = some t then none else s.lock i }
  | .flush =>
      if ∀ i, s.lock i = none then
        s.st.cacheFlush.map fun st' => { s with st := st' }
      else none
  | .free block sector =>
      if ∀ i ∈ scanned s.st block sector, s.lock i = none then
        (s.st.cacheFree block sector).map fun st' => { s with st := st' }
      else none

/-- After `cache_init`, before any call. -/
def Initial (s : CacheThreads Dev Tid) : Prop :=
  (∃ device disk blockSize, s.st = cacheInit device disk blockSize) ∧
    (∀ t, s.frames t = []) ∧ ∀ i, s.lock i = none

/-- At most one valid cache block holds a given sector. -/
def AtMostOneValid (s : CacheThreads Dev Tid) : Prop :=
  ∀ i j, (s.st.cache i).valid = true → (s.st.cache j).valid = true →
    (s.st.cache i).block = (s.st.cache j).block →
    (s.st.cache i).sector = (s.st.cache j).sector → i = j

/-- No call is made for a sector that an unfinished call of the same thread is
    still filling its cache block with. -/
def NotInFlight (s : CacheThreads Dev Tid) : CacheStep Dev Tid → Prop
  | .enter t _ block sector => ∀ frame ∈ s.frames t,
      ¬((s.st.cache frame.entry).valid = false ∧ (s.st.cache frame.entry).block = block ∧
        (s.st.cache frame.entry).sector = sector)
  | _ => True

instance (s : CacheThreads Dev Tid) (a : CacheStep Dev Tid) : Decidable (s.NotInFlight a) := by
  unfold NotInFlight
  cases a <;> infer_instance

end CacheThreads
end Pintos
