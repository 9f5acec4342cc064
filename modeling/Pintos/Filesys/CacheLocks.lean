import Pintos.Filesys.Cache
import Pintos.Misc.LockOrder
import Pintos.Misc.Transition
import Pintos.Vm.Frame

/-!
# Locks of the cache and of the frame table

Model of the order in which `src/filesys/cache.c` and `src/vm/frame.c` take `cache_lock`, the
locks of the cache blocks and `frame_lock`. A thread has a stack of calls: a cache call may
fault in its `memcpy`, and a fault calls the cache, with kernel memory, to write back a victim
(with `frame_lock` held) and to read a page from its file. A step takes or releases at most one
lock. Which cache block holds the sector, and which one comes first in `cache_list`, is not
modelled; a search may end at any cache block.
-/

namespace Pintos

open Function

/-- The locks. -/
inductive KLock where
  | frameLock
  | cacheLock
  | entry (i : Fin cacheSize)
deriving DecidableEq

/-- The functions of the cache. -/
inductive CacheFunction where
  /-- `cache_read` or `cache_write`, with a buffer in user memory or in kernel memory. -/
  | access (user : Bool)
  /-- `cache_flush` or `cache_free`. -/
  | sweep
deriving DecidableEq

/-- Where a cache call is. `held` is `is_current_cache_block_lock_held`. -/
inductive CachePlace where
  /-- Before `lock_acquire (&cache_lock)`. -/
  | enter
  /-- About to look at cache block `i`, or after the loop. -/
  | look (i : Nat)
  /-- With the lock of cache block `i`. -/
  | looking (i : Fin cacheSize) (held : Bool)
  /-- About to lock the cache block that is evicted. -/
  | victim (i : Fin cacheSize)
  /-- The cache block is locked; about to release `cache_lock`. -/
  | located (i : Fin cacheSize) (held : Bool)
  /-- Input and output, and `memcpy`. -/
  | copying (i : Fin cacheSize) (held : Bool)
  /-- About to release `cache_lock` at the end of a sweep. -/
  | swept
deriving DecidableEq

/-- Where a page fault is, or another function of the frame table. -/
inductive FaultPlace where
  /-- Before `lock_acquire (&frame_lock)` in `frame_alloc`. -/
  | alloc
  /-- With `frame_lock` in `frame_alloc` and `frame_evict`. -/
  | evicting
  /-- In `page_full_load`, after `frame_alloc`. -/
  | loading
  /-- Before `lock_acquire (&frame_lock)` in a function that calls no other one, such as
      `frame_set_pinned`. -/
  | pin
  /-- With `frame_lock` there. -/
  | pinning
deriving DecidableEq

inductive KernelCall where
  | cache (call : CacheFunction) (place : CachePlace)
  | fault (place : FaultPlace)
deriving DecidableEq

/-- The holders of the locks, and the calls of each thread, the innermost first. -/
structure KernelLocks where
  holder : KLock → Option ThreadId
  stack : ThreadId → List KernelCall

inductive KernelStep where
  /-- The thread calls a function of the cache. -/
  | call (t : ThreadId) (call : CacheFunction)
  /-- The thread faults. -/
  | fault (t : ThreadId)
  /-- The thread calls `frame_remove`, `frame_share` or the like. -/
  | frame (t : ThreadId)
  /-- The innermost call goes on; `hit` tells whether the cache block has the sector, and
      `front` is the first one of `cache_list`. -/
  | go (t : ThreadId) (hit : Bool) (front : Fin cacheSize)
  /-- The fault cannot be served: `cache_lock_release`, and the thread exits. -/
  | kill (t : ThreadId)

namespace KernelLocks

variable (s : KernelLocks) (t : ThreadId)

def push (call : KernelCall) : KernelLocks :=
  { s with stack := update s.stack t (call :: s.stack t) }

def setStack (stack : List KernelCall) : KernelLocks :=
  { s with stack := update s.stack t stack }

/-- `lock_acquire`; `none` if the thread has to wait. -/
def acquire (l : KLock) : Option KernelLocks :=
  if s.holder l = none then some { s with holder := update s.holder l (some t) } else none

/-- `lock_release`. -/
def release (l : KLock) : KernelLocks := { s with holder := update s.holder l none }

/-- The cache block is locked, unless an outer call of the thread has done so (`cache.c:69-72`). -/
def lockEntry (i : Fin cacheSize) : Option (Bool × KernelLocks) :=
  if s.holder (.entry i) = some t then some (true, s)
  else do
    let s ← s.acquire t (.entry i)
    some (false, s)

def unlockEntry (i : Fin cacheSize) (held : Bool) : KernelLocks :=
  if held then s else s.release (.entry i)

/-- One step of a cache call (`cache.c:59-164` and `cache.c:166-223`). -/
def goCache (call : CacheFunction) (rest : List KernelCall) (hit : Bool) (front : Fin cacheSize) :
    CachePlace → Option KernelLocks
  | .enter => do
      let s ← s.acquire t .cacheLock
      some (s.setStack t (.cache call (.look 0) :: rest))
  | .look i =>
      if inRange : i < cacheSize then do
        let (held, s) ← s.lockEntry t ⟨i, inRange⟩
        some (s.setStack t (.cache call (.looking ⟨i, inRange⟩ held) :: rest))
      else
        match call with
        | .access _ => some (s.setStack t (.cache call (.victim front) :: rest))
        | .sweep => some (s.setStack t (.cache call .swept :: rest))
  | .looking i held =>
      match call, hit with
      | .access _, true => some (s.setStack t (.cache call (.located i held) :: rest))
      | .sweep, true => some ((s.unlockEntry i held).setStack t (.cache call .swept :: rest))
      | _, false => some ((s.unlockEntry i held).setStack t (.cache call (.look (i + 1)) :: rest))
  | .victim i => do
      let (held, s) ← s.lockEntry t i
      some (s.setStack t (.cache call (.located i held) :: rest))
  | .located i held =>
      some ((s.release .cacheLock).setStack t (.cache call (.copying i held) :: rest))
  | .copying i held => some ((s.unlockEntry i held).setStack t rest)
  | .swept => some ((s.release .cacheLock).setStack t rest)

/-- One step of a fault (`frame.c:41-71`, `page.c:91-157`). -/
def goFault (rest : List KernelCall) : FaultPlace → Option KernelLocks
  | .alloc => do
      let s ← s.acquire t .frameLock
      some (s.setStack t (.fault .evicting :: rest))
  | .evicting => some ((s.release .frameLock).setStack t (.fault .loading :: rest))
  | .loading => some (s.setStack t (.fault .pin :: rest))
  | .pin => do
      let s ← s.acquire t .frameLock
      some (s.setStack t (.fault .pinning :: rest))
  | .pinning => some ((s.release .frameLock).setStack t rest)

/-- `cache_lock_release` and `thread_exit` in `page_fault`, before `page_full_load` has asked for
    a frame or after it has failed. -/
def kill : KernelLocks :=
  { s.setStack t [] with
    holder := fun l => if l ≠ .frameLock ∧ s.holder l = some t then none else s.holder l }

def next : KernelStep → Option KernelLocks
  | .call t call =>
      match s.stack t, call with
      | [], _ => some (s.push t (.cache call .enter))
      | .fault .evicting :: _, .access false => some (s.push t (.cache call .enter))
      | .fault .loading :: _, .access false => some (s.push t (.cache call .enter))
      | _, _ => none
  | .fault t =>
      match s.stack t with
      | [] => some (s.push t (.fault .alloc))
      | .cache (.access true) (.copying _ _) :: _ => some (s.push t (.fault .alloc))
      | _ => none
  | .frame t =>
      match s.stack t with
      | [] => some (s.push t (.fault .pin))
      | _ => none
  | .go t hit front =>
      match s.stack t with
      | [] => none
      | .cache call place :: rest => s.goCache t call rest hit front place
      | .fault place :: rest => s.goFault t rest place
  | .kill t =>
      match s.stack t with
      | .fault .alloc :: _ => some (s.kill t)
      | .fault .loading :: _ => some (s.kill t)
      | _ => none

/-- The lock that the thread is about to acquire. -/
def wants : Option KLock :=
  match s.stack t with
  | .cache _ .enter :: _ => some .cacheLock
  | .cache _ (.look i) :: _ =>
      if inRange : i < cacheSize then
        if s.holder (.entry ⟨i, inRange⟩) = some t then none else some (.entry ⟨i, inRange⟩)
      else none
  | .cache _ (.victim i) :: _ => if s.holder (.entry i) = some t then none else some (.entry i)
  | .fault .alloc :: _ => some .frameLock
  | .fault .pin :: _ => some .frameLock
  | _ => none

/-- No call has been made. -/
structure Initial (s : KernelLocks) : Prop where
  holder : ∀ l, s.holder l = none
  stack : ∀ t, s.stack t = []

/-- A thread that holds the lock of a cache block does not fault. -/
def Resident (s : KernelLocks) : KernelStep → Prop
  | .fault t => ∀ i, s.holder (.entry i) ≠ some t
  | _ => True

instance (s : KernelLocks) (step : KernelStep) : Decidable (s.Resident step) := by
  unfold Resident
  cases step <;> infer_instance

/-- The state after boot. -/
def booted : KernelLocks where
  holder _ := none
  stack _ := []

end KernelLocks

end Pintos
