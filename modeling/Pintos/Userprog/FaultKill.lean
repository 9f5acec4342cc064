import Mathlib.Algebra.BigOperators.Group.Finset.Basic
import Pintos.Filesys.Cache
import Pintos.Threads.Rwlock

/-!
# Processes killed while they copy

The system calls `read` and `write` pass the user's buffer down to the `memcpy` of
`cache_read` and `cache_write`, which runs inside `inode_read_at` or
`inode_write_at` and so with the inode's `rwlock` and the lock of a cache block
held. When the `memcpy` faults, `page_fault` (`src/userprog/exception.c:132-215`)
loads the page, which may read another file, or kills the process: its `fail` path
releases the locks of the cache (`cache_lock_release`) and calls `process_exit`.
-/

namespace Pintos

open Function

inductive ProcessStatus where
  | alive
  /-- In `process_exit`. -/
  | exiting
  | dead
  deriving DecidableEq

/-- A thread's critical sections of inodes, innermost first, each with the flag
    that it is held exclusively; the request it sleeps for; and the cache block that
    its `memcpy` reads or writes. -/
structure FileThread (Ino : Type) where
  status : ProcessStatus
  sections : List (Ino × Bool)
  waiting : Option (Ino × Bool)
  copying : Option (Fin cacheSize)

/-- The rwlocks of the inodes, the locks of the cache blocks and the threads.
    `killed` lists the critical sections in which threads were killed. -/
structure FaultState (Tid Ino : Type) where
  rwlock : Ino → Rwlock Tid
  cacheLock : Fin cacheSize → Option Tid
  thread : Tid → FileThread Ino
  killed : List (Tid × Ino × Bool)

inductive FaultStep (Tid Ino : Type) where
  /-- `rwlock_acquire_reader` or, with `writer`, `rwlock_acquire_writer` of an inode. -/
  | acquire (t : Tid) (i : Ino) (writer : Bool)
  /-- A cache call reaches its `memcpy` with the lock of block `e`. -/
  | copy (t : Tid) (e : Fin cacheSize)
  /-- The `memcpy` is done and the lock of the block released. -/
  | copied (t : Tid)
  /-- `rwlock_release` of the innermost critical section. -/
  | release (t : Tid)
  /-- The `memcpy` faults on an address that cannot be loaded. -/
  | fault (t : Tid)
  /-- The system call `exit`. -/
  | exit (t : Tid)
  /-- `thread_exit` at the end of `process_exit`. -/
  | die (t : Tid)

namespace FaultState

variable {Tid Ino : Type} [DecidableEq Tid] [DecidableEq Ino]

/-- The thread may make a call of the inode layer: outside of any critical section,
    or as a reader from `page_full_load` when its `memcpy` faulted. -/
def mayEnter (th : FileThread Ino) (writer : Bool) : Bool :=
  th.status ≠ .dead && th.waiting.isNone &&
    (th.sections.isEmpty || (th.copying.isSome && !writer && th.sections.length == 1))

/-- A granted request is a critical section of its thread. -/
def enter (thread : Tid → FileThread Ino) (i : Ino) (request : Tid × Bool) :
    Tid → FileThread Ino :=
  update thread request.1
    { thread request.1 with sections := (i, request.2) :: (thread request.1).sections
                            waiting := none }

/-- The thread has left its innermost critical section. -/
def leave (th : FileThread Ino) : FileThread Ino := { th with sections := th.sections.tail }

def next (s : FaultState Tid Ino) : FaultStep Tid Ino → Option (FaultState Tid Ino)
  | .acquire t i writer =>
      if mayEnter (s.thread t) writer then
        let (rw, granted) := (s.rwlock i).rwlockAcquire t writer
        let thread := if granted then enter s.thread i (t, writer)
          else update s.thread t { s.thread t with waiting := some (i, writer) }
        some { s with rwlock := update s.rwlock i rw, thread }
      else none
  | .copy t e =>
      if (s.thread t).status = .alive ∧ (s.thread t).waiting = none ∧
          (s.thread t).sections.length = 1 ∧ (s.thread t).copying = none ∧
          s.cacheLock e = none then
        some { s with cacheLock := update s.cacheLock e (some t)
                      thread := update s.thread t { s.thread t with copying := some e } }
      else none
  | .copied t =>
      match (s.thread t).copying with
      | some e =>
          if (s.thread t).waiting = none ∧ (s.thread t).sections.length = 1 then
            some { s with cacheLock := update s.cacheLock e none
                          thread := update s.thread t { s.thread t with copying := none } }
          else none
      | none => none
  | .release t =>
      match (s.thread t).sections with
      | [] => none
      | (i, _) :: outer =>
          -- Not in the middle of the `memcpy` of this section.
          if (s.thread t).waiting = none ∧ ((s.thread t).copying = none ∨ outer ≠ []) then do
            let (rw, granted) ← (s.rwlock i).rwlockRelease
            let left := update s.thread t (leave (s.thread t))
            some { s with rwlock := update s.rwlock i rw
                          thread := granted.foldl (fun th request => enter th i request) left }
          else none
  | .fault t =>
      match (s.thread t).copying, (s.thread t).sections with
      | some _, [(i, writer)] =>
          if (s.thread t).waiting = none then
            -- `cache_lock_release ()`, then `process_exit (-1)`
            some { s with cacheLock := fun e => if s.cacheLock e = some t then none else s.cacheLock e
                          thread := update s.thread t
                            { status := .exiting, sections := [], waiting := none, copying := none }
                          killed := (t, i, writer) :: s.killed }
          else none
      | _, _ => none
  | .exit t =>
      if (s.thread t).status = .alive ∧ (s.thread t).waiting = none ∧
          (s.thread t).sections = [] then
        some { s with thread := update s.thread t { s.thread t with status := .exiting } }
      else none
  | .die t =>
      if (s.thread t).status = .exiting ∧ (s.thread t).waiting = none ∧
          (s.thread t).sections = [] then
        some { s with thread := update s.thread t { s.thread t with status := .dead } }
      else none

/-- All threads in user mode, all locks free. -/
def Initial (s : FaultState Tid Ino) : Prop :=
  (∀ i, s.rwlock i = .init) ∧ (∀ e, s.cacheLock e = none) ∧
  (∀ t, s.thread t = { status := .alive, sections := [], waiting := none, copying := none }) ∧
  s.killed = []

/-- The live threads in a critical section of the inode. -/
def inside [Fintype Tid] (s : FaultState Tid Ino) (i : Ino) (writer : Bool) : Finset Tid :=
  Finset.univ.filter fun t => (s.thread t).status ≠ .dead ∧ (i, writer) ∈ (s.thread t).sections

/-- The counters of every inode count the live threads in its critical section, and
    no cache block is locked by a thread that is dead. -/
def Accounted [Fintype Tid] (s : FaultState Tid Ino) : Prop :=
  (∀ i, (s.rwlock i).activeReaders = (s.inside i false).card ∧
    (s.rwlock i).activeWriters = (s.inside i true).card) ∧
  ∀ e t, s.cacheLock e = some t → (s.thread t).status ≠ .dead

end FaultState
end Pintos
