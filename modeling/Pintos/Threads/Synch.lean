import Mathlib.Data.BitVec

/-!
# Locks with priority donation

Model of the locks of `src/threads/synch.c` and of the parts of
`src/threads/thread.c` they use, under the priority scheduler
(`thread_mlfqs` false). A thread that wakes up inside `sema_down` tests the value
of the semaphore again when it next runs; until then it is `woken`. Everything
else a call does is one step, and any thread that is not waiting may take the
next step.
-/

namespace Pintos

/-- `PRI_MIN` and `PRI_MAX` (`thread.h:42-44`). -/
def priMin : Int := 0
def priMax : Int := 63

/-- `MAX_DEPTH` (`synch.c:40`). -/
def maxDepth : Nat := 8

/-- What a thread is doing about locks. -/
inductive ThreadStatus (Lid : Type) where
  /-- Not created yet. -/
  | absent
  | runnable
  /-- In the `waiters` of the lock's semaphore. -/
  | blocked (l : Lid)
  /-- Taken out of `waiters` by `sema_up`, has not run since. -/
  | woken (l : Lid)
  deriving DecidableEq

/-- The fields of `struct thread` that donation reads (`thread.h`). -/
structure Thread (Tid Lid : Type) where
  priority : Int
  extraPriority : Int
  parent : Option Tid
  locks : List Lid
  status : ThreadStatus Lid

/-- `struct lock` with its semaphore (`synch.h`). -/
structure Lock (Tid : Type) where
  holder : Option Tid
  value : Nat
  waiters : List Tid

/-- All threads and all locks. -/
structure LockState (Tid Lid : Type) where
  thread : Tid → Thread Tid Lid
  lock : Lid → Lock Tid

namespace Thread

variable {Tid Lid : Type}

/-- `thread_get_priority`: the priority the scheduler compares. -/
def effective (th : Thread Tid Lid) : Int := max th.priority th.extraPriority

/-- `thread_less` (`thread.c:682-690`). -/
def less (a b : Thread Tid Lid) : Bool := a.effective < b.effective

end Thread

section Donation

variable {Tid Lid : Type} [DecidableEq Tid]

/-- `thread_list_max` (`thread.c:704-713`) of a list that is not empty: the first of
    the threads with the highest effective priority. -/
def threadListMax (thread : Tid → Thread Tid Lid) (first : Tid) (rest : List Tid) : Tid :=
  rest.foldl (fun m e => if (thread m).less (thread e) then e else m) first

/-- Raise `extra_priority` of `p` to at least `donated`. -/
def donate (thread : Tid → Thread Tid Lid) (p : Tid) (donated : Int) : Tid → Thread Tid Lid :=
  Function.update thread p
    { thread p with extraPriority := max (thread p).extraPriority donated }

/-- `donate_up` (`synch.c:307-316`). The first argument counts down the calls that are still below
    the depth limit: `donate_up (t, d)` is `donateUp (maxDepth + 1 - d) thread t`. -/
def donateUp : Nat → (Tid → Thread Tid Lid) → Tid → Tid → Thread Tid Lid
  | 0, thread, _ => thread
  | left + 1, thread, t =>
      match (thread t).parent with
      | none => thread
      | some p => donateUp left (donate thread p (thread t).effective) p

end Donation

namespace LockState

variable {Tid Lid : Type} [DecidableEq Tid] [DecidableEq Lid]

def setThread (s : LockState Tid Lid) (t : Tid) (th : Thread Tid Lid) : LockState Tid Lid :=
  { s with thread := Function.update s.thread t th }

def setLock (s : LockState Tid Lid) (l : Lid) (lk : Lock Tid) : LockState Tid Lid :=
  { s with lock := Function.update s.lock l lk }

/-- `sema_down` finds the value positive, and the caller becomes the holder (`synch.c:221-223`). -/
def take (s : LockState Tid Lid) (t : Tid) (l : Lid) : LockState Tid Lid :=
  (s.setLock l { s.lock l with holder := some t, value := (s.lock l).value - 1 }).setThread t
    { s.thread t with locks := (s.thread t).locks ++ [l], status := .runnable }

/-- `sema_down` finds the value zero (`synch.c:82-86`). -/
def wait (s : LockState Tid Lid) (t : Tid) (l : Lid) : LockState Tid Lid :=
  (s.setLock l { s.lock l with waiters := (s.lock l).waiters ++ [t] }).setThread t
    { s.thread t with status := .blocked l }

/-- One turn of the loop of `sema_down`, and what follows it in `lock_acquire`. -/
def semaDown (s : LockState Tid Lid) (t : Tid) (l : Lid) : LockState Tid Lid :=
  if (s.lock l).value = 0 then s.wait t l else s.take t l

/-- `cur->parent = lock->holder; donate_up (cur, 0)` (`synch.c:214-216`). -/
def donateToHolder (s : LockState Tid Lid) (t : Tid) (l : Lid) : LockState Tid Lid :=
  let linked := s.setThread t { s.thread t with parent := (s.lock l).holder }
  { linked with thread := donateUp (maxDepth + 1) linked.thread t }

/-- `lock_acquire` (`synch.c:206-224`), up to the point where it has the lock or sleeps. -/
def lockAcquire (s : LockState Tid Lid) (t : Tid) (l : Lid) : Option (LockState Tid Lid) :=
  if (s.lock l).holder = some t then none else some ((s.donateToHolder t l).semaDown t l)

/-- `lock_try_acquire` (`synch.c:231-253`). -/
def lockTryAcquire (s : LockState Tid Lid) (t : Tid) (l : Lid) :
    Option (Bool × LockState Tid Lid) :=
  if (s.lock l).holder = some t then none
  else
    let s' := s.donateToHolder t l
    if (s'.lock l).value = 0 then some (false, s') else some (true, s'.take t l)

/-- `sema_up` (`synch.c:116-136`). -/
def semaUp (s : LockState Tid Lid) (l : Lid) : LockState Tid Lid :=
  match (s.lock l).waiters with
  | [] => s.setLock l { s.lock l with value := (s.lock l).value + 1 }
  | first :: rest =>
      let m := threadListMax s.thread first rest
      (s.setLock l { s.lock l with waiters := (first :: rest).erase m
                                   value := (s.lock l).value + 1 }).setThread m
        { s.thread m with status := .woken l }

/-- The body of the loop over the locks that the thread keeps (`synch.c:282-287`). -/
def addDonation (s : LockState Tid Lid) (extra : Int) (l : Lid) : Int :=
  match (s.lock l).waiters with
  | [] => extra
  | first :: rest => max extra (s.thread (threadListMax s.thread first rest)).effective

/-- The donation that the waiters of some locks make (`synch.c:277-288`). -/
def donatedBy (s : LockState Tid Lid) (locks : List Lid) : Int := locks.foldl s.addDonation 0

/-- The part of `lock_release` before `sema_up` (`synch.c:266-290`). -/
def detach (s : LockState Tid Lid) (t : Tid) (l : Lid) : LockState Tid Lid :=
  let thread u := if u ∈ (s.lock l).waiters then { s.thread u with parent := none } else s.thread u
  let cleared : LockState Tid Lid := { s with thread }
  let locks := (cleared.thread t).locks.erase l
  (cleared.setLock l { s.lock l with holder := none }).setThread t
    { cleared.thread t with locks := locks, extraPriority := cleared.donatedBy locks }

/-- `lock_release` (`synch.c:259-294`). -/
def lockRelease (s : LockState Tid Lid) (t : Tid) (l : Lid) : Option (LockState Tid Lid) :=
  if (s.lock l).holder = some t then some ((s.detach t l).semaUp l) else none

/-- `thread_set_priority` (`thread.c:352-367`). -/
def threadSetPriority (s : LockState Tid Lid) (t : Tid) (priority : Int) : LockState Tid Lid :=
  s.setThread t { s.thread t with priority }

/-- The thread that `init_thread` (`thread.c:488-531`) makes for `thread_create`. -/
def threadCreate (s : LockState Tid Lid) (u : Tid) (priority : Int) : Option (LockState Tid Lid) :=
  if priMin ≤ priority ∧ priority ≤ priMax then
    some (s.setThread u
      { priority, extraPriority := 0, parent := none, locks := [], status := .runnable })
  else none

end LockState

/-- A call of a thread, or a woken thread that runs again. -/
inductive LockStep (Tid Lid : Type) where
  | acquire (t : Tid) (l : Lid)
  | tryAcquire (t : Tid) (l : Lid)
  | release (t : Tid) (l : Lid)
  | setPriority (t : Tid) (priority : Int)
  | create (t u : Tid) (priority : Int)
  | resume (t : Tid)

namespace LockState

variable {Tid Lid : Type} [DecidableEq Tid] [DecidableEq Lid]

def next (s : LockState Tid Lid) : LockStep Tid Lid → Option (LockState Tid Lid)
  | .acquire t l => if (s.thread t).status = .runnable then s.lockAcquire t l else none
  | .tryAcquire t l =>
      if (s.thread t).status = .runnable then (s.lockTryAcquire t l).map Prod.snd else none
  | .release t l => if (s.thread t).status = .runnable then s.lockRelease t l else none
  | .setPriority t priority =>
      if (s.thread t).status = .runnable then some (s.threadSetPriority t priority) else none
  | .create t u priority =>
      if (s.thread t).status = .runnable ∧ (s.thread u).status = .absent then
        s.threadCreate u priority
      else none
  | .resume t =>
      match (s.thread t).status with
      | .woken l => some (s.semaDown t l)
      | _ => none

/-- Some threads run and all locks are free. -/
def Initial (s : LockState Tid Lid) : Prop :=
  (∀ t, ((s.thread t).status = .absent ∨ (s.thread t).status = .runnable) ∧
    (s.thread t).extraPriority = 0 ∧ (s.thread t).parent = none ∧ (s.thread t).locks = []) ∧
  ∀ l, s.lock l = { holder := none, value := 1, waiters := [] }

/-- `W` sleeps in `lock_acquire` of a lock that `H` holds. -/
def WaitsFor (s : LockState Tid Lid) (W H : Tid) : Prop :=
  ∃ l, (s.thread W).status = .blocked l ∧ (s.lock l).holder = some H

/-- A chain of `n` waits from `W` to `H`. -/
inductive WaitChain (s : LockState Tid Lid) : Nat → Tid → Tid → Prop
  | one {W H : Tid} : s.WaitsFor W H → WaitChain s 1 W H
  | cons {n : Nat} {W M H : Tid} : s.WaitsFor W M → WaitChain s n M H → WaitChain s (n + 1) W H

/-- The thread that holds the lock `t` sleeps for. -/
def waitsOn (s : LockState Tid Lid) (t : Tid) : Option Tid :=
  match (s.thread t).status with
  | .blocked l => (s.lock l).holder
  | _ => none

/-- The chain of waits that starts at `t` has at most `n` waits. -/
def ChainWithin (s : LockState Tid Lid) : Nat → Tid → Prop
  | 0, t => s.waitsOn t = none
  | n + 1, t =>
      match s.waitsOn t with
      | none => True
      | some u => s.ChainWithin n u

/-- A holder runs with at least the priority of the threads that wait for it. -/
def DonationLaw (s : LockState Tid Lid) : Prop :=
  ∀ n W H, n ≤ maxDepth → s.WaitChain n W H →
    (s.thread W).effective ≤ (s.thread H).effective

/-- No thread has a donation or a parent without a thread that waits for it:
    `extra_priority` is at most the highest effective priority of the threads
    blocked on locks that the thread holds, 0 when there are none. -/
def DonationOwed (s : LockState Tid Lid) : Prop :=
  (∀ H, (s.thread H).extraPriority ≤ 0 ∨
    ∃ W, s.WaitsFor W H ∧ (s.thread H).extraPriority ≤ (s.thread W).effective) ∧
  ∀ t p, (s.thread t).parent = some p → s.WaitsFor t p

/-- `lock_try_acquire` is not called. -/
def NoTry (_ : LockState Tid Lid) : LockStep Tid Lid → Prop
  | .tryAcquire .. => False
  | _ => True

/-- `lock_try_acquire` is not called for a lock that another thread holds. -/
def TryOnlyFree (s : LockState Tid Lid) : LockStep Tid Lid → Prop
  | .tryAcquire _ l => (s.lock l).holder = none
  | _ => True

/-- A lock is released with at most one thread waiting for it, no thread takes a
    free lock ahead of a thread that was woken for it, and no thread starts to wait
    at the end of more than `maxDepth` waits. -/
def SingleWaiter (s : LockState Tid Lid) : LockStep Tid Lid → Prop
  | .acquire _ l =>
      match (s.lock l).holder with
      | none => ∀ u, (s.thread u).status ≠ .woken l
      | some h => s.ChainWithin maxDepth h
  | .tryAcquire .. => False
  | .release _ l => (s.lock l).waiters.length ≤ 1
  | _ => True

end LockState
end Pintos
