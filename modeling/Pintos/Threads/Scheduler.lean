import Pintos.Misc.Transition
import Pintos.Threads.Condvar
import Pintos.Threads.Synch

/-!
# The priority scheduler

Model of the ready list of `src/threads/thread.c` under the priority scheduler (`thread_mlfqs`
false), with the operations of `src/threads/synch.c` and the sleeping threads of
`src/devices/timer.c`. Locks and priorities are those of `Pintos.Threads.Synch`. The running
thread calls an operation, which runs to its end or up to the point where the thread has to
wait or yields; `place` says where it goes on. `none` is a failed assertion, or a step that cannot
be taken.

The heap of sleeping threads is a list in the order of `wakeup_tick`. Threads with one
`wakeup_tick` may leave the heap in another order than the list, which changes the order of the
ready list and nothing else.
-/

namespace Pintos

open Function

/-- `TIME_SLICE` (`thread.c:61`). -/
abbrev timeSlice : Nat := 4

/-- Where a thread goes on when it runs. -/
inductive SchedPlace (Lid Sid Cid : Type) where
  | outside
  /-- In the loop of `sema_down`. -/
  | down (sema : Sid)
  /-- In `lock_acquire`, in the loop of `sema_down`. -/
  | locking
  /-- In `cond_wait` after `lock_release`. -/
  | waiting (lock : Lid)
  /-- In the loop of `cond_broadcast`. -/
  | broadcasting (cond : Cid) (lock : Lid)

/-- The threads, the lists in which they are and what they wait for. Of the locks, `none` is
    `tid_lock`. -/
structure Sched (Tid Lid Sid Cid : Type) where
  locks : LockState Tid (Option Lid)
  sema : Sid → Semaphore Tid
  /-- `cond->waiters`; the `semaphore_elem` of a thread stands for itself. -/
  cond : Cid → List Tid
  /-- `waiter.semaphore` of a thread's `cond_wait`. -/
  condSema : Tid → Semaphore Tid
  place : Tid → SchedPlace Lid Sid Cid
  /-- `ready_list`. -/
  ready : List Tid
  /-- The running thread; `none` is the idle thread. -/
  running : Option Tid
  /-- `sleep_que`, each thread with its `wakeup_tick`. -/
  sleepQue : List (Tid × Int)
  ticks : Int
  /-- `thread_ticks`, the ticks since the last yield. -/
  threadTicks : Nat

/-- An operation of the running thread, or a timer interrupt. -/
inductive SchedStep (Tid Lid Sid Cid : Type) where
  | semaDown (sema : Sid)
  | semaTryDown (sema : Sid)
  | semaUp (sema : Sid)
  | lockAcquire (lock : Lid)
  | lockTryAcquire (lock : Lid)
  | lockRelease (lock : Lid)
  | condWait (cond : Cid) (lock : Lid)
  | condSignal (cond : Cid) (lock : Lid)
  | condBroadcast (cond : Cid) (lock : Lid)
  | threadCreate (u : Tid) (priority : Int)
  | setPriority (priority : Int)
  | timerSleep (ticks : Int)
  | yield
  | exit
  /-- The running thread goes on inside an operation. -/
  | resume
  /-- `timer_interrupt`. -/
  | tick
deriving DecidableEq

/-- `heap_push (&sleep_que, ...)`. -/
def sleepPush {Tid : Type} (t : Tid) (wakeup : Int) : List (Tid × Int) → List (Tid × Int)
  | [] => [(t, wakeup)]
  | x :: rest => if x.2 ≤ wakeup then x :: sleepPush t wakeup rest else (t, wakeup) :: x :: rest

namespace Sched

variable {Tid Lid Sid Cid : Type} [DecidableEq Tid] [DecidableEq Lid] [DecidableEq Sid]
  [DecidableEq Cid] (s : Sched Tid Lid Sid Cid)

/-- `thread_get_priority` of a thread. -/
def effective (t : Tid) : Int := (s.locks.thread t).effective

def setPlace (t : Tid) (place : SchedPlace Lid Sid Cid) : Sched Tid Lid Sid Cid :=
  { s with place := update s.place t place }

/-! ## The ready list -/

/-- `thread_list_max` of a list that may be empty. -/
def maxOf : List Tid → Option Tid
  | [] => none
  | first :: rest => some (threadListMax s.locks.thread first rest)

/-- `schedule` with `next_thread_to_run` and `thread_schedule_tail` (`thread.c:561-635`). -/
def schedule : Sched Tid Lid Sid Cid :=
  match s.maxOf s.ready with
  | none => { s with running := none, threadTicks := 0 }
  | some m => { s with running := some m, ready := s.ready.erase m, threadTicks := 0 }

/-- `thread_yield` (`thread.c:318-333`) of a thread other than the idle thread. -/
def yield (t : Tid) : Sched Tid Lid Sid Cid := { s with ready := s.ready ++ [t] }.schedule

/-- `thread_unblock (u)`, and `thread_yield` if `u` has a higher priority than the running
    thread `t`. -/
def unblock (t u : Tid) : Sched Tid Lid Sid Cid :=
  let s := { s with ready := s.ready ++ [u] }
  if s.effective t < s.effective u then s.yield t else s

/-- The same for the thread that `sema_up` takes out of the waiters, if there is one. -/
def wake (t : Tid) : Option Tid → Sched Tid Lid Sid Cid
  | none => s
  | some u => s.unblock t u

/-! ## Semaphores -/

/-- A semaphore after `sema_up` (`synch.c:124-131`), and the waiter that is unblocked. -/
def raise (sema : Semaphore Tid) : Option Tid × Semaphore Tid :=
  match s.maxOf sema.waiters with
  | none => (none, { sema with value := sema.value + 1 })
  | some m => (some m, { value := sema.value + 1, waiters := sema.waiters.erase m })

def setSema (sema : Sid) (after : Semaphore Tid) : Sched Tid Lid Sid Cid :=
  { s with sema := update s.sema sema after }

def setCondSema (w : Tid) (after : Semaphore Tid) : Sched Tid Lid Sid Cid :=
  { s with condSema := update s.condSema w after }

/-- One turn of the loop of `sema_down` (`synch.c:73-89`). -/
def semaDown (t : Tid) (sema : Sid) : Sched Tid Lid Sid Cid :=
  if (s.sema sema).value = 0 then
    ((s.setSema sema { s.sema sema with waiters := (s.sema sema).waiters ++ [t] }).setPlace t
      (.down sema)).schedule
  else
    (s.setSema sema { s.sema sema with value := (s.sema sema).value - 1 }).setPlace t .outside

/-- `sema_try_down` (`synch.c:91-110`). -/
def semaTryDown (sema : Sid) : Sched Tid Lid Sid Cid :=
  if (s.sema sema).value = 0 then s
  else s.setSema sema { s.sema sema with value := (s.sema sema).value - 1 }

/-- `sema_up` (`synch.c:116-136`). -/
def semaUp (t : Tid) (sema : Sid) : Sched Tid Lid Sid Cid :=
  let (m, after) := s.raise (s.sema sema)
  (s.setSema sema after).wake t m

/-! ## Locks -/

/-- A thread that has tried to take a lock has it, or waits. -/
def settle (t : Tid) (locks : LockState Tid (Option Lid)) : Sched Tid Lid Sid Cid :=
  if (locks.thread t).status = .runnable then { s with locks }.setPlace t .outside
  else ({ s with locks }.setPlace t .locking).schedule

/-- `lock_acquire` (`synch.c:205-224`). -/
def lockAcquire (t : Tid) (lock : Lid) : Option (Sched Tid Lid Sid Cid) := do
  let locks ← s.locks.next (.acquire t (some lock))
  some (s.settle t locks)

/-- `lock_try_acquire` (`synch.c:231-253`). -/
def lockTryAcquire (t : Tid) (lock : Lid) : Option (Sched Tid Lid Sid Cid) := do
  let locks ← s.locks.next (.tryAcquire t (some lock))
  some { s with locks }

/-- The waiter that `lock_release` unblocks. -/
def lockWaiter (t : Tid) (lock : Option Lid) : Option Tid :=
  ({ s with locks := s.locks.detach t lock } : Sched Tid Lid Sid Cid).maxOf
    (s.locks.lock lock).waiters

/-- `lock_release` (`synch.c:260-294`). -/
def lockRelease (t : Tid) (lock : Option Lid) : Option (Sched Tid Lid Sid Cid) := do
  let locks ← s.locks.next (.release t lock)
  some ({ s with locks }.wake t (s.lockWaiter t lock))

/-! ## Condition variables -/

/-- `condvar_less` (`synch.c:325-336`). -/
def condvarLess (a b : Tid) : Option Bool := do
  let ta ← s.maxOf (s.condSema a).waiters
  let tb ← s.maxOf (s.condSema b).waiters
  some (decide (s.effective ta < s.effective tb))

/-- `cond_wait` (`synch.c:367-387`) up to the return of `lock_release`. -/
def condWait (t : Tid) (cond : Cid) (lock : Lid) : Option (Sched Tid Lid Sid Cid) :=
  (({ s with cond := update s.cond cond (s.cond cond ++ [t]) }.setCondSema t
    ⟨0, []⟩).setPlace t (.waiting lock)).lockRelease t (some lock)

/-- The rest of `cond_wait`: `sema_down`, and `lock_acquire` once it returns. -/
def condSleep (t : Tid) (lock : Lid) : Option (Sched Tid Lid Sid Cid) :=
  let sema := s.condSema t
  if sema.value = 0 then
    some (s.setCondSema t { sema with waiters := sema.waiters ++ [t] }).schedule
  else (s.setCondSema t { sema with value := sema.value - 1 }).lockAcquire t lock

/-- `cond_signal` (`synch.c:397-414`). -/
def condSignal (t : Tid) (cond : Cid) (lock : Lid) : Option (Sched Tid Lid Sid Cid) :=
  if (s.locks.lock (some lock)).holder = some t then
    match s.cond cond with
    | [] => some s
    | first :: rest => do
        let e ← listMax s.condvarLess first rest
        let (m, after) := s.raise (s.condSema e)
        some (({ s with cond := update s.cond cond ((first :: rest).erase e) }.setCondSema e
          after).wake t m)
  else none

/-- One turn of the loop of `cond_broadcast` (`synch.c:422-430`). -/
def condBroadcast (t : Tid) (cond : Cid) (lock : Lid) : Option (Sched Tid Lid Sid Cid) :=
  match s.cond cond with
  | [] => some (s.setPlace t .outside)
  | _ :: _ => (s.setPlace t (.broadcasting cond lock)).condSignal t cond lock

/-! ## Threads -/

/-- `allocate_tid` (`thread.c:646-657`), as far as its lock goes, which no thread holds between
    two operations. -/
def allocateTid (t : Tid) : Option (LockState Tid (Option Lid)) := do
  let locks ← s.locks.next (.acquire t none)
  locks.next (.release t none)

/-- `thread_create` (`thread.c:181-226`). -/
def threadCreate (t u : Tid) (priority : Int) : Option (Sched Tid Lid Sid Cid) := do
  let locks ← s.allocateTid t
  let locks ← locks.next (.create t u priority)
  some (({ s with locks }.setPlace u .outside).unblock t u)

/-- `thread_set_priority` (`thread.c:352-367`). -/
def threadSetPriority (t : Tid) (priority : Int) : Option (Sched Tid Lid Sid Cid) := do
  let locks ← s.locks.next (.setPriority t priority)
  let s := { s with locks }
  match s.maxOf s.ready with
  | none => some s
  | some m => some (if s.effective t < s.effective m then s.yield t else s)

/-- `timer_sleep` (`timer.c:98-110`). -/
def timerSleep (t : Tid) (ticks : Int) : Sched Tid Lid Sid Cid :=
  { s with sleepQue := sleepPush t (s.ticks + ticks) s.sleepQue }.schedule

/-- `timer_wakeup_threads` (`timer.c:279-292`). -/
def timerWakeupThreads : Sched Tid Lid Sid Cid :=
  { s with
    ready := s.ready ++ (s.sleepQue.takeWhile fun x => decide (x.2 ≤ s.ticks)).map Prod.fst
    sleepQue := s.sleepQue.dropWhile fun x => decide (x.2 ≤ s.ticks) }

/-! ## Steps -/

/-- An operation that the thread `t` starts. -/
def call (t : Tid) : SchedStep Tid Lid Sid Cid → Option (Sched Tid Lid Sid Cid)
  | .semaDown sema => some (s.semaDown t sema)
  | .semaTryDown sema => some (s.semaTryDown sema)
  | .semaUp sema => some (s.semaUp t sema)
  | .lockAcquire lock => s.lockAcquire t lock
  | .lockTryAcquire lock => s.lockTryAcquire t lock
  | .lockRelease lock => s.lockRelease t (some lock)
  | .condWait cond lock => s.condWait t cond lock
  | .condSignal cond lock => s.condSignal t cond lock
  | .condBroadcast cond lock => s.condBroadcast t cond lock
  | .threadCreate u priority => s.threadCreate t u priority
  | .setPriority priority => s.threadSetPriority t priority
  | .timerSleep ticks => some (s.timerSleep t ticks)
  | .yield => some (s.yield t)
  | .exit => some s.schedule
  | .resume => none
  | .tick => none

/-- The thread `t` goes on where it was. -/
def goOn (t : Tid) : Option (Sched Tid Lid Sid Cid) :=
  match s.place t with
  | .outside => none
  | .down sema => some (s.semaDown t sema)
  | .locking => do
      let locks ← s.locks.next (.resume t)
      some (s.settle t locks)
  | .waiting lock => s.condSleep t lock
  | .broadcasting cond lock => s.condBroadcast t cond lock

/-- One thread runs, all others are still to be created, and nothing is held or waited for. -/
structure Initial (s : Sched Tid Lid Sid Cid) : Prop where
  locks : s.locks.Initial
  main : ∃ t, s.running = some t ∧ (s.locks.thread t).status = .runnable ∧
    ∀ u, u ≠ t → (s.locks.thread u).status = .absent
  sema : ∀ x, (s.sema x).waiters = []
  cond : ∀ c, s.cond c = []
  condSema : ∀ t, (s.condSema t).waiters = []
  place : ∀ t, s.place t = .outside
  ready : s.ready = []
  sleepQue : s.sleepQue = []

end Sched

end Pintos
