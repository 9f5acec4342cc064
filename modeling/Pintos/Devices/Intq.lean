import Pintos.Devices.Block
import Pintos.Misc.Ring
import Pintos.Threads.Semaphore

/-!
# Interrupt queues

Model of `src/devices/intq.c`, with the lock of the queue as far as `lock_acquire` and
`lock_release` of `src/threads/synch.c` go into its semaphore and its holder. Interrupts are off in
these functions, so a thread that calls them runs until it sleeps, in `lock_acquire` or in `_wait`,
or until the `sema_up` of `lock_release` yields to a thread with a higher priority; `place` says
where it goes on. In between, other threads run and interrupt handlers call the queue.
-/

namespace Pintos

/-- `INTQ_BUFSIZE` (`intq.h:21`). -/
abbrev intqBufsize : Nat := 64

/-- A call of `intq_getc` or `intq_putc`. -/
inductive IntqCall where
  | getc
  | putc (byte : Byte)
  deriving DecidableEq

/-- Where a thread goes on when it runs. -/
inductive IntqPlace where
  | outside
  /-- In the waiters of the lock. -/
  | acquiring (call : IntqCall)
  /-- Unblocked by `sema_up`, has not tested the value of the lock's semaphore since. -/
  | woken (call : IntqCall)
  /-- Blocked in `_wait`. -/
  | waiting (call : IntqCall)
  /-- Unblocked by `_signal`, has not run since. -/
  | signalled (call : IntqCall)
  /-- In `lock_release`, after `sema_up` has yielded. -/
  | released (call : IntqCall)
  deriving DecidableEq

/-- The thread was unblocked, or has yielded. -/
def IntqPlace.Ready : IntqPlace → Prop
  | .woken _ | .signalled _ | .released _ => True
  | .outside | .acquiring _ | .waiting _ => False

instance (place : IntqPlace) : Decidable place.Ready := by
  unfold IntqPlace.Ready
  cases place <;> infer_instance

/-- `struct intq` (`intq.h:24-35`) and the threads that use it. The last two fields are not in the
    source: the bytes that were put in and taken out so far. -/
structure Intq (Tid : Type) where
  buf : Nat → Byte
  head : Nat
  tail : Nat
  notFull : Option Tid
  notEmpty : Option Tid
  /-- `lock.semaphore`. -/
  lockValue : Nat
  lockWaiters : List Tid
  /-- `lock.holder`. -/
  lockHolder : Option Tid
  place : Tid → IntqPlace
  sent : List Byte
  received : List Byte

inductive IntqStep (Tid : Type) where
  /-- A thread calls the queue. -/
  | call (t : Tid) (call : IntqCall)
  /-- A thread goes on inside a call; `priority` are the effective priorities of the threads. -/
  | resume (t : Tid) (priority : Tid → Int)
  /-- An interrupt handler calls the queue. -/
  | interrupt (call : IntqCall)

namespace Intq

variable {Tid : Type} [DecidableEq Tid] (q : Intq Tid)

/-- `intq_empty` (`intq.c:18-24`). -/
def Empty : Prop := q.head = q.tail

/-- `intq_full` (`intq.c:26-32`). -/
def Full : Prop := ringNext intqBufsize q.head = q.tail

instance : Decidable q.Empty := inferInstanceAs (Decidable (_ = _))

instance : Decidable q.Full := inferInstanceAs (Decidable (_ = _))

/-- The condition under which a call waits. -/
def Stuck : IntqCall → Prop
  | .getc => q.Empty
  | .putc _ => q.Full

instance (call : IntqCall) : Decidable (q.Stuck call) := by
  unfold Stuck
  cases call <;> infer_instance

def setPlace (t : Tid) (place : IntqPlace) : Intq Tid :=
  { q with place := Function.update q.place t place }

/-- `_wait` (`intq.c:84-96`) for the condition of a call. -/
def wait (t : Tid) (call : IntqCall) : Option (Intq Tid) :=
  if q.Stuck call then
    match call with
    | .getc => some ({ q with notEmpty := some t }.setPlace t (.waiting call))
    | .putc _ => some ({ q with notFull := some t }.setPlace t (.waiting call))
  else none

/-- `thread_unblock` of a thread in `_wait`, which must be blocked. -/
def unblock (u : Tid) : Option (Intq Tid) :=
  match q.place u with
  | .waiting call => some (q.setPlace u (.signalled call))
  | _ => none

/-- `_signal (q, &q->not_empty)` (`intq.c:98-114`). -/
def signalNotEmpty : Option (Intq Tid) :=
  if q.Empty then none
  else
    match q.notEmpty with
    | none => some q
    | some u => do
        let q ← q.unblock u
        some { q with notEmpty := none }

/-- `_signal (q, &q->not_full)`. -/
def signalNotFull : Option (Intq Tid) :=
  if q.Full then none
  else
    match q.notFull with
    | none => some q
    | some u => do
        let q ← q.unblock u
        some { q with notFull := none }

/-- `intq_getc` and `intq_putc` after their loops (`intq.c:51-54` and `72-74`). -/
def transfer : IntqCall → Option (Intq Tid)
  | .getc =>
      { q with
        tail := ringNext intqBufsize q.tail
        received := q.received ++ [q.buf q.tail] }.signalNotFull
  | .putc byte =>
      { q with
        buf := Function.update q.buf q.head byte
        head := ringNext intqBufsize q.head
        sent := q.sent ++ [byte] }.signalNotEmpty

/-- One turn of the loop of `sema_down` in `lock_acquire`, and `_wait` with the lock. -/
def lockTurn (t : Tid) (call : IntqCall) : Option (Intq Tid) :=
  if q.lockValue = 0 then
    some ({ q with lockWaiters := q.lockWaiters ++ [t] }.setPlace t (.acquiring call))
  else { q with lockValue := q.lockValue - 1, lockHolder := some t }.wait t call

/-- `intq_getc` and `intq_putc` from the test of their loops on (`intq.c:43-54` and `64-74`). -/
def loop (t : Tid) (call : IntqCall) : Option (Intq Tid) :=
  if q.Stuck call then
    -- `ASSERT (!lock_held_by_current_thread (lock))`
    if q.lockHolder = some t then none else q.lockTurn t call
  else do
    let q ← q.transfer call
    some (q.setPlace t .outside)

/-- `lock_release` up to its `sema_up`, which takes the first of the waiters with the highest
    priority. -/
def lockRelease (t : Tid) (priority : Tid → Int) : Option (Option Tid × Intq Tid) :=
  if q.lockHolder = some t then
    match q.lockWaiters with
    | [] => some (none, { q with lockHolder := none, lockValue := q.lockValue + 1 })
    | first :: rest => do
        let m ← listMax (SemaRun.threadLess priority) first rest
        match q.place m with
        | .acquiring call =>
            some (some m, { q with
              lockHolder := none
              lockValue := q.lockValue + 1
              lockWaiters := (first :: rest).erase m }.setPlace m (.woken call))
        | _ => none
  else none

/-- The thread goes on in a call. -/
def goOn (t : Tid) (priority : Tid → Int) : Option (Intq Tid) :=
  match q.place t with
  | .woken call => q.lockTurn t call
  | .signalled call => do
      let (woken, q) ← q.lockRelease t priority
      -- `sema_up` yields if the thread that it woke has a higher priority
      if ∃ m ∈ woken, priority t < priority m then some (q.setPlace t (.released call))
      else q.loop t call
  | .released call => q.loop t call
  | _ => none

/-- A step to its end; `none` is a failed assertion. -/
def act : IntqStep Tid → Option (Intq Tid)
  | .call t call => q.loop t call
  | .resume t priority => q.goOn t priority
  | .interrupt call => q.transfer call

/-- The step can be taken. Interrupt handlers look first whether they would have to wait. -/
def Enabled : IntqStep Tid → Prop
  | .call t _ => q.place t = .outside
  | .resume t _ => (q.place t).Ready
  | .interrupt call => ¬ q.Stuck call

instance (step : IntqStep Tid) : Decidable (q.Enabled step) := by
  unfold Enabled
  cases step <;> infer_instance

def next (step : IntqStep Tid) : Option (Intq Tid) := if q.Enabled step then q.act step else none

/-- `intq_init` (`intq.c:9-16`). -/
structure Initial (q : Intq Tid) : Prop where
  head : q.head = 0
  tail : q.tail = 0
  notFull : q.notFull = none
  notEmpty : q.notEmpty = none
  lockValue : q.lockValue = 1
  lockWaiters : q.lockWaiters = []
  lockHolder : q.lockHolder = none
  place : ∀ t, q.place t = .outside
  sent : q.sent = []
  received : q.received = []

/-- The bytes in the queue, in the order in which they were put in. -/
def contents : List Byte := ringContents intqBufsize q.buf q.head q.tail

/-- A thread that has to wait finds the lock free: no other thread is in `_wait` or on its way
    out. -/
def Alone (q : Intq Tid) : IntqStep Tid → Prop
  | .call _ call => q.Stuck call → q.lockValue ≠ 0
  | _ => True

instance (step : IntqStep Tid) : Decidable (q.Alone step) := by
  unfold Alone
  cases step <;> infer_instance

end Intq

end Pintos
