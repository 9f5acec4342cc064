import Mathlib.Data.BitVec
import Pintos.Lib.List
import Pintos.Misc.Transition

/-!
# Semaphores under any interleaving

Model of `sema_down`, `sema_try_down` and `sema_up` (`src/threads/synch.c:68-136`) on one
semaphore, and of `lock_acquire`, `lock_try_acquire` and `lock_release`
(`src/threads/synch.c:207-294`) on one lock, as far as the semaphore and the holder go. Interrupts
are off in them except where a thread sleeps, so a step goes from one such point to the next. Any
thread that is not asleep may take the next step: a thread that `sema_up` has unblocked tests the
value again when it runs, and other threads may come first. Effective priorities are those that
the threads have when `sema_up` looks at them.

`none` is a failed assertion, or a step that cannot be taken.
-/

namespace Pintos

/-- `++` on an `unsigned`. -/
def incUnsigned (v : Nat) : Nat := if v = 0xffffffff then 0 else v + 1

/-- `--` on an `unsigned`. -/
def decUnsigned (v : Nat) : Nat := if v = 0 then 0xffffffff else v - 1

/-- `struct semaphore` (`synch.h:9-13`) and the threads that it has put to sleep. The last fields
    are not in the source: the argument of `sema_init` and the calls that were completed. -/
structure SemaRun (Tid : Type) where
  value : Nat
  waiters : List Tid
  /-- Threads that `sema_up` has unblocked and that have not tested the value since. -/
  woken : List Tid
  initial : Nat
  ups : Nat
  downs : Nat

inductive SemaCall (Tid : Type) where
  | down (t : Tid)
  /-- A thread that was unblocked goes on in the loop of `sema_down`. -/
  | resume (t : Tid)
  /-- By a thread or an interrupt handler. -/
  | tryDown
  /-- By a thread or an interrupt handler, with the effective priorities of the threads. -/
  | up (priority : Tid → Int)

namespace SemaRun

variable {Tid : Type} [DecidableEq Tid] (s : SemaRun Tid)

/-- `sema->value--`, and the call is completed. -/
def take : SemaRun Tid := { s with value := decUnsigned s.value, downs := s.downs + 1 }

/-- One turn of the loop of `sema_down` (`synch.c:77-82`), and whether it is the last one. -/
def semaDown (t : Tid) : Bool × SemaRun Tid :=
  if s.value = 0 then (false, { s with waiters := s.waiters ++ [t] }) else (true, s.take)

/-- `sema_try_down` (`synch.c:91-110`). -/
def semaTryDown : Bool × SemaRun Tid := if 0 < s.value then (true, s.take) else (false, s)

/-- `thread_less` (`thread.c:682-690`) with its assertion. -/
def threadLess (priority : Tid → Int) (a b : Tid) : Option Bool :=
  if a = b then none else some (decide (priority a < priority b))

/-- `sema_up` (`synch.c:116-136`). -/
def semaUp (priority : Tid → Int) : Option (SemaRun Tid) :=
  match s.waiters with
  | [] => some { s with value := incUnsigned s.value, ups := s.ups + 1 }
  | first :: rest => do
      let m ← listMax (threadLess priority) first rest
      some { s with
        value := incUnsigned s.value
        waiters := (first :: rest).erase m
        woken := m :: s.woken
        ups := s.ups + 1 }

/-- The thread is not inside `sema_down`. -/
def Outside (t : Tid) : Prop := t ∉ s.waiters ∧ t ∉ s.woken

instance (t : Tid) : Decidable (s.Outside t) := inferInstanceAs (Decidable (_ ∧ _))

/-- The thread that was unblocked runs. -/
def retest (t : Tid) : Bool × SemaRun Tid := { s with woken := s.woken.erase t }.semaDown t

def next : SemaCall Tid → Option (SemaRun Tid)
  | .down t => if s.Outside t then some (s.semaDown t).2 else none
  | .resume t => if t ∈ s.woken then some (s.retest t).2 else none
  | .tryDown => some s.semaTryDown.2
  | .up priority => s.semaUp priority

/-- `sema_init` (`synch.c:52-59`). -/
structure Initial (s : SemaRun Tid) : Prop where
  value : s.value = s.initial
  unsigned : s.initial < 0x100000000
  waiters : s.waiters = []
  woken : s.woken = []
  ups : s.ups = 0
  downs : s.downs = 0

/-- `sema_up` does not find the largest `unsigned`. -/
def NoWrap (s : SemaRun Tid) : SemaCall Tid → Prop
  | .up _ => s.value + 1 < 0x100000000
  | _ => True

instance (call : SemaCall Tid) : Decidable (s.NoWrap call) := by
  unfold NoWrap
  cases call <;> infer_instance

end SemaRun

/-! ## Locks -/

/-- Where a thread is in the functions of the lock. -/
inductive LockPhase where
  | outside
  /-- In `lock_acquire`, in the loop of `sema_down`. -/
  | acquiring
  /-- In `lock_acquire` or `lock_try_acquire` after the value was taken. -/
  | taking
  /-- The lock was acquired and not released since. -/
  | holding
  /-- In `lock_release` before `sema_up`. -/
  | releasing
  deriving DecidableEq

/-- `struct lock` (`synch.h:21-26`) and the threads that use it. -/
structure LockRun (Tid : Type) where
  sema : SemaRun Tid
  holder : Option Tid
  phase : Tid → LockPhase

inductive LockCall (Tid : Type) where
  | acquire (t : Tid)
  /-- A thread that was unblocked goes on in the loop of `sema_down`. -/
  | resume (t : Tid)
  | tryAcquire (t : Tid)
  /-- `lock->holder` is set, and the call returns (`synch.c:220-223`). -/
  | acquired (t : Tid)
  /-- `lock_release` up to `sema_up` (`synch.c:261-291`). -/
  | release (t : Tid)
  /-- The `sema_up` of `lock_release`. -/
  | released (t : Tid) (priority : Tid → Int)

namespace LockRun

variable {Tid : Type} [DecidableEq Tid] (s : LockRun Tid)

def setPhase (t : Tid) (phase : LockPhase) : LockRun Tid :=
  { s with phase := Function.update s.phase t phase }

/-- The caller has the value, or does not. -/
def settle (t : Tid) (outcome : Bool × SemaRun Tid) (otherwise : LockPhase) : LockRun Tid :=
  { s with sema := outcome.2 }.setPhase t (if outcome.1 then .taking else otherwise)

def next : LockCall Tid → Option (LockRun Tid)
  | .acquire t =>
      -- `ASSERT (!lock_held_by_current_thread (lock))`
      if s.phase t = .outside ∧ s.holder ≠ some t then
        some (s.settle t (s.sema.semaDown t) .acquiring)
      else none
  | .resume t =>
      if s.phase t = .acquiring ∧ t ∈ s.sema.woken then
        some (s.settle t (s.sema.retest t) .acquiring)
      else none
  | .tryAcquire t =>
      if s.phase t = .outside ∧ s.holder ≠ some t then
        some (s.settle t s.sema.semaTryDown .outside)
      else none
  | .acquired t =>
      if s.phase t = .taking then some ({ s with holder := some t }.setPhase t .holding) else none
  | .release t =>
      -- `ASSERT (lock_held_by_current_thread (lock))`
      if (s.phase t = .outside ∨ s.phase t = .holding) ∧ s.holder = some t then
        some ({ s with holder := none }.setPhase t .releasing)
      else none
  | .released t priority =>
      if s.phase t = .releasing then do
        let sema ← s.sema.semaUp priority
        some ({ s with sema }.setPhase t .outside)
      else none

/-- `lock_init` (`synch.c:190-197`). -/
structure Initial (s : LockRun Tid) : Prop where
  sema : s.sema.Initial
  one : s.sema.initial = 1
  holder : s.holder = none
  phase : ∀ t, s.phase t = .outside

end LockRun

end Pintos
