import Mathlib.Data.List.Nodup
import Pintos.Lib.List

/-!
# Condition variables

Model of `cond_wait`, `cond_signal` and `cond_broadcast` (`src/threads/synch.c:318-430`)
on one condition variable and its lock. `cond_wait` is cut at its four calls: it
registers itself in `cond->waiters`, releases the lock, sleeps on a semaphore of its
own and acquires the lock again. Any thread that is not blocked may take the next
step, so a thread that is preempted in `lock_release` stays where it is while others
run. Effective priorities may change at any time. `none` is a failed assertion, or a
step that the thread cannot take now.
-/

namespace Pintos

/-- `struct semaphore` (`synch.h:9-13`). -/
structure Semaphore (Tid : Type) where
  value : Nat
  waiters : List Tid

/-- Where a thread is in the functions of the condition variable. -/
inductive CondPhase where
  | outside
  /-- In `cond_wait` after `list_push_back`. -/
  | registered
  /-- In `cond_wait` after `lock_release`, before `sema_down`. -/
  | released
  /-- Blocked in `sema_down`. -/
  | asleep
  /-- Unblocked by `sema_up`, has not run since. -/
  | woken
  /-- In `cond_wait` after `sema_down`. -/
  | reacquiring
  /-- In the loop of `cond_broadcast`. -/
  | broadcasting
  deriving DecidableEq

/-- The condition variable, its lock and the threads. -/
structure CondState (Tid : Type) where
  /-- The effective priorities that `thread_less` compares. -/
  priority : Tid → Int
  /-- `lock->holder`. -/
  holder : Option Tid
  /-- `cond->waiters`; the `semaphore_elem` of a thread stands for itself. -/
  waiters : List Tid
  /-- `waiter.semaphore` of a thread's `cond_wait`. -/
  sema : Tid → Semaphore Tid
  phase : Tid → CondPhase

namespace CondState

variable {Tid : Type} [DecidableEq Tid] (s : CondState Tid)

/-- `thread_less` (`thread.c:682-690`). -/
def threadLess (a b : Tid) : Bool := s.priority a < s.priority b

/-- `thread_list_max` (`thread.c:703-713`), whose argument must not be empty. -/
def threadListMax : List Tid → Option Tid
  | [] => none
  | first :: rest => listMax (fun a b => some (s.threadLess a b)) first rest

/-- `condvar_less` (`synch.c:325-336`). -/
def condvarLess (a b : Tid) : Option Bool := do
  let ta ← s.threadListMax (s.sema a).waiters
  let tb ← s.threadListMax (s.sema b).waiters
  some (s.threadLess ta tb)

/-- Replace the semaphore of one `cond_wait`. -/
def setSema (t : Tid) (sema : Semaphore Tid) : CondState Tid :=
  { s with sema := Function.update s.sema t sema }

/-- Move one thread. -/
def setPhase (t : Tid) (phase : CondPhase) : CondState Tid :=
  { s with phase := Function.update s.phase t phase }

/-- One turn of the loop of `sema_down` (`synch.c:73-86`) on the thread's semaphore. -/
def semaDown (t : Tid) : CondState Tid :=
  if (s.sema t).value = 0 then
    (s.setSema t { s.sema t with waiters := (s.sema t).waiters ++ [t] }).setPhase t .asleep
  else (s.setSema t { s.sema t with value := (s.sema t).value - 1 }).setPhase t .reacquiring

/-- `sema_up` (`synch.c:116-136`) of the semaphore of `t`'s `cond_wait`. -/
def semaUp (t : Tid) : Option (CondState Tid) :=
  match (s.sema t).waiters with
  | [] => some (s.setSema t { value := (s.sema t).value + 1, waiters := [] })
  | first :: rest => do
      let m ← s.threadListMax (first :: rest)
      some ((s.setSema t { value := (s.sema t).value + 1
                           waiters := (first :: rest).erase m }).setPhase m .woken)

/-- `cond_signal` (`synch.c:397-414`) by the holder of the lock. -/
def condSignal : Option (CondState Tid) :=
  match s.waiters with
  | [] => some s
  | first :: rest => do
      let e ← listMax s.condvarLess first rest
      ({ s with waiters := (first :: rest).erase e }).semaUp e

/-- The thread may call `cond_signal`: it holds the lock. -/
def MaySignal (t : Tid) : Prop :=
  s.holder = some t ∧ (s.phase t = .outside ∨ s.phase t = .broadcasting)

instance (t : Tid) : Decidable (s.MaySignal t) := inferInstanceAs (Decidable (_ ∧ _))

end CondState

inductive CondStep (Tid : Type) where
  /-- `lock_acquire` outside of `cond_wait`, when it gets the lock. -/
  | lockAcquire (t : Tid)
  /-- `lock_release` outside of `cond_wait`. -/
  | lockRelease (t : Tid)
  /-- `cond_wait` up to `list_push_back`. -/
  | condWait (t : Tid)
  /-- The `lock_release` of `cond_wait`. -/
  | condRelease (t : Tid)
  /-- The `sema_down` of `cond_wait`, until it returns or blocks. -/
  | condSleep (t : Tid)
  /-- A thread that was unblocked goes on in `sema_down`. -/
  | condResume (t : Tid)
  /-- The `lock_acquire` of `cond_wait`, when it gets the lock; `cond_wait` returns. -/
  | condReturn (t : Tid)
  | condSignal (t : Tid)
  /-- `cond_broadcast` starts; each turn of its loop is a `condSignal`. -/
  | condBroadcast (t : Tid)
  /-- `cond_broadcast` finds the list empty and returns. -/
  | broadcastDone (t : Tid)
  /-- A donation, `thread_set_priority` or the like. -/
  | setPriority (t : Tid) (priority : Int)

namespace CondState

variable {Tid : Type} [DecidableEq Tid]

def next (s : CondState Tid) : CondStep Tid → Option (CondState Tid)
  | .lockAcquire t =>
      if s.phase t = .outside ∧ s.holder = none then some { s with holder := some t } else none
  | .lockRelease t =>
      if s.phase t = .outside ∧ s.holder = some t then some { s with holder := none } else none
  | .condWait t =>
      if s.phase t = .outside ∧ s.holder = some t then
        some (({ s with waiters := s.waiters ++ [t] }.setSema t ⟨0, []⟩).setPhase t .registered)
      else none
  | .condRelease t =>
      if s.phase t = .registered then some ({ s with holder := none }.setPhase t .released) else none
  | .condSleep t => if s.phase t = .released then some (s.semaDown t) else none
  | .condResume t => if s.phase t = .woken then some (s.semaDown t) else none
  | .condReturn t =>
      if s.phase t = .reacquiring ∧ s.holder = none then
        some ({ s with holder := some t }.setPhase t .outside)
      else none
  | .condSignal t => if s.MaySignal t then s.condSignal else none
  | .condBroadcast t =>
      if s.phase t = .outside ∧ s.holder = some t then some (s.setPhase t .broadcasting) else none
  | .broadcastDone t =>
      if s.phase t = .broadcasting ∧ s.waiters = [] then some (s.setPhase t .outside) else none
  | .setPriority t priority =>
      some { s with priority := Function.update s.priority t priority }

/-- `cond_init`, with the lock free and no thread in `cond_wait`. -/
def Initial (s : CondState Tid) : Prop :=
  s.holder = none ∧ s.waiters = [] ∧ (∀ t, s.sema t = ⟨0, []⟩) ∧ ∀ t, s.phase t = .outside

end CondState

end Pintos
