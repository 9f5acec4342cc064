import Pintos.Threads.Scheduler
import Pintos.Threads.Semaphore

/-!
# The run queue

Model of `src/threads/thread.c` from `thread_start` on: the status of every thread, `ready_list`,
`idle_thread`, and the lists of `sema_down` (`src/threads/synch.c`) and `timer_sleep`
(`src/devices/timer.c`), into which the element of a thread goes. A step is an operation of the
running thread up to the point where it has to wait or yields, or an interrupt. Effective
priorities may change at any time.

`thread_create` is cut before `thread_unblock`, since `allocate_tid` may have to wait for its
lock. `sleep_que` is a pairing heap in the source; here it is a sorted list, with sleepers of the
same tick in the order in which they came. `none` is a failed assertion, or a step that cannot be
taken.
-/

namespace Pintos

open Function

/-- `enum thread_status` (`thread.h:18-24`). -/
inductive RunStatus where
  | running | ready | blocked | dying
  deriving DecidableEq

/-- Where a thread goes on, or why it is blocked. -/
inductive RunPlace (Sid : Type) where
  | outside
  /-- In `thread_create` of another thread, after `init_thread`. -/
  | newborn
  /-- In the loop of `sema_down`. -/
  | down (sema : Sid)
  /-- In `timer_sleep`. -/
  | asleep
  /-- In a `thread_block` of its own. -/
  | parked
  /-- At the start of `idle`. -/
  | starting
  /-- In the loop of `idle`. -/
  | idling
  deriving DecidableEq

/-- A choice of `next_thread_to_run`. -/
structure Decision (Tid : Type) where
  ready : List Tid
  priority : Tid → Int
  idle : Option Tid
  next : Tid

/-- The threads and the lists in which they are. `decisions` is not in the source. -/
structure RunQueue (Tid Sid : Type) where
  /-- The status of a thread; `none` where there is no thread. -/
  status : Tid → Option RunStatus
  place : Tid → RunPlace Sid
  /-- The effective priorities that `thread_less` compares. -/
  priority : Tid → Int
  readyList : List Tid
  idleThread : Option Tid
  initialThread : Tid
  /-- The thread on whose stack the processor runs. -/
  current : Tid
  sema : Sid → Semaphore Tid
  /-- `sleep_que`, each thread with its `wakeup_tick`. -/
  sleepQue : List (Tid × Int)
  ticks : Int
  threadTicks : Nat
  decisions : List (Decision Tid)

inductive RunStep (Tid Sid : Type) where
  /-- `thread_create` up to the end of `init_thread`. -/
  | initThread (u : Tid)
  /-- The end of `thread_create`. -/
  | startThread (u : Tid)
  | block
  | unblock (u : Tid)
  | yield
  | exit
  | semaDown (sema : Sid)
  /-- The running thread goes on in `sema_down`. -/
  | resume
  | semaUp (sema : Sid)
  /-- `sema_up` in an interrupt handler. -/
  | semaUpIntr (sema : Sid)
  | timerSleep (ticks : Int)
  /-- `timer_interrupt`. -/
  | tick
  /-- The idle thread sets `idle_thread`. -/
  | idleStart
  /-- The idle thread calls `thread_block`. -/
  | idleBlock
  /-- Priorities and donations change. -/
  | setPriorities (priority : Tid → Int)

namespace RunQueue

variable {Tid Sid : Type} [DecidableEq Tid] [DecidableEq Sid] (s : RunQueue Tid Sid)

def setStatus (t : Tid) (status : Option RunStatus) (place : RunPlace Sid) : RunQueue Tid Sid :=
  { s with status := update s.status t status, place := update s.place t place }

def setSema (sema : Sid) (after : Semaphore Tid) : RunQueue Tid Sid :=
  { s with sema := update s.sema sema after }

/-- `thread_list_max` (`thread.c:703-713`), whose argument must not be empty. -/
def threadListMax : List Tid → Option Tid
  | [] => none
  | first :: rest => listMax (SemaRun.threadLess s.priority) first rest

/-- `next_thread_to_run` (`thread.c:561-574`). -/
def nextThreadToRun : Option Tid :=
  if s.readyList = [] then s.idleThread else s.threadListMax s.readyList

/-- `schedule` (`thread.c:626-642`) with `thread_schedule_tail`, as far as the new thread goes. -/
def schedule : Option (RunQueue Tid Sid) := do
  let next ← s.nextThreadToRun
  some { s with
    status := update s.status next (some .running)
    readyList := s.readyList.erase next
    current := next
    threadTicks := 0
    decisions := ⟨s.readyList, s.priority, s.idleThread, next⟩ :: s.decisions }

/-- `thread_block` (`thread.c:234-243`). -/
def threadBlock (place : RunPlace Sid) : Option (RunQueue Tid Sid) :=
  (s.setStatus s.current (some .blocked) place).schedule

/-- Only in `sema_down` is there something to do after `thread_block`. -/
def RunPlace.awake : RunPlace Sid → RunPlace Sid
  | .down sema => .down sema
  | _ => .outside

/-- `thread_unblock` (`thread.c:252-264`). -/
def threadUnblock (u : Tid) : Option (RunQueue Tid Sid) :=
  if s.status u = some .blocked then
    some { s.setStatus u (some .ready) (RunPlace.awake (s.place u)) with
      readyList := s.readyList ++ [u] }
  else none

/-- `thread_yield` (`thread.c:319-332`). -/
def threadYield : Option (RunQueue Tid Sid) :=
  { s.setStatus s.current (some .ready) (s.place s.current) with
    readyList := if s.idleThread = some s.current then s.readyList
      else s.readyList ++ [s.current] }.schedule

/-- `thread_yield` if `u` has a higher priority than the running thread. -/
def preempt (u : Tid) : Option (RunQueue Tid Sid) := do
  if ← SemaRun.threadLess s.priority s.current u then s.threadYield else some s

/-- `thread_exit` (`thread.c:301-315`); `thread_schedule_tail` frees the page of the thread. -/
def threadExit : Option (RunQueue Tid Sid) :=
  (s.setStatus s.current (if s.current = s.initialThread then some .dying else none)
    .outside).schedule

/-- One turn of the loop of `sema_down` (`synch.c:77-82`). -/
def semaDown (sema : Sid) : Option (RunQueue Tid Sid) :=
  if (s.sema sema).value = 0 then
    (s.setSema sema { s.sema sema with
      waiters := (s.sema sema).waiters ++ [s.current] }).threadBlock (.down sema)
  else
    some ((s.setSema sema { s.sema sema with value := decUnsigned (s.sema sema).value }).setStatus
      s.current (some .running) .outside)

/-- `sema_up` (`synch.c:116-136`). -/
def semaUp (intrContext : Bool) (sema : Sid) : Option (RunQueue Tid Sid) :=
  let value := incUnsigned (s.sema sema).value
  if (s.sema sema).waiters = [] then some (s.setSema sema ⟨value, []⟩)
  else do
    let m ← s.threadListMax (s.sema sema).waiters
    let s ← (s.setSema sema ⟨value, (s.sema sema).waiters.erase m⟩).threadUnblock m
    if intrContext then some s else s.preempt m

/-- `timer_sleep` (`timer.c:98-110`). -/
def timerSleep (ticks : Int) : Option (RunQueue Tid Sid) :=
  { s with sleepQue := sleepPush s.current (s.ticks + ticks) s.sleepQue }.threadBlock .asleep

/-- The loop of `timer_wakeup_threads` (`timer.c:279-292`). -/
def timerWakeupThreads : List (Tid × Int) → RunQueue Tid Sid → Option (RunQueue Tid Sid)
  | [], s => some s
  | (t, wakeupTick) :: rest, s =>
      if s.ticks < wakeupTick then some s
      else do
        let s ← { s with sleepQue := rest }.threadUnblock t
        timerWakeupThreads rest s

/-- `timer_interrupt` (`timer.c:182-196`) with `thread_tick`, and the yield on return. -/
def timerInterrupt : Option (RunQueue Tid Sid) := do
  let s ← timerWakeupThreads s.sleepQue
    { s with ticks := s.ticks + 1, threadTicks := s.threadTicks + 1 }
  if timeSlice ≤ s.threadTicks then s.threadYield else some s

/-- An operation of the running thread. -/
def call : RunStep Tid Sid → Option (RunQueue Tid Sid)
  | .initThread u =>
      if s.status u = none then some (s.setStatus u (some .blocked) .newborn) else none
  | .startThread u =>
      if s.place u = .newborn then do
        let s ← s.threadUnblock u
        s.preempt u
      else none
  | .block => s.threadBlock .parked
  | .yield => s.threadYield
  | .exit => s.threadExit
  | .semaDown sema => s.semaDown sema
  | .semaUp sema => s.semaUp false sema
  | .timerSleep ticks => s.timerSleep ticks
  | _ => none

/-- `idle` (`thread.c:425-433`). -/
def idle : RunStep Tid Sid → Option (RunQueue Tid Sid)
  | .idleBlock => s.threadBlock .idling
  | .semaUp sema => s.semaUp false sema
  | _ => none

def next (step : RunStep Tid Sid) : Option (RunQueue Tid Sid) :=
  match step, s.place s.current with
  | .tick, _ => s.timerInterrupt
  | .semaUpIntr sema, _ => s.semaUp true sema
  | .unblock u, _ => s.threadUnblock u
  | .setPriorities priority, _ => some { s with priority }
  | .resume, .down sema => s.semaDown sema
  | .idleStart, .starting =>
      some { s.setStatus s.current (some .running) .idling with idleThread := some s.current }
  | step, .idling => s.idle step
  | step, .outside => s.call step
  | _, _ => none

/-- `thread_unblock` itself is called for threads that called `thread_block` themselves, as the
    input queue of a device does. -/
def OwnBlock (s : RunQueue Tid Sid) : RunStep Tid Sid → Prop
  | .unblock u => s.place u = .parked
  | _ => True

instance (s : RunQueue Tid Sid) (step : RunStep Tid Sid) : Decidable (s.OwnBlock step) := by
  unfold OwnBlock
  apply @RunStep.casesOn _ _ _ step <;> intros <;> infer_instance

/-- In `thread_start` after `thread_create`: the initial thread runs and the thread that is to
    call `idle` is ready. -/
structure Initial (s : RunQueue Tid Sid) : Prop where
  threads : ∃ idle, idle ≠ s.current ∧ s.readyList = [idle] ∧
    (∀ t, s.status t = if t = s.current then some .running else
      if t = idle then some .ready else none) ∧
    ∀ t, s.place t = if t = idle then .starting else .outside
  idleThread : s.idleThread = none
  initialThread : s.initialThread = s.current
  sema : ∀ x, (s.sema x).waiters = []
  sleepQue : s.sleepQue = []
  decisions : s.decisions = []

end RunQueue

end Pintos
