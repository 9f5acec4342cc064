import Mathlib.Data.Int.ConditionallyCompleteOrder
import Mathlib.Data.Rat.Floor
import Pintos.Lib.Fixed
import Pintos.Threads.Scheduler

/-!
# The multi-level feedback queue scheduler

Model of `src/threads/thread.c` with `thread_mlfqs` set: `thread_tick`, `thread_calc_load_avg`,
`thread_calc_recent_cpu`, `calc_mlfq_priority` and `thread_set_nice`, on top of the model of the
priority scheduler. The locks still donate priorities. `none` is a failed assertion, a division
by zero, or a step that cannot be taken.
-/

namespace Pintos

open Function

/-- `TIMER_FREQ` (`timer.h:8`). -/
def timerFreq : Int := 100

/-- `calc_mlfq_priority` (`thread.c:720-733`) of a thread other than the idle thread. -/
def calcMlfqPriority (recentCpu nice : Int) : Int :=
  max (min (priMax - fpToInt (fpDivInt recentCpu 4) - nice * 2) priMax) priMin

/-- The priority as `doc/44bsd.texi` gives it: the exact value of the formula, rounded down and
    put into the range. -/
def specifiedPriority (recentCpu nice : Int) : Int :=
  max priMin (min priMax ⌊(priMax : ℚ) - recentCpu / fptF / 4 - nice * 2⌋)

section

variable (fit : Int → Option Int)

/-- `thread_calc_load_avg` (`thread.c:747-755`) with this many threads ready or running. -/
def calcLoadAvg (loadAvg readyThreads : Int) : Option Int := do
  let readyThreads ← intToFp fit readyThreads
  let k1 ← fpDiv fit (← intToFp fit 59) (← intToFp fit 60)
  let k2 ← fpDiv fit (← intToFp fit 1) (← intToFp fit 60)
  fpAdd fit (← fpMul fit k1 loadAvg) (← fpMul fit k2 readyThreads)

/-- The new `recent_cpu` of `thread_calc_recent_cpu` (`thread.c:739-742`). -/
def calcRecentCpu (loadAvg recentCpu nice : Int) : Option Int := do
  let tmp ← fpDiv fit (← fpMulInt fit loadAvg 2) (← fpAddInt fit (← fpMulInt fit loadAvg 2) 1)
  fpAddInt fit (← fpMul fit tmp recentCpu) nice

end

/-- The threads with what the scheduler keeps about each of them. The idle thread is none of
    them, and `all_list` is taken without it. -/
structure Mlfqs (Tid Lid Sid Cid : Type) where
  sched : Sched Tid Lid Sid Cid
  nice : Tid → Int
  recentCpu : Tid → Int
  loadAvg : Int
  allList : List Tid

/-- An operation of the priority scheduler's model, or `thread_set_nice`. -/
inductive MlfqsStep (Tid Lid Sid Cid : Type) where
  | step (step : SchedStep Tid Lid Sid Cid)
  | setNice (nice : Int)

namespace Mlfqs

variable {Tid Lid Sid Cid : Type} [DecidableEq Tid] [DecidableEq Lid] [DecidableEq Sid]
  [DecidableEq Cid] (s : Mlfqs Tid Lid Sid Cid)

/-- `t->priority = calc_mlfq_priority (t)`. -/
def recalculate (t : Tid) : Mlfqs Tid Lid Sid Cid :=
  let priority := calcMlfqPriority (s.recentCpu t) (s.nice t)
  { s with sched := { s.sched with locks := s.sched.locks.threadSetPriority t priority } }

/-- `thread_calc_recent_cpu` (`thread.c:736-744`). -/
def threadCalcRecentCpu (t : Tid) : Option (Mlfqs Tid Lid Sid Cid) := do
  let recentCpu ← calcRecentCpu wraps s.loadAvg (s.recentCpu t) (s.nice t)
  some ({ s with recentCpu := update s.recentCpu t recentCpu }.recalculate t)

/-- `thread_calc_load_avg` (`thread.c:747-755`). -/
def threadCalcLoadAvg : Option (Mlfqs Tid Lid Sid Cid) := do
  let loadAvg ← calcLoadAvg wraps s.loadAvg
    (s.sched.ready.length + if s.sched.running = none then 0 else 1)
  some { s with loadAvg }

/-- `thread_tick` (`thread.c:136-160`), up to the test of the time slice. -/
def threadTick : Option (Mlfqs Tid Lid Sid Cid) :=
  let s := { s with sched := { s.sched with threadTicks := s.sched.threadTicks + 1 } }
  match s.sched.running with
  | none => some s
  | some t => do
      let recentCpu ← fpAddInt wraps (s.recentCpu t) 1
      some ({ s with recentCpu := update s.recentCpu t recentCpu }.recalculate t)

/-- What `timer_interrupt` does once in a second (`timer.c:189-195`). -/
def everySecond : Option (Mlfqs Tid Lid Sid Cid) :=
  if s.sched.ticks % timerFreq = 0 then do
    let s ← s.threadCalcLoadAvg
    s.allList.foldlM threadCalcRecentCpu s
  else some s

/-- The yield on return from the interrupt if the time slice is over; the idle thread calls
    `thread_block` after every interrupt. -/
def yieldOnReturn : Mlfqs Tid Lid Sid Cid :=
  match s.sched.running with
  | none => { s with sched := s.sched.schedule }
  | some t => if timeSlice ≤ s.sched.threadTicks then { s with sched := s.sched.yield t } else s

/-- `timer_interrupt` (`timer.c:182-196`). -/
def timerInterrupt : Option (Mlfqs Tid Lid Sid Cid) := do
  let s ← { s with sched := { s.sched with ticks := s.sched.ticks + 1 } }.threadTick
  let s ← { s with sched := s.sched.timerWakeupThreads }.everySecond
  some s.yieldOnReturn

/-- `thread_set_nice` (`thread.c:378-393`). -/
def threadSetNice (t : Tid) (nice : Int) : Option (Mlfqs Tid Lid Sid Cid) :=
  if -20 ≤ nice ∧ nice ≤ 20 then do
    let sched ← s.sched.threadSetPriority t (calcMlfqPriority (s.recentCpu t) nice)
    some { s with sched, nice := update s.nice t nice }
  else none

/-- `thread_create` (`thread.c:181-226`): `init_thread` (`thread.c:488-518`) asserts that the
    argument is a priority and sets the priority to `PRI_MAX`. -/
def threadCreate (t u : Tid) (priority : Int) : Option (Mlfqs Tid Lid Sid Cid) :=
  if priMin ≤ priority ∧ priority ≤ priMax then do
    let sched ← s.sched.threadCreate t u priMax
    some { s with
      sched
      nice := update s.nice u (s.nice t)
      recentCpu := update s.recentCpu u (s.recentCpu t)
      allList := s.allList ++ [u] }
  else none

/-- An operation that the thread `t` starts. `thread_set_priority` does nothing. -/
def call (t : Tid) : MlfqsStep Tid Lid Sid Cid → Option (Mlfqs Tid Lid Sid Cid)
  | .setNice nice => s.threadSetNice t nice
  | .step (.threadCreate u priority) => s.threadCreate t u priority
  | .step (.setPriority _) => some s
  | .step .exit => some { s with sched := s.sched.schedule, allList := s.allList.erase t }
  | .step step => do
      let sched ← s.sched.call t step
      some { s with sched }

def next (step : MlfqsStep Tid Lid Sid Cid) : Option (Mlfqs Tid Lid Sid Cid) :=
  match step, s.sched.running with
  | .step .tick, _ => s.timerInterrupt
  | _, none => none
  | .step .resume, some t => do
      let sched ← s.sched.goOn t
      some { s with sched }
  | step, some t =>
      match s.sched.place t with
      | .outside => s.call t step
      | _ => none

/-- The initial thread as `thread_init` leaves it. -/
structure Initial (s : Mlfqs Tid Lid Sid Cid) : Prop where
  sched : s.sched.Initial
  main : ∃ t, s.allList = [t] ∧ s.recentCpu t = 0 ∧ s.nice t = 0 ∧
    (s.sched.locks.thread t).priority = priMax
  loadAvg : s.loadAvg = 0

/-- The lock that a step starts to acquire. A thread that goes on in `cond_wait` acquires the
    lock again. -/
def lockOf : MlfqsStep Tid Lid Sid Cid → Option Lid
  | .step (.lockAcquire lock) => some lock
  | .step (.lockTryAcquire lock) => some lock
  | .step .resume => do
      let t ← s.sched.running
      match s.sched.place t with
      | .waiting lock => if (s.sched.condSema t).value = 0 then none else some lock
      | _ => none
  | _ => none

/-- The thread that creates another in a step. -/
def creatorOf : MlfqsStep Tid Lid Sid Cid → Option Tid
  | .step (.threadCreate _ _) => s.sched.running
  | _ => none

/-- Locks are acquired when no thread holds them, and a thread is created by a thread whose own
    formula gives `PRI_MAX`. -/
def Undonated (s : Mlfqs Tid Lid Sid Cid) (step : MlfqsStep Tid Lid Sid Cid) : Prop :=
  (∀ lock ∈ s.lockOf step, (s.sched.locks.lock (some lock)).holder = none) ∧
  ∀ t ∈ s.creatorOf step, calcMlfqPriority (s.recentCpu t) (s.nice t) = priMax

instance (step : MlfqsStep Tid Lid Sid Cid) : Decidable (s.Undonated step) :=
  inferInstanceAs (Decidable (_ ∧ _))

/-- `recent_cpu` of the thread is not a positive number between two multiples of four, unless
    the range decides the priority. -/
def Whole (recentCpu nice : Int) : Prop :=
  recentCpu ≤ 0 ∨ 4 * fptF ∣ recentCpu ∨
    priMax - recentCpu / (4 * fptF) - nice * 2 ∉ Set.Ioc priMin priMax

end Mlfqs

end Pintos
