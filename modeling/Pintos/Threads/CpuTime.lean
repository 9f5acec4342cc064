import Pintos.Threads.Mlfqs

/-!
# Load average and processor time

Model of what `src/threads/thread.c` and `src/devices/timer.c` with `thread_mlfqs` set keep about
the load and about the time that threads get. Which thread runs and which threads are ready is left
to the scheduler: a step names the running thread, and a timer interrupt the `ready_list` that it
finds. `all_list` has every thread that has not exited, the idle thread among them. `none` is a
failed assertion or a division by zero.
-/

namespace Pintos

open Function

/-- `load_avg` after seconds with these numbers of threads that are ready or running. -/
def loadAvgAfter (readyThreads : List Nat) : Option Int :=
  readyThreads.foldlM (fun loadAvg (n : Nat) => calcLoadAvg wraps loadAvg n) 0

/-- The average that `doc/44bsd.texi` gives. -/
def movingAverage (readyThreads : List Nat) : ℚ :=
  readyThreads.foldl (fun average (n : Nat) => 59 / 60 * average + n / 60) 0

structure CpuTime (Tid : Type) where
  priority : Tid → Int
  nice : Tid → Int
  recentCpu : Tid → Int
  loadAvg : Int
  ticks : Int
  idleThread : Option Tid
  allList : List Tid

/-- The steps, while the thread `current` runs. -/
inductive CpuStep (Tid : Type) where
  /-- A timer interrupt; `readyList` is what `timer_wakeup_threads` leaves in `ready_list`. -/
  | tick (current : Tid) (readyList : List Tid)
  | setNice (current : Tid) (nice : Int)
  | create (current child : Tid)
  /-- `idle_thread = thread_current ()` (`thread.c:429`). -/
  | idle (current : Tid)
  | exit (current : Tid)

namespace CpuTime

variable {Tid : Type} [DecidableEq Tid] (s : CpuTime Tid) (fit : Int → Option Int)
  (current : Tid) (readyList : List Tid)

/-- `t->priority = calc_mlfq_priority (t)`. -/
def recalculate (t : Tid) : CpuTime Tid :=
  if some t = s.idleThread then s
  else { s with priority := update s.priority t (calcMlfqPriority (s.recentCpu t) (s.nice t)) }

/-- `thread_calc_recent_cpu` (`thread.c:736-744`). -/
def threadCalcRecentCpu (t : Tid) : Option (CpuTime Tid) := do
  let recentCpu ← calcRecentCpu fit s.loadAvg (s.recentCpu t) (s.nice t)
  some ({ s with recentCpu := update s.recentCpu t recentCpu }.recalculate t)

/-- The threads that `thread_calc_load_avg` counts. -/
def readyThreads : Nat := readyList.length + if some current = s.idleThread then 0 else 1

/-- `thread_calc_load_avg` (`thread.c:747-755`). -/
def threadCalcLoadAvg : Option (CpuTime Tid) := do
  let loadAvg ← calcLoadAvg fit s.loadAvg (s.readyThreads current readyList)
  some { s with loadAvg }

/-- `thread_tick` (`thread.c:136-160`) up to the end of the time slice. -/
def threadTick : Option (CpuTime Tid) :=
  if some current = s.idleThread then some s
  else do
    let recentCpu ← fpAddInt fit (s.recentCpu current) 1
    some ({ s with recentCpu := update s.recentCpu current recentCpu }.recalculate current)

/-- `timer_interrupt` (`timer.c:182-196`). -/
def timerInterrupt : Option (CpuTime Tid) := do
  let s ← { s with ticks := s.ticks + 1 }.threadTick fit current
  if s.ticks % timerFreq = 0 then do
    let s ← s.threadCalcLoadAvg fit current readyList
    s.allList.foldlM (threadCalcRecentCpu · fit) s
  else some s

/-- `thread_set_nice` (`thread.c:378-393`) but for the yield. -/
def threadSetNice (nice : Int) : Option (CpuTime Tid) :=
  if -20 ≤ nice ∧ nice ≤ 20 then
    some ({ s with nice := update s.nice current nice }.recalculate current)
  else none

/-- `init_thread` (`thread.c:488-530`) in a call of `thread_create`. -/
def initThread (child : Tid) : CpuTime Tid :=
  { s with
    priority := update s.priority child priMax
    nice := update s.nice child (s.nice current)
    recentCpu := update s.recentCpu child (s.recentCpu current)
    allList := s.allList ++ [child] }

def next : CpuStep Tid → Option (CpuTime Tid)
  | .tick current readyList => s.timerInterrupt wraps current readyList
  | .setNice current nice => s.threadSetNice current nice
  | .create current child => some (s.initThread current child)
  | .idle current => some { s with idleThread := some current }
  | .exit current => some { s with allList := s.allList.erase current }

/-- `thread_get_load_avg` (`thread.c:404-407`). -/
def threadGetLoadAvg : Option Int := do fpToIntRound fit (← fpMulInt fit s.loadAvg 100)

/-- `thread_get_recent_cpu` (`thread.c:411-414`). -/
def threadGetRecentCpu : Option Int := do
  fpToIntRound fit (← fpMulInt fit (s.recentCpu current) 100)

/-- After `thread_init`: there is only the initial thread. -/
structure Initial (s : CpuTime Tid) : Prop where
  nice : ∀ t, s.nice t = 0
  recentCpu : ∀ t, s.recentCpu t = 0
  loadAvg : s.loadAvg = 0
  ticks : s.ticks = 0
  idleThread : s.idleThread = none
  allList : ∃ t, s.allList = [t]

/-- Threads that run or are ready are in `all_list`, and at most `n` threads are alive. -/
def Few (n : Nat) (s : CpuTime Tid) : CpuStep Tid → Prop
  | .tick current readyList => (current :: readyList).Nodup ∧ current :: readyList ⊆ s.allList
  | .setNice current _ => current ∈ s.allList
  | .create current child => current ∈ s.allList ∧ child ∉ s.allList ∧ s.allList.length < n
  | .idle current => current ∈ s.allList ∧ s.idleThread = none
  | .exit current => current ∈ s.allList ∧ some current ≠ s.idleThread

end CpuTime

end Pintos
