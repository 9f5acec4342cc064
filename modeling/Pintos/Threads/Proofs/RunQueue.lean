import Pintos.Threads.RunQueue

/-!
# The run queue under any interleaving

The element of a thread is in one list at a time, and the status of the thread says in which
kind of list. `Sound` is this invariant with a given running thread: an operation that gives up
the processor leaves a state in which no thread runs, and `schedule` makes one of it in which
the chosen thread does.
-/

namespace Pintos

open Function Option

/-- The thread that runs next is the earliest of the highest priority, or the idle thread if and
    only if no thread is ready. -/
def Decision.Fair {Tid : Type} (d : Decision Tid) : Prop :=
  (d.idle = some d.next ↔ d.ready = []) ∧
    (d.ready ≠ [] → ∃ before after, d.ready = before ++ d.next :: after ∧
      (∀ u ∈ before, d.priority u < d.priority d.next) ∧
      ∀ u ∈ after, d.priority u ≤ d.priority d.next)

namespace RunQueue

variable {Tid Sid : Type} {s s' : RunQueue Tid Sid} {t u : Tid} {r : Option Tid}

theorem mem_sleepPush {w : Int} {q : List (Tid × Int)} {x : Tid × Int} :
    x ∈ sleepPush t w q ↔ x = (t, w) ∨ x ∈ q := by
  induction q with
  | nil => simp [sleepPush]
  | cons y rest ih => grind [sleepPush]

theorem sleepPush_nodup (w : Int) {q : List (Tid × Int)} (nodup : (q.map Prod.fst).Nodup)
    (new : ∀ x ∈ q, x.1 ≠ t) : ((sleepPush t w q).map Prod.fst).Nodup := by
  induction q with
  | nil => simp [sleepPush]
  | cons y rest ih =>
    have members : ∀ x, x ∈ sleepPush t w rest ↔ x = (t, w) ∨ x ∈ rest := fun _ => mem_sleepPush
    grind [sleepPush]

variable [DecidableEq Tid]

/-- The lists and the status of the threads agree, with `run` as the only running thread. -/
structure Sound (s : RunQueue Tid Sid) (run : Option Tid) : Prop where
  running : ∀ t, s.status t = some .running ↔ run = some t
  ready : ∀ t ∈ s.readyList, s.status t = some .ready
  listed : ∀ t, s.status t = some .ready → t ∈ s.readyList ∨ s.idleThread = some t
  nodup : s.readyList.Nodup
  idle : ∀ t, s.idleThread = some t ↔ s.place t = .idling
  unlisted : ∀ t, s.idleThread = some t → t ∉ s.readyList
  waiters : ∀ x, ∀ t ∈ (s.sema x).waiters, s.status t = some .blocked ∧ s.place t = .down x
  waitersNodup : ∀ x, (s.sema x).waiters.Nodup
  sleeping : ∀ x ∈ s.sleepQue, s.status x.1 = some .blocked ∧ s.place x.1 = .asleep
  sleepNodup : (s.sleepQue.map Prod.fst).Nodup
  away : ∀ t, s.place t = .newborn ∨ s.place t = .asleep ∨ s.place t = .parked →
    s.status t = some .blocked
  absent : ∀ t, s.status t = none → s.place t = .outside
  starting : ∀ t, s.place t = .starting → s.idleThread = none ∧ ∀ u, s.place u = .starting → u = t
  fair : ∀ d ∈ s.decisions, Decision.Fair d

theorem threadListMax_mem {l : List Tid} {m : Tid} (run : s.threadListMax l = some m) : m ∈ l := by
  cases l with
  | nil => cases run
  | cons first rest => exact listMax_mem run

theorem Sound.schedule (sound : s.Sound none) (run : s.schedule = some s') :
    s'.Sound (some s'.current) := by
  unfold RunQueue.schedule at run
  obtain ⟨next, chosen, run⟩ := bind_eq_some_iff.mp run
  cases run
  have chosen : s.readyList = [] ∧ s.idleThread = some next ∨
      s.readyList ≠ [] ∧ s.threadListMax s.readyList = some next := by
    unfold nextThreadToRun at chosen
    split at chosen <;> simp_all
  have mem : s.readyList ≠ [] → next ∈ s.readyList := by
    intro some?
    exact threadListMax_mem (chosen.resolve_left fun none => some? none.1).2
  have fair : Decision.Fair ⟨s.readyList, s.priority, s.idleThread, next⟩ := by
    refine ⟨?_, ?_⟩
    · have := sound.unlisted next
      grind
    intro some?
    have run := (chosen.resolve_left fun none => some? none.1).2
    dsimp only at some? ⊢
    cases list : s.readyList with
    | nil => exact absurd list some?
    | cons first rest =>
      rw [list] at run
      exact listMax_first (fun {a b c} compared => by
        unfold SemaRun.threadLess at compared
        grind) run
  cases sound
  constructor <;> simp only [update_apply] <;> grind

theorem Sound.yield (sound : s.Sound (some s.current)) (run : s.threadYield = some s') :
    s'.Sound (some s'.current) := by
  refine Sound.schedule ?_ run
  cases sound
  constructor <;> simp only [setStatus, update_apply] <;> grind

theorem Sound.unblock (sound : s.Sound r) (run : s.threadUnblock u = some s')
    (idle : s.place u ≠ .idling) (waits : ∀ x, u ∉ (s.sema x).waiters)
    (sleeps : ∀ x ∈ s.sleepQue, x.1 ≠ u) : s'.Sound r ∧ s'.current = s.current := by
  unfold threadUnblock at run
  obtain ⟨blocked, rfl⟩ := ite_some_none_eq_some.mp run
  refine ⟨?_, rfl⟩
  have place : RunPlace.awake (s.place u) = .outside ∨
      RunPlace.awake (s.place u) = s.place u ∧ ∃ x, s.place u = .down x := by
    cases s.place u <;> simp [RunPlace.awake]
  cases sound
  constructor <;> simp only [setStatus, update_apply] <;> grind

theorem Sound.unblock_away (sound : s.Sound r) (run : s.threadUnblock u = some s')
    (away : s.place u = .newborn ∨ s.place u = .parked) : s'.Sound r ∧ s'.current = s.current := by
  have waiters := sound.waiters
  have sleeping := sound.sleeping
  refine sound.unblock run ?_ ?_ ?_ <;> grind

theorem Sound.preempt (sound : s.Sound (some s.current)) (run : s.preempt u = some s') :
    s'.Sound (some s'.current) := by
  unfold RunQueue.preempt at run
  obtain ⟨less, -, run⟩ := bind_eq_some_iff.mp run
  cases less with
  | true => exact sound.yield run
  | false =>
    cases run
    exact sound

/-- The running thread is blocked or exits, without an entry in a list. -/
theorem Sound.leave {status : Option RunStatus} {place : RunPlace Sid}
    (sound : s.Sound (some s.current)) (stops : status = some .blocked ∨
      (status = some .dying ∨ status = none) ∧ place = .outside)
    (idles : place = .idling ↔ s.place s.current = .idling) (started : place ≠ .starting)
    (run : (s.setStatus s.current status place).schedule = some s') :
    s'.Sound (some s'.current) := by
  refine Sound.schedule ?_ run
  cases sound
  constructor <;> simp only [setStatus, update_apply] <;> grind

theorem Initial.sound (init : s.Initial) : s.Sound (some s.current) := by
  obtain ⟨⟨idle, ne, ready, status, place⟩, none, -, sema, sleep, decisions⟩ := init
  constructor <;> grind

theorem Sound.timerSleep {ticks : Int} (sound : s.Sound (some s.current))
    (outside : s.place s.current = .outside) (run : s.timerSleep ticks = some s') :
    s'.Sound (some s'.current) := by
  have awake : ∀ x ∈ s.sleepQue, x.1 ≠ s.current := by
    intro x mem same
    have asleep := (sound.sleeping x mem).2
    rw [same, outside] at asleep
    cases asleep
  have nodup := sleepPush_nodup (s.ticks + ticks) sound.sleepNodup awake
  have members : ∀ x, x ∈ sleepPush s.current (s.ticks + ticks) s.sleepQue ↔
      x = (s.current, s.ticks + ticks) ∨ x ∈ s.sleepQue := fun _ => mem_sleepPush
  refine Sound.schedule ?_ run
  cases sound
  constructor <;> simp only [setStatus, update_apply] <;> grind

theorem Sound.wakeup (queue : List (Tid × Int)) :
    ∀ {s : RunQueue Tid Sid}, s.Sound r → s.sleepQue = queue →
      timerWakeupThreads queue s = some s' → s'.Sound r ∧ s'.current = s.current := by
  induction queue with
  | nil =>
    intro s sound _ run
    cases run
    exact ⟨sound, rfl⟩
  | cons x rest ih =>
    intro s sound isQueue run
    rw [timerWakeupThreads] at run
    split at run
    · cases run
      exact ⟨sound, rfl⟩
    obtain ⟨s1, run1, run⟩ := bind_eq_some_iff.mp run
    have asleep := sound.sleeping x (by simp [isQueue])
    have nodup := sound.sleepNodup
    rw [isQueue] at nodup
    have dropped : { s with sleepQue := rest }.Sound r := by
      have sleeping := sound.sleeping
      rw [isQueue] at sleeping
      cases sound
      constructor <;> dsimp only <;> grind
    obtain ⟨sound1, current⟩ := dropped.unblock run1 (by simp [asleep.2])
      (fun y mem => by simp [(sound.waiters y _ mem).2] at asleep) (by grind)
    have queue1 : s1.sleepQue = rest := by
      unfold threadUnblock at run1
      obtain ⟨-, rfl⟩ := ite_some_none_eq_some.mp run1
      rfl
    obtain ⟨sound', current'⟩ := ih sound1 queue1 run
    exact ⟨sound', current'.trans current⟩

theorem Sound.tick (sound : s.Sound (some s.current)) (run : s.timerInterrupt = some s') :
    s'.Sound (some s'.current) := by
  unfold timerInterrupt at run
  obtain ⟨s1, run1, run⟩ := bind_eq_some_iff.mp run
  have counted : Sound { s with ticks := s.ticks + 1, threadTicks := s.threadTicks + 1 }
      (some s.current) := by
    cases sound
    constructor <;> assumption
  obtain ⟨sound1, current⟩ := counted.wakeup _ rfl run1
  rw [← show s1.current = s.current from current] at sound1
  split at run
  · exact sound1.yield run
  · cases run
    exact sound1

variable [DecidableEq Sid]

section

variable (sound : s.Sound (some s.current))
include sound

theorem Sound.semaDown {x : Sid} (run : s.semaDown x = some s')
    (place : s.place s.current = .outside ∨ s.place s.current = .down x) :
    s'.Sound (some s'.current) := by
  unfold RunQueue.semaDown at run
  split at run
  · refine Sound.schedule ?_ run
    cases sound
    constructor <;> simp only [setStatus, setSema, update_apply] <;> grind
  cases run
  cases sound
  constructor <;> simp only [setStatus, setSema, update_apply] <;> grind

theorem Sound.semaUp {x : Sid} {intr : Bool}
    (run : s.semaUp intr x = some s') : s'.Sound (some s'.current) := by
  unfold RunQueue.semaUp at run
  split at run
  · next none =>
    cases run
    cases sound
    constructor <;> simp only [setSema, update_apply] <;> grind
  obtain ⟨m, chosen, run⟩ := bind_eq_some_iff.mp run
  obtain ⟨s1, run1, run⟩ := bind_eq_some_iff.mp run
  have mem := threadListMax_mem chosen
  have waits := sound.waiters x m mem
  have nodup := sound.waitersNodup x
  have taken : (s.setSema x ⟨incUnsigned (s.sema x).value, (s.sema x).waiters.erase m⟩).Sound
      (some s.current) := by
    cases sound
    constructor <;> simp only [setSema, update_apply] <;> grind
  have waiters := taken.waiters
  have sleeping := taken.sleeping
  obtain ⟨sound1, current⟩ := taken.unblock run1 (by simp [setSema, waits.2]) (by
      intro y mem'
      obtain rfl : y = x := by simpa [setSema, waits.2] using (waiters y m mem').2.symm
      simp only [setSema, update_self] at mem'
      exact nodup.not_mem_erase mem')
    (by
      intro y mem' same
      simpa [setSema, same, waits.2] using (sleeping y mem').2)
  rw [← show s1.current = s.current from current] at sound1
  cases intr with
  | true =>
    cases run
    exact sound1
  | false => exact sound1.preempt run

theorem Sound.call {step : RunStep Tid Sid}
    (outside : s.place s.current = .outside) (run : s.call step = some s') :
    s'.Sound (some s'.current) := by
  cases step <;> simp only [RunQueue.call, reduceCtorEq] at run
  case initThread u =>
    obtain ⟨absent, rfl⟩ := ite_some_none_eq_some.mp run
    cases sound
    constructor <;> simp only [setStatus, update_apply] <;> grind
  case startThread u =>
    obtain ⟨newborn, run⟩ := ite_none_right_eq_some.mp run
    obtain ⟨s1, run1, run⟩ := bind_eq_some_iff.mp run
    obtain ⟨sound1, current⟩ := sound.unblock_away run1 (.inl newborn)
    rw [← current] at sound1
    exact sound1.preempt run
  case block => exact sound.leave (.inl rfl) (by simp [outside]) (by simp) run
  case yield => exact sound.yield run
  case exit =>
    refine sound.leave (.inr ⟨?_, rfl⟩) (by simp [outside]) nofun run
    split <;> simp
  case semaDown x => exact sound.semaDown run (.inl outside)
  case semaUp x => exact sound.semaUp run
  case timerSleep ticks => exact sound.timerSleep outside run

theorem Sound.next {step : RunStep Tid Sid} (own : s.OwnBlock step)
    (run : s.next step = some s') : s'.Sound (some s'.current) := by
  unfold RunQueue.next at run
  split at run
  · exact sound.tick run
  · exact sound.semaUp run
  · obtain ⟨sound', current⟩ := sound.unblock_away run (.inr own)
    rwa [current]
  · cases run
    cases sound
    constructor <;> assumption
  · next place => exact sound.semaDown run (.inr place)
  · next place =>
    cases run
    cases sound
    constructor <;> simp only [setStatus, update_apply] <;> grind
  · next idles =>
    unfold RunQueue.idle at run
    split at run
    · exact sound.leave (.inl rfl) (iff_of_true rfl idles) (by simp) run
    · exact sound.semaUp run
    · cases run
  · next place => exact sound.call place run
  · cases run

end

local instance : NeZero 3 := ⟨by decide⟩

end RunQueue

end Pintos
