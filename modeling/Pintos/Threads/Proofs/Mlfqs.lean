import Pintos.Threads.Mlfqs
import Pintos.Threads.Proofs.DonationOwed

/-!
# Priorities of the feedback queue scheduler

Where no lock is contended nothing is donated, and the priority of a thread is what
`calc_mlfq_priority` made of its `recent_cpu` and `nice`. It truncates one summand of the formula
where `doc/44bsd.texi` rounds the result.
-/

namespace Pintos

open Function Option LockState

variable {recentCpu nice priority : Int}

/-! ## The formula -/

theorem specifiedPriority_eq (recentCpu nice : Int) : specifiedPriority recentCpu nice =
    max priMin (min priMax (priMax - nice * 2 + -recentCpu / (4 * fptF))) := by
  have exact : (priMax : ℚ) - recentCpu / fptF / 4 - nice * 2 =
      ((-recentCpu : Int) : ℚ) / ((65536 : Nat) : ℚ) + ((priMax - nice * 2 : Int) : ℚ) := by
    simp only [fptF, priMax]
    push_cast
    ring
  unfold specifiedPriority
  rw [exact, Int.floor_add_intCast, Rat.floor_intCast_div_natCast, Int.add_comm]
  rfl

theorem calcMlfqPriority_eq (whole : Mlfqs.Whole recentCpu nice) :
    calcMlfqPriority recentCpu nice = specifiedPriority recentCpu nice := by
  have quotient : fpToInt (fpDivInt recentCpu 4) =
      if 0 ≤ recentCpu then recentCpu / 65536 else -(-recentCpu / 65536) := by
    unfold fpToInt fpDivInt fptF
    split
    · next nonneg =>
      rw [Int.tdiv_eq_ediv_of_nonneg nonneg, Int.tdiv_eq_ediv_of_nonneg (by omega)]
      omega
    next negative =>
    obtain ⟨x, rfl⟩ := Int.exists_eq_neg_ofNat (by omega : recentCpu ≤ 0)
    rw [Int.neg_tdiv, Int.tdiv_eq_ediv_of_nonneg (Int.natCast_nonneg x), Int.neg_tdiv,
      Int.tdiv_eq_ediv_of_nonneg (by omega)]
    omega
  rw [specifiedPriority_eq]
  simp only [calcMlfqPriority, quotient, Mlfqs.Whole, Set.mem_Ioc, fptF, priMax, priMin] at whole ⊢
  omega

/-! ## Locks that no thread waits for -/

namespace LockState

variable {Tid Lid : Type} [DecidableEq Tid] [DecidableEq Lid] {s s' : LockState Tid Lid}

theorem tryAcquire_taken {t : Tid} {l : Lid} (wf : s.Wf) (owed : s.DonationOwed)
    (free : (s.lock l).holder = none) (run : s.next (.tryAcquire t l) = some s') : Taken s s' t l := by
  have pos : ((s.donateToHolder t l).lock l).value ≠ 0 := by
    rw [(donateToHolder_fields s t l).1.lock, wf.value, if_pos free]
    simp
  simp only [next, lockTryAcquire, free, reduceCtorEq, if_false, pos, map_some,
    ite_none_right_eq_some, some.injEq] at run
  exact run.2 ▸ owed.taken (by simp [run.1]) free

/-- The step is not about the lock `k`. -/
def Avoids (s : LockState Tid Lid) (k : Lid) : LockStep Tid Lid → Prop
  | .acquire _ l => l ≠ k
  | .tryAcquire _ l => l ≠ k
  | .release _ l => l ≠ k
  | .resume t => (s.thread t).status ≠ .woken k
  | _ => True

theorem lock_of_next {a : LockStep Tid Lid} (wf : s.Wf) {k : Lid} (other : s.Avoids k a)
    (run : s.next a = some s') : s'.lock k = s.lock k := by
  cases a with
  | acquire t l =>
    simp only [next, ite_none_right_eq_some] at run
    rw [← (donateToHolder_fields s t l).1.lock]
    rcases lockAcquire_cases wf run.2 with ⟨-, rfl⟩ | ⟨h, -, -, rfl⟩
    · exact (take_taken _ t l).otherLock k (Ne.symm other)
    · exact (wait_slept _ t l).otherLock k (Ne.symm other)
  | tryAcquire t l =>
    simp only [next, lockTryAcquire, ite_none_right_eq_some, map_eq_some_iff] at run
    obtain ⟨-, ⟨ok, after⟩, run, rfl⟩ := run
    rw [← (donateToHolder_fields s t l).1.lock]
    split at run
    · cases run
    split at run
    · cases run
      rfl
    · cases run
      exact (take_taken _ t l).otherLock k (Ne.symm other)
  | release t l =>
    simp only [next, ite_none_right_eq_some] at run
    exact (lockRelease_released wf run.1 run.2).2.otherLock k (Ne.symm other)
  | setPriority t priority =>
    simp only [next, ite_none_right_eq_some, some.injEq] at run
    rw [← run.2, (setPriority_same s t priority).lock]
  | create t v priority =>
    simp only [next, threadCreate, ite_none_right_eq_some, some.injEq] at run
    rw [← run.2.2, setThread_lock]
  | resume t =>
    simp only [next] at run
    split at run
    · next l woken =>
      cases run
      have ne : k ≠ l := fun same => other (same ▸ woken)
      unfold semaDown
      split
      · exact (wait_slept s t l).otherLock k ne
      · exact (take_taken s t l).otherLock k ne
    · cases run

/-- No thread waits for a lock or has a donation. -/
structure Quiet (s : LockState Tid Lid) : Prop where
  wf : s.Wf
  extra : ∀ t, (s.thread t).extraPriority = 0
  parent : ∀ t, (s.thread t).parent = none
  status : ∀ t, (s.thread t).status = .absent ∨ (s.thread t).status = .runnable

/-- The steps of a run in which locks are taken when no thread holds them. -/
def Uncontended (s : LockState Tid Lid) : LockStep Tid Lid → Prop
  | .acquire _ l => (s.lock l).holder = none
  | .tryAcquire _ l => (s.lock l).holder = none
  | .release _ _ => True
  | .resume _ => True
  | .setPriority _ _ => False
  | .create _ _ _ => False
omit [DecidableEq Tid] [DecidableEq Lid] in
theorem Quiet.waiters (quiet : s.Quiet) (l : Lid) : (s.lock l).waiters = [] := by
  refine List.eq_nil_iff_forall_not_mem.mpr fun t mem => ?_
  have blocked := (quiet.wf.waiting l t).mp mem
  have status := quiet.status t
  simp [blocked] at status

omit [DecidableEq Tid] [DecidableEq Lid] in
theorem Quiet.owed (quiet : s.Quiet) : s.DonationOwed :=
  ⟨fun H => .inl (quiet.extra H).le, fun t p parent => by simp [quiet.parent] at parent⟩

theorem Quiet.next (quiet : s.Quiet) {a : LockStep Tid Lid} (uncontended : s.Uncontended a)
    (run : s.next a = some s') :
    s'.Quiet ∧ ∀ u, (s'.thread u).priority = (s.thread u).priority := by
  have wf := quiet.wf.step run
  have ofTaken : ∀ {t l}, Taken s s' t l →
      s'.Quiet ∧ ∀ u, (s'.thread u).priority = (s.thread u).priority := by
    intro t l taken
    cases quiet
    cases taken
    exact ⟨by constructor <;> grind +splitImp, by grind +splitImp⟩
  cases a with
  | acquire t l =>
    simp only [LockState.next, ite_none_right_eq_some] at run
    rcases lockAcquire_cases quiet.wf run.2 with ⟨free, rfl⟩ | ⟨h, -, held, -⟩
    · exact ofTaken (quiet.owed.taken (by simp [run.1]) free)
    · cases uncontended.symm.trans held
  | tryAcquire t l => exact ofTaken (tryAcquire_taken quiet.wf quiet.owed uncontended run)
  | release t l =>
    simp only [LockState.next, ite_none_right_eq_some] at run
    obtain ⟨-, released⟩ := lockRelease_released quiet.wf run.1 run.2
    have none : s.donatedBy ((s.thread t).locks.erase l) = 0 := by
      have spec := (s.donatedBy_spec ((s.thread t).locks.erase l)).2
      simpa [quiet.waiters] using spec
    have waiters := quiet.waiters l
    cases quiet
    cases released
    exact ⟨by constructor <;> grind +splitImp, by grind +splitImp⟩
  | setPriority => exact uncontended.elim
  | create => exact uncontended.elim
  | resume t =>
    have status := quiet.status t
    simp only [LockState.next] at run
    grind

/-- One uncontended step that leaves the lock `k` alone, or none. -/
def Follows (s s' : LockState Tid Lid) (k : Lid) : Prop :=
  s' = s ∨ ∃ a, s.Uncontended a ∧ s.Avoids k a ∧ s.next a = some s'

theorem Follows.step {k : Lid} {a : LockStep Tid Lid} (run : s.next a = some s')
    (uncontended : s.Uncontended a) (avoids : s.Avoids k a) : s.Follows s' k :=
  .inr ⟨a, uncontended, avoids, run⟩

theorem Quiet.follows (quiet : s.Quiet) {k : Lid} (follows : s.Follows s' k) :
    s'.Quiet ∧ (∀ u, (s'.thread u).priority = (s.thread u).priority) ∧ s'.lock k = s.lock k := by
  rcases follows with rfl | ⟨a, uncontended, avoids, run⟩
  · exact ⟨quiet, fun _ => rfl, rfl⟩
  · obtain ⟨quiet', priority⟩ := quiet.next uncontended run
    exact ⟨quiet', priority, lock_of_next quiet.wf avoids run⟩

theorem Quiet.create (quiet : s.Quiet) {t u : Tid} (run : s.next (.create t u priority) = some s') :
    s'.Quiet ∧ s'.lock = s.lock ∧ ∀ v, (s'.thread v).priority =
      if v = u then priority else (s.thread v).priority := by
  have wf := quiet.wf.step run
  simp only [LockState.next, threadCreate, ite_none_right_eq_some] at run
  obtain ⟨-, -, ⟨⟩⟩ := run
  cases quiet
  exact ⟨by constructor <;> grind, rfl, by grind⟩

omit [DecidableEq Lid] in
theorem Quiet.threadSetPriority (quiet : s.Quiet) (t : Tid) (priority : Int) :
    (s.threadSetPriority t priority).Quiet where
  wf := (setPriority_same s t priority).wf quiet.wf
  extra u := by
    have extra := quiet.extra
    grind [threadSetPriority]
  parent u := by
    have parent := quiet.parent
    grind [threadSetPriority]
  status u := by
    have status := quiet.status
    grind [threadSetPriority]

end LockState

namespace Sched

variable {Tid Lid Sid Cid : Type} [DecidableEq Tid] {s s' : Sched Tid Lid Sid Cid} {t u : Tid}
  {l : Lid}

theorem schedule_locks (s : Sched Tid Lid Sid Cid) : s.schedule.locks = s.locks := by
  unfold schedule
  cases s.maxOf s.ready <;> rfl

theorem yield_locks : (s.yield t).locks = s.locks := schedule_locks _

theorem unblock_locks : (s.unblock t u).locks = s.locks := by
  unfold unblock
  dsimp only
  split
  · exact yield_locks
  · rfl

theorem wake_locks {m : Option Tid} : (s.wake t m).locks = s.locks := by
  cases m with
  | none => rfl
  | some u => exact unblock_locks

theorem condSignal_locks [DecidableEq Cid] {c : Cid}
    (run : s.condSignal t c l = some s') : s'.locks = s.locks := by
  unfold condSignal at run
  split at run
  · split at run
    · cases run
      rfl
    obtain ⟨e, -, rest⟩ := bind_eq_some_iff.mp run
    cases rest
    exact wake_locks
  · cases run

theorem condBroadcast_locks [DecidableEq Cid] {c : Cid}
    (run : s.condBroadcast t c l = some s') : s'.locks = s.locks := by
  unfold condBroadcast at run
  split at run
  · cases run
    rfl
  · have same := condSignal_locks run
    exact same

theorem semaDown_locks [DecidableEq Sid] {x : Sid} : (s.semaDown t x).locks = s.locks := by
  unfold semaDown
  split
  · exact schedule_locks _
  · rfl

variable [DecidableEq Lid]

theorem settle_locks {locks : LockState Tid (Option Lid)} : (s.settle t locks).locks = locks := by
  unfold settle
  split
  · rfl
  · exact schedule_locks _

theorem lockAcquire_follows (free : (s.locks.lock (some l)).holder = none)
    (run : s.lockAcquire t l = some s') : s.locks.Follows s'.locks none := by
  obtain ⟨locks, step, rest⟩ := bind_eq_some_iff.mp run
  cases rest
  rw [settle_locks]
  exact .step step free nofun

theorem lockRelease_follows (run : s.lockRelease t (some l) = some s') :
    s.locks.Follows s'.locks none := by
  obtain ⟨locks, step, rest⟩ := bind_eq_some_iff.mp run
  cases rest
  rw [wake_locks]
  exact .step step trivial nofun

variable [DecidableEq Sid] [DecidableEq Cid]

theorem goOn_follows (quiet : s.locks.Quiet)
    (free : ∀ l, s.place t = .waiting l → (s.condSema t).value ≠ 0 →
      (s.locks.lock (some l)).holder = none)
    (run : s.goOn t = some s') : s.locks.Follows s'.locks none := by
  unfold goOn at run
  split at run
  · cases run
  · cases run
    exact .inl semaDown_locks
  · obtain ⟨locks, step, rest⟩ := bind_eq_some_iff.mp run
    cases rest
    rw [settle_locks]
    refine .step step trivial fun woken => ?_
    have status := quiet.status t
    simp [woken] at status
  · next l place =>
    unfold condSleep at run
    dsimp only at run
    split at run
    · cases run
      exact .inl (schedule_locks _)
    next pos =>
    have step := lockAcquire_follows (s := s.setCondSema t _) (free l place pos) run
    exact step
  · exact .inl (condBroadcast_locks run)

theorem call_follows {step : SchedStep Tid Lid Sid Cid}
    (free : ∀ l, step = .lockAcquire l ∨ step = .lockTryAcquire l →
      (s.locks.lock (some l)).holder = none)
    (create : ∀ u priority, step ≠ .threadCreate u priority)
    (set : ∀ priority, step ≠ .setPriority priority)
    (run : s.call t step = some s') : s.locks.Follows s'.locks none := by
  cases step with
  | semaDown x =>
    cases run
    exact .inl semaDown_locks
  | semaTryDown x =>
    cases run
    left
    unfold semaTryDown
    split <;> rfl
  | semaUp x =>
    cases run
    exact .inl wake_locks
  | lockAcquire l => exact lockAcquire_follows (free l (.inl rfl)) run
  | lockTryAcquire l =>
    obtain ⟨locks, step, rest⟩ := bind_eq_some_iff.mp run
    cases rest
    exact .step step (free l (.inr rfl)) nofun
  | lockRelease l => exact lockRelease_follows run
  | condWait c l =>
    have released := lockRelease_follows (show Sched.condWait s t c l = some s' from run)
    exact released
  | condSignal c l => exact .inl (condSignal_locks run)
  | condBroadcast c l => exact .inl (condBroadcast_locks run)
  | threadCreate u priority => exact absurd rfl (create u priority)
  | setPriority priority => exact absurd rfl (set priority)
  | timerSleep ticks =>
    cases run
    exact .inl (schedule_locks _)
  | yield =>
    cases run
    exact .inl yield_locks
  | exit =>
    cases run
    exact .inl (schedule_locks _)
  | resume => cases run
  | tick => cases run

end Sched

namespace Mlfqs

variable {Tid Lid Sid Cid : Type} [DecidableEq Tid] {s s' : Mlfqs Tid Lid Sid Cid} {t u : Tid}

/-- Each thread of the list has the priority of the formula and no donation. -/
structure Law (locks : LockState Tid (Option Lid)) (recentCpu nice : Tid → Int)
    (allList : List Tid) : Prop where
  quiet : locks.Quiet
  tidLock : (locks.lock none).holder = none
  priority : ∀ t ∈ allList, (locks.thread t).priority = calcMlfqPriority (recentCpu t) (nice t)

variable {locks locks' : LockState Tid (Option Lid)} {recentCpu nice : Tid → Int} {all : List Tid}

theorem Law.setPriority (law : Law locks recentCpu nice all) (t : Tid) (cpu n : Int) :
    Law (locks.threadSetPriority t (calcMlfqPriority cpu n)) (update recentCpu t cpu)
      (update nice t n) all where
  quiet := law.quiet.threadSetPriority t _
  tidLock := law.tidLock
  priority u mem := by
    have priority := law.priority u mem
    by_cases same : u = t
    · subst same
      simp [threadSetPriority, setThread_self]
    · simpa [threadSetPriority, setThread_of_ne, same] using priority

theorem Law.follows [DecidableEq Lid] (law : Law locks recentCpu nice all)
    (follows : locks.Follows locks' none) : Law locks' recentCpu nice all := by
  obtain ⟨quiet, priority, lock⟩ := law.quiet.follows follows
  exact ⟨quiet, by rw [lock, law.tidLock], fun t mem => (priority t).trans (law.priority t mem)⟩

/-- What `s` has to keep. -/
def Lawful (s : Mlfqs Tid Lid Sid Cid) : Prop := Law s.sched.locks s.recentCpu s.nice s.allList

section

variable (lawful : s.Lawful)
include lawful

theorem Lawful.recalculate (t : Tid) (cpu : Int) :
    ({ s with recentCpu := update s.recentCpu t cpu }.recalculate t).Lawful := by
  have law := Law.setPriority lawful t cpu (s.nice t)
  simpa [Lawful, Mlfqs.recalculate] using law

theorem Lawful.threadCalcRecentCpu (run : s.threadCalcRecentCpu t = some s') : s'.Lawful := by
  obtain ⟨cpu, -, ⟨⟩⟩ := bind_eq_some_iff.mp run
  exact lawful.recalculate t cpu

theorem Lawful.threadForeach {threads : List Tid}
    (run : threads.foldlM Mlfqs.threadCalcRecentCpu s = some s') : s'.Lawful := by
  induction threads generalizing s with
  | nil =>
    cases run
    exact lawful
  | cons t rest ih =>
    obtain ⟨s1, first, run⟩ := bind_eq_some_iff.mp run
    exact ih (lawful.threadCalcRecentCpu first) run

theorem Lawful.everySecond (run : s.everySecond = some s') : s'.Lawful := by
  unfold Mlfqs.everySecond at run
  split at run
  · obtain ⟨s1, average, run⟩ := bind_eq_some_iff.mp run
    simp only [Mlfqs.threadCalcLoadAvg, bind_eq_bind, bind_eq_some_iff] at average
    obtain ⟨loadAvg, -, ⟨⟩⟩ := average
    exact Lawful.threadForeach (s := { s with loadAvg }) lawful run
  · cases run
    exact lawful

theorem Lawful.threadTick (run : s.threadTick = some s') : s'.Lawful := by
  unfold Mlfqs.threadTick at run
  dsimp only at run
  split at run
  · cases run
    exact lawful
  next t _ =>
  obtain ⟨cpu, -, ⟨⟩⟩ := bind_eq_some_iff.mp run
  exact Lawful.recalculate
    (s := { s with sched := { s.sched with threadTicks := s.sched.threadTicks + 1 } }) lawful t cpu

theorem Lawful.yieldOnReturn : s.yieldOnReturn.Lawful := by
  unfold Mlfqs.yieldOnReturn
  split
  · simpa only [Lawful, Sched.schedule_locks] using lawful
  split
  · simpa only [Lawful, Sched.yield_locks] using lawful
  · exact lawful

theorem Lawful.timerInterrupt (run : s.timerInterrupt = some s') : s'.Lawful := by
  obtain ⟨s1, tick, run⟩ := bind_eq_some_iff.mp run
  obtain ⟨s2, second, ⟨⟩⟩ := bind_eq_some_iff.mp run
  have ticked : s1.Lawful :=
    Lawful.threadTick (s := { s with sched := { s.sched with ticks := s.sched.ticks + 1 } }) lawful
      tick
  exact Lawful.yieldOnReturn (Lawful.everySecond (by exact ticked) second)

end

omit [DecidableEq Tid] in
theorem Initial.lawful (init : s.Initial) : s.Lawful := by
  obtain ⟨t, all, cpu, nice, top⟩ := init.main
  have locks := init.sched.locks
  refine ⟨⟨initial_wf locks, ?_, ?_, ?_⟩, by rw [locks.2 none], ?_⟩
  · exact fun t => (locks.1 t).2.1
  · exact fun t => (locks.1 t).2.2.1
  · exact fun t => (locks.1 t).1
  intro u mem
  obtain rfl : u = t := by simpa [all] using mem
  rw [top, cpu, nice]
  decide

variable [DecidableEq Lid]

theorem Lawful.threadSetNice (lawful : s.Lawful) {nice : Int}
    (run : s.threadSetNice t nice = some s') : s'.Lawful := by
  simp only [Mlfqs.threadSetNice, Sched.threadSetPriority, ite_none_right_eq_some,
    bind_eq_bind, bind_eq_some_iff, LockState.next] at run
  obtain ⟨-, sched, ⟨locks, ⟨-, ⟨⟩⟩, chosen⟩, ⟨⟩⟩ := run
  have law := Law.setPriority lawful t (s.recentCpu t) nice
  rw [update_eq_self] at law
  split at chosen
  · cases chosen
    exact law
  cases chosen
  unfold Lawful
  dsimp only
  split
  · rwa [Sched.yield_locks]
  · exact law

theorem Lawful.threadCreate (lawful : s.Lawful)
    (top : calcMlfqPriority (s.recentCpu t) (s.nice t) = priMax)
    (run : s.threadCreate t u priority = some s') : s'.Lawful := by
  simp only [Mlfqs.threadCreate, Sched.threadCreate, Sched.allocateTid,
    ite_none_right_eq_some, bind_eq_bind, bind_eq_some_iff] at run
  obtain ⟨-, sched, ⟨locks2, ⟨locks1, acquired, released⟩, locks3, created, ⟨⟩⟩, ⟨⟩⟩ := run
  obtain ⟨quiet1, priority1⟩ := lawful.quiet.next (a := .acquire t none) lawful.tidLock acquired
  obtain ⟨quiet2, priority2⟩ := quiet1.next (a := .release t none) trivial released
  obtain ⟨quiet3, lock, priority3⟩ := quiet2.create created
  simp only [LockState.next, ite_none_right_eq_some] at released
  have free := (LockState.lockRelease_released quiet1.wf released.1 released.2).2.holder
  have law := lawful.priority
  unfold Lawful
  rw [Sched.unblock_locks]
  refine ⟨quiet3, lock ▸ free, fun v mem => (priority3 v).trans ?_⟩
  by_cases same : v = u
  · simp [same, top]
  · have old : v ∈ s.allList := by simpa [same] using mem
    simp [same, priority2, priority1, law v old]

variable [DecidableEq Sid] [DecidableEq Cid]

theorem Lawful.call (lawful : s.Lawful) (runs : s.sched.running = some t)
    {step : MlfqsStep Tid Lid Sid Cid} (undonated : s.Undonated step)
    (run : s.call t step = some s') : s'.Lawful := by
  unfold Mlfqs.call at run
  split at run
  · exact lawful.threadSetNice run
  · exact lawful.threadCreate (undonated.2 t runs) run
  · cases run
    exact lawful
  · cases run
    unfold Lawful
    rw [Sched.schedule_locks]
    exact ⟨lawful.quiet, lawful.tidLock, fun u mem => lawful.priority u (List.mem_of_mem_erase mem)⟩
  next step create set exit =>
  obtain ⟨sched, call, ⟨⟩⟩ := bind_eq_some_iff.mp run
  refine Law.follows lawful (Sched.call_follows (fun l locks => undonated.1 l ?_) create set call)
  rcases locks with rfl | rfl <;> rfl

theorem Lawful.next (lawful : s.Lawful) {step : MlfqsStep Tid Lid Sid Cid}
    (undonated : s.Undonated step) (run : s.next step = some s') : s'.Lawful := by
  unfold Mlfqs.next at run
  split at run
  · exact lawful.timerInterrupt run
  · cases run
  · next t runs =>
    obtain ⟨sched, call, ⟨⟩⟩ := bind_eq_some_iff.mp run
    refine Law.follows lawful (Sched.goOn_follows lawful.quiet (fun l place pos => ?_) call)
    exact undonated.1 l (by simp [lockOf, runs, place, pos])
  next t _ _ runs =>
  split at run
  · exact lawful.call runs undonated run
  · cases run

/-- Where threads are created at `PRI_MAX` and no lock is contended, a thread is compared by the
    specified priority, unless its `recent_cpu` is a positive number between two multiples of
    four. -/
theorem mlfqs_priority_specified (reached : Reachable Initial next Undonated s)
    (live : t ∈ s.allList) (whole : Whole (s.recentCpu t) (s.nice t)) :
    s.sched.effective t = specifiedPriority (s.recentCpu t) (s.nice t) := by
  have lawful : s.Lawful := Reachable.invariant (P := Lawful) (fun _ => Initial.lawful)
    (fun _ _ _ lawful undonated run => lawful.next undonated run) reached
  have nonneg : priMin ≤ calcMlfqPriority (s.recentCpu t) (s.nice t) := le_max_right ..
  rw [Sched.effective, Thread.effective, lawful.quiet.extra, lawful.priority t live,
    ← calcMlfqPriority_eq whole]
  exact max_eq_left nonneg

/-- The initial thread of a system with a lock and a semaphore. -/
def mainThread : Mlfqs (Fin 3) (Fin 1) (Fin 1) (Fin 1) where
  sched :=
    { locks :=
        { thread t := { priority := 63, extraPriority := 0, parent := none, locks := []
                        status := if t = 0 then .runnable else .absent }
          lock _ := { holder := none, value := 1, waiters := [] } }
      sema _ := ⟨0, []⟩
      cond _ := []
      condSema _ := ⟨0, []⟩
      place _ := .outside
      ready := []
      running := some 0
      sleepQue := []
      ticks := 0
      threadTicks := 0 }
  nice _ := 0
  recentCpu _ := 0
  loadAvg := 0
  allList := [0]

theorem mainThread_initial : mainThread.Initial where
  sched :=
    { locks := ⟨fun t => ⟨by revert t; decide, rfl, rfl, rfl⟩, fun _ => rfl⟩
      main := ⟨0, rfl, rfl, by decide⟩
      sema _ := rfl
      cond _ := rfl
      condSema _ := rfl
      place _ := rfl
      ready := rfl
      sleepQue := rfl }
  main := ⟨0, rfl, rfl, rfl, rfl⟩
  loadAvg := rfl

/-- A thread is created, takes a lock, makes itself nicer, runs for a time slice while the
    initial thread sleeps and gives the lock back. -/
theorem mlfqs_priority_specified_nice : ∃ s : Mlfqs (Fin 3) (Fin 1) (Fin 1) (Fin 1),
    Reachable Initial next Undonated s ∧ (1 ∈ s.allList ∧ s.nice 1 = 5 ∧ s.recentCpu 1 = 4 * fptF) ∧
      s.sched.effective 1 = specifiedPriority (s.recentCpu 1) (s.nice 1) := by
  obtain ⟨s, reached, ends⟩ := reachable_of_run next Undonated mainThread_initial
    [.step (.threadCreate 1 31), .step .yield, .step (.lockAcquire 0), .setNice 5, .step
      (.timerSleep 100), .step .tick, .step .tick, .step .tick, .step .tick, .step (.lockRelease 0)]
    (fun s => 1 ∈ s.allList ∧ s.nice 1 = 5 ∧ s.recentCpu 1 = 4 * fptF) (by decide +kernel)
  exact ⟨s, reached, ends, mlfqs_priority_specified reached ends.1
    (.inr (.inl ⟨1, ends.2.2.trans (mul_one _).symm⟩))⟩

/-- The child of a thread with `nice` 20 starts with priority 63 instead of 23. -/
theorem nice_child_starts_at_priMax : ∃ s : Mlfqs (Fin 3) (Fin 1) (Fin 1) (Fin 1),
    Reachable Initial next AnyStep s ∧ 1 ∈ s.allList ∧ s.sched.effective 1 = 63 ∧
      specifiedPriority (s.recentCpu 1) (s.nice 1) = 23 := by
  obtain ⟨s, reached, live, effective, cpu, nice⟩ :=
      reachable_of_run Mlfqs.next AnyStep mainThread_initial
    [.setNice 20, .step (.threadCreate 1 31)]
    (fun s => 1 ∈ s.allList ∧ s.sched.effective 1 = 63 ∧ s.recentCpu 1 = 0 ∧ s.nice 1 = 20)
    (by decide +kernel)
  refine ⟨s, reached, live, effective, ?_⟩
  rw [cpu, nice, specifiedPriority_eq]
  decide

end Mlfqs
end Pintos
