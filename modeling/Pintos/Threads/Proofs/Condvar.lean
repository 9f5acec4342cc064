import Pintos.Misc.Transition
import Pintos.Threads.Condvar

/-!
# What a signal does

`condvar_less` looks at the threads that sleep on the semaphores of the registered
waiters, and a waiter is registered before it sleeps. While all registered waiters
sleep, or there is only one, `cond_signal` wakes the one with the highest effective
priority; otherwise an assertion of `thread_list_max` can fail.
-/

namespace Pintos

open Function List Option

variable {phase : CondPhase}

namespace CondState

variable {Tid : Type} [DecidableEq Tid] {s s' : CondState Tid} {t : Tid}

/-- What holds of a thread in the given phase. -/
def Fits (s : CondState Tid) (t : Tid) : CondPhase → Prop
  | .outside | .reacquiring => t ∉ s.waiters ∧ (s.sema t).waiters = []
  | .broadcasting => t ∉ s.waiters ∧ (s.sema t).waiters = [] ∧ s.holder = some t
  | .registered => t ∈ s.waiters ∧ s.sema t = ⟨0, []⟩ ∧ s.holder = some t
  | .released => (s.sema t).waiters = [] ∧ (s.sema t).value = if t ∈ s.waiters then 0 else 1
  | .asleep => t ∈ s.waiters ∧ s.sema t = ⟨0, [t]⟩
  | .woken => t ∉ s.waiters ∧ s.sema t = ⟨1, []⟩

/-- The thread is as its phase says. -/
def Placed (s : CondState Tid) (t : Tid) : Prop := s.Fits t (s.phase t)

theorem Placed.fits (placed : s.Placed t) (same : s.phase t = phase) :
    s.Fits t phase := by
  rw [← same]
  exact placed

theorem placed_setPhase : (s.setPhase t phase).Placed t ↔ s.Fits t phase := by
  unfold Placed
  rw [show (s.setPhase t phase).phase t = phase from update_self ..]
  cases phase <;> rfl

/-- Every thread is registered and sleeps as its place in `cond_wait` says. -/
structure Consistent (s : CondState Tid) : Prop where
  placed : ∀ t, s.Placed t
  nodup : s.waiters.Nodup

/-- A step of one thread that changes nothing that the others see of themselves. -/
theorem Consistent.of_step (consistent : s.Consistent) (t : Tid) (self : s'.Placed t)
    (nodup : s'.waiters.Nodup) (phase : ∀ u, u ≠ t → s'.phase u = s.phase u)
    (sema : ∀ u, u ≠ t → s'.sema u = s.sema u)
    (waiters : ∀ u, u ≠ t → (u ∈ s'.waiters ↔ u ∈ s.waiters))
    (holder : ∀ u, u ≠ t → s.holder = some u → s'.holder = some u) : s'.Consistent where
  placed u := by
    by_cases same : u = t
    · rw [same]
      exact self
    have old := consistent.placed u
    unfold Placed at old ⊢
    rw [phase u same]
    generalize s.phase u = place at old ⊢
    cases place with
    | registered | broadcasting =>
      simp only [Fits, sema u same, waiters u same] at old ⊢
      exact ⟨old.1, old.2.1, holder u same old.2.2⟩
    | outside | reacquiring | released | asleep | woken =>
      simpa only [Fits, sema u same, waiters u same] using old
  nodup := nodup

/-! ## Signals -/

/-- Every registered waiter has reached its `sema_down`, or there is only one. -/
def AllAsleep (s : CondState Tid) : Prop :=
  s.waiters.length ≤ 1 ∨ ∀ w ∈ s.waiters, s.phase w = .asleep

/-- While somebody else holds the lock, a registered waiter has released it. -/
theorem Consistent.waiter_cases (consistent : s.Consistent) (may : s.MaySignal t) {w : Tid}
    (mem : w ∈ s.waiters) :
    s.phase w = .released ∧ s.sema w = ⟨0, []⟩ ∨ s.phase w = .asleep ∧ s.sema w = ⟨0, [w]⟩ := by
  have placed := consistent.placed w
  cases phase : s.phase w with
  | released =>
    obtain ⟨noWaiters, value⟩ := placed.fits phase
    rw [if_pos mem] at value
    left
    refine ⟨rfl, ?_⟩
    cases sema : s.sema w with
    | mk v ws =>
      rw [sema] at noWaiters value
      obtain rfl : v = 0 := value
      obtain rfl : ws = [] := noWaiters
      rfl
  | asleep => exact .inr ⟨rfl, (placed.fits phase).2⟩
  | registered =>
    have isT : t = w := some.inj (may.1.symm.trans (placed.fits phase).2.2)
    have other := may.2
    rw [isT, phase] at other
    rcases other with h | h <;> cases h
  | outside | reacquiring | broadcasting | woken => exact absurd mem (placed.fits phase).1

/-- The semaphore of the waiter is raised. -/
def raised (s : CondState Tid) (w : Tid) : CondState Tid :=
  ({ s with waiters := s.waiters.erase w }.setSema w ⟨1, []⟩).setPhase w
    (if s.phase w = CondPhase.asleep then .woken else .released)

theorem setPhase_self (same : s.phase t = phase) : s.setPhase t phase = s := by
  unfold setPhase
  rw [← same, update_eq_self]

/-- `sema_up` of the semaphore of a registered waiter. -/
theorem Consistent.semaUp (consistent : s.Consistent) (may : s.MaySignal t) {w : Tid}
    (mem : w ∈ s.waiters) :
    ({ s with waiters := s.waiters.erase w } : CondState Tid).semaUp w = some (s.raised w) := by
  unfold CondState.semaUp raised
  rcases consistent.waiter_cases may mem with ⟨phase, sema⟩ | ⟨phase, sema⟩
  · rw [show ({ s with waiters := s.waiters.erase w } : CondState Tid).sema w = _ from sema, phase]
    simp only [reduceCtorEq, if_false]
    rw [setPhase_self]
    exact phase
  · rw [show ({ s with waiters := s.waiters.erase w } : CondState Tid).sema w = _ from sema, phase]
    simp [threadListMax, listMax]

omit [DecidableEq Tid] in
/-- Among sleepers the comparison function compares effective priorities. -/
theorem condvarLess_asleep {a b : Tid} (atA : s.sema a = ⟨0, [a]⟩) (atB : s.sema b = ⟨0, [b]⟩) :
    s.condvarLess a b = some (decide (s.priority a < s.priority b)) := by
  unfold condvarLess
  rw [atA, atB]
  rfl

/-- The waiter that `cond_signal` picks. -/
theorem Consistent.condSignal (consistent : s.Consistent) (may : s.MaySignal t)
    (waiting : s.waiters ≠ []) (asleep : s.AllAsleep) :
    ∃ w ∈ s.waiters, (∀ v ∈ s.waiters, s.priority v ≤ s.priority w) ∧
      s.condSignal = some (s.raised w) := by
  have signal : ∀ w, w ∈ s.waiters →
      ({ s with waiters := s.waiters.erase w } : CondState Tid).semaUp w = some (s.raised w) :=
    fun w mem => consistent.semaUp may mem
  have cases := fun w (mem : w ∈ s.waiters) => consistent.waiter_cases may mem
  unfold CondState.condSignal
  unfold AllAsleep at asleep
  generalize s.waiters = waiters at waiting asleep signal cases ⊢
  cases waiters with
  | nil => exact absurd rfl waiting
  | cons first rest =>
    dsimp only
    rcases asleep with short | sleeping
    · have none : rest = [] := eq_nil_of_length_eq_zero (by simpa using short)
      subst none
      refine ⟨first, mem_cons_self, ?_, ?_⟩
      · intro v hv
        exact Int.le_of_eq (congrArg s.priority (mem_singleton.mp hv))
      · exact signal first mem_cons_self
    have sleeps : ∀ a ∈ first :: rest, s.sema a = ⟨0, [a]⟩ := by
      intro a ha
      rcases cases a ha with ⟨phase, -⟩ | ⟨-, sema⟩
      · rw [sleeping a ha] at phase
        cases phase
      · exact sema
    obtain ⟨w, run, mem, largest⟩ := listMax_spec s.priority rest first
      fun a ha b hb => condvarLess_asleep (sleeps a ha) (sleeps b hb)
    refine ⟨w, mem, largest, ?_⟩
    rw [run]
    exact signal w mem

/-! ## Steps -/

/-- The condition on signals: only to waiters that all sleep, or to a single one. -/
def SignalsSleepers (s : CondState Tid) : CondStep Tid → Prop
  | .condSignal _ => s.AllAsleep
  | _ => True

section
variable (consistent : s.Consistent)
include consistent
theorem Consistent.raised (may : s.MaySignal t) {w : Tid}
    (mem : w ∈ s.waiters) : (s.raised w).Consistent := by
  have gone : w ∉ s.waiters.erase w := fun still => (consistent.nodup.mem_erase_iff.mp still).1 rfl
  apply consistent.of_step w
  · unfold CondState.raised
    rw [placed_setPhase]
    rcases consistent.waiter_cases may mem with ⟨phase, -⟩ | ⟨phase, -⟩
    · rw [phase, if_neg (by decide)]
      unfold Fits setSema
      simp [gone]
    · rw [phase, if_pos rfl]
      exact ⟨gone, update_self ..⟩
  · exact consistent.nodup.erase w
  · exact fun u ne => update_of_ne ne _ _
  · exact fun u ne => update_of_ne ne _ _
  · exact fun u ne => mem_erase_of_ne ne
  · exact fun u _ isHolder => isHolder

theorem Consistent.semaDown
    (inside : s.phase t = .released ∨ s.phase t = .woken) : (s.semaDown t).Consistent := by
  have placed := consistent.placed t
  -- the value is zero exactly if the thread is still registered
  have state : (s.sema t).waiters = [] ∧ ((s.sema t).value = 0 ↔ t ∈ s.waiters) := by
    rcases inside with phase | phase
    · obtain ⟨noWaiters, value⟩ := placed.fits phase
      refine ⟨noWaiters, ?_⟩
      rw [value]
      split <;> simp_all
    obtain ⟨notIn, sema⟩ := placed.fits phase
    rw [sema]
    exact ⟨rfl, by simp [notIn]⟩
  unfold CondState.semaDown
  split
  · rename_i zero
    apply consistent.of_step t
    · rw [placed_setPhase]
      refine ⟨state.2.mp zero, ?_⟩
      simp [setSema, state.1, zero]
    · exact consistent.nodup
    · exact fun u ne => update_of_ne ne _ _
    · exact fun u ne => update_of_ne ne _ _
    · exact fun u _ => Iff.rfl
    · exact fun u _ isHolder => isHolder
  rename_i pos
  apply consistent.of_step t
  · rw [placed_setPhase]
    refine ⟨fun mem => pos (state.2.mpr mem), ?_⟩
    rw [show ((s.setSema t { s.sema t with value := (s.sema t).value - 1 }).sema t) = _ from
      update_self ..]
    exact state.1
  · exact consistent.nodup
  · exact fun u ne => update_of_ne ne _ _
  · exact fun u ne => update_of_ne ne _ _
  · exact fun u _ => Iff.rfl
  · exact fun u _ isHolder => isHolder

theorem Consistent.setHolder (holder : Option Tid) (phase : CondPhase)
    (self : ({ s with holder } : CondState Tid).Fits t phase)
    (free : s.holder = none ∨ s.holder = some t) :
    (({ s with holder } : CondState Tid).setPhase t phase).Consistent := by
  apply consistent.of_step t (placed_setPhase.mpr self) consistent.nodup
  · exact fun u ne => update_of_ne ne _ _
  · exact fun u _ => rfl
  · exact fun u _ => Iff.rfl
  intro u ne isHolder
  rcases free with none | some
  · rw [isHolder] at none
    cases none
  · rw [isHolder] at some
    exact absurd (Option.some.inj some) ne

theorem Consistent.condWait (phase : s.phase t = .outside) (holds : s.holder = some t) :
    ((({ s with waiters := s.waiters ++ [t] } : CondState Tid).setSema t ⟨0, []⟩).setPhase t
      .registered).Consistent := by
  have placed := (consistent.placed t).fits phase
  apply consistent.of_step t
  · rw [placed_setPhase]
    exact ⟨mem_append_right _ (mem_singleton.mpr rfl), update_self .., holds⟩
  · exact nodup_append.mpr ⟨consistent.nodup, nodup_singleton t, fun a ha b hb =>
      fun same => placed.1 (mem_singleton.mp hb ▸ same ▸ ha)⟩
  · exact fun u ne => update_of_ne ne _ _
  · exact fun u ne => update_of_ne ne _ _
  · intro u ne
    show u ∈ s.waiters ++ [t] ↔ u ∈ s.waiters
    simp [ne]
  · exact fun u _ isHolder => isHolder

theorem Consistent.next (step : CondStep Tid)
    (sleepers : s.SignalsSleepers step) (run : s.next step = some s') : s'.Consistent := by
  cases step with
  | lockAcquire t =>
    obtain ⟨⟨phase, free⟩, isNext⟩ := ite_none_right_eq_some.mp run
    rw [← some.inj isNext, ← setPhase_self (s := { s with holder := some t }) phase]
    exact consistent.setHolder _ _ ((consistent.placed t).fits phase) (.inl free)
  | lockRelease t =>
    obtain ⟨⟨phase, holds⟩, isNext⟩ := ite_none_right_eq_some.mp run
    rw [← some.inj isNext, ← setPhase_self (s := { s with holder := none }) phase]
    exact consistent.setHolder _ _ ((consistent.placed t).fits phase) (.inr holds)
  | condWait t =>
    obtain ⟨⟨phase, holds⟩, isNext⟩ := ite_none_right_eq_some.mp run
    rw [← some.inj isNext]
    exact consistent.condWait phase holds
  | condRelease t =>
    obtain ⟨phase, isNext⟩ := ite_none_right_eq_some.mp run
    obtain ⟨mem, sema, holds⟩ := (consistent.placed t).fits phase
    rw [← some.inj isNext]
    apply consistent.setHolder none .released
    · unfold Fits
      dsimp only
      rw [sema, if_pos mem]
      exact ⟨rfl, rfl⟩
    · exact .inr holds
  | condSleep t =>
    obtain ⟨phase, isNext⟩ := ite_none_right_eq_some.mp run
    rw [← some.inj isNext]
    exact consistent.semaDown (.inl phase)
  | condResume t =>
    obtain ⟨phase, isNext⟩ := ite_none_right_eq_some.mp run
    rw [← some.inj isNext]
    exact consistent.semaDown (.inr phase)
  | condReturn t =>
    obtain ⟨⟨phase, free⟩, isNext⟩ := ite_none_right_eq_some.mp run
    rw [← some.inj isNext]
    exact consistent.setHolder (some t) .outside ((consistent.placed t).fits phase) (.inl free)
  | condSignal t =>
    obtain ⟨may, isNext⟩ := ite_none_right_eq_some.mp run
    by_cases waiting : s.waiters = []
    · have same : s.condSignal = some s := by
        unfold CondState.condSignal
        rw [waiting]
      rw [← some.inj (same.symm.trans isNext)]
      exact consistent
    obtain ⟨w, mem, -, signal⟩ := consistent.condSignal may waiting sleepers
    rw [← some.inj (signal.symm.trans isNext)]
    exact consistent.raised may mem
  | condBroadcast t =>
    obtain ⟨⟨phase, holds⟩, isNext⟩ := ite_none_right_eq_some.mp run
    obtain ⟨notIn, noWaiters⟩ := (consistent.placed t).fits phase
    rw [← some.inj isNext]
    exact consistent.setHolder s.holder .broadcasting ⟨notIn, noWaiters, holds⟩ (.inr holds)
  | broadcastDone t =>
    obtain ⟨⟨phase, -⟩, isNext⟩ := ite_none_right_eq_some.mp run
    obtain ⟨notIn, noWaiters, holds⟩ := (consistent.placed t).fits phase
    rw [← some.inj isNext]
    exact consistent.setHolder s.holder .outside ⟨notIn, noWaiters⟩ (.inr holds)
  | setPriority t priority =>
    rw [← some.inj run]
    refine ⟨?_, consistent.nodup⟩
    intro u
    have old := consistent.placed u
    unfold Placed at old ⊢
    dsimp only
    generalize s.phase u = place at old ⊢
    cases place <;> exact old

end

theorem Consistent.of_reachable
    (reach : Reachable Initial CondState.next SignalsSleepers s) : s.Consistent := by
  apply reach.invariant
  · rintro s ⟨-, empty, semas, phases⟩
    refine ⟨?_, by rw [empty]; exact nodup_nil⟩
    intro t
    unfold Placed
    rw [phases t]
    unfold Fits
    rw [empty, semas t]
    exact ⟨not_mem_nil, rfl⟩
  · intro s step s' consistent sleepers run
    exact consistent.next step sleepers run

/-- The thread's `sema_down` does not block any more. -/
def LeavesSemaDown (s : CondState Tid) (w : Tid) : Prop :=
  ∃ s', (s.next (.condSleep w) = some s' ∨ s.next (.condResume w) = some s') ∧
    s'.phase w = .reacquiring

theorem raised_leaves (s : CondState Tid) (w : Tid) : (s.raised w).LeavesSemaDown w := by
  refine ⟨(s.raised w).semaDown w, ?_, ?_⟩
  · have phase : (s.raised w).phase w =
        if s.phase w = CondPhase.asleep then .woken else .released := update_self ..
    by_cases asleep : s.phase w = .asleep
    · rw [if_pos asleep] at phase
      exact .inr (if_pos phase)
    · rw [if_neg asleep] at phase
      exact .inl (if_pos phase)
  have sema : (s.raised w).sema w = ⟨1, []⟩ := update_self ..
  unfold CondState.semaDown
  rw [sema, if_neg Nat.one_ne_zero]
  exact update_self ..

/-- In every run in which a signal finds all registered waiters asleep, or only one
    waiter, a `cond_signal` with waiters registered fails no assertion and takes out
    exactly one, of maximal effective priority, whose `sema_down` then returns; and a
    thread blocked in `cond_wait` is always still registered. -/
theorem condSignal_wakes_maximal (reached : Reachable Initial next SignalsSleepers s)
    (may : s.MaySignal t) (waiting : s.waiters ≠ []) (asleep : s.AllAsleep) :
    (∃ w s', s.condSignal = some s' ∧ w ∈ s.waiters ∧
      (∀ v ∈ s.waiters, s.priority v ≤ s.priority w) ∧ s'.waiters = s.waiters.erase w ∧
      s'.waiters.length + 1 = s.waiters.length ∧ s'.LeavesSemaDown w) ∧
    ∀ v, s.phase v = .asleep → v ∈ s.waiters := by
  have consistent := Consistent.of_reachable reached
  obtain ⟨w, member, largest, signal⟩ := consistent.condSignal may waiting asleep
  refine ⟨⟨w, s.raised w, signal, member, largest, rfl, ?_, raised_leaves s w⟩, ?_⟩
  · show (s.waiters.erase w).length + 1 = s.waiters.length
    rw [length_erase_of_mem member]
    have := length_pos_of_mem member
    omega
  · exact fun v phase => ((consistent.placed v).fits phase).1

/-- The state before any call, where each thread has its number as priority. -/
def start : CondState Nat where
  priority t := t
  holder := none
  waiters := []
  sema _ := ⟨0, []⟩
  phase _ := .outside

theorem start_initial : Initial start := ⟨rfl, rfl, fun _ => rfl, fun _ => rfl⟩

instance (s : CondState Tid) : Decidable s.AllAsleep := inferInstanceAs (Decidable (_ ∨ _))

instance (s : CondState Tid) (step : CondStep Tid) : Decidable (s.SignalsSleepers step) := by
  unfold SignalsSleepers
  cases step <;> infer_instance

/-- The steps of a `cond_wait` until it sleeps. -/
def waitSteps (t : Nat) : List (CondStep Nat) :=
  [.lockAcquire t, .condWait t, .condRelease t, .condSleep t]

/-- Three sleepers and a signal: the one with the highest priority is woken. -/
theorem condSignal_wakes_maximal_of_three :
    ∃ s s' : CondState Nat, Reachable Initial next SignalsSleepers s ∧ s.waiters = [5, 7, 6] ∧
      s.condSignal = some s' ∧ s'.waiters = [5, 6] ∧ s'.LeavesSemaDown 7 := by
  obtain ⟨s, reached, waiters, may, asleep, five, six, seven⟩ :=
    reachable_of_run next SignalsSleepers start_initial
    (waitSteps 5 ++ waitSteps 7 ++ waitSteps 6 ++ [.lockAcquire 9])
    (fun s => s.waiters = [5, 7, 6] ∧ s.MaySignal 9 ∧ s.AllAsleep ∧
      s.priority 5 = 5 ∧ s.priority 6 = 6 ∧ s.priority 7 = 7) (by decide)
  have waiting : s.waiters ≠ [] := by
    rw [waiters]
    decide
  obtain ⟨⟨w, s', signal, member, largest, removed, -, leaves⟩, -⟩ :=
    condSignal_wakes_maximal reached may waiting asleep
  rw [waiters] at member largest removed
  have atLeast := largest 7 (by decide)
  have isSeven : w = 7 := by
    simp only [mem_cons, not_mem_nil, or_false] at member
    rcases member with rfl | rfl | rfl
    · omega
    · rfl
    · omega
  subst isSeven
  exact ⟨s, s', reached, waiters, signal, removed, leaves⟩

/-- Thread 6 is preempted between its `lock_release` and its `sema_down` by thread 9,
    which signals while thread 5 sleeps. -/
theorem condSignal_fails_before_sema_down :
    ∃ s : CondState Nat, Reachable Initial next AnyStep s ∧ s.MaySignal 9 ∧ s.waiters = [5, 6] ∧
      s.condSignal = none := by
  obtain ⟨s, reached, may, waiters, stuck⟩ := reachable_of_run next AnyStep start_initial
    (waitSteps 5 ++ [.lockAcquire 6, .condWait 6, .condRelease 6, .lockAcquire 9])
    (fun s => s.MaySignal 9 ∧ s.waiters = [5, 6] ∧ s.condSignal.isNone) (by decide)
  exact ⟨s, reached, may, waiters, isNone_iff_eq_none.mp stuck⟩

end CondState

end Pintos
