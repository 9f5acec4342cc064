import Mathlib.Algebra.Order.BigOperators.Group.Finset
import Pintos.Misc.Transition
import Pintos.Userprog.FaultKill

/-!
# What a killed process leaves behind

The `fail` path of `page_fault` gives back the locks of cache blocks but not the
inode's `rwlock`: its counters go on counting the critical section in which the
process was killed. Hence the counters of that inode are wrong from then on.
-/

namespace Pintos

open Function List Option Finset
namespace FaultState

variable {Tid Ino : Type} [DecidableEq Tid] [DecidableEq Ino] {t : Tid} {s s' : FaultState Tid Ino}

/-- How often threads are in a critical section of the inode. -/
def sectionCount [Fintype Tid] (thread : Tid → FileThread Ino) (i : Ino) (writer : Bool) : Nat :=
  ∑ t, (thread t).sections.count (i, writer)

/-- How many threads were killed in a critical section of the inode. -/
def killedCount (s : FaultState Tid Ino) (i : Ino) (writer : Bool) : Nat :=
  s.killed.countP fun k => k.2 == (i, writer)

/-- The counters count the critical sections of live threads and those of the
    threads that were killed in one. -/
structure Inv [Fintype Tid] (s : FaultState Tid Ino) : Prop where
  exclusive : ∀ i, (s.rwlock i).Exclusive
  counts : ∀ i w, (s.rwlock i).active w = sectionCount s.thread i w + s.killedCount i w

omit [DecidableEq Ino] in
theorem sum_update [Fintype Tid] (thread : Tid → FileThread Ino) (t : Tid) (th : FileThread Ino)
    (count : FileThread Ino → Nat) :
    ∑ u, count (update thread t th u) + count (thread t) = ∑ u, count (thread u) + count th := by
  have old := add_sum_erase univ (fun u => count (thread u)) (mem_univ t)
  have after := add_sum_erase univ (fun u => count (update thread t th u)) (mem_univ t)
  have others : ∑ u ∈ univ.erase t, count (update thread t th u) =
      ∑ u ∈ univ.erase t, count (thread u) := by
    refine sum_congr rfl ?_
    intro u mem
    rw [update_of_ne (ne_of_mem_erase mem)]
  simp only [update_self] at after
  omega

variable [Fintype Tid]

theorem sectionCount_update (thread : Tid → FileThread Ino) (t : Tid) (th : FileThread Ino) (i : Ino)
    (w : Bool) :
    sectionCount (update thread t th) i w + (thread t).sections.count (i, w) =
      sectionCount thread i w + th.sections.count (i, w) :=
  sum_update thread t th fun th => th.sections.count (i, w)

theorem sectionCount_update_same {thread : Tid → FileThread Ino} {th : FileThread Ino}
    (same : th.sections = (thread t).sections) (i : Ino) (w : Bool) :
    sectionCount (update thread t th) i w = sectionCount thread i w := by
  have total := sectionCount_update thread t th i w
  rw [same] at total
  omega

theorem sectionCount_enter (thread : Tid → FileThread Ino) (i : Ino) (request : Tid × Bool)
    (j : Ino) (w : Bool) :
    sectionCount (enter thread i request) j w =
      sectionCount thread j w + if (i, request.2) = (j, w) then 1 else 0 := by
  have total : sectionCount (enter thread i request) j w +
      (thread request.1).sections.count (j, w) = sectionCount thread j w +
        ((i, request.2) :: (thread request.1).sections).count (j, w) :=
    sectionCount_update _ _ _ j w
  simp only [count_cons, beq_iff_eq] at total
  omega

theorem sectionCount_grant (granted : List (Tid × Bool)) (thread : Tid → FileThread Ino) (i : Ino)
    (j : Ino) (w : Bool) :
    sectionCount (granted.foldl (fun th request => enter th i request) thread) j w =
      sectionCount thread j w + if i = j then granted.countP (fun r => r.2 == w) else 0 := by
  induction granted generalizing thread with
  | nil => simp
  | cons request rest ih =>
    rw [foldl_cons, ih, sectionCount_enter]
    by_cases hi : i = j
    · by_cases hw : request.2 = w
      · simp [hi, hw]
        omega
      · simp [hi, hw]
    · simp [hi]

omit [DecidableEq Tid] in
theorem Inv.of_same (inv : s.Inv) (rwlock : s'.rwlock = s.rwlock) (killed : s'.killed = s.killed)
    (sections : ∀ i w, sectionCount s'.thread i w = sectionCount s.thread i w) : s'.Inv := by
  refine ⟨?_, ?_⟩
  · rw [rwlock]
    exact inv.exclusive
  intro i w
  rw [rwlock, sections, killedCount, killed]
  exact inv.counts i w

theorem Inv.acquire (inv : s.Inv) {i : Ino} {writer : Bool}
    (step : s.next (.acquire t i writer) = some s') : s'.Inv := by
  simp only [next] at step
  split at step
  · generalize run : (s.rwlock i).rwlockAcquire t writer = result at step
    obtain ⟨rw', granted⟩ := result
    obtain rfl := some.inj step
    obtain ⟨exclusive, counts⟩ := Rwlock.rwlockAcquire_spec run (inv.exclusive i)
    refine ⟨?_, ?_⟩
    · intro j
      by_cases hj : j = i
      · subst hj
        simpa using exclusive
      · simpa [hj] using inv.exclusive j
    intro j w
    have sections : sectionCount (if granted = true then enter s.thread i (t, writer)
        else update s.thread t { s.thread t with waiting := some (i, writer) }) j w =
        sectionCount s.thread j w + if granted ∧ j = i ∧ w = writer then 1 else 0 := by
      by_cases hg : granted = true
      · rw [if_pos hg, sectionCount_enter]
        simp [hg, eq_comm]
      · rw [if_neg hg, sectionCount_update_same (by rfl)]
        simp [hg]
    show (update s.rwlock i rw' j).active w = _ + s.killedCount j w
    rw [sections]
    have old := inv.counts j w
    by_cases hj : j = i
    · subst hj
      rw [update_self, counts w]
      simp only [true_and]
      omega
    · rw [update_of_ne hj]
      simp [hj, old]
  · cases step

theorem Inv.release (inv : s.Inv) (step : s.next (.release t) = some s') : s'.Inv := by
  simp only [next] at step
  split at step
  · cases step
  rename_i i writer outer shape
  simp only [ite_none_right_eq_some, bind_eq_bind, bind_eq_some_iff] at step
  obtain ⟨-, ⟨rw', granted⟩, run, result⟩ := step
  obtain rfl := some.inj result
  have left : ∀ j w, sectionCount (update s.thread t (leave (s.thread t))) j w +
      (if (i, writer) = (j, w) then 1 else 0) = sectionCount s.thread j w := by
    intro j w
    have total := sectionCount_update s.thread t (leave (s.thread t)) j w
    simp only [leave, shape, tail_cons, count_cons, beq_iff_eq] at total ⊢
    omega
  -- The thread itself is counted, so its counter is pos.
  have holds : 0 < (s.rwlock i).active writer := by
    have one := left i writer
    have count := inv.counts i writer
    rw [if_pos rfl] at one
    omega
  obtain ⟨exclusive, counts⟩ := Rwlock.rwlockRelease_spec run (inv.exclusive i) holds
  refine ⟨?_, ?_⟩
  · intro j
    by_cases hj : j = i
    · subst hj
      simpa using exclusive
    · simpa [hj] using inv.exclusive j
  intro j w
  show (update s.rwlock i rw' j).active w =
    sectionCount (granted.foldl (fun th request => enter th i request) _) j w + s.killedCount j w
  rw [sectionCount_grant]
  have old := inv.counts j w
  have one := left j w
  by_cases hj : j = i
  · subst hj
    have lowered := counts w
    rw [update_self, if_pos rfl]
    by_cases hw : w = writer
    · subst hw
      simp only [if_true] at lowered one
      omega
    · simp only [Prod.mk.injEq, true_and, hw, Ne.symm hw, if_false, Nat.add_zero] at lowered one
      omega
  rw [update_of_ne hj, if_neg (Ne.symm hj)]
  simp only [Prod.mk.injEq, Ne.symm hj, false_and, if_false, Nat.add_zero] at one
  omega

/-- A killed thread's critical section moves from the live threads to the killed
    ones; the counters stay. -/
theorem Inv.fault (inv : s.Inv) (step : s.next (.fault t) = some s') : s'.Inv := by
  simp only [next] at step
  split at step
  · rename_i e i writer _ shape
    simp only [ite_none_right_eq_some, some.injEq] at step
    obtain ⟨-, rfl⟩ := step
    refine ⟨inv.exclusive, ?_⟩
    intro j w
    have total := sectionCount_update s.thread t
      { status := .exiting, sections := [], waiting := none, copying := none } j w
    have old := inv.counts j w
    rw [shape, count_singleton, count_nil] at total
    simp only [beq_iff_eq] at total
    simp only [killedCount, countP_cons, beq_iff_eq] at old ⊢
    omega
  · cases step

theorem Inv.step (inv : s.Inv) {a : FaultStep Tid Ino} (step : s.next a = some s') : s'.Inv := by
  cases a with
  | acquire t i writer => exact inv.acquire step
  | copy t e =>
    simp only [next, ite_none_right_eq_some, some.injEq] at step
    obtain ⟨-, rfl⟩ := step
    exact inv.of_same rfl rfl fun i w => sectionCount_update_same (by rfl) i w
  | copied t =>
    simp only [next] at step
    split at step
    · simp only [ite_none_right_eq_some, some.injEq] at step
      obtain ⟨-, rfl⟩ := step
      exact inv.of_same rfl rfl fun i w => sectionCount_update_same (by rfl) i w
    · cases step
  | release t => exact inv.release step
  | fault t => exact inv.fault step
  | exit t | die t =>
    simp only [next, ite_none_right_eq_some, some.injEq] at step
    obtain ⟨-, rfl⟩ := step
    exact inv.of_same rfl rfl fun i w => sectionCount_update_same (by rfl) i w

omit [DecidableEq Tid] in
theorem inside_card_le (s : FaultState Tid Ino) (i : Ino) (w : Bool) :
    (s.inside i w).card ≤ sectionCount s.thread i w := by
  calc (s.inside i w).card = ∑ _t ∈ s.inside i w, 1 := card_eq_sum_ones _
    _ ≤ ∑ t ∈ s.inside i w, (s.thread t).sections.count (i, w) := by
        refine sum_le_sum ?_
        intro t mem
        exact count_pos_iff.mpr (mem_filter.mp mem).2.2
    _ ≤ sectionCount s.thread i w :=
        sum_le_univ_sum_of_nonneg fun t => Nat.zero_le _

/-- Once a process has been killed in the `memcpy` of a read or write, in no later state do the
    counters of the rwlocks equal the numbers of live threads in their critical sections. -/
theorem not_accounted_after_fault
    (reached : Reachable Initial next AnyStep s) (killed : s.killed ≠ []) : ¬s.Accounted := by
  have inv : s.Inv := by
    refine Reachable.invariant (P := Inv) ?_ ?_ reached
    · rintro s ⟨rwlock, -, thread, none⟩
      refine ⟨?_, ?_⟩
      · intro i
        rw [rwlock]
        exact Or.inl rfl
      intro i w
      cases w <;>
        simp [rwlock, Rwlock.init, Rwlock.active, sectionCount, thread, killedCount, none]
    · exact fun s a s' inv _ step => inv.step step
  obtain ⟨⟨t, i, w⟩, member⟩ := exists_mem_of_ne_nil _ killed
  have positive : 0 < s.killedCount i w :=
    countP_pos_iff.mpr ⟨_, member, beq_self_eq_true _⟩
  rintro ⟨counters, -⟩
  have claimed : (s.rwlock i).active w = (s.inside i w).card := by
    cases w with
    | false => exact (counters i).1
    | true => exact (counters i).2
  have count := inv.counts i w
  have bound := inside_card_le s i w
  omega

/-- Two threads in user mode. -/
def twoThreads : FaultState (Fin 2) (Fin 1) where
  rwlock := fun _ => .init
  cacheLock := fun _ => none
  thread := fun _ => { status := .alive, sections := [], waiting := none, copying := none }
  killed := []

theorem twoThreads_initial : twoThreads.Initial := ⟨fun _ => rfl, fun _ => rfl, fun _ => rfl, rfl⟩

/-- A `read` into an unmapped buffer, while another thread waits to extend the file. -/
theorem not_accounted_after_fault_read :
    ∃ s : FaultState (Fin 2) (Fin 1), Reachable Initial next AnyStep s ∧
      s.killed = [(0, 0, false)] ∧ (s.thread 0).status = .dead ∧ ¬s.Accounted := by
  obtain ⟨s, reached, killed, dead⟩ := reachable_of_run next AnyStep twoThreads_initial
    [.acquire 0 0 false, .copy 0 3, .acquire 1 0 true, .fault 0, .die 0]
    (fun s => s.killed = [(0, 0, false)] ∧ (s.thread 0).status = .dead) (by decide)
  exact ⟨s, reached, killed, dead,
    not_accounted_after_fault reached (by rw [killed]; exact cons_ne_nil _ _)⟩

/-- A single `read` into an unmapped buffer: the reader it counted is dead. -/
theorem reader_left_behind :
    ¬∀ s : FaultState (Fin 2) (Fin 1), Reachable Initial next AnyStep s → s.killed ≠ [] →
      s.Accounted := by
  intro always
  obtain ⟨s, reached, killed, readers, live⟩ := reachable_of_run next AnyStep
    twoThreads_initial [.acquire 0 0 false, .copy 0 3, .fault 0, .die 0]
    (fun s => s.killed = [(0, 0, false)] ∧ (s.rwlock 0).activeReaders = 1 ∧
      (s.inside 0 false).card = 0) (by decide)
  have accounted := always s reached (by rw [killed]; exact cons_ne_nil _ _)
  rw [(accounted.1 0).1, live] at readers
  cases readers

end FaultState
end Pintos
