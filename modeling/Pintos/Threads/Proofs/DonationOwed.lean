import Pintos.Misc.Transition
import Pintos.Threads.Proofs.LockInvariant

/-!
# No donation without a waiter

`extra_priority` and `parent` follow the threads that sleep on locks: every
operation keeps `DonationOwed`, except a `lock_try_acquire` that fails, which
donates to the holder and does not wait.
-/

namespace Pintos

open Option
namespace LockState

variable {Tid Lid : Type} {s s' : LockState Tid Lid} {t : Tid} {l : Lid}

/-- Threads whose lock, holder and priority are unchanged still wait. -/
theorem DonationOwed.of_waits (owed : s.DonationOwed)
    (waits : ∀ W H, s.WaitsFor W H → s'.WaitsFor W H)
    (effective : ∀ W H, s.WaitsFor W H → (s.thread W).effective ≤ (s'.thread W).effective)
    (extra : ∀ H, (s'.thread H).extraPriority ≤ (s.thread H).extraPriority ∨
      (s'.thread H).extraPriority ≤ 0)
    (parent : ∀ t p, (s'.thread t).parent = some p → (s.thread t).parent = some p) :
    s'.DonationOwed := by
  refine ⟨?_, ?_⟩
  · intro H
    rcases extra H with same | nothing
    · rcases owed.1 H with nothing | ⟨W, waitsW, bound⟩
      · exact .inl (le_trans same nothing)
      · exact .inr ⟨W, waits W H waitsW, le_trans same (le_trans bound (effective W H waitsW))⟩
    · exact .inl nothing
  · intro t p hp
    exact waits t p (owed.2 t p (parent t p hp))

theorem DonationOwed.parent_none (owed : s.DonationOwed)
    (awake : ∀ k, (s.thread t).status ≠ .blocked k) : (s.thread t).parent = none := by
  cases parent : (s.thread t).parent with
  | none => rfl
  | some p =>
    obtain ⟨l, blocked, -⟩ := owed.2 t p parent
    exact absurd blocked (awake l)

/-- A thread that is awake acts, and no lock loses its holder. -/
theorem DonationOwed.of_awake (owed : s.DonationOwed)
    (awake : ∀ k, (s.thread t).status ≠ .blocked k) (other : ∀ u, u ≠ t → s'.thread u = s.thread u)
    (extra : (s'.thread t).extraPriority = (s.thread t).extraPriority)
    (parent : (s'.thread t).parent = (s.thread t).parent)
    (holders : ∀ k H, (s.lock k).holder = some H → (s'.lock k).holder = some H) :
    s'.DonationOwed := by
  have asleep : ∀ W H, s.WaitsFor W H → W ≠ t := by
    rintro W H ⟨k, blocked, -⟩ rfl
    exact awake k blocked
  refine owed.of_waits ?_ ?_ ?_ ?_
  · rintro W H ⟨k, blocked, held⟩
    refine ⟨k, ?_, holders k H held⟩
    rw [other W (asleep W H ⟨k, blocked, held⟩)]
    exact blocked
  · intro W H waits
    rw [other W (asleep W H waits)]
  · intro H
    by_cases hH : H = t
    · rw [hH, extra]
      exact .inl (le_refl _)
    · rw [other H hH]
      exact .inl (le_refl _)
  intro u p hp
  by_cases hu : u = t
  · rw [hu, parent] at hp
    rw [hu]
    exact hp
  · rwa [other u hu] at hp

theorem Taken.donationOwed
    (taken : Taken s s' t l) (owed : s.DonationOwed) (free : (s.lock l).holder = none)
    (awake : ∀ k, (s.thread t).status ≠ .blocked k) : s'.DonationOwed := by
  apply owed.of_awake awake taken.other taken.extra taken.parent
  intro k H held
  rw [taken.otherLock k]
  · exact held
  rintro rfl
  rw [free] at held
  cases held

theorem Slept.donationOwed (slept : Slept s s' t l) (owed : s.DonationOwed)
    (awake : ∀ k, (s.thread t).status ≠ .blocked k) : s'.DonationOwed := by
  apply owed.of_awake awake slept.other slept.extra slept.parent
  intro k H held
  rw [slept.holders]
  exact held

/-- Who waits for whom after `t` has gone to sleep on `l`. -/
theorem Slept.waitsFor_iff
    (slept : Slept s s' t l) (awake : ∀ k, (s.thread t).status ≠ .blocked k) (W H : Tid) :
    s'.WaitsFor W H ↔ s.WaitsFor W H ∨ (W = t ∧ (s.lock l).holder = some H) := by
  by_cases hW : W = t
  · subst hW
    constructor
    · rintro ⟨k, blocked, held⟩
      rw [slept.status] at blocked
      obtain rfl := ThreadStatus.blocked.inj blocked
      exact .inr ⟨rfl, (slept.holders l).symm.trans held⟩
    rintro (⟨k, blocked, -⟩ | ⟨-, held⟩)
    · exact absurd blocked (awake k)
    · exact ⟨l, slept.status, (slept.holders l).trans held⟩
  · simp only [WaitsFor, slept.other W hW, slept.holders, hW, false_and, or_false]

variable [DecidableEq Lid]

theorem Released.donationOwed (released : Released s s' t l) (wf : s.Wf) (owed : s.DonationOwed)
    (held : (s.lock l).holder = some t) (runs : (s.thread t).status = .runnable) :
    s'.DonationOwed := by
  -- Who waits for another lock than `l` goes on waiting, with the same priority.
  have waits : ∀ W k H, k ≠ l → (s.thread W).status = .blocked k → (s.lock k).holder = some H →
      s'.WaitsFor W H := by
    intro W k H hk blocked holder
    refine ⟨k, ?_, ?_⟩
    · rcases released.woken with ⟨-, -, same⟩ | ⟨m, mem, -, others, -⟩
      · rw [same, blocked]
      rw [others W, blocked]
      rintro rfl
      rw [wf.waiting, blocked] at mem
      exact hk (ThreadStatus.blocked.inj mem)
    · rw [released.otherLock k hk, holder]
  have effective : ∀ W k, (s.thread W).status = .blocked k →
      (s'.thread W).effective = (s.thread W).effective := by
    intro W k blocked
    have hW : W ≠ t := by
      rintro rfl
      rw [runs] at blocked
      cases blocked
    rw [Thread.effective, Thread.effective, released.priority, released.otherExtra W hW]
  refine ⟨?_, ?_⟩
  · intro H
    by_cases hH : H = t
    · subst hH
      rw [released.extra]
      rcases (donatedBy_spec s ((s.thread H).locks.erase l)).2 with none | ⟨k, hk, W, hW, same⟩
      · exact .inl (le_of_eq none)
      rw [(wf.locksNodup H).mem_erase_iff, ← wf.holder] at hk
      rw [wf.waiting] at hW
      refine .inr ⟨W, waits W k H hk.1 hW hk.2, ?_⟩
      rw [effective W k hW]
      exact le_of_eq same
    rw [released.otherExtra H hH]
    rcases owed.1 H with none | ⟨W, ⟨k, blocked, holder⟩, bound⟩
    · exact .inl none
    have hk : k ≠ l := by
      rintro rfl
      rw [held] at holder
      exact hH (some.inj holder).symm
    refine .inr ⟨W, waits W k H hk blocked holder, ?_⟩
    rw [effective W k blocked]
    exact bound
  intro u p hp
  by_cases mem : u ∈ (s.lock l).waiters
  · rw [released.cleared u mem] at hp
    cases hp
  rw [released.parent u mem] at hp
  obtain ⟨k, blocked, holder⟩ := owed.2 u p hp
  refine waits u k p ?_ blocked holder
  rintro rfl
  rw [wf.waiting] at mem
  exact mem blocked

variable [DecidableEq Tid]

/-- `lock_acquire` of a held lock: the caller is blocked on it when the donation is
    seen by others. -/
theorem donationOwed_wait (owed : s.DonationOwed) (awake : ∀ k, (s.thread t).status ≠ .blocked k) :
    ((s.donateToHolder t l).wait t l).DonationOwed := by
  obtain ⟨same, -, parent, own⟩ := donateToHolder_fields s t l
  have slept := wait_slept (s.donateToHolder t l) t l
  have awake' : ∀ k, ((s.donateToHolder t l).thread t).status ≠ .blocked k := by
    intro k
    rw [same.status]
    exact awake k
  have waitsIff : ∀ W H, ((s.donateToHolder t l).wait t l).WaitsFor W H ↔
      s.WaitsFor W H ∨ (W = t ∧ (s.lock l).holder = some H) := by
    intro W H
    rw [slept.waitsFor_iff awake', same.lock]
    simp only [WaitsFor, same.status, same.lock]
  have parents : ∀ u p, ((s.donateToHolder t l).thread u).parent = some p →
      ((s.donateToHolder t l).wait t l).WaitsFor u p := by
    intro u p hp
    rw [waitsIff]
    by_cases hu : u = t
    · rw [hu, own] at hp
      exact .inr ⟨hu, hp⟩
    · rw [parent u hu] at hp
      exact .inl (owed.2 u p hp)
  refine ⟨?_, ?_⟩
  · intro H
    simp only [slept.fields]
    refine donateUp_owed (maxDepth + 1) t ?_ ?_ H
    · intro u p hp
      exact parents u p (((donateUp_raised _ _ t).parent u).trans hp)
    intro H
    by_cases hH : H = t
    · rw [hH, setThread_self]
      rcases owed.1 t with none | ⟨W, waits, bound⟩
      · exact .inl none
      refine .inr ⟨W, (waitsIff W t).mpr (.inl waits), ?_⟩
      have hW : W ≠ t := by
        rintro rfl
        obtain ⟨k, blocked, -⟩ := waits
        exact awake k blocked
      rw [setThread_of_ne _ _ hW]
      exact bound
    rw [setThread_of_ne _ _ hH]
    rcases owed.1 H with none | ⟨W, waits, bound⟩
    · exact .inl none
    refine .inr ⟨W, (waitsIff W H).mpr (.inl waits), ?_⟩
    have hW : W ≠ t := by
      rintro rfl
      obtain ⟨k, blocked, -⟩ := waits
      exact awake k blocked
    rw [setThread_of_ne _ _ hW]
    exact bound
  intro u p hp
  rw [(slept.fields u).2.2] at hp
  exact parents u p hp

/-- A thread that is not blocked has no link to cut when it takes a free lock. -/
theorem DonationOwed.taken (owed : s.DonationOwed)
    (awake : ∀ k, (s.thread t).status ≠ .blocked k) (free : (s.lock l).holder = none) :
    Taken s ((s.donateToHolder t l).take t l) t l := by
  have same : s.setThread t { s.thread t with parent := none } = s := by
    unfold setThread
    rw [← owed.parent_none awake]
    exact congrArg (fun thread => ({ s with thread } : LockState Tid Lid))
      (Function.update_eq_self t s.thread)
  have taken := acquire_free_taken (t := t) free
  rwa [same] at taken

theorem DonationOwed.step (wf : s.Wf) (owed : s.DonationOwed)
    {a : LockStep Tid Lid} (free : s.TryOnlyFree a) (step : s.next a = some s') :
    s'.DonationOwed := by
  have awake : ∀ t, (s.thread t).status = .runnable → ∀ k, (s.thread t).status ≠ .blocked k := by
    intro t runs k
    simp [runs]
  cases a with
  | acquire t l =>
    simp only [next, ite_none_right_eq_some] at step
    rcases lockAcquire_cases wf step.2 with ⟨free, rfl⟩ | ⟨h, -, -, rfl⟩
    · exact (owed.taken (awake t step.1) free).donationOwed owed free (awake t step.1)
    · exact donationOwed_wait owed (awake t step.1)
  | tryAcquire t l =>
    simp only [TryOnlyFree] at free
    have pos : ((s.donateToHolder t l).lock l).value ≠ 0 := by
      rw [(donateToHolder_fields s t l).1.lock, wf.value, if_pos free]
      simp
    simp only [next, lockTryAcquire, free, reduceCtorEq, if_false, pos, map_some,
      ite_none_right_eq_some, some.injEq] at step
    exact step.2 ▸ (owed.taken (awake t step.1) free).donationOwed owed free (awake t step.1)
  | release t l =>
    simp only [next, ite_none_right_eq_some] at step
    obtain ⟨held, released⟩ := lockRelease_released wf step.1 step.2
    exact released.donationOwed wf owed held step.1
  | setPriority t priority =>
    simp only [next, ite_none_right_eq_some, some.injEq] at step
    obtain ⟨runs, rfl⟩ := step
    have same := setPriority_same s t priority
    refine owed.of_waits ?_ ?_ ?_ ?_
    · rintro W H ⟨k, blocked, held⟩
      exact ⟨k, (same.status W).trans blocked, by rw [same.lock]; exact held⟩
    · rintro W H ⟨k, blocked, -⟩
      rw [threadSetPriority, setThread_of_ne]
      rintro rfl
      exact awake W runs k blocked
    · intro H
      by_cases hH : H = t
      · rw [hH, threadSetPriority, setThread_self]
        exact .inl (le_refl _)
      · rw [threadSetPriority, setThread_of_ne _ _ hH]
        exact .inl (le_refl _)
    intro u p hp
    by_cases hu : u = t
    · rwa [hu, threadSetPriority, setThread_self, ← hu] at hp
    · rwa [threadSetPriority, setThread_of_ne _ _ hu] at hp
  | create t u priority =>
    simp only [next, threadCreate, ite_none_right_eq_some, some.injEq] at step
    obtain ⟨⟨-, absent⟩, -, rfl⟩ := step
    have other : ∀ W k, (s.thread W).status = .blocked k → W ≠ u := by
      rintro W k blocked rfl
      rw [absent] at blocked
      cases blocked
    refine owed.of_waits ?_ ?_ ?_ ?_
    · rintro W H ⟨k, blocked, held⟩
      exact ⟨k, by rw [setThread_of_ne _ _ (other W k blocked)]; exact blocked, held⟩
    · rintro W H ⟨k, blocked, -⟩
      rw [setThread_of_ne _ _ (other W k blocked)]
    · intro H
      by_cases hH : H = u
      · rw [hH, setThread_self]
        exact .inr (le_refl _)
      · rw [setThread_of_ne _ _ hH]
        exact .inl (le_refl _)
    intro v p hp
    by_cases hv : v = u
    · rw [hv, setThread_self] at hp
      cases hp
    · rwa [setThread_of_ne _ _ hv] at hp
  | resume t =>
    simp only [next] at step
    split at step
    · rename_i l woken
      obtain rfl := some.inj step
      unfold semaDown
      split
      · exact (wait_slept s t l).donationOwed owed (by simp [woken])
      rename_i pos
      rw [wf.value] at pos
      exact (take_taken s t l).donationOwed owed (by simpa using pos) (by simp [woken])
    · cases step

omit [DecidableEq Tid] [DecidableEq Lid] in
theorem initial_owed (init : s.Initial) : s.DonationOwed := by
  constructor
  · intro H
    exact .inl (le_of_eq (init.1 H).2.1)
  intro t p hp
  rw [(init.1 t).2.2.1] at hp
  cases hp

/-- In every run in which `lock_try_acquire` is only called for free locks, no
    thread keeps a donation or a parent that no blocked thread accounts for. -/
theorem donationOwed_of_tryOnlyFree
    (reached : Reachable Initial next TryOnlyFree s) : s.DonationOwed := by
  have both : s.Wf ∧ s.DonationOwed := by
    refine Reachable.invariant (P := fun s => s.Wf ∧ s.DonationOwed) ?_ ?_ reached
    · exact fun s initial => ⟨initial_wf initial, initial_owed initial⟩
    · intro s a s' inv free step
      exact ⟨inv.1.step step, inv.2.step inv.1 free step⟩
  exact both.2

/-- One thread with the default priority; all locks free. -/
def mainThread : LockState (Fin 4) (Fin 2) where
  thread t := { priority := 31, extraPriority := 0, parent := none, locks := []
                status := if t = 0 then .runnable else .absent }
  lock _ := { holder := none, value := 1, waiters := [] }

theorem mainThread_initial : mainThread.Initial := by
  refine ⟨?_, fun _ => rfl⟩
  intro t
  refine ⟨?_, rfl, rfl, rfl⟩
  by_cases ht : t = 0
  · exact .inr (by simp [mainThread, ht])
  · exact .inl (by simp [mainThread, ht])

instance (s : LockState Tid Lid) (a : LockStep Tid Lid) : Decidable (s.TryOnlyFree a) := by
  unfold TryOnlyFree
  cases a <;> infer_instance

/-- A thread of priority 40 blocks on a lock of the main thread, which keeps the
    donation of 40 until it releases the lock. -/
theorem donationOwed_of_tryOnlyFree_blocked :
    ∃ s : LockState (Fin 4) (Fin 2), Reachable Initial next TryOnlyFree s ∧
      (s.thread 0).extraPriority = 40 ∧ s.DonationOwed := by
  obtain ⟨s, reached, extra⟩ := reachable_of_run next TryOnlyFree mainThread_initial
    [.tryAcquire 0 0, .create 0 1 40, .acquire 1 0]
    (fun s => (s.thread 0).extraPriority = 40) (by decide)
  exact ⟨s, reached, extra, donationOwed_of_tryOnlyFree reached⟩

/-- A `lock_try_acquire` that fails leaves its donation with the holder, and the
    holder as its parent, although nobody waits for the lock. -/
theorem failed_try_donates :
    ¬∀ s : LockState (Fin 4) (Fin 2), Reachable Initial next AnyStep s → s.DonationOwed := by
  intro always
  obtain ⟨s, reached, parent, runnable⟩ := reachable_of_run next AnyStep mainThread_initial
    [.acquire 0 0, .create 0 1 40, .tryAcquire 1 0]
    (fun s => (s.thread 1).parent = some 0 ∧ (s.thread 1).status = .runnable) (by decide)
  obtain ⟨l, blocked, -⟩ := (always s reached).2 1 0 parent
  rw [runnable] at blocked
  cases blocked

/-- In every run a lock is held by the thread that lists it, and its waiters are the
    threads blocked on it. -/
theorem locks_agree_with_threads (reached : Reachable Initial next AnyStep s) : s.Wf :=
  reached.invariant (fun _ => initial_wf) fun _ _ _ wf _ step => wf.step step

/-- A thread is blocked on a lock of the main thread. -/
theorem locks_agree_with_threads_blocked : ∃ s : LockState (Fin 4) (Fin 2),
    Reachable Initial next AnyStep s ∧ (s.lock 0).waiters = [1] ∧ s.Wf := by
  obtain ⟨s, reached, waits⟩ := reachable_of_run next AnyStep mainThread_initial
    [.acquire 0 0, .create 0 1 40, .acquire 1 0] (fun s => (s.lock 0).waiters = [1]) (by decide)
  exact ⟨s, reached, waits, locks_agree_with_threads reached⟩

end LockState
end Pintos
