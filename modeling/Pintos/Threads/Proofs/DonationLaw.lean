import Mathlib.Data.Fintype.Basic
import Pintos.Threads.Proofs.DonationOwed

/-!
# Holders run with the priority of their waiters

`lock_release` clears the parents of all threads that wait for the lock. As long
as there is at most one such thread, and it gets the lock before others do, every
blocked thread is linked to the holder of its lock and has donated to it. With a
second waiter the law fails: that waiter stays unlinked, and what is donated to it
later never reaches the new holder.
-/

namespace Pintos

open List Option
namespace LockState

variable {Tid Lid : Type} {s s' : LockState Tid Lid} {t : Tid} {l : Lid}

/-- Every blocked thread is linked to the holder of its lock and has donated to it;
    a woken thread is the only one its lock is meant for. -/
structure Chained (s : LockState Tid Lid) : Prop where
  owed : s.DonationOwed
  linked : ∀ t l, (s.thread t).status = .blocked l →
    ∃ H, (s.lock l).holder = some H ∧ (s.thread t).parent = some H
  wokenFree : ∀ t l, (s.thread t).status = .woken l → (s.lock l).holder = none
  wokenOne : ∀ t u l, (s.thread t).status = .woken l → (s.thread u).status = .woken l → t = u
  paid : Paid s.thread

theorem Chained.donationLaw (chained : s.Chained) : s.DonationLaw := by
  have one : ∀ W H, s.WaitsFor W H → (s.thread W).effective ≤ (s.thread H).effective := by
    rintro W H ⟨l, blocked, held⟩
    obtain ⟨H', held', parent⟩ := chained.linked W l blocked
    obtain rfl : H = H' := by simpa [held] using held'
    exact le_trans (chained.paid W H parent) (Thread.extraPriority_le_effective _)
  rintro n W H - chain
  induction chain with
  | one waits => exact one _ _ waits
  | cons waits _ ih => exact le_trans (one _ _ waits) ih

/-- Parents are the holders of the locks that threads are blocked on. -/
theorem Chained.parent_eq (chained : s.Chained) (t : Tid) : (s.thread t).parent = s.waitsOn t := by
  unfold waitsOn
  split
  · rename_i l blocked
    obtain ⟨H, held, parent⟩ := chained.linked t l blocked
    rw [held, parent]
  · rename_i awake
    exact chained.owed.parent_none awake

/-- The chain of waits above the holder ends at a thread that runs: at `t` itself, which then closes
    a cycle, or at another one. `thread` is the table after `t` has been linked. -/
theorem Chained.chain_cases (chained : s.Chained) {thread : Tid → Thread Tid Lid}
    (parent : ∀ u, u ≠ t → (thread u).parent = (s.thread u).parent)
    (effective : ∀ u, (thread u).effective = (s.thread u).effective) {n : Nat} {x : Tid}
    (within : s.ChainWithin n x) : ParentsEnd thread n x ∨ RisesTo thread t n x := by
  induction n generalizing x with
  | zero =>
    by_cases hx : x = t
    · exact .inr hx
    refine .inl ?_
    show (thread x).parent = none
    rw [parent x hx, chained.parent_eq]
    exact within
  | succ n ih =>
    by_cases hx : x = t
    · exact .inr (.inl hx)
    have up : (thread x).parent = s.waitsOn x := by rw [parent x hx, chained.parent_eq]
    simp only [ChainWithin] at within
    cases waits : s.waitsOn x with
    | none =>
      refine .inl ?_
      intro p hp
      rw [up, waits] at hp
      cases hp
    | some u =>
      rw [waits] at up within
      rcases ih within with ends | rises
      · refine .inl ?_
        intro p hp
        rw [up] at hp
        exact some.inj hp ▸ ends
      refine .inr (.inr ⟨?_, u, up, rises⟩)
      have link : (s.thread x).parent = some u := by rw [chained.parent_eq, waits]
      rw [effective x]
      calc (s.thread x).effective ≤ (s.thread u).extraPriority := chained.paid x u link
        _ ≤ (s.thread u).effective := Thread.extraPriority_le_effective _
        _ = (thread u).effective := (effective u).symm
        _ ≤ (thread t).effective := rises.effective

theorem Taken.chained (taken : Taken s s' t l)
    (chained : s.Chained) (free : (s.lock l).holder = none)
    (awake : ∀ k, (s.thread t).status ≠ .blocked k)
    (only : ∀ u, u ≠ t → (s.thread u).status ≠ .woken l) : s'.Chained := by
  have parent : ∀ u, (s'.thread u).parent = (s.thread u).parent := by
    intro u
    by_cases hu : u = t
    · rw [hu, taken.parent]
    · rw [taken.other u hu]
  have extra : ∀ u, (s'.thread u).extraPriority = (s.thread u).extraPriority := by
    intro u
    by_cases hu : u = t
    · rw [hu, taken.extra]
    · rw [taken.other u hu]
  have effective : ∀ u, (s'.thread u).effective = (s.thread u).effective := by
    intro u
    by_cases hu : u = t
    · rw [hu, Thread.effective, Thread.effective, taken.priority, taken.extra]
    · rw [taken.other u hu]
  -- The status of the others is as old.
  have same : ∀ u, (s'.thread u).status ≠ .runnable →
      u ≠ t ∧ (s'.thread u).status = (s.thread u).status := by
    intro u status
    have hu : u ≠ t := by
      rintro rfl
      exact status taken.status
    exact ⟨hu, by rw [taken.other u hu]⟩
  have woken : ∀ u k, (s'.thread u).status = .woken k → k ≠ l ∧ (s.thread u).status = .woken k := by
    intro u k status
    obtain ⟨hu, old⟩ := same u (by simp [status])
    rw [status] at old
    refine ⟨?_, old.symm⟩
    rintro rfl
    exact only u hu old.symm
  refine ⟨taken.donationOwed chained.owed free awake, ?_, ?_, ?_, ?_⟩
  · intro u k blocked
    obtain ⟨-, old⟩ := same u (by simp [blocked])
    rw [blocked] at old
    obtain ⟨H, held, link⟩ := chained.linked u k old.symm
    have hk : k ≠ l := by
      rintro rfl
      rw [free] at held
      cases held
    exact ⟨H, by rw [taken.otherLock k hk]; exact held, by rw [parent]; exact link⟩
  · intro u k status
    obtain ⟨hk, old⟩ := woken u k status
    rw [taken.otherLock k hk]
    exact chained.wokenFree u k old
  · intro u v k statusu statusv
    exact chained.wokenOne u v k (woken u k statusu).2 (woken v k statusv).2
  intro u p hp
  rw [effective, extra]
  exact chained.paid u p ((parent u).symm.trans hp)

variable [DecidableEq Lid]

theorem Released.chained (released : Released s s' t l) (wf : s.Wf) (chained : s.Chained)
    (held : (s.lock l).holder = some t) (runs : (s.thread t).status = .runnable)
    (single : (s.lock l).waiters.length ≤ 1) : s'.Chained := by
  -- A thread that is still blocked waits for another lock.
  have blocked : ∀ u k, (s'.thread u).status = .blocked k →
      k ≠ l ∧ (s.thread u).status = .blocked k := by
    intro u k status
    rcases released.woken with ⟨empty, -, same⟩ | ⟨m, mem, woken, others, -⟩
    · rw [same] at status
      refine ⟨?_, status⟩
      rintro rfl
      rw [← wf.waiting, empty] at status
      cases status
    have hu : u ≠ m := by
      rintro rfl
      rw [woken] at status
      cases status
    rw [others u hu] at status
    refine ⟨?_, status⟩
    rintro rfl
    rw [← wf.waiting] at status
    obtain ⟨w, list⟩ := length_eq_one_iff.mp (le_antisymm single (length_pos_of_mem mem))
    rw [list, mem_singleton] at status mem
    exact hu (status.trans mem.symm)
  have woken : ∀ u k, (s'.thread u).status = .woken k →
      (k = l ∧ u ∈ (s.lock l).waiters) ∨ (k ≠ l ∧ (s.thread u).status = .woken k) := by
    intro u k status
    have old : (s.thread u).status = .woken k → k ≠ l := by
      rintro status rfl
      have free := chained.wokenFree u k status
      rw [held] at free
      cases free
    rcases released.woken with ⟨-, -, same⟩ | ⟨m, mem, woken, others, -⟩
    · rw [same] at status
      exact .inr ⟨old status, status⟩
    by_cases hu : u = m
    · subst hu
      rw [woken] at status
      exact .inl ⟨(ThreadStatus.woken.inj status).symm, mem⟩
    · rw [others u hu] at status
      exact .inr ⟨old status, status⟩
  refine ⟨released.donationOwed wf chained.owed held runs, ?_, ?_, ?_, ?_⟩
  · intro u k status
    obtain ⟨hk, old⟩ := blocked u k status
    obtain ⟨H, holder, link⟩ := chained.linked u k old
    refine ⟨H, by rw [released.otherLock k hk]; exact holder, ?_⟩
    rw [released.parent]
    · exact link
    · rw [wf.waiting, old]
      simpa using hk
  · intro u k status
    rcases woken u k status with ⟨rfl, -⟩ | ⟨hk, old⟩
    · exact released.holder
    · rw [released.otherLock k hk]
      exact chained.wokenFree u k old
  · intro u v k statusu statusv
    rcases woken u k statusu with ⟨rfl, memberu⟩ | ⟨hk, beforeu⟩ <;>
      rcases woken v k statusv with ⟨same, memberv⟩ | ⟨hk', beforev⟩
    · obtain ⟨w, list⟩ := length_eq_one_iff.mp (le_antisymm single (length_pos_of_mem memberu))
      rw [list, mem_singleton] at memberu memberv
      exact memberu.trans memberv.symm
    · exact absurd rfl hk'
    · exact absurd same hk
    · exact chained.wokenOne u v k beforeu beforev
  intro u p hp
  have waits : u ∉ (s.lock l).waiters := by
    intro mem
    rw [released.cleared u mem] at hp
    cases hp
  rw [released.parent u waits] at hp
  obtain ⟨k, status, holder⟩ := chained.owed.2 u p hp
  have hu : u ≠ t := by
    rintro rfl
    rw [runs] at status
    cases status
  have effective : (s'.thread u).effective = (s.thread u).effective := by
    rw [Thread.effective, Thread.effective, released.priority, released.otherExtra u hu]
  rw [effective]
  by_cases same : p = t
  · subst same
    rw [released.extra]
    refine (donatedBy_spec s _).1 k ?_ u ((wf.waiting k u).mpr status)
    rw [(wf.locksNodup p).mem_erase_iff, ← wf.holder]
    refine ⟨?_, holder⟩
    rintro rfl
    exact waits ((wf.waiting k u).mpr status)
  · rw [released.otherExtra p same]
    exact chained.paid u p hp

variable [DecidableEq Tid]

/-- `lock_acquire` of a held lock: the donation runs up the whole chain. -/
theorem chained_wait {h : Tid} (chained : s.Chained)
    (awake : ∀ k, (s.thread t).status ≠ .blocked k) (held : (s.lock l).holder = some h)
    (other : h ≠ t) (within : s.ChainWithin maxDepth h) :
    ((s.donateToHolder t l).wait t l).Chained := by
  obtain ⟨same, priority, parent, own⟩ := donateToHolder_fields s t l
  have slept := wait_slept (s.donateToHolder t l) t l
  have status : ∀ u, u ≠ t →
      (((s.donateToHolder t l).wait t l).thread u).status = (s.thread u).status := by
    intro u hu
    rw [slept.other u hu, same.status]
  have holder : ∀ k, (((s.donateToHolder t l).wait t l).lock k).holder = (s.lock k).holder := by
    intro k
    rw [slept.holders, same.lock]
  have woken : ∀ u k, (((s.donateToHolder t l).wait t l).thread u).status = .woken k →
      (s.thread u).status = .woken k := by
    intro u k hk
    rw [← status u]
    · exact hk
    rintro rfl
    rw [slept.status] at hk
    cases hk
  -- The table of threads after `cur->parent = lock->holder`.
  have linkedParent : ∀ u, u ≠ t →
      ((s.setThread t { s.thread t with parent := (s.lock l).holder }).thread u).parent =
        (s.thread u).parent := by
    intro u hu
    rw [setThread_of_ne _ _ hu]
  have linkedOwn :
      ((s.setThread t { s.thread t with parent := (s.lock l).holder }).thread t).parent = some h := by
    rw [setThread_self]
    exact held
  have linkedExtra : ∀ u,
      ((s.setThread t { s.thread t with parent := (s.lock l).holder }).thread u).extraPriority =
        (s.thread u).extraPriority := by
    intro u
    by_cases hu : u = t
    · rw [hu, setThread_self]
    · rw [setThread_of_ne _ _ hu]
  have linkedEffective : ∀ u,
      ((s.setThread t { s.thread t with parent := (s.lock l).holder }).thread u).effective =
        (s.thread u).effective := by
    intro u
    by_cases hu : u = t
    · rw [hu, setThread_self]
      rfl
    · rw [setThread_of_ne _ _ hu]
  have donated : Paid (s.donateToHolder t l).thread := by
    show Paid (donateUp (maxDepth + 1)
      (s.setThread t { s.thread t with parent := (s.lock l).holder }).thread t)
    rw [donateUp_of_some linkedOwn]
    have start : PaidExcept
        (s.setThread t { s.thread t with parent := (s.lock l).holder }).thread t := by
      intro u p hu hp
      rw [linkedEffective, linkedExtra]
      exact chained.paid u p ((linkedParent u hu).symm.trans hp)
    have raised := donate_raised
      (s.setThread t { s.thread t with parent := (s.lock l).holder }).thread h
      ((s.setThread t { s.thread t with parent := (s.lock l).holder }).thread t).effective
    rcases chained.chain_cases linkedParent linkedEffective within with ends | rises
    · exact donateUp_paid_of_parentsEnd (start.donate linkedOwn) (ends.congr raised.parent)
    refine donateUp_paid_of_risesTo ?_ (start.donate linkedOwn) (rises.donate (le_refl _))
    intro p hp
    rw [raised.parent, linkedOwn] at hp
    obtain rfl := some.inj hp
    rw [donate_of_ne _ _ (Ne.symm other), donate_self]
    exact le_max_right _ _
  refine ⟨donationOwed_wait chained.owed awake, ?_, ?_, ?_, ?_⟩
  · intro u k blocked
    by_cases hu : u = t
    · subst hu
      rw [slept.status] at blocked
      obtain rfl := ThreadStatus.blocked.inj blocked
      exact ⟨h, by rw [holder]; exact held, by rw [slept.parent, own]; exact held⟩
    rw [status u hu] at blocked
    obtain ⟨H, held, link⟩ := chained.linked u k blocked
    exact ⟨H, by rw [holder]; exact held, by rw [slept.other u hu, parent u hu]; exact link⟩
  · intro u k hk
    rw [holder]
    exact chained.wokenFree u k (woken u k hk)
  · intro u v k hu hv
    exact chained.wokenOne u v k (woken u k hu) (woken v k hv)
  intro u p hp
  rw [(slept.fields u).2.2] at hp
  rw [(slept.fields u).1, (slept.fields p).2.1]
  exact donated u p hp

theorem Chained.step (wf : s.Wf) (chained : s.Chained)
    {a : LockStep Tid Lid} (single : s.SingleWaiter a) (step : s.next a = some s') :
    s'.Chained := by
  have awake : ∀ t, (s.thread t).status = .runnable → ∀ k, (s.thread t).status ≠ .blocked k := by
    intro t runs k
    simp [runs]
  cases a with
  | acquire t l =>
    simp only [next, ite_none_right_eq_some] at step
    obtain ⟨runs, run⟩ := step
    simp only [SingleWaiter] at single
    rcases lockAcquire_cases wf run with ⟨free, rfl⟩ | ⟨h, other, held, rfl⟩
    · rw [free] at single
      have taken := chained.owed.taken (awake t runs) free
      exact taken.chained chained free (awake t runs) fun u _ => single u
    · rw [held] at single
      exact chained_wait chained (awake t runs) held other single
  | tryAcquire t l => exact single.elim
  | release t l =>
    simp only [next, ite_none_right_eq_some] at step
    obtain ⟨held, released⟩ := lockRelease_released wf step.1 step.2
    exact released.chained wf chained held step.1 single
  | setPriority t priority =>
    have owed := chained.owed.step wf (a := .setPriority t priority) trivial step
    simp only [next, ite_none_right_eq_some, some.injEq] at step
    obtain ⟨runs, rfl⟩ := step
    have same := setPriority_same s t priority
    have fields : ∀ u, ((s.threadSetPriority t priority).thread u).parent = (s.thread u).parent ∧
        ((s.threadSetPriority t priority).thread u).extraPriority = (s.thread u).extraPriority := by
      intro u
      by_cases hu : u = t
      · rw [hu, threadSetPriority, setThread_self]
        exact ⟨rfl, rfl⟩
      · rw [threadSetPriority, setThread_of_ne _ _ hu]
        exact ⟨rfl, rfl⟩
    refine ⟨owed, ?_, ?_, ?_, ?_⟩
    · intro u k blocked
      rw [same.status] at blocked
      rw [same.lock, (fields u).1]
      exact chained.linked u k blocked
    · intro u k status
      rw [same.status] at status
      rw [same.lock]
      exact chained.wokenFree u k status
    · intro u v k hu hv
      rw [same.status] at hu hv
      exact chained.wokenOne u v k hu hv
    intro u p hp
    rw [(fields u).1] at hp
    rw [(fields p).2]
    have hu : u ≠ t := by
      rintro rfl
      rw [chained.owed.parent_none (awake u runs)] at hp
      cases hp
    rw [threadSetPriority, setThread_of_ne _ _ hu]
    exact chained.paid u p hp
  | create t u priority =>
    have owed := chained.owed.step wf (a := .create t u priority) trivial step
    simp only [next, threadCreate, ite_none_right_eq_some, some.injEq] at step
    obtain ⟨⟨-, absent⟩, -, rfl⟩ := step
    refine ⟨owed, ?_, ?_, ?_, ?_⟩
    · intro v k blocked
      by_cases hv : v = u
      · rw [hv, setThread_self] at blocked
        cases blocked
      · rw [setThread_of_ne _ _ hv] at blocked ⊢
        exact chained.linked v k blocked
    · intro v k status
      by_cases hv : v = u
      · rw [hv, setThread_self] at status
        cases status
      · rw [setThread_of_ne _ _ hv] at status
        exact chained.wokenFree v k status
    · intro v w k statusv statusw
      by_cases hv : v = u
      · rw [hv, setThread_self] at statusv
        cases statusv
      by_cases hw : w = u
      · rw [hw, setThread_self] at statusw
        cases statusw
      rw [setThread_of_ne _ _ hv] at statusv
      rw [setThread_of_ne _ _ hw] at statusw
      exact chained.wokenOne v w k statusv statusw
    intro v p hp
    by_cases hv : v = u
    · rw [hv, setThread_self] at hp
      cases hp
    rw [setThread_of_ne _ _ hv] at hp ⊢
    have hu : p ≠ u := by
      rintro rfl
      obtain ⟨k, -, holder⟩ := chained.owed.2 v p hp
      rw [wf.holder, wf.absent p absent] at holder
      cases holder
    rw [setThread_of_ne _ _ hu]
    exact chained.paid v p hp
  | resume t =>
    simp only [next] at step
    split at step
    · rename_i l woken
      obtain rfl := some.inj step
      have free := chained.wokenFree t l woken
      have taken : s.semaDown t l = s.take t l := by
        rw [semaDown, wf.value, if_pos free]
        simp
      rw [taken]
      refine (take_taken s t l).chained chained free (by simp [woken]) ?_
      intro u hu status
      exact hu (chained.wokenOne u t l status woken)
    · cases step

/-- In every run in which locks are released with at most one waiter, woken threads get their lock
    before others and no chain of waits grows beyond the depth limit, a holder's effective priority
    is at least that of the threads waiting for it, along every chain of waits. -/
theorem donationLaw_of_singleWaiter
    (reached : Reachable Initial next SingleWaiter s) : s.DonationLaw := by
  have both : s.Wf ∧ s.Chained := by
    refine Reachable.invariant (P := fun s => s.Wf ∧ s.Chained) ?_ ?_ reached
    · intro s initial
      have status := fun t => (initial.1 t).1
      refine ⟨initial_wf initial, ⟨?_, ?_⟩, ?_, ?_, ?_, ?_⟩
      · intro H
        exact .inl (le_of_eq (initial.1 H).2.1)
      · intro t p hp
        rw [(initial.1 t).2.2.1] at hp
        cases hp
      · intro t l blocked
        rcases status t with h | h <;> simp [h] at blocked
      · intro t l woken
        rcases status t with h | h <;> simp [h] at woken
      · intro t u l woken
        rcases status t with h | h <;> simp [h] at woken
      intro t p hp
      rw [(initial.1 t).2.2.1] at hp
      cases hp
    · intro s a s' inv single step
      exact ⟨inv.1.step step, inv.2.step inv.1 single step⟩
  exact both.2.donationLaw

instance (s : LockState Tid Lid) (a : LockStep Tid Lid) : Decidable (s.NoTry a) := by
  unfold NoTry
  apply @LockStep.casesOn _ _ _ a <;> intros <;> infer_instance

instance decidableChainWithin (s : LockState Tid Lid) :
    (n : Nat) → (t : Tid) → Decidable (s.ChainWithin n t)
  | 0, t => inferInstanceAs (Decidable (s.waitsOn t = none))
  | n + 1, t =>
      match h : s.waitsOn t with
      | none => isTrue (by simp [ChainWithin, h])
      | some u =>
          have := decidableChainWithin s n u
          decidable_of_iff (s.ChainWithin n u) (by simp [ChainWithin, h])

instance [Fintype Tid] (s : LockState Tid Lid) (a : LockStep Tid Lid) :
    Decidable (s.SingleWaiter a) := by
  unfold SingleWaiter
  apply @LockStep.casesOn _ _ _ a <;> intros <;> dsimp only <;>
    first | infer_instance | (split <;> infer_instance)

/-- A nested donation: thread 2 waits for thread 1, which waits for thread 0. -/
theorem donationLaw_of_singleWaiter_nested :
    ∃ s : LockState (Fin 4) (Fin 2), Reachable Initial next SingleWaiter s ∧
      (s.thread 0).effective = 50 ∧ s.DonationLaw := by
  obtain ⟨s, reached, donated⟩ := reachable_of_run next SingleWaiter mainThread_initial
    [.acquire 0 0, .create 0 1 40, .acquire 1 1, .acquire 1 0, .create 0 2 50, .acquire 2 1]
    (fun s => (s.thread 0).effective = 50) (by decide)
  exact ⟨s, reached, donated, donationLaw_of_singleWaiter reached⟩

/-- Threads 1 (priority 32, holding lock 1) and 2 (priority 33) wait for lock 0 of
    thread 0, which releases it; thread 2 takes it and creates thread 3 (priority 50),
    which waits for lock 1. Thread 1 now runs with 50 but waits for thread 2 with 33. -/
theorem second_waiter_loses_donation :
    ¬∀ s : LockState (Fin 4) (Fin 2), Reachable Initial next NoTry s → s.DonationLaw := by
  intro always
  obtain ⟨s, reached, blocked, held, less⟩ := reachable_of_run next NoTry mainThread_initial
    [.acquire 0 0, .create 0 1 32, .acquire 1 1, .acquire 1 0, .create 0 2 33, .acquire 2 0,
      .release 0 0, .resume 2, .create 2 3 50, .acquire 3 1]
    (fun s => (s.thread 1).status = .blocked 0 ∧ (s.lock 0).holder = some 2 ∧
      (s.thread 2).effective < (s.thread 1).effective) (by decide)
  have law := always s reached 1 1 2 (by decide) (.one ⟨0, blocked, held⟩)
  omega

end LockState
end Pintos
