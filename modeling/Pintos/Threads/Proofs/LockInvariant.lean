import Pintos.Threads.Proofs.Donate

/-!
# What the lock operations do

Each operation is described by what it does to the fields of every thread and
every lock; the proofs about runs use these descriptions only. `Wf` is what holds
of every state: the lists of held locks, the holders, the values of the
semaphores, the lists of waiters and the states of the threads agree.
-/

namespace Pintos

open Option
namespace LockState

variable {Tid Lid : Type} {t : Tid} {l : Lid} {s s' : LockState Tid Lid}

/-- The bookkeeping of threads and locks agrees. -/
structure Wf (s : LockState Tid Lid) : Prop where
  holder : ∀ l t, (s.lock l).holder = some t ↔ l ∈ (s.thread t).locks
  locksNodup : ∀ t, (s.thread t).locks.Nodup
  value : ∀ l, (s.lock l).value = if (s.lock l).holder = none then 1 else 0
  waiting : ∀ l t, t ∈ (s.lock l).waiters ↔ (s.thread t).status = .blocked l
  waitersNodup : ∀ l, (s.lock l).waiters.Nodup
  absent : ∀ t, (s.thread t).status = .absent → (s.thread t).locks = []

section Thread

variable [DecidableEq Tid] (s : LockState Tid Lid)

theorem setThread_self (t : Tid) (th : Thread Tid Lid) : (s.setThread t th).thread t = th := by
  simp [setThread]

theorem setThread_of_ne {u : Tid} (th : Thread Tid Lid) (hu : u ≠ t) :
    (s.setThread t th).thread u = s.thread u := by
  simp [setThread, hu]

@[grind =] theorem setThread_thread (t u : Tid) (th : Thread Tid Lid) :
    (s.setThread t th).thread u = if u = t then th else s.thread u := Function.update_apply ..

@[simp] theorem setThread_lock (t : Tid) (th : Thread Tid Lid) :
    (s.setThread t th).lock = s.lock := rfl

@[grind =] theorem setThread_lock_apply (t : Tid) (th : Thread Tid Lid) (k : Lid) :
    (s.setThread t th).lock k = s.lock k := rfl

end Thread

section Lock

variable [DecidableEq Lid] (s : LockState Tid Lid)

theorem setLock_self (l : Lid) (lk : Lock Tid) : (s.setLock l lk).lock l = lk := by
  simp [setLock]

theorem setLock_of_ne {k : Lid} (lk : Lock Tid) (hk : k ≠ l) :
    (s.setLock l lk).lock k = s.lock k := by
  simp [setLock, hk]

@[grind =] theorem setLock_lock (l k : Lid) (lk : Lock Tid) :
    (s.setLock l lk).lock k = if k = l then lk else s.lock k := Function.update_apply ..

@[simp] theorem setLock_thread (l : Lid) (lk : Lock Tid) :
    (s.setLock l lk).thread = s.thread := rfl

@[grind =] theorem setLock_thread_apply (l : Lid) (lk : Lock Tid) (u : Tid) :
    (s.setLock l lk).thread u = s.thread u := rfl

end Lock

/-- `s'` differs from `s` in priorities and parents only. -/
structure SameLocks (s s' : LockState Tid Lid) : Prop where
  locks : ∀ u, (s'.thread u).locks = (s.thread u).locks
  status : ∀ u, (s'.thread u).status = (s.thread u).status
  lock : s'.lock = s.lock

theorem SameLocks.wf (same : SameLocks s s') (wf : s.Wf) : s'.Wf := by
  obtain ⟨locks, status, lock⟩ := same
  cases wf
  constructor <;> simpa only [lock, locks, status]

/-- The fields after `t` has become the holder of `l`. -/
structure Taken (s s' : LockState Tid Lid) (t : Tid) (l : Lid) : Prop where
  other : ∀ u, u ≠ t → s'.thread u = s.thread u
  priority : (s'.thread t).priority = (s.thread t).priority
  extra : (s'.thread t).extraPriority = (s.thread t).extraPriority
  parent : (s'.thread t).parent = (s.thread t).parent
  locks : (s'.thread t).locks = (s.thread t).locks ++ [l]
  status : (s'.thread t).status = .runnable
  otherLock : ∀ k, k ≠ l → s'.lock k = s.lock k
  holder : (s'.lock l).holder = some t
  value : (s'.lock l).value = (s.lock l).value - 1
  waiters : (s'.lock l).waiters = (s.lock l).waiters

theorem take_taken [DecidableEq Tid] [DecidableEq Lid] (s : LockState Tid Lid) (t : Tid)
    (l : Lid) : Taken s (s.take t l) t l := by
  constructor <;> grind [take]

theorem Taken.wf (taken : Taken s s' t l) (wf : s.Wf) (free : (s.lock l).holder = none)
    (awake : ∀ k, (s.thread t).status ≠ .blocked k) : s'.Wf := by
  have unheld : ∀ u, l ∉ (s.thread u).locks := by
    intro u mem
    rw [← wf.holder, free] at mem
    cases mem
  obtain ⟨other, -, -, -, locks, status, otherLock, holder, value, waiters⟩ := taken
  cases wf
  constructor <;> grind +splitImp

/-- The fields after `t` has gone to sleep on `l`. -/
structure Slept (s s' : LockState Tid Lid) (t : Tid) (l : Lid) : Prop where
  other : ∀ u, u ≠ t → s'.thread u = s.thread u
  priority : (s'.thread t).priority = (s.thread t).priority
  extra : (s'.thread t).extraPriority = (s.thread t).extraPriority
  parent : (s'.thread t).parent = (s.thread t).parent
  locks : (s'.thread t).locks = (s.thread t).locks
  status : (s'.thread t).status = .blocked l
  otherLock : ∀ k, k ≠ l → s'.lock k = s.lock k
  holder : (s'.lock l).holder = (s.lock l).holder
  value : (s'.lock l).value = (s.lock l).value
  waiters : (s'.lock l).waiters = (s.lock l).waiters ++ [t]

theorem Slept.fields (slept : Slept s s' t l)
    (u : Tid) : (s'.thread u).effective = (s.thread u).effective ∧
      (s'.thread u).extraPriority = (s.thread u).extraPriority ∧
      (s'.thread u).parent = (s.thread u).parent := by
  cases slept
  grind +splitImp [Thread.effective]

theorem wait_slept [DecidableEq Tid] [DecidableEq Lid] (s : LockState Tid Lid) (t : Tid)
    (l : Lid) : Slept s (s.wait t l) t l := by
  constructor <;> grind [wait]

theorem Slept.holders (slept : Slept s s' t l) (k : Lid) : (s'.lock k).holder = (s.lock k).holder := by
  by_cases hk : k = l
  · rw [hk, slept.holder]
  · rw [slept.otherLock k hk]

theorem Slept.wf (slept : Slept s s' t l) (wf : s.Wf)
    (awake : ∀ k, (s.thread t).status ≠ .blocked k) : s'.Wf := by
  obtain ⟨other, -, -, -, locks, status, otherLock, holder, value, waiters⟩ := slept
  cases wf
  constructor <;> grind +splitImp

/-- The fields after `t` has released `l`: the parents of all waiters are cleared, one waiter is
    woken, and `t` keeps the donation of the waiters for its other locks. -/
structure Released [DecidableEq Lid] (s s' : LockState Tid Lid) (t : Tid) (l : Lid) : Prop where
  priority : ∀ u, (s'.thread u).priority = (s.thread u).priority
  otherExtra : ∀ u, u ≠ t → (s'.thread u).extraPriority = (s.thread u).extraPriority
  extra : (s'.thread t).extraPriority = s.donatedBy ((s.thread t).locks.erase l)
  cleared : ∀ u, u ∈ (s.lock l).waiters → (s'.thread u).parent = none
  parent : ∀ u, u ∉ (s.lock l).waiters → (s'.thread u).parent = (s.thread u).parent
  otherLocks : ∀ u, u ≠ t → (s'.thread u).locks = (s.thread u).locks
  locks : (s'.thread t).locks = (s.thread t).locks.erase l
  otherLock : ∀ k, k ≠ l → s'.lock k = s.lock k
  holder : (s'.lock l).holder = none
  value : (s'.lock l).value = (s.lock l).value + 1
  woken : ((s.lock l).waiters = [] ∧ (s'.lock l).waiters = [] ∧
      ∀ u, (s'.thread u).status = (s.thread u).status) ∨
    ∃ m, m ∈ (s.lock l).waiters ∧ (s'.thread m).status = .woken l ∧
      (∀ u, u ≠ m → (s'.thread u).status = (s.thread u).status) ∧
      ∀ u, u ∈ (s'.lock l).waiters ↔ u ∈ (s.lock l).waiters ∧ u ≠ m
  waitersNodup : (s'.lock l).waiters.Nodup

theorem donatedBy_congr (lock : s'.lock = s.lock)
    (effective : ∀ u, (s'.thread u).effective = (s.thread u).effective) (locks : List Lid) :
    s'.donatedBy locks = s.donatedBy locks := by
  have same : ∀ first rest, threadListMax s'.thread first rest =
      threadListMax s.thread first rest := by
    intro first rest
    have less : ∀ m e, (s'.thread m).less (s'.thread e) = (s.thread m).less (s.thread e) := by
      intro m e
      rw [Thread.less, Thread.less, effective, effective]
    simp only [threadListMax, less]
  have step : s'.addDonation = s.addDonation := by
    funext extra l
    simp only [addDonation, lock, same, effective]
  rw [donatedBy, donatedBy, step]

theorem addDonation_spec (s : LockState Tid Lid) (extra : Int) (l : Lid) :
    extra ≤ s.addDonation extra l ∧
      (∀ W ∈ (s.lock l).waiters, (s.thread W).effective ≤ s.addDonation extra l) ∧
      (s.addDonation extra l = extra ∨
        ∃ W ∈ (s.lock l).waiters, s.addDonation extra l = (s.thread W).effective) := by
  cases list : (s.lock l).waiters with
  | nil =>
    have same : s.addDonation extra l = extra := by simp only [addDonation, list]
    rw [same]
    exact ⟨le_refl extra, by simp, .inl rfl⟩
  | cons first rest =>
    simp only [addDonation, list]
    obtain ⟨mem, maximal⟩ := threadListMax_spec s.thread first rest
    refine ⟨le_max_left _ _, fun W hW => le_trans (maximal W hW) (le_max_right _ _), ?_⟩
    rcases le_total extra (s.thread (threadListMax s.thread first rest)).effective with low | high
    · exact .inr ⟨_, mem, max_eq_right low⟩
    · exact .inl (max_eq_left high)

theorem foldl_addDonation_spec (s : LockState Tid Lid) (locks : List Lid) (extra : Int) :
    extra ≤ locks.foldl s.addDonation extra ∧
      (∀ l ∈ locks, ∀ W ∈ (s.lock l).waiters,
        (s.thread W).effective ≤ locks.foldl s.addDonation extra) ∧
      (locks.foldl s.addDonation extra = extra ∨ ∃ l ∈ locks, ∃ W ∈ (s.lock l).waiters,
        locks.foldl s.addDonation extra = (s.thread W).effective) := by
  induction locks generalizing extra with
  | nil => exact ⟨le_refl extra, by simp, .inl rfl⟩
  | cons l locks ih =>
    rw [List.foldl_cons]
    obtain ⟨above, bound, source⟩ := addDonation_spec s extra l
    obtain ⟨restAbove, restBound, restSource⟩ := ih (s.addDonation extra l)
    refine ⟨le_trans above restAbove, ?_, ?_⟩
    · intro k hk W hW
      rcases List.mem_cons.mp hk with rfl | hk
      · exact le_trans (bound W hW) restAbove
      · exact restBound k hk W hW
    rcases restSource with same | ⟨k, hk, W, hW, same⟩
    · rcases source with first | ⟨W, hW, first⟩
      · exact .inl (same.trans first)
      · exact .inr ⟨l, by simp, W, hW, same.trans first⟩
    · exact .inr ⟨k, by simp [hk], W, hW, same⟩

/-- A thread that keeps some locks keeps the highest effective priority among the
    waiters for them, 0 when there are none. -/
theorem donatedBy_spec (s : LockState Tid Lid) (locks : List Lid) :
    (∀ l ∈ locks, ∀ W ∈ (s.lock l).waiters, (s.thread W).effective ≤ s.donatedBy locks) ∧
      (s.donatedBy locks = 0 ∨ ∃ l ∈ locks, ∃ W ∈ (s.lock l).waiters,
        s.donatedBy locks = (s.thread W).effective) :=
  (foldl_addDonation_spec s locks 0).2

theorem initial_wf (init : s.Initial) : s.Wf := by
  obtain ⟨threads, locks⟩ := init
  refine ⟨?_, ?_, ?_, ?_, ?_, ?_⟩
  · intro l t
    simp [locks, (threads t).2.2.2]
  · intro t
    simp [(threads t).2.2.2]
  · intro l
    simp [locks]
  · intro l t
    rcases (threads t).1 with status | status <;> simp [locks, status]
  · intro l
    simp [locks]
  · intro t _
    exact (threads t).2.2.2

variable [DecidableEq Tid]

/-- What a call of `lock_acquire` has done before it tries to take the lock. -/
theorem donateToHolder_fields (s : LockState Tid Lid) (t : Tid) (l : Lid) :
    SameLocks s (s.donateToHolder t l) ∧
    (∀ u, ((s.donateToHolder t l).thread u).priority = (s.thread u).priority) ∧
    (∀ u, u ≠ t → ((s.donateToHolder t l).thread u).parent = (s.thread u).parent) ∧
    ((s.donateToHolder t l).thread t).parent = (s.lock l).holder := by
  have raised := donateUp_raised (maxDepth + 1)
    (s.setThread t { s.thread t with parent := (s.lock l).holder }).thread t
  refine ⟨⟨?_, ?_, rfl⟩, ?_, ?_, ?_⟩
  · exact fun u => (raised.locks u).trans (by grind)
  · exact fun u => (raised.status u).trans (by grind)
  · exact fun u => (raised.priority u).trans (by grind)
  · exact fun u hu => (raised.parent u).trans (by grind)
  · exact (raised.parent t).trans (by grind)

theorem donateToHolder_of_free (free : (s.lock l).holder = none) :
    s.donateToHolder t l = s.setThread t { s.thread t with parent := none } := by
  have top : ((s.setThread t { s.thread t with parent := none }).thread t).parent = none := by
    rw [setThread_self]
  simp only [donateToHolder, free, donateUp_of_none top]

theorem setPriority_same (s : LockState Tid Lid) (t : Tid) (priority : Int) :
    SameLocks s (s.threadSetPriority t priority) := by
  constructor <;> grind [threadSetPriority]

theorem setThread_wf {u : Tid} {th : Thread Tid Lid} (wf : s.Wf)
    (absent : (s.thread u).status = .absent) (locks : th.locks = [])
    (status : th.status = .runnable) : (s.setThread u th).Wf := by
  cases wf
  constructor <;> grind +splitImp

variable [DecidableEq Lid]

theorem detach_fields (s : LockState Tid Lid) (awake : t ∉ (s.lock l).waiters) :
    (∀ u, u ≠ t → (s.detach t l).thread u =
      if u ∈ (s.lock l).waiters then { s.thread u with parent := none } else s.thread u) ∧
    (s.detach t l).thread t =
      { s.thread t with locks := (s.thread t).locks.erase l
                        extraPriority := s.donatedBy ((s.thread t).locks.erase l) } ∧
    (∀ k, k ≠ l → (s.detach t l).lock k = s.lock k) ∧
    (s.detach t l).lock l = { s.lock l with holder := none } := by
  refine ⟨?_, ?_, ?_, ?_⟩
  · intro u hu
    simp only [detach, setThread_of_ne _ _ hu, setLock_thread]
  · simp only [detach, setThread_self, if_neg awake]
    congr 1
    apply donatedBy_congr
    · rfl
    intro u
    by_cases waits : u ∈ (s.lock l).waiters
    · simp [waits, Thread.effective]
    · simp [waits]
  · intro k hk
    simp only [detach, setThread_lock, setLock_of_ne _ _ hk]
  · simp only [detach, setThread_lock, setLock_self]

/-- `sema_up` raises the value and wakes the waiter with the highest priority. -/
theorem semaUp_fields (s : LockState Tid Lid) (l : Lid) (nodup : (s.lock l).waiters.Nodup) :
    (∀ k, k ≠ l → (s.semaUp l).lock k = s.lock k) ∧
    ((s.semaUp l).lock l).holder = (s.lock l).holder ∧
    ((s.semaUp l).lock l).value = (s.lock l).value + 1 ∧
    ((s.semaUp l).lock l).waiters.Nodup ∧
    (((s.lock l).waiters = [] ∧ ((s.semaUp l).lock l).waiters = [] ∧
        (s.semaUp l).thread = s.thread) ∨
      ∃ m, m ∈ (s.lock l).waiters ∧ (s.semaUp l).thread m = { s.thread m with status := .woken l } ∧
        (∀ u, u ≠ m → (s.semaUp l).thread u = s.thread u) ∧
        ∀ u, u ∈ ((s.semaUp l).lock l).waiters ↔ u ∈ (s.lock l).waiters ∧ u ≠ m) := by
  cases list : (s.lock l).waiters with
  | nil =>
    have up : s.semaUp l = s.setLock l { s.lock l with value := (s.lock l).value + 1 } := by
      simp only [semaUp, list]
    rw [up, setLock_self]
    exact ⟨fun k hk => setLock_of_ne _ _ hk, rfl, rfl, nodup, .inl ⟨rfl, list, rfl⟩⟩
  | cons first rest =>
    obtain ⟨mem, -⟩ := threadListMax_spec s.thread first rest
    have up : s.semaUp l = (s.setLock l
        { s.lock l with waiters := (first :: rest).erase (threadListMax s.thread first rest)
                        value := (s.lock l).value + 1 }).setThread
        (threadListMax s.thread first rest)
        { s.thread (threadListMax s.thread first rest) with status := .woken l } := by
      simp only [semaUp, list]
    rw [list] at nodup
    rw [up, setThread_lock, setLock_self]
    refine ⟨fun k hk => setLock_of_ne _ _ hk, rfl, rfl, nodup.erase _,
      .inr ⟨_, mem, setThread_self _ _ _, ?_, ?_⟩⟩
    · intro u hu
      rw [setThread_of_ne _ _ hu, setLock_thread]
    · intro u
      rw [nodup.mem_erase_iff, and_comm]

theorem lockRelease_released (wf : s.Wf)
    (runs : (s.thread t).status = .runnable) (run : s.lockRelease t l = some s') :
    (s.lock l).holder = some t ∧ Released s s' t l := by
  have awake : t ∉ (s.lock l).waiters := by
    rw [wf.waiting, runs]
    simp
  unfold lockRelease at run
  split at run
  · rename_i held
    obtain rfl := some.inj run
    obtain ⟨other, own, otherLock, lock⟩ := detach_fields s awake
    have nodup : ((s.detach t l).lock l).waiters.Nodup := by
      rw [lock]
      exact wf.waitersNodup l
    obtain ⟨upOther, upHolder, upValue, upNodup, upWoken⟩ := semaUp_fields (s.detach t l) l nodup
    -- `sema_up` only changes the status of a thread.
    have field : ∀ u, ∃ status, ((s.detach t l).semaUp l).thread u =
        { (s.detach t l).thread u with status } := by
      intro u
      rcases upWoken with ⟨-, -, same⟩ | ⟨m, -, woken, others, -⟩
      · exact ⟨_, congrFun same u⟩
      by_cases hu : u = m
      · exact ⟨_, hu ▸ woken⟩
      · exact ⟨_, others u hu⟩
    have status : ∀ u, ((s.detach t l).thread u).status = (s.thread u).status := by
      intro u
      by_cases hu : u = t
      · rw [hu, own]
      · rw [other u hu]
        split <;> rfl
    have waiters : ((s.detach t l).lock l).waiters = (s.lock l).waiters := by rw [lock]
    refine ⟨held, ?_, ?_, ?_, ?_, ?_, ?_, ?_, ?_, ?_, ?_, ?_, upNodup⟩
    case refine_11 =>
      rcases upWoken with ⟨empty, empty', same⟩ | ⟨m, mem, woken, others, rest⟩
      · exact .inl ⟨waiters ▸ empty, empty', fun u => by rw [same, status]⟩
      refine .inr ⟨m, waiters ▸ mem, by rw [woken], ?_, waiters ▸ rest⟩
      intro u hu
      rw [others u hu, status]
    all_goals grind +splitImp
  · cases run

omit [DecidableEq Tid] in
theorem Released.wf (released : Released s s' t l) (wf : s.Wf) (held : (s.lock l).holder = some t)
    (runs : (s.thread t).status = .runnable) : s'.Wf := by
  have awake : t ∉ (s.lock l).waiters := by
    rw [wf.waiting, runs]
    simp
  obtain ⟨-, -, -, -, -, otherLocks, locks, otherLock, holder, value, woken, waitersNodup⟩ := released
  cases wf
  constructor <;> grind +splitImp

/-- The fields after `t` has taken the free lock `l`. -/
theorem acquire_free_taken (free : (s.lock l).holder = none) :
    Taken (s.setThread t { s.thread t with parent := none })
      ((s.donateToHolder t l).take t l) t l := by
  rw [donateToHolder_of_free free]
  exact take_taken _ t l

theorem lockAcquire_cases (wf : s.Wf) (run : s.lockAcquire t l = some s') :
    ((s.lock l).holder = none ∧ s' = (s.donateToHolder t l).take t l) ∨
      ∃ h, h ≠ t ∧ (s.lock l).holder = some h ∧ s' = (s.donateToHolder t l).wait t l := by
  unfold lockAcquire at run
  split at run
  · cases run
  rename_i notHeld
  obtain rfl := some.inj run
  have lock := (donateToHolder_fields s t l).1.lock
  cases held : (s.lock l).holder with
  | none =>
    refine .inl ⟨rfl, ?_⟩
    rw [semaDown, lock, wf.value, held]
    simp
  | some h =>
    refine .inr ⟨h, ?_, rfl, ?_⟩
    · rintro rfl
      exact notHeld held
    · rw [semaDown, lock, wf.value, held]
      simp

theorem Wf.step (wf : s.Wf) {a : LockStep Tid Lid} (step : s.next a = some s') : s'.Wf := by
  have awake : ∀ t, (s.thread t).status = .runnable → ∀ k, (s.thread t).status ≠ .blocked k := by
    intro t runs k
    simp [runs]
  -- `lock_acquire` and `lock_try_acquire` begin alike.
  have begun : ∀ t l, (s.donateToHolder t l).Wf := fun t l =>
    (donateToHolder_fields s t l).1.wf wf
  have takes : ∀ t l, (s.thread t).status = .runnable → (s.lock l).holder = none →
      ((s.donateToHolder t l).take t l).Wf := by
    intro t l runs free
    have same := (donateToHolder_fields s t l).1
    refine (take_taken _ t l).wf (begun t l) ?_ ?_
    · rw [same.lock]
      exact free
    · rw [same.status]
      exact awake t runs
  cases a with
  | acquire t l =>
    simp only [next, ite_none_right_eq_some] at step
    obtain ⟨runs, run⟩ := step
    have same := (donateToHolder_fields s t l).1
    rcases lockAcquire_cases wf run with ⟨free, rfl⟩ | ⟨h, -, -, rfl⟩
    · exact takes t l runs free
    refine (wait_slept _ t l).wf (begun t l) ?_
    rw [same.status]
    exact awake t runs
  | tryAcquire t l =>
    simp only [next, ite_none_right_eq_some, map_eq_some_iff] at step
    obtain ⟨runs, ⟨success, result⟩, run, rfl⟩ := step
    have same := (donateToHolder_fields s t l).1
    unfold lockTryAcquire at run
    split at run
    · cases run
    by_cases zero : ((s.donateToHolder t l).lock l).value = 0
    · simp only [zero, if_true, some.injEq, Prod.mk.injEq] at run
      exact run.2 ▸ begun t l
    simp only [zero, if_false, some.injEq, Prod.mk.injEq] at run
    rw [same.lock, wf.value] at zero
    exact run.2 ▸ takes t l runs (by simpa using zero)
  | release t l =>
    simp only [next, ite_none_right_eq_some] at step
    obtain ⟨held, released⟩ := lockRelease_released wf step.1 step.2
    exact released.wf wf held step.1
  | setPriority t priority =>
    simp only [next, ite_none_right_eq_some, some.injEq] at step
    exact step.2 ▸ (setPriority_same s t priority).wf wf
  | create t u priority =>
    simp only [next, threadCreate, ite_none_right_eq_some, some.injEq] at step
    obtain ⟨⟨-, absent⟩, -, rfl⟩ := step
    exact setThread_wf wf absent rfl rfl
  | resume t =>
    simp only [next] at step
    split at step
    · rename_i l woken
      obtain rfl := some.inj step
      unfold semaDown
      split
      · exact (wait_slept s t l).wf wf (by simp [woken])
      rename_i pos
      rw [wf.value] at pos
      exact (take_taken s t l).wf wf (by simpa using pos) (by simp [woken])
    · cases step

end LockState
end Pintos
