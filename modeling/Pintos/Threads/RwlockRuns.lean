import Pintos.Misc.Transition
import Pintos.Threads.Rwlock

/-!
# Runs of a read-write lock

Any number of threads use one `rwlock` (`src/threads/synch.c:428-563`). A thread may
acquire it again while it holds it; it takes no step while it waits. The run keeps
the list of all requests in the order in which their calls took `rwlock->lock`, the
list of the requests granted so far and the list of those not yet released.
-/

namespace Pintos

open List Option Rwlock

variable {writer granted : Bool}

/-- A lock and what happened to it; a request is a thread with the flag that it asks
    for exclusive access. -/
structure RwlockRun (Tid : Type) where
  rw : Rwlock Tid
  arrived : List (Tid × Bool)
  granted : List (Tid × Bool)
  holders : List (Tid × Bool)

inductive RwlockStep (Tid : Type) where
  /-- `rwlock_acquire_reader` or, with `writer`, `rwlock_acquire_writer`. -/
  | acquire (t : Tid) (writer : Bool)
  /-- `rwlock_release` of an earlier acquire, of the writer kind with `writer`. -/
  | release (t : Tid) (writer : Bool)

namespace RwlockRun

variable {Tid : Type}

/-- After `rwlock_init`. -/
def init : RwlockRun Tid := { rw := .init, arrived := [], granted := [], holders := [] }

def Initial (s : RwlockRun Tid) : Prop := s = init

/-- The thread sleeps in its acquire. -/
def Waiting (s : RwlockRun Tid) (t : Tid) : Prop := ∃ writer, (t, writer) ∈ s.rw.waiters

variable [DecidableEq Tid]

instance (s : RwlockRun Tid) (t : Tid) : Decidable (s.Waiting t) :=
  decidable_of_iff ((t, false) ∈ s.rw.waiters ∨ (t, true) ∈ s.rw.waiters)
    (Bool.exists_bool (p := fun writer => (t, writer) ∈ s.rw.waiters)).symm

/-- An acquire; its body runs under `rwlock->lock`. -/
def acquire (s : RwlockRun Tid) (t : Tid) (writer : Bool) : Option (RwlockRun Tid) :=
  if s.Waiting t then none
  else
    let (rw, granted) := s.rw.rwlockAcquire t writer
    let new := if granted then [(t, writer)] else []
    some { rw, arrived := s.arrived ++ [(t, writer)], granted := s.granted ++ new
           holders := s.holders ++ new }

/-- A release; its body runs under `rwlock->lock`. -/
def release (s : RwlockRun Tid) (t : Tid) (writer : Bool) : Option (RwlockRun Tid) :=
  if (t, writer) ∈ s.holders ∧ ¬ s.Waiting t then do
    let (rw, granted) ← s.rw.rwlockRelease
    some { s with rw, granted := s.granted ++ granted
                  holders := s.holders.erase (t, writer) ++ granted }
  else none

def next (s : RwlockRun Tid) : RwlockStep Tid → Option (RwlockRun Tid)
  | .acquire t writer => s.acquire t writer
  | .release t writer => s.release t writer

end RwlockRun

namespace Rwlock

variable {Tid : Type} {rw rw' : Rwlock Tid} {t : Tid}

/-- Nobody waits for a lock that is free, and behind readers a writer waits first. -/
structure Orderly (rw : Rwlock Tid) : Prop where
  exclusive : rw.Exclusive
  oneWriter : rw.activeWriters ≤ 1
  idle : rw.activeReaders = 0 → rw.activeWriters = 0 → rw.waiters = []
  front : 0 < rw.activeReaders → ∀ r ∈ rw.waiters.head?, r.2 = true

theorem Orderly.init : (init : Rwlock Tid).Orderly where
  exclusive := .inl rfl
  oneWriter := Nat.zero_le 1
  idle _ _ := rfl
  front positive := absurd positive (Nat.lt_irrefl 0)

/-- A request that is not granted at once goes to the end of the queue, and one is
    granted at once only if the queue is empty. -/
theorem rwlockAcquire_queue (run : rw.rwlockAcquire t writer = (rw', granted)) :
    rw.waiters ++ [(t, writer)] = (if granted then [(t, writer)] else []) ++ rw'.waiters := by
  rcases rwlockAcquire_cases run with ⟨rfl, empty, -, taken⟩ | ⟨rfl, rfl, -⟩
  · have same : rw'.waiters = rw.waiters := by
      split at taken
      · rw [taken.2]
      · rw [taken]
    simp [same, empty]
  · simp

/-- A request that is queued behind others leaves the front of the queue alone. -/
theorem Orderly.enqueue (orderly : rw.Orderly) {r : Tid × Bool}
    (busy : 0 < rw.activeReaders ∨ 0 < rw.activeWriters)
    (reader : r.2 = false → rw.waiters ≠ [] ∨ 0 < rw.activeWriters) :
    ({ rw with waiters := rw.waiters ++ [r] } : Rwlock Tid).Orderly where
  exclusive := orderly.exclusive
  oneWriter := orderly.oneWriter
  idle noReader noWriter := by
    have noReader : rw.activeReaders = 0 := noReader
    have noWriter : rw.activeWriters = 0 := noWriter
    omega
  front positive := by
    have positive : 0 < rw.activeReaders := positive
    intro q isFront
    cases queue : rw.waiters with
    | cons first rest =>
      have isFirst : q = first := by simpa [queue] using isFront.symm
      apply orderly.front positive
      rw [queue, isFirst]
      rfl
    | nil =>
      have isR : q = r := by simpa [queue] using isFront.symm
      rw [isR]
      cases kind : r.2 with
      | true => rfl
      | false =>
        have exclusive := orderly.exclusive
        unfold Exclusive at exclusive
        rcases reader kind with waiting | writing
        · exact absurd queue waiting
        · omega

theorem Orderly.rwlockAcquire (orderly : rw.Orderly)
    (run : rw.rwlockAcquire t writer = (rw', granted)) : rw'.Orderly := by
  rcases rwlockAcquire_cases run with ⟨-, empty, noWriter, taken⟩ | ⟨-, rfl, busy⟩
  · have front : ∀ r ∈ rw.waiters.head?, r.2 = true := by simp [empty]
    cases writer with
    | false =>
      obtain rfl : rw' = _ := taken
      exact ⟨.inr noWriter, orderly.oneWriter, fun _ _ => empty, fun _ => front⟩
    | true =>
      obtain ⟨noReader, rfl⟩ : rw.activeReaders = 0 ∧ rw' = _ := taken
      exact ⟨.inl noReader, show rw.activeWriters + 1 ≤ 1 by omega, fun _ _ => empty, fun _ => front⟩
  have waits : 0 < rw.activeReaders ∨ 0 < rw.activeWriters := by
    by_contra idle
    have := busy (orderly.idle (by omega) (by omega))
    omega
  refine orderly.enqueue waits fun reader => ?_
  by_cases empty : rw.waiters = []
  · exact .inr ((busy empty).resolve_right fun isWriter => nomatch reader.symm.trans isWriter.1)
  · exact .inl empty

/-- The loop of `rwlock_release` grants a prefix of the queue. It stops at the end of
    the queue, behind a writer, or before a writer behind readers. -/
theorem grant_queue {queue granted : List (Tid × Bool)}
    (run : rw.grant queue = (rw', granted)) (oneWriter : rw.activeWriters ≤ 1) :
    queue = granted ++ rw'.waiters ∧ rw'.activeWriters ≤ 1 ∧
      (rw'.waiters = [] ∨ 0 < rw'.activeWriters ∨
        0 < rw'.activeReaders ∧ ∀ r ∈ rw'.waiters.head?, r.2 = true) := by
  induction queue generalizing rw granted with
  | nil =>
    obtain ⟨rfl, rfl⟩ := Prod.mk.inj run
    exact ⟨rfl, oneWriter, .inl rfl⟩
  | cons request rest ih =>
    obtain ⟨t, writer⟩ := request
    cases writer with
    | true =>
      simp only [grant] at run
      split at run
      · rename_i free
        obtain ⟨rfl, rfl⟩ := Prod.mk.inj run
        have one : rw.activeWriters + 1 ≤ 1 := by omega
        obtain ⟨split, atMost, stops⟩ := ih rfl one
        exact ⟨by rw [cons_append, ← split], atMost, stops⟩
      rename_i busy
      obtain ⟨rfl, rfl⟩ := Prod.mk.inj run
      refine ⟨rfl, oneWriter, .inr ?_⟩
      by_cases writing : 0 < rw.activeWriters
      · exact .inl writing
      refine .inr ⟨?_, by simp⟩
      show 0 < rw.activeReaders
      omega
    | false =>
      simp only [grant] at run
      split at run
      · rename_i writing
        obtain ⟨rfl, rfl⟩ := Prod.mk.inj run
        exact ⟨rfl, oneWriter, .inr (.inl writing)⟩
      obtain ⟨rfl, rfl⟩ := Prod.mk.inj run
      obtain ⟨split, atMost, stops⟩ := ih rfl oneWriter
      exact ⟨by rw [cons_append, ← split], atMost, stops⟩

/-- A release grants a prefix of the queue and leaves the lock in order. -/
theorem Orderly.rwlockRelease (orderly : rw.Orderly)
    {granted : List (Tid × Bool)} (run : rw.rwlockRelease = some (rw', granted))
    (holds : 0 < rw.active writer) : rw'.Orderly ∧ rw.waiters = granted ++ rw'.waiters := by
  have exclusive' := (rwlockRelease_spec run orderly.exclusive holds).1
  simp only [Rwlock.rwlockRelease, map_eq_some_iff] at run
  obtain ⟨mid, left, result⟩ := run
  have mid_eq : mid.waiters = rw.waiters ∧ mid.activeWriters ≤ 1 ∧
      (0 < mid.activeReaders → 0 < rw.activeReaders) := by
    unfold leave at left
    have := orderly.oneWriter
    split at left
    · rename_i reading
      rw [← some.inj left]
      exact ⟨rfl, orderly.oneWriter, fun _ => reading⟩
    split at left
    · rw [← some.inj left]
      exact ⟨rfl, by show rw.activeWriters - 1 ≤ 1; omega, id⟩
    · cases left
  obtain ⟨sameQueue, oneWriter, readers⟩ := mid_eq
  split at result
  · rename_i free
    obtain ⟨split, atMost, stops⟩ := grant_queue result oneWriter
    rw [sameQueue] at split
    refine ⟨⟨exclusive', atMost, ?_, ?_⟩, split⟩
    · intro noReader noWriter
      rcases stops with empty | writing | ⟨reading, -⟩
      · exact empty
      · omega
      · omega
    intro reading r isFront
    unfold Exclusive at exclusive'
    rcases stops with empty | writing | ⟨-, front⟩
    · simp [empty] at isFront
    · omega
    · exact front r isFront
  rename_i busy
  obtain ⟨rfl, rfl⟩ := Prod.mk.inj result
  refine ⟨⟨exclusive', oneWriter, ?_, ?_⟩, sameQueue.symm⟩
  · exact fun noReader noWriter => absurd ⟨noReader, noWriter⟩ busy
  intro reading
  rw [sameQueue]
  exact orderly.front (readers reading)

end Rwlock

namespace RwlockRun

variable {Tid : Type} {s s' : RwlockRun Tid} {t : Tid}

/-- The requests not yet released, by kind. -/
def held (s : RwlockRun Tid) (writer : Bool) : Nat := s.holders.countP fun r => r.2 == writer

/-- The lock is in order, its counters count the holders, and the requests were
    granted in the order of their arrival. -/
structure Fair (s : RwlockRun Tid) : Prop where
  orderly : s.rw.Orderly
  counts : ∀ writer, s.rw.active writer = s.held writer
  fifo : s.arrived = s.granted ++ s.rw.waiters

theorem Fair.init : (RwlockRun.init : RwlockRun Tid).Fair where
  orderly := .init
  counts writer := by cases writer <;> rfl
  fifo := rfl

theorem Fair.sole_writer (fair : s.Fair)
    (holds : (t, true) ∈ s.holders) : s.holders = [(t, true)] := by
  have writing : 0 < s.held true := countP_pos_iff.mpr ⟨_, holds, rfl⟩
  have writers : s.rw.activeWriters = s.held true := fair.counts true
  have readers : s.rw.activeReaders = s.held false := fair.counts false
  have exclusive := fair.orderly.exclusive
  have oneWriter := fair.orderly.oneWriter
  unfold Rwlock.Exclusive at exclusive
  have noReader : s.held false = 0 := by omega
  have allWriters : ∀ r ∈ s.holders, (r.2 == true) = true := by
    intro r mem
    have := countP_eq_zero.mp noReader r mem
    cases kind : r.2 with
    | true => rfl
    | false => exact absurd (beq_iff_eq.mpr kind) this
  have single : s.holders.length = 1 := by
    rw [← countP_eq_length.mpr allWriters]
    show s.held true = 1
    omega
  obtain ⟨r, only⟩ := length_eq_one_iff.mp single
  rw [only, mem_singleton] at holds
  rw [only, holds]

variable [DecidableEq Tid]

theorem Fair.acquire (fair : s.Fair) (step : s.acquire t writer = some s') : s'.Fair := by
  unfold RwlockRun.acquire at step
  split at step
  · cases step
  generalize run : s.rw.rwlockAcquire t writer = result at step
  obtain ⟨rw, granted⟩ := result
  rw [← some.inj step]
  refine ⟨fair.orderly.rwlockAcquire run, ?_, ?_⟩
  · intro w
    show rw.active w = (s.holders ++ if granted then [(t, writer)] else []).countP _
    rw [(rwlockAcquire_spec run fair.orderly.exclusive).2 w, fair.counts w, countP_append]
    congr 1
    cases granted with
    | false => simp
    | true => cases w <;> cases writer <;> rfl
  show s.arrived ++ [(t, writer)] =
    s.granted ++ (if granted then [(t, writer)] else []) ++ rw.waiters
  rw [fair.fifo, append_assoc, append_assoc, rwlockAcquire_queue run]

theorem Fair.release (fair : s.Fair) (step : s.release t writer = some s') : s'.Fair := by
  unfold RwlockRun.release at step
  split at step
  swap
  · cases step
  rename_i may
  cases run : s.rw.rwlockRelease with
  | none =>
    rw [run] at step
    cases step
  | some result =>
    obtain ⟨rw, granted⟩ := result
    rw [run] at step
    rw [← some.inj step]
    have counted : 0 < s.held writer := countP_pos_iff.mpr ⟨_, may.1, beq_self_eq_true writer⟩
    have holds : 0 < s.rw.active writer := by rwa [fair.counts writer]
    obtain ⟨orderly', split⟩ := fair.orderly.rwlockRelease run holds
    refine ⟨orderly', ?_, ?_⟩
    · intro w
      have balance := (rwlockRelease_spec run fair.orderly.exclusive holds).2 w
      have erased := countP_erase (fun r : Tid × Bool => r.2 == w) s.holders (t, writer)
      show rw.active w = (s.holders.erase (t, writer) ++ granted).countP _
      rw [countP_append, erased]
      rw [fair.counts w] at balance
      unfold held at balance counted
      by_cases same : w = writer
      · subst same
        rw [if_pos rfl] at balance
        rw [if_pos ⟨may.1, beq_self_eq_true w⟩]
        omega
      rw [if_neg same] at balance
      rw [if_neg]
      · omega
      · exact fun both => same (beq_iff_eq.mp both.2).symm
    · show s.arrived = s.granted ++ granted ++ rw.waiters
      rw [fair.fifo, split, append_assoc]

theorem acquire_holders
    (step : s.acquire t writer = some s') {r : Tid × Bool} (holds : r ∈ s.holders) :
    r ∈ s'.holders := by
  unfold acquire at step
  split at step
  · cases step
  rw [← some.inj step]
  exact mem_append_left _ holds

theorem release_holders (step : s.release t writer = some s') :
    (t, writer) ∈ s.holders ∧ ∀ {u b}, u ≠ t → (u, b) ∈ s.holders → (u, b) ∈ s'.holders := by
  unfold release at step
  split at step
  swap
  · cases step
  rename_i may
  refine ⟨may.1, ?_⟩
  intro u b ne holds
  cases run : s.rw.rwlockRelease with
  | none =>
    rw [run] at step
    cases step
  | some result =>
    rw [run] at step
    rw [← some.inj step]
    apply mem_append_left
    exact (mem_erase_of_ne fun same => ne (Prod.mk.inj same).1).mpr holds

theorem Fair.of_reachable (reach : Reachable Initial next AnyStep s) : s.Fair := by
  apply reach.invariant
  · intro s isInit
    rw [isInit]
    exact Fair.init
  intro s step s' fair _ run
  cases step with
  | acquire t writer => exact fair.acquire run
  | release t writer => exact fair.release run

/-- Readers and a writer exclude each other, the counters count the threads that hold the lock,
    requests are granted in the order of their arrival, nobody waits for a free lock, behind readers
    a writer waits first, and no matched release panics. -/
theorem rwlock_exclusive_and_fair {s : RwlockRun Tid} (reached : Reachable Initial next AnyStep s) :
    ¬ (0 < s.rw.activeReaders ∧ 0 < s.rw.activeWriters) ∧ s.rw.activeWriters ≤ 1 ∧
      s.rw.activeReaders = s.held false ∧ s.rw.activeWriters = s.held true ∧
      s.arrived = s.granted ++ s.rw.waiters ∧
      (s.rw.activeReaders = 0 → s.rw.activeWriters = 0 → s.rw.waiters = []) ∧
      (0 < s.rw.activeReaders → ∀ r ∈ s.rw.waiters.head?, r.2 = true) ∧
      ∀ r ∈ s.holders, s.rw.rwlockRelease.isSome := by
  have fair := Fair.of_reachable reached
  have orderly := fair.orderly
  have exclusive := orderly.exclusive
  unfold Rwlock.Exclusive at exclusive
  refine ⟨by omega, orderly.oneWriter, fair.counts false, fair.counts true, fair.fifo,
    orderly.idle, orderly.front, ?_⟩
  intro r member
  have counted : 0 < s.held r.2 := countP_pos_iff.mpr ⟨r, member, beq_self_eq_true r.2⟩
  rw [← fair.counts r.2] at counted
  unfold rwlockRelease leave
  split
  · rfl
  rename_i noReader
  rw [if_pos]
  · rfl
  cases kind : r.2 with
  | true => rwa [kind] at counted
  | false =>
    rw [kind] at counted
    exact absurd counted noReader

/-- A writer and a second reader queue behind a reader; its release lets the writer in. -/
theorem rwlock_exclusive_and_fair_handover : ∃ s : RwlockRun Nat, Reachable Initial next AnyStep s ∧
      s.granted = [(0, false), (1, true)] ∧ s.rw.waiters = [(2, false)] ∧
      s.arrived = s.granted ++ s.rw.waiters ∧ s.rw.activeWriters ≤ 1 := by
  have started : Initial (RwlockRun.init : RwlockRun Nat) := rfl
  obtain ⟨s, reached, granted, waiters⟩ := reachable_of_run next AnyStep started
    [.acquire 0 false, .acquire 1 true, .acquire 2 false, .release 0 false]
    (fun s => s.granted = [(0, false), (1, true)] ∧ s.rw.waiters = [(2, false)]) (by decide)
  obtain ⟨-, oneWriter, -, -, fifo, -⟩ := rwlock_exclusive_and_fair reached
  exact ⟨s, reached, granted, waiters, fifo, oneWriter⟩

end RwlockRun

end Pintos
