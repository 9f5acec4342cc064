import Mathlib.Data.List.Count

/-!
# Read-write locks

Model of `struct rwlock` (`src/threads/synch.c:428-563`). Each call's body runs
under the `lock` of the structure and is one step. A request that cannot be
granted is queued and its caller sleeps on a semaphore of its own; `rwlock_release`
raises that semaphore when it grants the request, so a queued request is granted
by the release that takes it out of the queue.
-/

namespace Pintos

open Option

/-- `struct rwlock`; a waiter is the thread with the flag `is_writer`. -/
structure Rwlock (Tid : Type) where
  activeReaders : Nat
  activeWriters : Nat
  waiters : List (Tid × Bool)

instance lawfulWaiter {Tid : Type} [DecidableEq Tid] : LawfulBEq (Tid × Bool) := inferInstance

/-- `rwlock_init`. -/
def Rwlock.init {Tid : Type} : Rwlock Tid := { activeReaders := 0, activeWriters := 0, waiters := [] }

namespace Rwlock

variable {Tid : Type} {rw rw' : Rwlock Tid}

/-- The counter of readers or, with `writer`, of writers. -/
def active (rw : Rwlock Tid) (writer : Bool) : Nat :=
  if writer then rw.activeWriters else rw.activeReaders

/-- `rwlock_acquire_reader` (`synch.c:466-488`); true when it need not wait. -/
def rwlockAcquireReader (rw : Rwlock Tid) (t : Tid) : Rwlock Tid × Bool :=
  if rw.waiters = [] ∧ rw.activeWriters = 0 then
    ({ rw with activeReaders := rw.activeReaders + 1 }, true)
  else ({ rw with waiters := rw.waiters ++ [(t, false)] }, false)

/-- `rwlock_acquire_writer` (`synch.c:496-519`); true when it need not wait. -/
def rwlockAcquireWriter (rw : Rwlock Tid) (t : Tid) : Rwlock Tid × Bool :=
  if rw.waiters = [] ∧ rw.activeReaders = 0 ∧ rw.activeWriters = 0 then
    ({ rw with activeWriters := rw.activeWriters + 1 }, true)
  else ({ rw with waiters := rw.waiters ++ [(t, true)] }, false)

def rwlockAcquire (rw : Rwlock Tid) (t : Tid) (writer : Bool) : Rwlock Tid × Bool :=
  if writer then rw.rwlockAcquireWriter t else rw.rwlockAcquireReader t

/-- The loop of `rwlock_release` (`synch.c:537-560`) over the queue; the second
    result lists the requests it grants. -/
def grant (rw : Rwlock Tid) : List (Tid × Bool) → Rwlock Tid × List (Tid × Bool)
  | [] => ({ rw with waiters := [] }, [])
  | (t, true) :: rest =>
      if rw.activeWriters = 0 ∧ rw.activeReaders = 0 then
        let (rw', granted) := grant { rw with activeWriters := rw.activeWriters + 1 } rest
        (rw', (t, true) :: granted)
      else ({ rw with waiters := (t, true) :: rest }, [])
  | (t, false) :: rest =>
      if 0 < rw.activeWriters then ({ rw with waiters := (t, false) :: rest }, [])
      else
        let (rw', granted) := grant { rw with activeReaders := rw.activeReaders + 1 } rest
        (rw', (t, false) :: granted)

/-- The counter that `rwlock_release` lowers; `none` is its `PANIC`. -/
def leave (rw : Rwlock Tid) : Option (Rwlock Tid) :=
  if 0 < rw.activeReaders then some { rw with activeReaders := rw.activeReaders - 1 }
  else if 0 < rw.activeWriters then some { rw with activeWriters := rw.activeWriters - 1 }
  else none

/-- `rwlock_release` (`synch.c:523-563`) with the requests it grants. -/
def rwlockRelease (rw : Rwlock Tid) : Option (Rwlock Tid × List (Tid × Bool)) :=
  rw.leave.map fun rw' =>
    if rw'.activeReaders = 0 ∧ rw'.activeWriters = 0 then rw'.grant rw'.waiters else (rw', [])

/-- Readers and writers exclude each other. -/
def Exclusive (rw : Rwlock Tid) : Prop := rw.activeReaders = 0 ∨ rw.activeWriters = 0

attribute [local simp] active

/-- A request is granted if nobody waits and the lock can be shared, or it is queued. -/
theorem rwlockAcquire_cases {t : Tid} {writer granted : Bool}
    (run : rw.rwlockAcquire t writer = (rw', granted)) :
    (granted = true ∧ rw.waiters = [] ∧ rw.activeWriters = 0 ∧
        if writer then rw.activeReaders = 0 ∧ rw' = { rw with activeWriters := rw.activeWriters + 1 }
        else rw' = { rw with activeReaders := rw.activeReaders + 1 }) ∨
      granted = false ∧ rw' = { rw with waiters := rw.waiters ++ [(t, writer)] } ∧
        (rw.waiters = [] → 0 < rw.activeWriters ∨ writer = true ∧ 0 < rw.activeReaders) := by
  cases writer <;>
    simp only [rwlockAcquire, rwlockAcquireReader, rwlockAcquireWriter, Bool.false_eq_true, if_false,
      if_true] at run ⊢ <;>
    split at run <;> obtain ⟨rfl, rfl⟩ := Prod.mk.inj run <;> grind

theorem rwlockAcquire_spec {t : Tid} {writer granted : Bool}
    (run : rw.rwlockAcquire t writer = (rw', granted)) (exclusive : rw.Exclusive) :
    rw'.Exclusive ∧ ∀ w, rw'.active w = rw.active w + if granted ∧ w = writer then 1 else 0 := by
  rcases rwlockAcquire_cases run with ⟨rfl, -, noWriter, taken⟩ | ⟨rfl, rfl, -⟩
  · cases writer with
    | false =>
      obtain rfl : rw' = _ := taken
      exact ⟨.inr noWriter, by intro w; cases w <;> simp⟩
    | true =>
      obtain ⟨noReader, rfl⟩ : rw.activeReaders = 0 ∧ rw' = _ := taken
      exact ⟨.inl noReader, by intro w; cases w <;> simp⟩
  · exact ⟨exclusive, by intro w; simp⟩

/-- The loop of `rwlock_release` raises each counter by the requests it grants. -/
theorem grant_spec {queue granted : List (Tid × Bool)}
    (run : rw.grant queue = (rw', granted)) (exclusive : rw.Exclusive) :
    rw'.Exclusive ∧ ∀ w, rw'.active w = rw.active w + granted.countP (fun r => r.2 == w) := by
  induction queue generalizing rw granted with
  | nil =>
    simp only [grant, Prod.mk.injEq] at run
    obtain ⟨rfl, rfl⟩ := run
    exact ⟨exclusive, by intro w; simp⟩
  | cons request rest ih =>
    obtain ⟨t, writer⟩ := request
    cases writer with
    | true =>
      simp only [grant] at run
      split at run
      · rename_i free
        obtain ⟨rfl, rfl⟩ := Prod.mk.inj run
        obtain ⟨still, counts⟩ := ih rfl (.inl free.2)
        refine ⟨still, ?_⟩
        intro w
        rw [counts w]
        cases w with
        | false => simp
        | true =>
          simp
          omega
      · obtain ⟨rfl, rfl⟩ := Prod.mk.inj run
        exact ⟨exclusive, by intro w; simp⟩
    | false =>
      simp only [grant] at run
      split at run
      · obtain ⟨rfl, rfl⟩ := Prod.mk.inj run
        exact ⟨exclusive, by intro w; simp⟩
      rename_i free
      obtain ⟨rfl, rfl⟩ := Prod.mk.inj run
      obtain ⟨still, counts⟩ := ih rfl (.inr (by simpa using free))
      refine ⟨still, ?_⟩
      intro w
      rw [counts w]
      cases w with
      | false =>
        simp
        omega
      | true => simp

/-- A release by a reader or a writer lowers that counter and grants requests. -/
theorem rwlockRelease_spec {granted : List (Tid × Bool)} {writer : Bool}
    (run : rw.rwlockRelease = some (rw', granted)) (exclusive : rw.Exclusive)
    (holds : 0 < rw.active writer) :
    rw'.Exclusive ∧ ∀ w, rw'.active w + (if w = writer then 1 else 0) =
      rw.active w + granted.countP (fun r => r.2 == w) := by
  simp only [rwlockRelease, map_eq_some_iff] at run
  obtain ⟨mid, left, result⟩ := run
  have lowered : mid.Exclusive ∧ ∀ w, mid.active w + (if w = writer then 1 else 0) =
      rw.active w := by
    unfold leave at left
    unfold Exclusive at exclusive
    cases writer with
    | false =>
      have readers : 0 < rw.activeReaders := holds
      rw [if_pos readers, some.injEq] at left
      subst left
      refine ⟨.inr (by show rw.activeWriters = 0; omega), ?_⟩
      intro w
      cases w <;> simp
      omega
    | true =>
      have writers : 0 < rw.activeWriters := holds
      rw [if_neg (by omega), if_pos writers, some.injEq] at left
      subst left
      refine ⟨.inl (by show rw.activeReaders = 0; omega), ?_⟩
      intro w
      cases w <;> simp
      omega
  split at result
  · obtain ⟨still, counts⟩ := grant_spec result lowered.1
    refine ⟨still, ?_⟩
    intro w
    rw [counts w]
    have := lowered.2 w
    omega
  · obtain ⟨rfl, rfl⟩ := Prod.mk.inj result
    exact ⟨lowered.1, by simpa using lowered.2⟩

end Rwlock
end Pintos
