import Mathlib.Algebra.Order.Group.Int
import Pintos.Threads.Synch

/-!
# Donation along parent pointers

`donate_up` changes only `extra_priority`, never lowers it, and repairs the
donations of a chain of threads from its first link on, as long as the chain ends
below the depth limit or comes back to where it started.
-/

namespace Pintos

open List

variable {Tid Lid : Type} {thread thread' : Tid → Thread Tid Lid} {n : Nat} {p t x : Tid}

theorem Thread.extraPriority_le_effective (th : Thread Tid Lid) :
    th.extraPriority ≤ th.effective := le_max_right _ _

/-- `thread_list_max` returns a thread of the list with maximal effective priority. -/
theorem threadListMax_spec (thread : Tid → Thread Tid Lid) (first : Tid) (rest : List Tid) :
    threadListMax thread first rest ∈ first :: rest ∧ ∀ t ∈ first :: rest,
        (thread t).effective ≤ (thread (threadListMax thread first rest)).effective := by
  induction rest generalizing first with
  | nil => simp [threadListMax]
  | cons e rest ih =>
    have unfolded : threadListMax thread first (e :: rest) =
        threadListMax thread (if (thread first).less (thread e) then e else first) rest := rfl
    rw [unfolded]
    by_cases less : (thread first).less (thread e) = true
    · rw [if_pos less]
      obtain ⟨member, maximal⟩ := ih e
      refine ⟨mem_cons_of_mem first member, ?_⟩
      intro t ht
      rcases mem_cons.mp ht with rfl | ht
      · have top := maximal e (by simp)
        simp only [Thread.less, decide_eq_true_eq] at less
        omega
      · exact maximal t ht
    rw [if_neg less]
    obtain ⟨member, maximal⟩ := ih first
    have top := maximal first (by simp)
    refine ⟨?_, ?_⟩
    · rcases mem_cons.mp member with same | member
      · simp [same]
      · simp [member]
    intro t ht
    rcases mem_cons.mp ht with rfl | ht
    · exact top
    rcases mem_cons.mp ht with rfl | ht
    · simp only [Thread.less, decide_eq_true_eq] at less
      omega
    · exact maximal t (mem_cons_of_mem first ht)

/-- `thread'` differs from `thread` in raised extra priorities only. -/
structure Raised (thread thread' : Tid → Thread Tid Lid) : Prop where
  priority : ∀ u, (thread' u).priority = (thread u).priority
  parent : ∀ u, (thread' u).parent = (thread u).parent
  locks : ∀ u, (thread' u).locks = (thread u).locks
  status : ∀ u, (thread' u).status = (thread u).status
  extra : ∀ u, (thread u).extraPriority ≤ (thread' u).extraPriority

theorem Raised.refl (thread : Tid → Thread Tid Lid) : Raised thread thread :=
  ⟨fun _ => rfl, fun _ => rfl, fun _ => rfl, fun _ => rfl, fun _ => le_refl _⟩

theorem Raised.trans {thread'' : Tid → Thread Tid Lid}
    (first : Raised thread thread') (second : Raised thread' thread'') :
    Raised thread thread'' :=
  ⟨fun u => (second.priority u).trans (first.priority u),
    fun u => (second.parent u).trans (first.parent u),
    fun u => (second.locks u).trans (first.locks u),
    fun u => (second.status u).trans (first.status u),
    fun u => le_trans (first.extra u) (second.extra u)⟩

theorem Raised.effective (raised : Raised thread thread')
    (u : Tid) : (thread u).effective ≤ (thread' u).effective := by
  unfold Thread.effective
  rw [raised.priority u]
  exact max_le_max_left _ (raised.extra u)

/-- Every thread with a parent has donated to it, `x` possibly excepted. -/
def PaidExcept (thread : Tid → Thread Tid Lid) (x : Tid) : Prop :=
  ∀ u p, u ≠ x → (thread u).parent = some p → (thread u).effective ≤ (thread p).extraPriority

def Paid (thread : Tid → Thread Tid Lid) : Prop :=
  ∀ u p, (thread u).parent = some p → (thread u).effective ≤ (thread p).extraPriority

/-- The chain of parents from `x` ends after at most `n` links. -/
def ParentsEnd (thread : Tid → Thread Tid Lid) : Nat → Tid → Prop
  | 0, x => (thread x).parent = none
  | n + 1, x => ∀ p, (thread x).parent = some p → ParentsEnd thread n p

theorem ParentsEnd.congr (parent : ∀ u, (thread' u).parent = (thread u).parent)
    (ends : ParentsEnd thread n x) : ParentsEnd thread' n x := by
  induction n generalizing x with
  | zero => exact (parent x).trans ends
  | succ n ih => exact fun p hp => ih (ends p ((parent x).symm.trans hp))

/-- The chain of parents from `x` comes to `t` after at most `n` links, and no
    thread on it has more effective priority than `t`. -/
def RisesTo (thread : Tid → Thread Tid Lid) (t : Tid) : Nat → Tid → Prop
  | 0, x => x = t
  | n + 1, x => x = t ∨ ((thread x).effective ≤ (thread t).effective ∧
      ∃ p, (thread x).parent = some p ∧ RisesTo thread t n p)

theorem RisesTo.effective
    (rises : RisesTo thread t n x) : (thread x).effective ≤ (thread t).effective := by
  cases n with
  | zero => exact le_of_eq (congrArg (fun y => (thread y).effective) rises)
  | succ n =>
    rcases rises with rfl | ⟨below, -⟩
    · exact le_refl _
    · exact below

variable [DecidableEq Tid]

theorem donate_self (thread : Tid → Thread Tid Lid) (p : Tid) (donated : Int) :
    (donate thread p donated p).extraPriority = max (thread p).extraPriority donated := by
  simp [donate]

theorem donate_of_ne (thread : Tid → Thread Tid Lid) {u : Tid} (donated : Int) (hu : u ≠ p) :
    donate thread p donated u = thread u := by
  simp [donate, hu]

theorem donate_raised (thread : Tid → Thread Tid Lid) (p : Tid) (donated : Int) :
    Raised thread (donate thread p donated) := by
  refine ⟨?_, ?_, ?_, ?_, ?_⟩ <;> intro u <;> by_cases hu : u = p
  all_goals first
    | (subst hu; simp [donate])
    | simp [donate_of_ne thread donated hu]

theorem donate_effective (thread : Tid → Thread Tid Lid) (p : Tid) (donated : Int) :
    (donate thread p donated p).effective = max (thread p).effective donated := by
  unfold Thread.effective
  rw [donate_self, (donate_raised thread p donated).priority, max_assoc]

theorem donateUp_of_none {left : Nat}
    (top : (thread t).parent = none) : donateUp left thread t = thread := by
  cases left with
  | zero => rfl
  | succ left => rw [donateUp, top]

theorem donateUp_of_some {left : Nat} (parent : (thread t).parent = some p) :
    donateUp (left + 1) thread t = donateUp left (donate thread p (thread t).effective) p := by
  rw [donateUp, parent]

theorem donateUp_raised (left : Nat) (thread : Tid → Thread Tid Lid) (t : Tid) :
    Raised thread (donateUp left thread t) := by
  induction left generalizing thread t with
  | zero => exact .refl thread
  | succ left ih =>
    cases parent : (thread t).parent with
    | none =>
      rw [donateUp_of_none parent]
      exact .refl thread
    | some p =>
      rw [donateUp_of_some parent]
      exact (donate_raised thread _ _).trans (ih _ _)

/-- Donation only reaches threads that some thread waits for: `waits` is any
    relation that holds along parent pointers. -/
theorem donateUp_owed {waits : Tid → Tid → Prop} (left : Nat)
    (t : Tid) (parents : ∀ u p, (thread u).parent = some p → waits u p)
    (owed : ∀ H, (thread H).extraPriority ≤ 0 ∨
      ∃ W, waits W H ∧ (thread H).extraPriority ≤ (thread W).effective) (H : Tid) :
    (donateUp left thread t H).extraPriority ≤ 0 ∨
      ∃ W, waits W H ∧ (donateUp left thread t H).extraPriority ≤
        (donateUp left thread t W).effective := by
  induction left generalizing thread t with
  | zero => exact owed H
  | succ left ih =>
    cases parent : (thread t).parent with
    | none =>
      rw [donateUp_of_none parent]
      exact owed H
    | some p =>
      rw [donateUp_of_some parent]
      have raised := donate_raised thread p (thread t).effective
      refine ih p (fun u q hq => parents u q ((raised.parent u).symm.trans hq)) ?_
      intro H
      have old : (thread H).extraPriority ≤ 0 ∨ ∃ W, waits W H ∧ (thread H).extraPriority ≤
          (donate thread p (thread t).effective W).effective := by
        rcases owed H with nothing | ⟨W, waitsW, bound⟩
        · exact .inl nothing
        · exact .inr ⟨W, waitsW, le_trans bound (raised.effective W)⟩
      by_cases hH : H = p
      · subst hH
        rw [donate_self]
        rcases le_total (thread t).effective (thread H).extraPriority with low | high
        · rw [max_eq_left low]
          exact old
        · rw [max_eq_right high]
          exact .inr ⟨t, parents t H parent, raised.effective t⟩
      · rw [donate_of_ne thread _ hH]
        exact old

/-- A donation from `x` to its parent moves the exception up. -/
theorem PaidExcept.donate (paid : PaidExcept thread x) (parent : (thread x).parent = some p) :
    PaidExcept (donate thread p (thread x).effective) p := by
  intro u q hu hq
  have raised := donate_raised thread p (thread x).effective
  rw [donate_of_ne thread _ hu] at hq ⊢
  by_cases hx : u = x
  · subst hx
    obtain rfl : p = q := by simpa [parent] using hq
    rw [donate_self]
    exact le_max_right _ _
  · exact le_trans (paid u q hx hq) (raised.extra q)

theorem Paid.donateUp_eq (paid : Paid thread) (left : Nat)
    (x : Tid) : donateUp left thread x = thread := by
  induction left generalizing x with
  | zero => rfl
  | succ left ih =>
    cases parent : (thread x).parent with
    | none => exact donateUp_of_none parent
    | some p =>
      rw [donateUp_of_some parent]
      have same : Pintos.donate thread p (thread x).effective = thread := by
        unfold Pintos.donate
        rw [max_eq_left (paid x p parent)]
        exact Function.update_eq_self p thread
      rw [same]
      exact ih p

theorem donateUp_paid_of_parentsEnd
    (paid : PaidExcept thread x) (ends : ParentsEnd thread n x) : Paid (donateUp n thread x) := by
  induction n generalizing thread x with
  | zero =>
    intro u p hp
    refine paid u p ?_ hp
    rintro rfl
    have top : (thread u).parent = none := ends
    simp [donateUp, top] at hp
  | succ n ih =>
    cases parent : (thread x).parent with
    | none =>
      rw [donateUp_of_none parent]
      intro u p hp
      refine paid u p ?_ hp
      rintro rfl
      simp [parent] at hp
    | some p =>
      rw [donateUp_of_some parent]
      refine ih (paid.donate parent) ?_
      exact (ends p parent).congr (donate_raised thread p _).parent

theorem RisesTo.donate {donated : Int}
    (low : donated ≤ (thread t).effective) (rises : RisesTo thread t n x) :
    RisesTo (donate thread p donated) t n x := by
  have raised := donate_raised thread p donated
  induction n generalizing x with
  | zero => exact rises
  | succ n ih =>
    rcases rises with same | ⟨below, q, parent, rest⟩
    · exact .inl same
    refine .inr ⟨le_trans ?_ (raised.effective t), q, (raised.parent x).trans parent, ih rest⟩
    by_cases hx : x = p
    · subst hx
      rw [donate_effective]
      exact max_le below low
    · rw [donate_of_ne thread _ hx]
      exact below

/-- A cycle of waits: when the donation comes back to `t`, everybody on the cycle
    has the effective priority of `t` and the donation stops changing anything. -/
theorem donateUp_paid_of_risesTo
    (start : ∀ p, (thread t).parent = some p → (thread t).effective ≤ (thread p).extraPriority)
    (paid : PaidExcept thread x) (rises : RisesTo thread t n x) : Paid (donateUp n thread x) := by
  by_cases hx : x = t
  · subst hx
    have all : Paid thread := by
      intro u p hp
      by_cases hu : u = x
      · subst hu
        exact start p hp
      · exact paid u p hu hp
    rw [all.donateUp_eq]
    exact all
  induction n generalizing thread x with
  | zero => exact absurd rises hx
  | succ n ih =>
    rcases rises with same | ⟨below, p, parent, rest⟩
    · exact absurd same hx
    have raised := donate_raised thread p (thread x).effective
    have same : (Pintos.donate thread p (thread x).effective t).effective =
        (thread t).effective := by
      by_cases ht : t = p
      · subst ht
        rw [donate_effective, max_eq_left below]
      · rw [donate_of_ne thread _ ht]
    have start' : ∀ q, (Pintos.donate thread p (thread x).effective t).parent = some q →
        (Pintos.donate thread p (thread x).effective t).effective ≤
          (Pintos.donate thread p (thread x).effective q).extraPriority := by
      intro q hq
      rw [same]
      exact le_trans (start q ((raised.parent t).symm.trans hq)) (raised.extra q)
    rw [donateUp_of_some parent]
    by_cases hp : p = t
    · subst hp
      have all : Paid (Pintos.donate thread p (thread x).effective) := by
        intro u q hq
        by_cases hu : u = p
        · subst hu
          exact start' q hq
        · exact paid.donate parent u q hu hq
      rw [all.donateUp_eq]
      exact all
    · exact ih start' (paid.donate parent) (rest.donate below) hp

end Pintos
