import Pintos.Userprog.Execute

/-!
# Finding a thread by its tid

Model of `tid_to_thread` (`src/threads/thread.c:659-679`) on `all_list`, which has a sentinel at
either end (`src/lib/kernel/list.c`). The loop starts at the last element as if it went backward,
and goes on with `list_next`, so it sees the elements from there to the sentinel at the end.
-/

namespace Pintos

variable {T : Type} (tid : T → Int) (junk : Int)

/-- What a `struct thread *` points to. -/
inductive ThreadPtr (T : Type) where
  | thread (t : T)
  /-- A sentinel, taken for the `allelem` of a thread. -/
  | sentinel
  deriving DecidableEq

/-- The loop at the first of these elements; `junk` is what the sentinel at the end has for a tid.
    `none` is the assertion of `list_next`, which refuses this sentinel. -/
def tidLoop (wanted : Int) : List T → Option (ThreadPtr T)
  | [] => if junk = wanted then some .sentinel else none
  | t :: rest => if tid t = wanted then some (.thread t) else tidLoop wanted rest

/-- `tid_to_thread`; `none` is a failed assertion. The loop ends at the sentinel of the beginning
    only if there is no element, without a thread. -/
def tidToThread (allList : List T) (wanted : Int) : Option (ThreadPtr T) :=
  if wanted = -1 then none
  else if allList = [] then none
  else tidLoop tid junk wanted (allList.drop (allList.length - 1))

variable {tid junk} {allList : List T} {t : T}

theorem tidToThread_concat (wanted : Int) (valid : wanted ≠ -1) :
    tidToThread tid junk (allList ++ [t]) wanted =
      if tid t = wanted then some (.thread t) else if junk = wanted then some .sentinel else none := by
  simp [tidToThread, valid, tidLoop]

/-- A thread is found exactly if it is the last one of `all_list`. -/
theorem tid_to_thread_finds_last (valid : tid t ≠ -1) :
    tidToThread tid junk allList (tid t) = some (.thread t) ↔ allList.getLast? = some t := by
  rcases List.eq_nil_or_concat allList with rfl | ⟨front, u, rfl⟩
  · simp [tidToThread]
  rw [List.concat_eq_append, tidToThread_concat _ valid, List.getLast?_concat]
  by_cases same : u = t
  · simp [same]
  · simp only [same, Option.some.injEq, iff_false]
    split_ifs <;> simp [same]

/-- The newest of three threads. -/
theorem tid_to_thread_finds_last_three :
    tidToThread (fun t : Nat => (t : Int)) 0 [1, 2, 3] ((3 : Nat) : Int) = some (.thread 3) :=
  (tid_to_thread_finds_last (T := Nat) (t := 3) (by decide)).mpr (by decide)

/-- For any other thread `list_next` fails its assertion. -/
theorem tid_to_thread_fails_for_first :
    tidToThread (fun t : Nat => (t : Int)) 0 [1, 2, 3] 1 = none := by decide

/-- `process_execute` goes on as long as its child is the last thread. -/
theorem ExecSystem.tidToThread_eq_some {s : ExecSystem} {child : ThreadId}
    (other : junk ≠ child) : s.tidToThread child = some child ↔
      Pintos.tidToThread (fun t : ThreadId => (t : Int)) junk s.allList child =
        some (.thread child) := by
  rcases List.eq_nil_or_concat s.allList with nil | ⟨front, t, all⟩
  · simp [ExecSystem.tidToThread, Pintos.tidToThread, nil]
  have valid : (child : Int) ≠ -1 := by omega
  rw [ExecSystem.tidToThread, all, List.concat_eq_append, tidToThread_concat _ valid, if_neg other]
  by_cases same : t = child <;> simp [same]

end Pintos
