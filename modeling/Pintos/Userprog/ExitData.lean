import Pintos.Misc.Transition
import Pintos.Vm.Frame

/-!
# Exit data

Model of `struct exit_data` and of `process_wait` and `process_exit` of
`src/userprog/process.c`, as far as they work on these records. The record of a process is
allocated by its father, found by the tid of the process through `hash_exit_data`, and freed
when the father exits. Processes run in any interleaving of steps; a step is one access to a
record, a look-up, or one operation with interrupts off.

There is one record for a process, so the tid of the process stands for the address of the
record. An access to a record that is not in memory has no successor, and so has a
`sema_down` that has to wait.
-/

namespace Pintos

open Function

/-- `struct exit_data` (`process.h:11-20`); `die_sema` is its value. -/
structure ExitData where
  exitCode : Int
  calledProcessWait : Bool
  father : ThreadId
  dieSema : Nat
deriving DecidableEq

/-- The life of the record of a process. -/
inductive ExitRecord where
  | unborn
  /-- In `hash_exit_data`. -/
  | linked (data : ExitData)
  /-- Between `hash_delete` and `free`. -/
  | unlinked (data : ExitData)
  | freed (father : ThreadId)
deriving DecidableEq

/-- The record in memory. -/
def ExitRecord.data : ExitRecord → Option ExitData
  | .linked data => some data
  | .unlinked data => some data
  | _ => none

/-- The record is found by `tid_to_exit_data`. -/
def ExitRecord.isLinked : ExitRecord → Bool
  | .linked _ => true
  | _ => false

/-- An assignment to fields of the record. -/
def ExitRecord.modify (f : ExitData → ExitData) : ExitRecord → ExitRecord
  | .linked data => .linked (f data)
  | .unlinked data => .unlinked (f data)
  | record => record

/-- The process that registered the record. -/
def ExitRecord.father : ExitRecord → Option ThreadId
  | .unborn => none
  | .linked data => some data.father
  | .unlinked data => some data.father
  | .freed father => some father

/-- Where a process is. -/
inductive ExitPlace where
  | absent
  | running
  /-- In `process_wait`, with the record of `child` found. -/
  | found (child : ThreadId)
  /-- The caller is the father. -/
  | isFather (child : ThreadId)
  /-- `called_process_wait` is set. -/
  | waiting (child : ThreadId)
  /-- After `sema_down`. -/
  | woken (child : ThreadId)
  /-- In `process_exit`, before the look-up. -/
  | exiting (status : Int)
  /-- The record was found. -/
  | storing (status : Int)
  /-- `exit_code` is stored. -/
  | raising (status : Int)
  /-- In the loop over `ch_exit_data`. -/
  | destroying
  /-- In `destroy_exit_data`, after `hash_delete`. -/
  | freeing (child : ThreadId)
  | dead
deriving DecidableEq

/-- The process has not looked up its record in `process_exit`. -/
def ExitPlace.beforeLookup : ExitPlace → Bool
  | .storing _ => false
  | .raising _ => false
  | .destroying => false
  | .freeing _ => false
  | .dead => false
  | _ => true

/-- The process has raised `die_sema` in `process_exit`, if it found its record. -/
def ExitPlace.afterRaise : ExitPlace → Bool
  | .destroying => true
  | .freeing _ => true
  | .dead => true
  | _ => false

/-- The child for which the process goes on as the father. -/
def ExitPlace.fatherOf : ExitPlace → Option ThreadId
  | .isFather child => some child
  | .waiting child => some child
  | .woken child => some child
  | _ => none

/-- A call of `process_wait` that has returned. -/
structure WaitCall where
  waiter : ThreadId
  child : ThreadId
  result : Int
deriving DecidableEq

/-- The records and the processes. What is left of `ch_exit_data` is the part of the list
    that `process_exit` has not reached. `status` is what a process passed to
    `process_exit`, `log` has the calls of `process_wait` that returned, the last one first. -/
structure ExitSystem where
  record : ThreadId → ExitRecord
  chExitData : ThreadId → List ThreadId
  place : ThreadId → ExitPlace
  status : ThreadId → Option Int
  log : List WaitCall

/-- The steps: a process starts, its record is registered by `t`, `t` calls `process_wait`
    or `process_exit`, and `t` goes on. -/
inductive ExitStep where
  | start (t : ThreadId)
  | register (t child : ThreadId)
  | wait (t child : ThreadId)
  | exit (t : ThreadId) (status : Int)
  | go (t : ThreadId)

/-- The process that takes the step. -/
def ExitStep.actor : ExitStep → ThreadId
  | .start t => t
  | .register t _ => t
  | .wait t _ => t
  | .exit t _ => t
  | .go t => t

namespace ExitSystem

variable (s : ExitSystem) (t child : ThreadId)

def goto (place : ExitPlace) : ExitSystem := { s with place := update s.place t place }

def setRecord (record : ExitRecord) : ExitSystem :=
  { s with record := update s.record child record }

def modify (f : ExitData → ExitData) : ExitSystem :=
  s.setRecord child ((s.record child).modify f)

def setChildren (children : List ThreadId) : ExitSystem :=
  { s with chExitData := update s.chExitData t children }

/-- `process_wait` returns. Calls for a process that has had no record so far are not
    entered in the log. -/
def ret (result : Int) : ExitSystem :=
  { s.goto t .running with
    log := if s.record child = .unborn then s.log else ⟨t, child, result⟩ :: s.log }

/-- `init_exit_data` (`process.c:100-117`). -/
def register : ExitSystem :=
  (s.setRecord child (.linked
    { exitCode := -1, calledProcessWait := false, father := t, dieSema := 0 })).setChildren t
    (s.chExitData t ++ [child])

/-- The look-up at the start of `process_wait` (`process.c:217-219`). -/
def wait : ExitSystem :=
  if (s.record child).isLinked then s.goto t (.found child) else s.ret t child (-1)

/-- One step of `process_wait` (`process.c:220-226`) or of `process_exit`
    (`process.c:241-258`). The test of the father reads its `struct thread` too. -/
def go : Option ExitSystem :=
  match s.place t with
  | .found child => do
      let data ← (s.record child).data
      if s.place data.father = .dead then none
      else if data.father = t then some (s.goto t (.isFather child))
      else some (s.ret t child (-1))
  | .isFather child => do
      let data ← (s.record child).data
      if data.calledProcessWait then some (s.ret t child (-1))
      else
        some ((s.modify child fun data => { data with calledProcessWait := true }).goto t
          (.waiting child))
  | .waiting child => do
      let data ← (s.record child).data
      if data.dieSema = 0 then none
      else
        some ((s.modify child fun data => { data with dieSema := data.dieSema - 1 }).goto t
          (.woken child))
  | .woken child => do
      let data ← (s.record child).data
      some (s.ret t child data.exitCode)
  | .exiting status =>
      if (s.record t).isLinked then some (s.goto t (.storing status))
      else some (s.goto t .destroying)
  | .storing status => do
      let _ ← (s.record t).data
      some ((s.modify t fun data => { data with exitCode := status }).goto t (.raising status))
  | .raising _ => do
      let _ ← (s.record t).data
      some ((s.modify t fun data => { data with dieSema := data.dieSema + 1 }).goto t .destroying)
  | .destroying =>
      match s.chExitData t with
      | [] => some (s.goto t .dead)
      | child :: rest => do
          let data ← (s.record child).data
          some (((s.setRecord child (.unlinked data)).setChildren t rest).goto t (.freeing child))
  | .freeing child => do
      let data ← (s.record child).data
      some ((s.setRecord child (.freed data.father)).goto t .destroying)
  | _ => none

def next : ExitStep → Option ExitSystem
  | .start t => if s.place t = .absent then some (s.goto t .running) else none
  | .register t child =>
      if s.place t = .running ∧ t ≠ child ∧ s.record child = .unborn then some (s.register t child)
      else none
  | .wait t child => if s.place t = .running then some (s.wait t child) else none
  | .exit t status =>
      if s.place t = .running then
        some { s.goto t (.exiting status) with status := update s.status t (some status) }
      else none
  | .go t => s.go t

/-- No process has a record. -/
structure Initial (s : ExitSystem) : Prop where
  record : ∀ t, s.record t = .unborn
  chExitData : ∀ t, s.chExitData t = []
  place : ∀ t, s.place t = .absent ∨ s.place t = .running
  status : ∀ t, s.status t = none
  log : s.log = []

/-- The next step of the process reads or writes the record of `child`. -/
def Accesses (t child : ThreadId) : Prop :=
  match s.place t with
  | .found c => c = child
  | .isFather c => c = child
  | .waiting c => c = child
  | .woken c => c = child
  | .storing _ => t = child
  | .raising _ => t = child
  | .destroying => (s.chExitData t).head? = some child
  | .freeing c => c = child
  | _ => False

instance : Decidable (s.Accesses t child) := by
  unfold Accesses
  cases s.place t <;> infer_instance

/-- A process is registered before it looks up its record. -/
def Registers (s : ExitSystem) : ExitStep → Prop
  | .register _ child => (s.place child).beforeLookup = true
  | _ => True

/-- A record is freed when no other process is about to access it. -/
def Spares (s : ExitSystem) : ExitStep → Prop
  | .go t =>
      match s.place t with
      | .freeing child => ∀ u, u ≠ t → ¬ s.Accesses u child
      | _ => True
  | _ => True

end ExitSystem

end Pintos
