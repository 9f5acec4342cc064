import Pintos.Filesys.FreeMap
import Pintos.Userprog.ExitData

/-!
# Starting a process

Model of `process_execute` and `start_process` of `src/userprog/process.c` with what they use
of `src/threads/thread.c`: `thread_create`, `thread_less` and `tid_to_thread`. The father and
the child run in any interleaving with each other and with other processes, which also wait
and exit (`ExitSystem`). Pages and records are there when they are asked for.

A process stands for its `struct thread` and for its tid. The `struct thread` is in memory as
long as the thread is in `all_list`: after `thread_exit` its page is freed and filled with
`0xcc`.
-/

namespace Pintos

open Function

/-- `enum load_status` (`thread.h`). -/
inductive LoadStatus where
  | ready
  | success
  | fail
deriving DecidableEq

/-- Where a process is in `process_execute`, with the child that it has made. -/
inductive ExecPlace where
  | outside
  /-- After `init_thread`. -/
  | created (child : ThreadId)
  /-- After `thread_unblock`, before `thread_less`. -/
  | unblocked (child : ThreadId)
  /-- Before `tid_to_thread`. -/
  | compared (child : ThreadId)
  /-- After `tid_to_thread`. -/
  | found (child : ThreadId)
  /-- The child has its `cwd`. -/
  | inherited (child : ThreadId)
  /-- After `init_exit_data`. -/
  | registered (child : ThreadId)
  /-- After `sema_down`. -/
  | woken (child : ThreadId)
deriving DecidableEq

def ExecPlace.child : ExecPlace → Option ThreadId
  | .outside => none
  | .created child => some child
  | .unblocked child => some child
  | .compared child => some child
  | .found child => some child
  | .inherited child => some child
  | .registered child => some child
  | .woken child => some child

/-- The child is in `all_list` and `tid_to_thread` has not found it yet. -/
def ExecPlace.searching : ExecPlace → Option ThreadId
  | .created child => some child
  | .unblocked child => some child
  | .compared child => some child
  | _ => none

/-- Where a process is in `start_process`. -/
inductive StartPlace where
  | absent
  /-- In `thread_create`, not yet in `ready_list`. -/
  | blocked
  | ready
  /-- After `load`, with its result. -/
  | loaded (success : Bool)
  /-- After the assignment to `ch_load_status`. -/
  | reported (success : Bool)
  /-- In user code. -/
  | started
  /-- `load` failed and the thread has exited. -/
  | failed
deriving DecidableEq

/-- The child has not raised `ch_load_sema` yet. -/
def StartPlace.young : StartPlace → Bool
  | .blocked => true
  | .ready => true
  | .loaded _ => true
  | .reported _ => true
  | _ => false

/-- Processes that start processes. `heir` is the working directory of the father in
    `process_execute`, and `resolved` is the one with which `load` opened the executable. -/
structure ExecSystem where
  exits : ExitSystem
  allList : List ThreadId
  creator : ThreadId → Option ThreadId
  cwd : ThreadId → BlockSector
  exec : ThreadId → ExecPlace
  start : ThreadId → StartPlace
  loadStatus : ThreadId → LoadStatus
  loadSema : ThreadId → Nat
  heir : ThreadId → BlockSector
  resolved : ThreadId → Option BlockSector

inductive ExecStep where
  /-- `process_execute` up to `init_thread`. -/
  | execute (t child : ThreadId)
  /-- The father goes on in `process_execute`. -/
  | go (t : ThreadId)
  /-- `load` in the child. -/
  | load (t : ThreadId) (success : Bool)
  /-- The child assigns `ch_load_status`. -/
  | report (t : ThreadId)
  /-- The child raises `ch_load_sema` and goes to user code, or exits. -/
  | raise (t : ThreadId)
  | chdir (t : ThreadId) (dir : BlockSector)
  /-- `process_wait` and `process_exit`. -/
  | wait (t child : ThreadId)
  | exit (t : ThreadId) (status : Int)
  | goExit (t : ThreadId)

namespace ExecSystem

variable (s : ExecSystem) (t child : ThreadId)

def goto (place : ExecPlace) : ExecSystem := { s with exec := update s.exec t place }

def setStart (place : StartPlace) : ExecSystem :=
  { s with start := update s.start t place }

/-- `tid_to_thread` (`thread.c:659-679`). From the last thread, `list_next` leads to the end of
    the list, where it fails an assertion. -/
def tidToThread : Option ThreadId :=
  if s.allList.getLast? = some child then some child else none

/-- The assertion that the father is about to check: `is_thread` in `thread_less`, those of
    `tid_to_thread` and `init_exit_data`, and those of `process_execute` itself
    (`process.c:82`, `process.c:91`). -/
def Asserts : Prop :=
  match s.exec t with
  | .unblocked child => child ∈ s.allList
  | .compared child => s.tidToThread child ≠ none
  | .found child => child ∈ s.allList ∧ s.creator child = some t
  | .inherited child => child ∈ s.allList ∧ s.creator child ≠ none
  | .woken _ => s.loadStatus t ≠ .ready
  | _ => True

instance : Decidable (s.Asserts t) := by
  unfold Asserts
  cases s.exec t <;> infer_instance

/-- `init_thread` (`thread.c:487-536`) in `thread_create`. -/
def initThread : ExecSystem :=
  { s with
    allList := s.allList ++ [child]
    creator := update s.creator child (some t)
    cwd := update s.cwd child rootDirSector
    exec := update s.exec t (.created child)
    start := update s.start child .blocked
    loadStatus := update s.loadStatus child .ready
    loadSema := update s.loadSema child 0
    heir := update s.heir child (s.cwd t) }

/-- A step of `process_execute` (`process.c:73-97`) after `init_thread`. -/
def go : Option ExecSystem :=
  match s.exec t with
  | .outside => none
  | .created child => some ((s.setStart child .ready).goto t (.unblocked child))
  | .unblocked child => some (s.goto t (.compared child))
  | .compared child => some (s.goto t (.found child))
  | .found child =>
      some ({ s with cwd := update s.cwd child (s.cwd t) }.goto t (.inherited child))
  | .inherited child => do
      let exits ← s.exits.next (.register t child)
      some ({ s with exits }.goto t (.registered child))
  | .registered child =>
      if s.loadSema t = 0 then none
      else
        some ({ s with loadSema := update s.loadSema t (s.loadSema t - 1) }.goto t
          (.woken child))
  | .woken _ =>
      some ({ s with loadStatus := update s.loadStatus t .ready }.goto t .outside)

/-- `load` opens the executable from the working directory of the child. -/
def load (success : Bool) : ExecSystem :=
  { s.setStart t (.loaded success) with
    resolved := update s.resolved t (some (s.cwd t)) }

def report (success : Bool) (creator : ThreadId) : ExecSystem :=
  { s.setStart t (.reported success) with
    loadStatus := update s.loadStatus creator (if success then .success else .fail) }

/-- `sema_up` (`process.c:156`), and then the user program or `thread_exit`. -/
def raise (success : Bool) (creator : ThreadId) : Option ExecSystem :=
  let s := { s with loadSema := update s.loadSema creator (s.loadSema creator + 1) }
  if success then do
    let exits ← s.exits.next (.start t)
    some ({ s with exits }.setStart t .started)
  else some ({ s with allList := s.allList.erase t }.setStart t .failed)

/-- A step of `process_wait` or of `process_exit`; the thread leaves `all_list` when it dies. -/
def user (a : ExitStep) : Option ExecSystem := do
  let exits ← s.exits.next a
  let allList := if exits.place t = .dead then s.allList.erase t else s.allList
  some { s with exits, allList }

def next : ExecStep → Option ExecSystem
  | .execute t child =>
      if s.exec t = .outside ∧ s.exits.place t = .running ∧ s.start child = .absent then
        some (s.initThread t child)
      else none
  | .go t => if s.Asserts t then s.go t else none
  | .load t success => if s.start t = .ready then some (s.load t success) else none
  | .report t =>
      match s.start t, s.creator t with
      | .loaded success, some creator => some (s.report t success creator)
      | _, _ => none
  | .raise t =>
      match s.start t, s.creator t with
      | .reported success, some creator => s.raise t success creator
      | _, _ => none
  | .chdir t dir =>
      if s.exec t = .outside ∧ s.exits.place t = .running then
        some { s with cwd := update s.cwd t dir }
      else none
  | .wait t child => if s.exec t = .outside then s.user t (.wait t child) else none
  | .exit t status => if s.exec t = .outside then s.user t (.exit t status) else none
  | .goExit t => if s.exec t = .outside then s.user t (.go t) else none

/-- The threads in `all_list` run, and no other thread exists. -/
structure Initial (s : ExecSystem) : Prop where
  exits : s.exits.Initial
  allList : ∀ t ∈ s.allList, s.exits.place t = .running
  exec : ∀ t, s.exec t = .outside
  start : ∀ t, (s.start t = .started ∧ s.creator t = none) ∨
    (s.start t = .absent ∧ s.exits.place t = .absent)
  loadStatus : ∀ t, s.loadStatus t = .ready
  loadSema : ∀ t, s.loadSema t = 0
  resolved : ∀ t, s.resolved t = none

/-- No thread is created while another process looks for its child, and a child loads its
    executable after it was registered. -/
def Undisturbed (s : ExecSystem) : ExecStep → Prop
  | .execute _ _ => ∀ u, (s.exec u).searching = none
  | .load t _ => s.exits.record t ≠ .unborn
  | _ => True

end ExecSystem

end Pintos
