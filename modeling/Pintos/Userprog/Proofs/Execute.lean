import Pintos.Userprog.Execute
import Pintos.Userprog.Proofs.ExitRuns

/-!
# Processes that start processes

If no thread is created while another process looks for its child, and a child does not load
its executable before its father has registered it, then the assertions of `process_execute`
hold, the child gets the working directory of its father, and the father can wait for it.
-/

namespace Pintos

open Function List Option

/-- How far a father in `process_execute` and its child have come, with `ch_load_sema` and
    `ch_load_status` of the father. -/
def Handshake (place : ExecPlace) (start : StartPlace) (sema : Nat) (status : LoadStatus) : Prop :=
  match place with
  | .outside => False
  | .created _ => start = .blocked ∧ sema = 0 ∧ status = .ready
  | .registered _ =>
      match start with
      | .ready => sema = 0 ∧ status = .ready
      | .loaded _ => sema = 0 ∧ status = .ready
      | .reported _ => sema = 0 ∧ status ≠ .ready
      | .started => sema = 1 ∧ status ≠ .ready
      | .failed => sema = 1 ∧ status ≠ .ready
      | _ => False
  | .woken _ => (start = .started ∨ start = .failed) ∧ sema = 0 ∧ status ≠ .ready
  | _ => start = .ready ∧ sema = 0 ∧ status = .ready

/-- The child has not been registered yet. -/
def ExecPlace.early : ExecPlace → Bool
  | .outside => false
  | .registered _ => false
  | .woken _ => false
  | _ => true

theorem getLast?_erase {α : Type} [DecidableEq α] {l : List α} {a b : α}
    (last : l.getLast? = some b) (ne : b ≠ a) : (l.erase a).getLast? = some b := by
  obtain ⟨front, rfl⟩ := List.getLast?_eq_some_iff.mp last
  by_cases mem : a ∈ front
  · rw [erase_append_left [b] mem, List.getLast?_concat]
  · rw [erase_append_right [b] mem, erase_of_not_mem (by simp [Ne.symm ne]), List.getLast?_concat]

namespace ExecSystem

variable {s s' : ExecSystem} {t u c : ThreadId} {success : Bool}

/-- A process in `process_execute` and its child. -/
structure Fatherhood (s : ExecSystem) (t c : ThreadId) : Prop where
  creator : s.creator c = some t
  running : s.exits.place t = .running
  handshake : Handshake (s.exec t) (s.start c) (s.loadSema t) (s.loadStatus t)
  unborn : (s.exec t).early = true ↔ s.exits.record c = .unborn
  heir : (s.exec t).early = true → s.heir c = s.cwd t
  cwd : s.exec t = .inherited c ∨ s.exec t = .registered c → s.start c = .ready →
    s.cwd c = s.heir c

structure Sound (s : ExecSystem) : Prop where
  exits : s.exits.Sound
  father : ∀ t c, (s.exec t).child = some c → s.Fatherhood t c
  idle : ∀ t, s.exec t = .outside → s.loadSema t = 0 ∧ s.loadStatus t = .ready
  young : ∀ c, (s.start c).young = true → c ∈ s.allList ∧ s.exits.place c = .absent ∧
    ∃ t, s.creator c = some t ∧ (s.exec t).child = some c
  searching : ∀ t c, (s.exec t).searching = some c → s.allList.getLast? = some c
  born : ∀ c, s.creator c ≠ none → (s.start c = .started ∨ s.start c = .failed) →
    s.exits.record c ≠ .unborn
  resolved : ∀ c dir, s.resolved c = some dir → dir = s.heir c
  absent : ∀ c, s.start c = .absent → s.exits.place c = .absent ∧ s.exits.record c = .unborn ∧
    s.resolved c = none

attribute [local grind =] update_apply ExecPlace.child ExecPlace.searching
  ExecPlace.early StartPlace.young Handshake
attribute [local grind] Fatherhood

theorem child_of_searching (searching : (s.exec t).searching = some c) :
    (s.exec t).child = some c := by
  cases isAt : s.exec t <;> grind

theorem Sound.young_of_searching (sound : s.Sound) (searching : (s.exec t).searching = some c) :
    (s.start c).young = true := by
  have family := sound.father t c (child_of_searching searching)
  cases isAt : s.exec t <;> grind

theorem Sound.asserts (sound : s.Sound) (t : ThreadId) : s.Asserts t := by
  have father := sound.father t
  have searching := sound.searching t
  have young := sound.young
  unfold Asserts
  cases isAt : s.exec t with
  | woken c =>
    have family := father c (by rw [isAt]; rfl)
    grind
  | _ =>
    rw [isAt] at father searching
    grind [mem_of_getLast?, tidToThread]

theorem Fatherhood.started (family : s.Fatherhood t c) : s.start c ≠ .absent := by
  have handshake := family.handshake
  cases isAt : s.exec t <;> grind

theorem Sound.execute (sound : s.Sound) (outside : s.exec t = .outside)
    (runs : s.exits.place t = .running) (absent : s.start c = .absent)
    (quiet : ∀ u, (s.exec u).searching = none) : (s.initThread t c).Sound := by
  have started := fun u c' isC => (sound.father u c' isC).started
  obtain ⟨exits, father, idle, young, searching, born, resolved, isAbsent⟩ := sound
  refine ⟨exits, fun u c' isC => ?_, ?_, ?_, ?_, ?_, ?_, ?_⟩
  · have family := father u c'
    simp only [initThread] at isC
    constructor <;> simp only [initThread] <;> grind
  all_goals simp only [initThread]; grind

/-- A step that concerns the father `t` and its child `c` only. -/
structure Concerns (t c : ThreadId) (s s' : ExecSystem) : Prop where
  exec : ∀ u, u ≠ t → s'.exec u = s.exec u
  sema : ∀ u, u ≠ t → s'.loadSema u = s.loadSema u
  status : ∀ u, u ≠ t → s'.loadStatus u = s.loadStatus u
  creator : s'.creator = s.creator
  heir : s'.heir = s.heir
  start : ∀ c', c' ≠ c → s'.start c' = s.start c'
  resolved : ∀ c', c' ≠ c → s'.resolved c' = s.resolved c'
  unborn : ∀ c', c' ≠ c → (s'.exits.record c' = .unborn ↔ s.exits.record c' = .unborn)
  cwd : ∀ u, s'.cwd u = s.cwd u ∨ (u = c ∧ s.exits.place c = .absent)
  place : ∀ u, s'.exits.place u = s.exits.place u ∨ (u = c ∧ s.exits.place c = .absent)
  mem : ∀ c', c' ≠ c → c' ∈ s.allList → c' ∈ s'.allList
  last : ∀ c', c' ≠ c → s.allList.getLast? = some c' → s'.allList.getLast? = some c'

theorem Sound.of_concerns (sound : s.Sound) (isC : (s.exec t).child = some c)
    (concerns : Concerns t c s s') (exits : s'.exits.Sound)
    (child : ∀ c', (s'.exec t).child = some c' → c' = c ∧ s'.Fatherhood t c)
    (idle : s'.exec t = .outside → s'.loadSema t = 0 ∧ s'.loadStatus t = .ready)
    (young : (s'.start c).young = true → c ∈ s'.allList ∧ s'.exits.place c = .absent ∧
      (s'.exec t).child = some c)
    (searching : ∀ c', (s'.exec t).searching = some c' → s'.allList.getLast? = some c')
    (born : s'.start c = .started ∨ s'.start c = .failed → s'.exits.record c ≠ .unborn)
    (resolved : ∀ dir, s'.resolved c = some dir → dir = s.heir c)
    (present : s'.start c ≠ .absent) : s'.Sound := by
  have family := sound.father t c isC
  have within := fun u c' => @child_of_searching s u c'
  obtain ⟨-, father, idle', young', searching', born', resolved', absent'⟩ := sound
  obtain ⟨exec, sema, status, creator, heir, start, resolved1, unborn, cwd, place, mem, last⟩ :=
    concerns
  refine ⟨exits, fun u c' isC' => ?_, ?_, ?_, ?_, ?_, ?_, ?_⟩
  · have other := father u c'
    constructor <;> grind
  all_goals grind

section Go

/-! ### Steps of the father -/

variable (sound : s.Sound)

include sound

/-- `thread_unblock`. -/
theorem Sound.created (isAt : s.exec t = .created c) :
    ((s.setStart c .ready).goto t (.unblocked c)).Sound := by
  have isC : (s.exec t).child = some c := by rw [isAt]; rfl
  have family := sound.father t c isC
  have young := sound.young c (by grind)
  have searching := sound.searching t c
  unfold goto setStart
  refine sound.of_concerns isC (by constructor <;> grind) sound.exits
    (fun c' isC' => ⟨by grind, by constructor <;> grind⟩) ?_ ?_ ?_ ?_ (sound.resolved c) ?_
  all_goals grind

/-- `thread_less`, and then `tid_to_thread`. -/
theorem Sound.search {place : ExecPlace} (isAt : (s.exec t = .unblocked c ∧ place = .compared c) ∨
      (s.exec t = .compared c ∧ place = .found c)) : (s.goto t place).Sound := by
  have isC : (s.exec t).child = some c := by grind
  have family := sound.father t c isC
  have young := sound.young c (by grind)
  have searching := sound.searching t c
  unfold goto
  refine sound.of_concerns isC (by constructor <;> grind) sound.exits
    (fun c' isC' => ⟨by grind, by constructor <;> grind⟩) ?_ ?_ ?_ ?_ (sound.resolved c) ?_
  all_goals grind

theorem Sound.inherit (isAt : s.exec t = .found c) :
    ({ s with cwd := update s.cwd c (s.cwd t) }.goto t (.inherited c)).Sound := by
  have isC : (s.exec t).child = some c := by rw [isAt]; rfl
  have family := sound.father t c isC
  have young := sound.young c (by grind)
  unfold goto
  refine sound.of_concerns isC (by constructor <;> grind) sound.exits
    (fun c' isC' => ⟨by grind, by constructor <;> grind⟩) ?_ ?_ ?_ ?_ (sound.resolved c) ?_
  all_goals grind

/-- `init_exit_data`. -/
theorem Sound.register {exits : ExitSystem} (isAt : s.exec t = .inherited c)
    (run : s.exits.next (.register t c) = some exits) :
    ({ s with exits }.goto t (.registered c)).Sound := by
  have isC : (s.exec t).child = some c := by rw [isAt]; rfl
  have family := sound.father t c isC
  have young := sound.young c (by grind)
  have exitsSound : exits.Sound := sound.exits.next (by simp [ExitSystem.Registers, young.2.1,
    ExitPlace.beforeLookup]) run
  simp only [ExitSystem.next, ite_none_right_eq_some, some.injEq] at run
  obtain ⟨-, rfl⟩ := run
  simp only [goto, ExitSystem.register, ExitSystem.setRecord, ExitSystem.setChildren] at exitsSound ⊢
  refine sound.of_concerns isC (by constructor <;> grind) exitsSound
    (fun c' isC' => ⟨by grind, by constructor <;> grind⟩) ?_ ?_ ?_ ?_
    (sound.resolved c) ?_
  all_goals grind

/-- The father gets past `sema_down`. -/
theorem Sound.down (isAt : s.exec t = .registered c) (pos : s.loadSema t ≠ 0) :
    ({ s with loadSema := update s.loadSema t (s.loadSema t - 1) }.goto t (.woken c)).Sound := by
  have isC : (s.exec t).child = some c := by rw [isAt]; rfl
  have family := sound.father t c isC
  have born := sound.born c
  have ended : s.start c = .started ∨ s.start c = .failed := by
    cases isStart : s.start c <;> grind
  unfold goto
  refine sound.of_concerns isC (by constructor <;> grind) sound.exits
    (fun c' isC' => ⟨by grind, by constructor <;> grind⟩) ?_ ?_ ?_ ?_ (sound.resolved c) ?_
  all_goals grind

/-- `process_execute` returns. -/
theorem Sound.finish (isAt : s.exec t = .woken c) :
    ({ s with loadStatus := update s.loadStatus t .ready }.goto t .outside).Sound := by
  have isC : (s.exec t).child = some c := by rw [isAt]; rfl
  have family := sound.father t c isC
  have born := sound.born c
  unfold goto
  refine sound.of_concerns isC (by constructor <;> grind) sound.exits
    (fun c' isC' => by grind) ?_ ?_ ?_ ?_ (sound.resolved c) ?_
  all_goals grind

theorem Sound.go (run : s.go t = some s') : s'.Sound := by
  cases isAt : s.exec t with
  | outside => simp [ExecSystem.go, isAt] at run
  | created c =>
    simp only [ExecSystem.go, isAt, some.injEq] at run
    exact run ▸ sound.created isAt
  | unblocked c =>
    simp only [ExecSystem.go, isAt, some.injEq] at run
    exact run ▸ sound.search (.inl ⟨isAt, rfl⟩)
  | compared c =>
    simp only [ExecSystem.go, isAt, some.injEq] at run
    exact run ▸ sound.search (.inr ⟨isAt, rfl⟩)
  | found c =>
    simp only [ExecSystem.go, isAt, some.injEq] at run
    exact run ▸ sound.inherit isAt
  | inherited c =>
    simp only [ExecSystem.go, isAt, bind_eq_bind, bind_eq_some_iff, some.injEq] at run
    obtain ⟨exits, registers, rfl⟩ := run
    exact sound.register isAt registers
  | registered c =>
    simp only [ExecSystem.go, isAt, ite_none_left_eq_some, some.injEq] at run
    obtain ⟨pos, rfl⟩ := run
    exact sound.down isAt pos
  | woken c =>
    simp only [ExecSystem.go, isAt, some.injEq] at run
    exact run ▸ sound.finish isAt

/-! ### Steps of the child -/

/-- A child that is starting has a father. When it is registered, the father waits for it. -/
theorem Sound.father_of_young (young : (s.start c).young = true)
    (born : s.exits.record c ≠ .unborn) :
    ∃ t, s.exec t = .registered c ∧ s.Fatherhood t c ∧ c ∈ s.allList ∧
      s.exits.place c = .absent := by
  obtain ⟨mem, absent, t, -, isC⟩ := sound.young c young
  have family := sound.father t c isC
  refine ⟨t, ?_, family, mem, absent⟩
  cases isAt : s.exec t <;> grind

/-- `load`, after the child was registered. -/
theorem Sound.load (isStart : s.start c = .ready) (born : s.exits.record c ≠ .unborn)
    (success : Bool) : (s.load c success).Sound := by
  obtain ⟨t, isAt, family, mem, absent⟩ := sound.father_of_young (by rw [isStart]; rfl) born
  have isC : (s.exec t).child = some c := by rw [isAt]; rfl
  unfold ExecSystem.load setStart
  refine sound.of_concerns isC (by constructor <;> grind) sound.exits
    (fun c' isC' => ⟨by grind, by constructor <;> grind⟩)
    (sound.idle t) ?_ (sound.searching t) ?_ ?_ ?_
  all_goals grind

/-- The child reports the result of `load` to its father. -/
theorem Sound.report (isStart : s.start c = .loaded success)
    (creator' : s.creator c = some t) (born : s.exits.record c ≠ .unborn) :
    (s.report c success t).Sound := by
  obtain ⟨t', isAt, family, mem, absent⟩ := sound.father_of_young (by rw [isStart]; rfl) born
  cases creator'.symm.trans family.creator
  have isC : (s.exec t).child = some c := by rw [isAt]; rfl
  unfold ExecSystem.report setStart
  refine sound.of_concerns isC (by constructor <;> grind) sound.exits
    (fun c' isC' => ⟨by grind, by constructor <;> grind⟩)
    ?_ ?_ (sound.searching t) ?_ (sound.resolved c) ?_
  all_goals grind

theorem Sound.born_of_loaded
    (isStart : s.start c = .loaded success ∨ s.start c = .reported success) :
    s.exits.record c ≠ .unborn := by
  obtain ⟨-, -, t, -, isC⟩ := sound.young c (by grind)
  have family := sound.father t c isC
  cases isAt : s.exec t <;> grind

/-- The child raises `ch_load_sema`. -/
theorem Sound.raise (isStart : s.start c = .reported success)
    (creator' : s.creator c = some t) (run : s.raise c success t = some s') : s'.Sound := by
  have born := sound.born_of_loaded (.inr isStart)
  obtain ⟨t', isAt, family, mem, absent⟩ := sound.father_of_young (by rw [isStart]; rfl) born
  cases creator'.symm.trans family.creator
  have isC : (s.exec t).child = some c := by rw [isAt]; rfl
  cases success with
  | true =>
    simp only [ExecSystem.raise, if_true, bind_eq_bind, bind_eq_some_iff, some.injEq] at run
    obtain ⟨exits, starts, rfl⟩ := run
    have exitsSound : exits.Sound := sound.exits.next (a := .start c) trivial starts
    simp only [ExitSystem.next, ite_none_right_eq_some, some.injEq] at starts
    obtain ⟨-, rfl⟩ := starts
    simp only [setStart, ExitSystem.goto] at exitsSound ⊢
    refine sound.of_concerns isC (by constructor <;> grind) exitsSound
      (fun c' isC' => ⟨by grind, by constructor <;> grind⟩) ?_ ?_ (sound.searching t) (fun _ => born)
      (sound.resolved c) ?_
    all_goals grind
  | false =>
    simp only [ExecSystem.raise, if_false, Bool.false_eq_true, some.injEq] at run
    subst run
    have last := fun c' => @getLast?_erase ThreadId _ s.allList c c'
    unfold setStart
    refine sound.of_concerns isC (by constructor <;> grind) sound.exits
      (fun c' isC' => ⟨by grind, by constructor <;> grind⟩) ?_ ?_ ?_ (fun _ => born)
      (sound.resolved c) ?_
    all_goals grind

end Go

/-! ### Other steps -/

theorem Sound.chdir (sound : s.Sound) (outside : s.exec t = .outside)
    (runs : s.exits.place t = .running) (dir : BlockSector) :
    Sound { s with cwd := update s.cwd t dir } := by
  refine ⟨sound.exits, fun u c isC => ?_, sound.idle, sound.young, sound.searching, sound.born,
    sound.resolved, sound.absent⟩
  have family := sound.father u c isC
  have young := sound.young c
  constructor <;> grind

theorem Sound.user {a : ExitStep} (sound : s.Sound) (outside : s.exec a.actor = .outside)
    (notStart : ∀ t, a ≠ .start t) (notRegister : ∀ t c, a ≠ .register t c)
    (run : s.user a.actor a = some s') : s'.Sound := by
  simp only [ExecSystem.user, bind_eq_bind, bind_eq_some_iff, some.injEq] at run
  obtain ⟨exits, steps, rfl⟩ := run
  have lends := ExitSystem.next_lends notRegister steps
  have exitsSound : exits.Sound := sound.exits.next (by
    cases a with
    | register t c => exact absurd rfl (notRegister t c)
    | _ => trivial) steps
  have alive : s.exits.place a.actor ≠ .absent := by
    cases a with
    | start t => exact absurd rfl (notStart t)
    | register t c => exact absurd rfl (notRegister t c)
    | go t =>
      intro absent
      have absent : s.exits.place t = .absent := absent
      simp [ExitSystem.next, ExitSystem.go, absent] at steps
    | _ => simp_all [ExitSystem.next, ExitStep.actor]
  have kept : ∀ c, s.exits.place c = .absent → c ≠ a.actor := by
    rintro c absent rfl
    exact alive absent
  have last := fun c => @getLast?_erase ThreadId _ s.allList a.actor c
  have searched := fun u c => @Sound.young_of_searching s u c sound
  obtain ⟨-, father, idle, young, searching, born, resolved, absent⟩ := sound
  refine ⟨exitsSound, fun u c isC => ?_, idle, ?_, ?_, ?_, resolved, ?_⟩
  · have family := father u c isC
    have place := lends.place u
    have unborn := lends.unborn c
    constructor <;> grind
  all_goals
    have place := lends.place
    have unborn := lends.unborn
    grind

/-! ## Runs -/

theorem Initial.sound (init : s.Initial) : s.Sound := by
  have record := init.exits.record
  obtain ⟨exits, allList, exec, start, loadStatus, loadSema, resolved⟩ := init
  refine ⟨exits.sound, ?_, ?_, ?_, ?_, ?_, ?_, ?_⟩ <;> grind

theorem Sound.next {a : ExecStep} (sound : s.Sound) (undisturbed : s.Undisturbed a)
    (run : s.next a = some s') : s'.Sound := by
  cases a with
  | execute t c =>
    simp only [ExecSystem.next, ite_none_right_eq_some, some.injEq] at run
    obtain ⟨⟨outside, runs, absent⟩, rfl⟩ := run
    exact sound.execute outside runs absent undisturbed
  | go t =>
    simp only [ExecSystem.next, ite_none_right_eq_some] at run
    exact sound.go run.2
  | load t success =>
    simp only [ExecSystem.next, ite_none_right_eq_some, some.injEq] at run
    obtain ⟨isStart, rfl⟩ := run
    exact sound.load isStart undisturbed success
  | report t =>
    cases isStart : s.start t <;> cases creator : s.creator t <;>
      simp only [ExecSystem.next, isStart, creator, reduceCtorEq, some.injEq] at run
    subst run
    exact sound.report isStart creator (sound.born_of_loaded (.inl isStart))
  | raise t =>
    cases isStart : s.start t <;> cases creator : s.creator t <;>
      simp only [ExecSystem.next, isStart, creator, reduceCtorEq] at run
    exact sound.raise isStart creator run
  | chdir t dir =>
    simp only [ExecSystem.next, ite_none_right_eq_some, some.injEq] at run
    obtain ⟨⟨outside, runs⟩, rfl⟩ := run
    exact sound.chdir outside runs dir
  | wait t c =>
    simp only [ExecSystem.next, ite_none_right_eq_some] at run
    exact sound.user (a := .wait t c) run.1 nofun nofun run.2
  | exit t status =>
    simp only [ExecSystem.next, ite_none_right_eq_some] at run
    exact sound.user (a := .exit t status) run.1 nofun nofun run.2
  | goExit t =>
    simp only [ExecSystem.next, ite_none_right_eq_some] at run
    exact sound.user (a := .go t) run.1 nofun nofun run.2

theorem sound_of_undisturbed (reach : Reachable Initial ExecSystem.next Undisturbed s) : s.Sound :=
  reach.invariant (fun _ init => init.sound)
    fun _ _ _ sound undisturbed run => sound.next undisturbed run

theorem Sound.registered (sound : s.Sound) (creator : s.creator c ≠ none)
    (runs : s.exits.place c ≠ .absent) : s.exits.record c ≠ .unborn := by
  have young := sound.young c
  have absent := sound.absent c
  have born := sound.born c
  cases isStart : s.start c <;> grind

/-- A father goes on, except when it waits for a child that is starting. -/
theorem Sound.go_isSome (sound : s.Sound) (inside : s.exec t ≠ .outside)
    (ended : ∀ c, s.exec t = .registered c → (s.start c).young = false) :
    (s.next (.go t)).isSome := by
  simp only [ExecSystem.next, if_pos (sound.asserts t)]
  cases isAt : s.exec t with
  | outside => exact absurd isAt inside
  | inherited c =>
    have family := sound.father t c (by grind)
    have absent := (sound.young c (by grind)).2.1
    grind [ExecSystem.go, ExitSystem.next]
  | registered c =>
    have family := sound.father t c (by grind)
    have old := ended c isAt
    cases isStart : s.start c <;> grind [ExecSystem.go]
  | _ => simp [ExecSystem.go, isAt]

/-- In every run in which no thread is created while a process looks for its child, and children
    load their executables after they were registered: no assertion fails, a child resolves its
    executable in the working directory of its father, it is registered before it runs, calls
    of `process_wait` return what they should, and fathers go on. -/
theorem process_execute_undisturbed (reached : Reachable Initial ExecSystem.next Undisturbed s) :
    (∀ t, s.Asserts t) ∧ (∀ c dir, s.resolved c = some dir → dir = s.heir c) ∧
    (∀ c, s.creator c ≠ none → s.exits.place c ≠ .absent → s.exits.record c ≠ .unborn) ∧
    s.exits.Proper s.exits.log ∧
    (∀ t c, s.exits.place t = .waiting c → (s.exits.place c).afterRaise = true →
      (s.next (.goExit t)).isSome) ∧
    ∀ t, s.exec t ≠ .outside → (∀ c, s.exec t = .registered c → (s.start c).young = false) →
      (s.next (.go t)).isSome := by
  have sound := sound_of_undisturbed reached
  refine ⟨sound.asserts, sound.resolved, fun _ => sound.registered, sound.exits.proper, ?_,
    fun _ => sound.go_isSome⟩
  intro t c isPlace ended
  have outside : s.exec t = .outside := by
    cases isC : (s.exec t).child with
    | none => cases isExec : s.exec t <;> simp_all [ExecPlace.child]
    | some c' =>
      have running := (sound.father t c' isC).running
      rw [isPlace] at running
      cases running
  obtain ⟨exits, run⟩ := isSome_iff_exists.mp (sound.exits.go_of_waiting isPlace ended)
  simp [ExecSystem.next, outside, user, ExitSystem.next, run]

/-- Processes 1 and 3 run; the working directory of process 1 is not the root directory. -/
def twoProcesses : ExecSystem where
  exits :=
    { record := fun _ => .unborn
      chExitData := fun _ => []
      place := fun t => if t = 1 ∨ t = 3 then .running else .absent
      status := fun _ => none
      log := [] }
  allList := [1, 3]
  creator _ := none
  cwd t := if t = 1 then 7 else rootDirSector
  exec _ := .outside
  start t := if t = 1 ∨ t = 3 then .started else .absent
  loadStatus _ := .ready
  loadSema _ := 0
  heir _ := rootDirSector
  resolved _ := none

theorem twoProcesses_initial : twoProcesses.Initial := by
  refine ⟨⟨fun _ => rfl, fun _ => rfl, fun t => ?_, fun _ => rfl, rfl⟩, by decide, fun _ => rfl,
    fun t => ?_, fun _ => rfl, fun _ => rfl, fun _ => rfl⟩
  · by_cases listed : t = 1 ∨ t = 3
    · exact .inr (if_pos listed)
    · exact .inl (if_neg listed)
  by_cases listed : t = 1 ∨ t = 3
  · exact .inl ⟨if_pos listed, rfl⟩
  · exact .inr ⟨if_neg listed, if_neg listed⟩

/-- The steps that do not create a thread. -/
def Calm (s : ExecSystem) : ExecStep → Bool
  | .execute _ _ => false
  | .load t _ => s.exits.record t ≠ .unborn
  | _ => true

theorem undisturbed_of_calm {a : ExecStep} (calm : s.Calm a = true) : s.Undisturbed a := by
  cases a with
  | execute t c => cases calm
  | load t success =>
    have registered : s.exits.record t ≠ .unborn := of_decide_eq_true calm
    exact registered
  | _ => trivial

/-- Process 1 starts process 2 and waits for it. -/
theorem process_execute_undisturbed_waited : ∃ s, Reachable Initial ExecSystem.next Undisturbed s ∧
    s.exits.log = [⟨1, 2, 9⟩] ∧ s.resolved 2 = some 7 ∧ s.exits.Proper s.exits.log := by
  have first : Reachable Initial ExecSystem.next Undisturbed (twoProcesses.initThread 1 2) :=
    .step (a := .execute 1 2) (.start twoProcesses_initial) (fun _ => rfl) rfl
  have here : Eq (twoProcesses.initThread 1 2) (twoProcesses.initThread 1 2) := rfl
  obtain ⟨s, further, test⟩ := reachable_of_run ExecSystem.next (fun s a => s.Calm a = true) here
    [.go 1, .go 1, .go 1, .go 1, .go 1, .load 2 true, .report 2, .raise 2, .go 1, .go 1,
      .wait 1 2, .goExit 1, .goExit 1, .exit 2 9, .goExit 2, .goExit 2, .goExit 2, .goExit 1,
      .goExit 1]
    (fun s => s.exits.log = [⟨1, 2, 9⟩] ∧ s.resolved 2 = some 7) (by decide)
  have reached := first.trans (further.mono fun _ _ => undisturbed_of_calm)
  have test := test
  exact ⟨s, reached, test.1, test.2, (process_execute_undisturbed reached).2.2.2.1⟩

/-- A child that runs before its father goes on: it dies before `thread_less`, so that an assertion
    fails; it resolves its executable in the root directory; it exits before it is registered. And a
    thread that another process creates hides the child from `tid_to_thread`. -/
theorem process_execute_races :
    (∃ s, Reachable Initial ExecSystem.next AnyStep s ∧ s.exec 1 = .unblocked 2 ∧ ¬s.Asserts 1) ∧
    (∃ s, Reachable Initial ExecSystem.next AnyStep s ∧ s.exec 1 = .compared 2 ∧ ¬s.Asserts 1) ∧
    (∃ s, Reachable Initial ExecSystem.next AnyStep s ∧ s.resolved 2 = some rootDirSector ∧
      s.heir 2 ≠ rootDirSector) ∧
    ∃ s, Reachable Initial ExecSystem.next AnyStep s ∧ s.creator 2 = some 1 ∧
      s.exits.place 2 = .dead ∧ s.exits.record 2 = .unborn := by
  refine ⟨?_, ?_, ?_, ?_⟩
  · exact reachable_of_run ExecSystem.next AnyStep
      twoProcesses_initial [.execute 1 2, .go 1, .load 2 false, .report 2, .raise 2]
      (fun s => s.exec 1 = .unblocked 2 ∧ ¬s.Asserts 1) (by decide)
  · exact reachable_of_run ExecSystem.next AnyStep
      twoProcesses_initial [.execute 1 2, .go 1, .go 1, .execute 3 4]
      (fun s => s.exec 1 = .compared 2 ∧ ¬s.Asserts 1) (by decide)
  · exact reachable_of_run ExecSystem.next AnyStep
      twoProcesses_initial [.execute 1 2, .go 1, .load 2 true]
      (fun s => s.resolved 2 = some rootDirSector ∧ s.heir 2 ≠ rootDirSector) (by decide)
  exact reachable_of_run ExecSystem.next AnyStep
    twoProcesses_initial [.execute 1 2, .go 1, .load 2 true, .report 2, .raise 2, .exit 2 9,
      .goExit 2, .goExit 2]
    (fun s => s.creator 2 = some 1 ∧ s.exits.place 2 = .dead ∧ s.exits.record 2 = .unborn)
    (by decide)

end ExecSystem

end Pintos
