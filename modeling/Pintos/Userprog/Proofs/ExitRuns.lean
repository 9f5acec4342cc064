import Pintos.Userprog.Proofs.ExitData

/-!
# Runs of waiting and exiting processes

In every run in which a record is freed when no other process is about to access it, the first
`process_wait` of a father returns the status of the child, and every other one returns `-1`
at once. Without that condition a child can write to a record that was freed: its father exits
between the look-up in the child's `process_exit` and the assignment to `exit_code`.
-/

namespace Pintos

open Option ExitPlace ExitRecord

namespace ExitSystem

variable {s s' : ExitSystem} {t u c : ThreadId} {a : ExitStep}

/-! ## The invariant over runs -/

attribute [local simp] afterRaise Aside

theorem Initial.sound (init : s.Initial) : s.Sound := by
  obtain ⟨record, children, place, status, log⟩ := init
  refine ⟨⟨?_, ?_, ?_, ?_, ?_, ?_, ?_⟩, ?_, ?_, ?_, ?_⟩
  case refine_11 =>
    rw [log]
    trivial
  all_goals grind [fatherOf, data, StatusOk]

theorem Sound.data_of_father (sound : s.Sound) (isC : (s.place t).fatherOf = some c) :
    ∃ d, s.record c = .linked d ∧ (s.record c).data = some d := by
  obtain ⟨d, linked, -⟩ := sound.linkage.father t c isC
  exact ⟨d, linked, by rw [linked]; rfl⟩

/-- The records of the children of a running process are in the table. -/
theorem Sound.linked_of_running (sound : s.Sound) (isAt : s.place t = .running)
    (isFather : (s.record c).father = some t) : (s.record c).isLinked = true := by
  have freed := sound.linkage.freed t c
  have unlinked := (sound.linkage.unlinked t c).mpr
  cases isRecord : s.record c <;>
    grind [father, isLinked, afterRaise]

theorem Sound.go (sound : s.Sound) (run : s.go t = some s') : s'.Sound := by
  have status := sound.status t
  cases isAt : s.place t with
  | found c =>
    simp only [ExitSystem.go, isAt, bind_eq_bind, bind_eq_some_iff] at run
    obtain ⟨d, isD, run⟩ := run
    rw [isAt] at status
    split at run
    · cases run
    split at run
    · rename_i isFather
      cases run
      refine sound.goto (by simp [isAt]) (by simp) (by simp) ?_ (fun _ _ => by simp [isAt])
        (by simp [isAt]) status
      intro c' isC
      cases isC
      have freeing := (sound.linkage.unlinked t c).mpr
      cases isRecord : s.record c <;> grind [data]
    rename_i notFather
    cases run
    refine sound.ret_fail (by simp [isAt]) (by rw [isAt]; rfl) (by simp [isAt]) ?_
    intro isFather
    cases isRecord : s.record c <;> simp_all [father, data]
  | isFather c =>
    simp only [ExitSystem.go, isAt, bind_eq_bind, bind_eq_some_iff] at run
    obtain ⟨d, isD, run⟩ := run
    obtain ⟨d', linked, isD'⟩ := sound.data_of_father (t := t) (c := c) (by rw [isAt]; rfl)
    cases isD.symm.trans isD'
    split at run
    · rename_i called
      cases run
      refine sound.ret_fail (by simp [isAt]) (by rw [isAt]; rfl) (by simp [isAt]) ?_
      intro isFather
      rw [linked] at isFather
      have isFather : d.father = t := some.inj isFather
      have waits := (sound.family c d linked).called.mp called
      rw [isFather, isAt] at waits
      simpa using waits
    rename_i notCalled
    cases run
    exact sound.isFather_step isAt linked (Bool.eq_false_iff.mpr notCalled)
  | waiting c =>
    simp only [ExitSystem.go, isAt, bind_eq_bind, bind_eq_some_iff] at run
    obtain ⟨d, isD, run⟩ := run
    obtain ⟨d', linked, isD'⟩ := sound.data_of_father (t := t) (c := c) (by rw [isAt]; rfl)
    cases isD.symm.trans isD'
    split at run
    · cases run
    rename_i pos
    cases run
    exact sound.waiting_step isAt linked pos
  | woken c =>
    simp only [ExitSystem.go, isAt, bind_eq_bind, bind_eq_some_iff] at run
    obtain ⟨d, isD, run⟩ := run
    obtain ⟨d', linked, isD'⟩ := sound.data_of_father (t := t) (c := c) (by rw [isAt]; rfl)
    cases isD.symm.trans isD'
    cases run
    exact sound.ret_woken isAt linked
  | exiting v =>
    simp only [ExitSystem.go, isAt] at run
    rw [isAt] at status
    split at run
    · cases run
      exact sound.goto (by simp [isAt]) (by simp) (by simp) (fun _ h => by cases h)
        (fun _ _ => by simp [isAt])
        (by simp [isAt]) status
    rename_i notLinked
    cases run
    refine sound.goto (by simp [isAt]) (by simp) (by simp) (fun _ h => by cases h) ?_
      (by simp [isAt]) trivial
    intro d linked
    rw [linked] at notLinked
    exact absurd rfl notLinked
  | storing v =>
    simp only [ExitSystem.go, isAt, bind_eq_bind, bind_eq_some_iff] at run
    obtain ⟨d, -, run⟩ := run
    cases run
    exact sound.storing_step isAt
  | raising v =>
    simp only [ExitSystem.go, isAt, bind_eq_bind, bind_eq_some_iff] at run
    obtain ⟨d, -, run⟩ := run
    cases run
    exact sound.raising_step isAt
  | destroying =>
    simp only [ExitSystem.go, isAt] at run
    cases list : s.chExitData t with
    | nil =>
      rw [list] at run
      cases run
      exact sound.goto (by simp [isAt]) (by simp) (fun _ => list) (fun _ h => by cases h)
        (fun _ _ => by simp [isAt])
        (by simp [isAt]) trivial
    | cons c rest =>
      rw [list] at run
      obtain ⟨d, linked, -⟩ := (sound.linkage.children t c).mp (by simp [list])
      simp only [linked, data, bind_eq_bind, bind_some] at run
      cases run
      exact sound.delete_step isAt list linked
  | freeing c =>
    obtain ⟨d, unlinked, -⟩ := (sound.linkage.unlinked t c).mp isAt
    simp only [ExitSystem.go, isAt, unlinked, data, bind_eq_bind, bind_some] at run
    cases run
    exact sound.free_step isAt unlinked
  | _ => simp [ExitSystem.go, isAt] at run

theorem Sound.next (sound : s.Sound) (registers : s.Registers a)
    (run : s.next a = some s') : s'.Sound := by
  cases a with
  | start t =>
    simp only [ExitSystem.next, ite_none_right_eq_some] at run
    obtain ⟨isAt, run⟩ := run
    cases run
    have status := sound.status t
    rw [isAt] at status
    exact sound.goto (by simp [isAt]) (by simp) nofun nofun (fun _ _ => by simp [isAt])
      (by simp [isAt]) status
  | register t c =>
    simp only [ExitSystem.next, ite_none_right_eq_some] at run
    obtain ⟨⟨isAt, other, unborn⟩, run⟩ := run
    cases run
    exact sound.register_step isAt other unborn registers
  | wait t c =>
    simp only [ExitSystem.next, ite_none_right_eq_some] at run
    obtain ⟨isAt, run⟩ := run
    cases run
    unfold wait
    have status := sound.status t
    rw [isAt] at status
    split
    · exact sound.goto (by simp [isAt]) (by simp) nofun nofun (fun _ _ => by simp [isAt])
        (by simp [isAt]) status
    rename_i notLinked
    refine sound.ret_fail (by simp [isAt]) (by rw [isAt]; rfl) (by simp [isAt]) ?_
    intro isFather
    exact absurd (sound.linked_of_running isAt isFather) notLinked
  | exit t v =>
    simp only [ExitSystem.next, ite_none_right_eq_some] at run
    obtain ⟨isAt, run⟩ := run
    cases run
    exact sound.exit_step isAt
  | go t => exact sound.go run

theorem sound_of_reachable {cond : ExitSystem → ExitStep → Prop}
    (registers : ∀ s a, cond s a → s.Registers a)
    (reach : Reachable Initial ExitSystem.next cond s) : s.Sound :=
  reach.invariant (fun _ init => init.sound)
    fun _ _ _ sound meets run => sound.next (registers _ _ meets) run

/-! ### Records that are in use -/

/-- The process goes on with a record that it looked up and that its father may free. -/
def Borrows (s : ExitSystem) (t c : ThreadId) : Prop :=
  s.place t = .found c ∨ (t = c ∧ ∃ v, s.place t = .storing v ∨ s.place t = .raising v)

theorem Borrows.accesses (borrows : s.Borrows t c) : s.Accesses t c := by
  unfold Accesses
  rcases borrows with isPlace | ⟨isC, v, isPlace | isPlace⟩ <;> rw [isPlace]
  · exact isC
  · exact isC

/-- What a step of `t` does to records that are in use. -/
structure Lends (t : ThreadId) (s s' : ExitSystem) : Prop where
  place : ∀ u, u ≠ t → s'.place u = s.place u
  data : ∀ c, (s.record c).data ≠ none → (s'.record c).data ≠ none ∨ s.place t = .freeing c
  borrows : ∀ c, s'.Borrows t c → (s.record c).data ≠ none ∧ s.place t ≠ .freeing c
  unborn : ∀ c, s'.record c = .unborn ↔ s.record c = .unborn

attribute [local grind =] Borrows data

theorem go_lends (run : s.go t = some s') : Lends t s s' := by
  cases isAt : s.place t <;>
    simp only [go, isAt, bind_eq_bind, reduceCtorEq] at run <;>
    constructor <;> grind [bind_eq_some_iff]

theorem next_lends (notRegister : ∀ t c, a ≠ .register t c)
    (run : s.next a = some s') : Lends a.actor s s' := by
  cases a with
  | register t c => exact absurd rfl (notRegister t c)
  | exit t v =>
    simp only [next, ite_none_right_eq_some] at run
    obtain ⟨isAt, run⟩ := run
    cases run
    constructor <;> grind [ExitStep.actor]
  | go t => exact go_lends run
  | _ => constructor <;> grind [next, wait, ExitStep.actor]

/-- A record that a process goes on with is in memory. -/
def Held (s : ExitSystem) : Prop := ∀ t c, s.Borrows t c → (s.record c).data ≠ none

theorem Held.register (held : s.Held) (unborn : s.record c = .unborn) : (s.register t c).Held := by
  intro u c' borrows
  have old := held u c' borrows
  have ne : c' ≠ c := by
    rintro rfl
    rw [unborn] at old
    exact old rfl
  simp only [ExitSystem.register, setChildren, setRecord]
  rwa [Function.update_of_ne ne]

theorem Held.next (held : s.Held) (spares : s.Spares a) (run : s.next a = some s') : s'.Held := by
  by_cases isRegister : ∃ t c, a = .register t c
  · obtain ⟨t, c, rfl⟩ := isRegister
    simp only [ExitSystem.next, ite_none_right_eq_some] at run
    obtain ⟨⟨-, -, unborn⟩, run⟩ := run
    cases run
    exact held.register unborn
  have lends := next_lends (fun t c isA => isRegister ⟨t, c, isA⟩) run
  intro u c borrows
  by_cases same : u = a.actor
  · subst same
    obtain ⟨old, notFreed⟩ := lends.borrows c borrows
    exact (lends.data c old).resolve_right notFreed
  have borrowed : s.Borrows u c := by
    unfold Borrows at borrows ⊢
    rwa [lends.place u same] at borrows
  refine (lends.data c (held u c borrowed)).resolve_right fun freeing => ?_
  -- only a process that goes on can be about to free a record
  cases a with
  | go t =>
    have freeing : s.place t = .freeing c := freeing
    simp only [Spares, freeing] at spares
    exact spares u same borrowed.accesses
  | _ => simp_all [ExitSystem.next, ExitStep.actor]

theorem held_of_reachable
    (reach : Reachable Initial ExitSystem.next (fun s a => s.Registers a ∧ s.Spares a) s) :
    s.Held := by
  refine reach.invariant (fun s init t c borrows => ?_) fun _ _ _ held meets run =>
    held.next meets.2 run
  unfold Borrows at borrows
  rcases init.place t with isPlace | isPlace <;> simp [isPlace] at borrows

theorem Sound.accesses (sound : s.Sound) (held : s.Held) (accesses : s.Accesses t c) :
    (s.record c).data ≠ none := by
  have father : (s.place t).fatherOf = some c → (s.record c).data ≠ none := by
    intro isC
    obtain ⟨d, -, isD⟩ := sound.data_of_father isC
    simp [isD]
  have children := (sound.linkage.children t c).mp
  have unlinked := (sound.linkage.unlinked t c).mp
  have borrowed := held t c
  unfold Accesses at accesses
  cases isAt : s.place t <;> grind [fatherOf, List.mem_of_head?]

/-- The father of a process whose record is in memory has not ended. -/
theorem Sound.father_alive {d : ExitData} (sound : s.Sound) (isD : (s.record c).data = some d) :
    s.place d.father ≠ .dead := by
  have children := (sound.linkage.children d.father c).mpr
  have unlinked := (sound.linkage.unlinked d.father c).mpr
  have none := sound.linkage.dead d.father
  cases isRecord : s.record c <;> grind

theorem Sound.go_of_waiting (sound : s.Sound) (isAt : s.place t = .waiting c)
    (ended : (s.place c).afterRaise = true) : (s.go t).isSome := by
  obtain ⟨d, linked, isFather⟩ := sound.linkage.father t c (by rw [isAt]; rfl)
  have family := sound.family c d linked
  rw [isFather, isAt] at family
  have raised := family.up ended nofun (family.notLogged (.inl rfl))
  simp [ExitSystem.go, isAt, linked, data, raised]

/-- A process that is in `process_wait` or in `process_exit` goes on, except for a father that
    waits for a process that has not ended. -/
theorem Sound.go_isSome (sound : s.Sound) (held : s.Held) (absent : s.place t ≠ .absent)
    (runs : s.place t ≠ .running) (dead : s.place t ≠ .dead)
    (ended : ∀ c, s.place t = .waiting c → (s.place c).afterRaise = true) : (s.go t).isSome := by
  have memory : ∀ c, s.Accesses t c → ∃ d, (s.record c).data = some d := fun c accesses =>
    ne_none_iff_exists'.mp (sound.accesses held accesses)
  simp only [Accesses] at memory
  cases isAt : s.place t <;> simp only [isAt] at memory <;>
    simp only [ExitSystem.go, isAt, bind_eq_bind]
  case found c =>
    obtain ⟨d, isD⟩ := memory c rfl
    have alive := sound.father_alive isD
    grind
  case waiting c =>
    have goes := sound.go_of_waiting isAt (ended c isAt)
    rwa [ExitSystem.go, isAt] at goes
  case destroying =>
    cases list : s.chExitData t with
    | nil => rfl
    | cons c rest =>
      obtain ⟨d, isD⟩ := memory c (by rw [list]; rfl)
      simp [isD]
  all_goals grind

/-- In every run in which processes are registered before they look up their record and a
    record is freed when no other process is about to access it: calls of `process_wait`
    return what they should, only the first call of a father waits, no process accesses a
    record that was freed, and all but fathers of processes that have not ended go on. -/
theorem exit_status_delivered
    (reached : Reachable Initial ExitSystem.next (fun s a => s.Registers a ∧ s.Spares a) s) :
    s.Proper s.log ∧
    (∀ t c, s.place t = .waiting c → (s.record c).father = some t ∧ ¬s.Logged t c) ∧
    (∀ t c, s.Accesses t c → (s.record c).data ≠ none) ∧
    ∀ t, s.place t ≠ .absent → s.place t ≠ .running → s.place t ≠ .dead →
      (∀ c, s.place t = .waiting c → (s.place c).afterRaise = true) →
      (s.next (.go t)).isSome := by
  have sound := sound_of_reachable (fun _ _ meets => meets.1) reached
  have held := held_of_reachable reached
  refine ⟨sound.proper, ?_, fun _ _ => sound.accesses held, fun _ => sound.go_isSome held⟩
  intro t c isPlace
  obtain ⟨d, linked, isFather⟩ := sound.linkage.father t c (by rw [isPlace]; rfl)
  have family := sound.family c d linked
  rw [isFather] at family
  exact ⟨by rw [linked]; exact congrArg some isFather, family.notLogged (.inl isPlace)⟩

/-- Process 1 is running and no other process has started. -/
def oneProcess : ExitSystem where
  record _ := .unborn
  chExitData _ := []
  place t := if t = 1 then .running else .absent
  status _ := none
  log := []

theorem oneProcess_initial : oneProcess.Initial where
  record _ := rfl
  chExitData _ := rfl
  place t := by
    unfold oneProcess
    by_cases same : t = 1 <;> simp [same]
  status _ := rfl
  log := rfl

instance (s : ExitSystem) (a : ExitStep) : Decidable (s.Registers a) := by
  unfold Registers
  cases a <;> infer_instance

/-- No process has come to `free`. -/
def FreesNothing (s : ExitSystem) : ExitStep → Bool
  | .go t =>
      match s.place t with
      | .freeing _ => false
      | _ => true
  | _ => true

theorem spares_of_freesNothing (nothing : s.FreesNothing a = true) : s.Spares a := by
  cases a with
  | go t =>
    unfold Spares FreesNothing at *
    dsimp only at *
    cases isAt : s.place t <;> simp_all
  | _ => trivial

/-- The father waits before the child exits, and gets its status. -/
theorem exit_status_delivered_waited : ∃ s,
    Reachable Initial ExitSystem.next (fun s a => s.Registers a ∧ s.Spares a) s ∧
      s.log = [⟨1, 2, 7⟩] ∧ s.Proper s.log := by
  obtain ⟨s, reached, log⟩ := reachable_of_run ExitSystem.next
    (fun s a => s.Registers a ∧ s.FreesNothing a = true) oneProcess_initial
    [.start 2, .register 1 2, .wait 1 2, .go 1, .go 1, .exit 2 7, .go 2, .go 2, .go 2, .go 1, .go 1]
    (fun s => s.log = [⟨1, 2, 7⟩]) (by decide)
  have reached : Reachable Initial ExitSystem.next (fun s a => s.Registers a ∧ s.Spares a) s :=
    reached.mono fun _ _ meets => ⟨meets.1, spares_of_freesNothing meets.2⟩
  exact ⟨s, reached, log, (exit_status_delivered reached).1⟩

/-- The father exits while the child is about to store its status: the child writes to the
    record that was freed. -/
theorem exit_code_stored_after_free : ∃ s, Reachable Initial ExitSystem.next Registers s ∧
    ∃ t c, s.Accesses t c ∧ (s.record c).data = none := by
  obtain ⟨s, reached, test⟩ := reachable_of_run ExitSystem.next Registers oneProcess_initial
    [.start 2, .register 1 2, .exit 2 7, .go 2, .exit 1 0, .go 1, .go 1, .go 1]
    (fun s => s.Accesses 2 2 ∧ (s.record 2).data = none) (by decide)
  exact ⟨s, reached, 2, 2, test⟩

end ExitSystem

end Pintos
