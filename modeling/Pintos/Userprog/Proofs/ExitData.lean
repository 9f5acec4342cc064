import Pintos.Userprog.ExitData

/-!
# The invariant of exit data

The records, the lists of children and the places of the processes agree (`Linkage`), and a
record says how far its father and its process have come (`Family`). A step of a process
concerns one family; it leaves the others alone (`Family.moves`).
-/

namespace Pintos

open Function ExitPlace ExitRecord

variable {d : ExitData} {place : ExitPlace} {v : Int} {f : ExitData → ExitData}
  {record : ExitRecord}

namespace ExitRecord

variable {record : ExitRecord} {f : ExitData → ExitData} {d : ExitData}

@[grind =] theorem data_modify : (record.modify f).data = record.data.map f := by
  cases record <;> rfl

@[grind =] theorem modify_eq_unborn : record.modify f = .unborn ↔ record = .unborn := by
  cases record <;> simp [ExitRecord.modify]

@[grind →] theorem linked_of_isLinked (isLinked : record.isLinked = true) :
    ∃ d, record = .linked d := by
  cases record <;> simp_all [ExitRecord.isLinked]

end ExitRecord

namespace ExitSystem

variable {s s' : ExitSystem} {t u c : ThreadId}

section Fields

variable (s : ExitSystem) (t u c : ThreadId) (place : ExitPlace) (record : ExitRecord)
  (children : List ThreadId) (result : Int)

@[grind =] theorem goto_place_apply :
    (s.goto t place).place u = if u = t then place else s.place u := update_apply ..
@[grind =] theorem goto_record_apply : (s.goto t place).record u = s.record u := rfl
@[grind =] theorem setRecord_place_apply : (s.setRecord c record).place u = s.place u := rfl
@[grind =] theorem setRecord_record_apply :
    (s.setRecord c record).record u = if u = c then record else s.record u :=
  update_apply ..
@[grind =] theorem setChildren_place_apply : (s.setChildren t children).place u = s.place u := rfl
@[grind =] theorem setChildren_record_apply :
    (s.setChildren t children).record u = s.record u := rfl
@[grind =] theorem ret_place_apply :
    (s.ret t c result).place u = if u = t then .running else s.place u := update_apply ..
@[grind =] theorem ret_record_apply : (s.ret t c result).record u = s.record u := rfl

end Fields

/-! ## The invariant -/

/-- The process `t` has called `process_wait` for `c`, and the call has returned. -/
def Logged (s : ExitSystem) (t c : ThreadId) : Prop := ∃ w ∈ s.log, w.waiter = t ∧ w.child = c

/-- The records, the lists of children and the places of the fathers agree. -/
structure Linkage (s : ExitSystem) : Prop where
  children : ∀ t c, c ∈ s.chExitData t ↔ ∃ d, s.record c = .linked d ∧ d.father = t
  nodup : ∀ t, (s.chExitData t).Nodup
  unlinked : ∀ t c, s.place t = .freeing c ↔ ∃ d, s.record c = .unlinked d ∧ d.father = t
  dead : ∀ t, s.place t = .dead → s.chExitData t = []
  father : ∀ t c, (s.place t).fatherOf = some c → ∃ d, s.record c = .linked d ∧ d.father = t
  other : ∀ c d, (s.record c).data = some d → d.father ≠ c
  freed : ∀ t c, s.record c = .freed t → (s.place t).afterRaise = true

/-- What the record of `c` says, given where the father and `c` are, the status that `c`
    passed to `process_exit` and whether a call of the father has returned. -/
structure Family (d : ExitData) (c : ThreadId) (father child : ExitPlace) (status : Option Int)
    (logged : Prop) : Prop where
  called : d.calledProcessWait = true ↔ father = .waiting c ∨ father = .woken c ∨ logged
  notLogged : father = .waiting c ∨ father = .woken c → ¬logged
  woken : father = .woken c ∨ logged → child.afterRaise = true
  down : child.afterRaise = false ∨ father = .woken c ∨ logged → d.dieSema = 0
  up : child.afterRaise = true → father ≠ .woken c → ¬logged → d.dieSema = 1
  code : child.afterRaise = true ∨ (∃ v, child = .raising v) → status = some d.exitCode

/-- The status of a process, given where it is. -/
def StatusOk (place : ExitPlace) (status : Option Int) : Prop :=
  match place with
  | .exiting v => status = some v
  | .storing v => status = some v
  | .raising v => status = some v
  | .destroying => True
  | .freeing _ => True
  | .dead => True
  | _ => status = none

/-- The first call by the father returned the status of the process, and other calls
    returned `-1`. -/
def Proper (s : ExitSystem) : List WaitCall → Prop
  | [] => True
  | w :: earlier =>
      (if (s.record w.child).father = some w.waiter ∧
          ∀ e ∈ earlier, ¬(e.waiter = w.waiter ∧ e.child = w.child) then
        s.status w.child = some w.result
      else w.result = -1) ∧ s.Proper earlier

structure Sound (s : ExitSystem) : Prop where
  linkage : s.Linkage
  family : ∀ c d, s.record c = .linked d →
    Family d c (s.place d.father) (s.place c) (s.status c) (s.Logged d.father c)
  status : ∀ t, StatusOk (s.place t) (s.status t)
  registered : ∀ w ∈ s.log, s.record w.child ≠ .unborn
  proper : s.Proper s.log

/-! ## One step of a process -/

theorem Proper.mono {log : List WaitCall} (proper : s.Proper log)
    (father : ∀ w ∈ log, (s'.record w.child).father = (s.record w.child).father)
    (status : ∀ w ∈ log, ∀ v, s.status w.child = some v → s'.status w.child = some v) :
    s'.Proper log := by
  induction log with
  | nil => trivial
  | cons w earlier ih =>
    obtain ⟨first, rest⟩ := proper
    refine ⟨?_, ih rest (fun w mem => father w (.tail _ mem)) fun w mem => status w (.tail _ mem)⟩
    rw [father w (.head _)]
    split at first
    · rw [if_pos ‹_›]
      exact status w (.head _) _ first
    · rwa [if_neg ‹_›]

theorem Linkage.father_ne (linkage : s.Linkage) (linked : s.record c = .linked d) :
    d.father ≠ c := linkage.other c d (by rw [linked]; rfl)

theorem Linkage.congr (linkage : s.Linkage) (record : s'.record = s.record)
    (children : s'.chExitData = s.chExitData) (place : s'.place = s.place) : s'.Linkage := by
  obtain ⟨record', children', place', status', log'⟩ := s'
  subst record children place
  exact ⟨linkage.children, linkage.nodup, linkage.unlinked, linkage.dead, linkage.father,
    linkage.other, linkage.freed⟩

attribute [grind =] ExitSystem.modify

section Modify

variable {f : ExitData → ExitData}

/-- What an assignment to a record does not change holds of all records as before. -/
theorem modify_record_iff {P : ExitRecord → Prop} (keeps : ∀ record, P (record.modify f) ↔ P record) :
    P ((s.modify c f).record u) ↔ P (s.record u) := by
  show P (update s.record c ((s.record c).modify f) u) ↔ _
  rw [update_apply]
  split
  · rename_i same
    rw [keeps, same]
  · rfl

theorem modify_father (keeps : ∀ d, (f d).father = d.father) :
    ((s.modify c f).record u).father = (s.record u).father := by
  refine (modify_record_iff (P := fun record => record.father = (s.record u).father) ?_).mpr rfl
  rintro (_ | _ | _ | _) <;> simp [ExitRecord.modify, ExitRecord.father, keeps]

theorem modify_linked (keeps : ∀ d, (f d).father = d.father) :
    (∃ d, (s.modify c f).record u = .linked d ∧ d.father = t) ↔
      ∃ d, s.record u = .linked d ∧ d.father = t := by
  refine modify_record_iff (P := fun record => ∃ d, record = .linked d ∧ d.father = t) ?_
  rintro (_ | _ | _ | _) <;> simp [ExitRecord.modify, keeps]

theorem Linkage.modify (linkage : s.Linkage) (keeps : ∀ d, (f d).father = d.father) :
    (s.modify c f).Linkage where
  children t c' := (linkage.children t c').trans (modify_linked keeps).symm
  nodup := linkage.nodup
  unlinked t c' := by
    refine (linkage.unlinked t c').trans (modify_record_iff
      (P := fun record => ∃ d, record = .unlinked d ∧ d.father = t) ?_).symm
    rintro (_ | _ | _ | _) <;> simp [ExitRecord.modify, keeps]
  dead := linkage.dead
  father t c' isC := (modify_linked keeps).mpr (linkage.father t c' isC)
  other c' := by
    refine (modify_record_iff (P := fun record => ∀ d, record.data = some d → d.father ≠ c') ?_).mpr
      (linkage.other c')
    rintro (_ | _ | _ | _) <;> simp [ExitRecord.modify, ExitRecord.data, keeps]
  freed t c' isFreed := by
    refine linkage.freed t c' ((modify_record_iff (P := (· = .freed t)) ?_).mp isFreed)
    rintro (_ | _ | _ | _) <;> simp [ExitRecord.modify]

end Modify

theorem Linkage.goto (linkage : s.Linkage) (old : ∀ c, s.place t ≠ .freeing c)
    (after : ∀ c, place ≠ .freeing c) (dead : place = .dead → s.chExitData t = [])
    (father : ∀ c, place.fatherOf = some c → ∃ d, s.record c = .linked d ∧ d.father = t)
    (stays : (s.place t).afterRaise = true → place.afterRaise = true) :
    (s.goto t place).Linkage := by
  obtain ⟨children, nodup, unlinked, oldDead, oldFather, other, freed⟩ := linkage
  constructor <;> simp only [ExitSystem.goto, update_apply] <;> grind

/-- The process neither waits for `c` nor has it been waiting. -/
def Aside (place : ExitPlace) (c : ThreadId) : Prop := place ≠ .waiting c ∧ place ≠ .woken c

/-- The step of a process leaves a family alone in which it does not wait, neither as the
    father nor as the child. -/
theorem Family.moves {status : Option Int} {logged : Prop}
    (family : Family d c (s.place d.father) (s.place c) status logged) (place : ExitPlace)
    (other : d.father ≠ c) (asFather : d.father = t → Aside (s.place t) c ∧ Aside place c)
    (asChild : c = t → place.afterRaise = (s.place t).afterRaise ∧ ∀ v, place ≠ .raising v) :
    Family d c (update s.place t place d.father) (update s.place t place c) status
      logged := by
  obtain ⟨called, notLogged, woken, down, up, code⟩ := family
  simp only [Aside] at asFather
  rw [update_apply, update_apply]
  by_cases isFather : d.father = t
  · rw [if_pos isFather, if_neg (by rintro rfl; exact other isFather)]
    have asFather := asFather isFather
    rw [isFather] at called notLogged woken down up
    constructor <;> grind
  rw [if_neg isFather]
  by_cases isChild : c = t
  · rw [if_pos isChild]
    have asChild := asChild isChild
    rw [isChild] at woken down up code
    constructor <;> grind
  · rw [if_neg isChild]
    exact ⟨called, notLogged, woken, down, up, code⟩

theorem StatusOk.update {status : ThreadId → Option Int}
    (old : ∀ u, StatusOk (s.place u) (status u)) (new : StatusOk place (status t)) (u : ThreadId) :
    StatusOk (update s.place t place u) (status u) := by
  rw [update_apply]
  by_cases same : u = t
  · rw [if_pos same, same]
    exact new
  · rw [if_neg same]
    exact old u

theorem Sound.goto (sound : s.Sound) (old : ∀ c, s.place t ≠ .freeing c ∧ Aside (s.place t) c)
    (after : ∀ c, place ≠ .freeing c ∧ Aside place c) (dead : place = .dead → s.chExitData t = [])
    (father : ∀ c, place.fatherOf = some c → ∃ d, s.record c = .linked d ∧ d.father = t)
    (child : ∀ d, s.record t = .linked d →
      place.afterRaise = (s.place t).afterRaise ∧ ∀ v, place ≠ .raising v)
    (stays : (s.place t).afterRaise = true → place.afterRaise = true)
    (status : StatusOk place (s.status t)) : (s.goto t place).Sound where
  linkage := sound.linkage.goto (fun c => (old c).1) (fun c => (after c).1) dead father stays
  family := by
    intro c d linked
    exact (sound.family c d linked).moves place (sound.linkage.father_ne linked)
      (fun _ => ⟨(old c).2, (after c).2⟩) (by rintro rfl; exact child d linked)
  status := StatusOk.update sound.status status
  registered := sound.registered
  proper := sound.proper.mono (fun _ _ => rfl) fun _ _ _ => id

/-! ### Calls of `process_wait` that return -/

theorem ret_log (result : Int) (born : s.record c ≠ .unborn) :
    (s.ret t c result).log = ⟨t, c, result⟩ :: s.log := if_neg born

theorem ret_logged (result : Int) (born : s.record c ≠ .unborn) {v : ThreadId} :
    (s.ret t c result).Logged u v ↔ (u = t ∧ v = c) ∨ s.Logged u v := by
  unfold Logged
  rw [ret_log result born]
  simp [eq_comm]

theorem ret_of_unborn (result : Int) (unborn : s.record c = .unborn) :
    s.ret t c result = s.goto t .running := by
  unfold ret
  rw [if_pos unborn]
  rfl

theorem Sound.ret_registered (sound : s.Sound) (result : Int) (born : s.record c ≠ .unborn) :
    ∀ w ∈ (s.ret t c result).log, s.record w.child ≠ .unborn := by
  rw [ret_log result born]
  exact List.forall_mem_cons.mpr ⟨born, sound.registered⟩

/-- A call that fails: by another process than the father, or by the father again. -/
theorem Sound.ret_fail (sound : s.Sound) (old : ∀ c, s.place t ≠ .freeing c ∧ Aside (s.place t) c)
    (early : (s.place t).beforeLookup = true) (idle : ∀ v, s.place t ≠ .exiting v)
    (again : (s.record c).father = some t → s.Logged t c) : (s.ret t c (-1)).Sound := by
  have status : s.status t = none := by
    have ok := sound.status t
    cases isAt : s.place t <;> simp_all [StatusOk, beforeLookup]
  have notRaised : (s.place t).afterRaise = false := by
    cases isAt : s.place t <;> simp_all [afterRaise, beforeLookup]
  have moved : (s.goto t .running).Sound :=
    sound.goto old (by simp [Aside]) nofun nofun (fun _ _ => ⟨notRaised.symm, nofun⟩)
      (by simp [notRaised]) status
  by_cases unborn : s.record c = .unborn
  · rwa [ret_of_unborn _ unborn]
  refine ⟨moved.linkage.congr rfl rfl rfl, ?_, moved.status, sound.ret_registered _ unborn, ?_⟩
  · intro c' d linked
    have family := moved.family c' d linked
    have same : (s.ret t c (-1)).Logged d.father c' ↔ s.Logged d.father c' := by
      rw [ret_logged _ unborn, or_iff_right_iff_imp]
      rintro ⟨isT, rfl⟩
      rw [isT]
      apply again
      have linked : s.record c' = .linked d := linked
      rw [linked]
      exact congrArg some isT
    rwa [same]
  rw [ret_log _ unborn]
  refine ⟨?_, sound.proper.mono (fun _ _ => rfl) fun _ _ _ => id⟩
  rw [if_neg]
  rintro ⟨isFather, first⟩
  obtain ⟨w, mem, same⟩ := again isFather
  exact first w mem same

theorem Sound.ret_woken (sound : s.Sound) (isAt : s.place t = .woken c)
    (linked : s.record c = .linked d) : (s.ret t c d.exitCode).Sound := by
  obtain ⟨d', linked', isFather⟩ := sound.linkage.father t c (by rw [isAt]; rfl)
  cases linked.symm.trans linked'
  subst isFather
  have family := sound.family c d linked
  have unborn : s.record c ≠ .unborn := by
    rw [linked]
    nofun
  have raised : (s.place c).afterRaise = true := family.woken (.inl isAt)
  have logged := fun u v => ret_logged (s := s) (t := d.father) (u := u) (v := v) d.exitCode unborn
  have linkage : (s.goto d.father .running).Linkage :=
    sound.linkage.goto (by simp [isAt]) (by simp) nofun nofun (by simp [isAt, afterRaise])
  refine ⟨linkage.congr rfl rfl rfl, ?_, ?_, sound.ret_registered _ unborn, ?_⟩
  · intro c' d' linked'
    have linked' : s.record c' = .linked d' := linked'
    have other := sound.linkage.father_ne linked'
    by_cases same : c' = c
    · subst same
      cases linked.symm.trans linked'
      obtain ⟨called, notLogged, woken, down, up, code⟩ := family
      rw [logged, ret_place_apply, ret_place_apply]
      show Family d c' _ _ (s.status c') _
      constructor <;> grind
    have family' := (sound.family c' d' linked').moves (t := d.father) .running other
      (fun _ => by simp [Aside, isAt, Ne.symm same])
      (fun _ => by simp [isAt, afterRaise])
    have unlogged : (s.ret d.father c d.exitCode).Logged d'.father c' ↔ s.Logged d'.father c' := by
      simp [logged, same]
    rwa [unlogged]
  · have status := sound.status d.father
    rw [isAt] at status
    exact StatusOk.update sound.status status
  rw [ret_log _ unborn]
  refine ⟨?_, sound.proper.mono (fun _ _ => rfl) fun _ _ _ => id⟩
  rw [if_pos]
  · exact family.code (.inl raised)
  refine ⟨by rw [ret_record_apply, linked]; rfl, ?_⟩
  intro e mem same
  exact family.notLogged (.inr isAt) ⟨e, mem, same⟩

/-! ### Steps that change a record -/

theorem modify_eq_linked : (s.modify c f).record u = .linked d ↔
      (u = c ∧ ∃ d', s.record c = .linked d' ∧ f d' = d) ∨ (u ≠ c ∧ s.record u = .linked d) := by
  show update s.record c ((s.record c).modify f) u = _ ↔ _
  by_cases same : u = c
  · rw [same, update_self]
    cases s.record c <;> simp [ExitRecord.modify]
  · rw [update_of_ne same]
    simp [same]

/-- An assignment to the record of `c` by `t`, which is the father or `c` itself. Only the
    family of `c` has to be looked at. -/
theorem Sound.modify_goto (sound : s.Sound)
    (keeps : ∀ d, (f d).father = d.father) (old : ∀ c', s.place t ≠ .freeing c')
    (after : ∀ c', place ≠ .freeing c') (alive : place ≠ .dead)
    (father : ∀ c', place.fatherOf = some c' → (s.place t).fatherOf = some c')
    (only : ∀ c', (s.place t).fatherOf = some c' → c' = c)
    (own : t ≠ c → place.afterRaise = (s.place t).afterRaise ∧ ∀ v, place ≠ .raising v)
    (stays : (s.place t).afterRaise = true → place.afterRaise = true)
    (here : ∀ d, s.record c = .linked d →
      Family (f d) c (update s.place t place d.father) (update s.place t place c)
        (s.status c) (s.Logged d.father c))
    (status : StatusOk place (s.status t)) : ((s.modify c f).goto t place).Sound where
  linkage := by
    have linkage : (s.modify c f).Linkage := sound.linkage.modify keeps
    exact linkage.goto old after (fun dead => absurd dead alive)
      (fun c' isC => linkage.father t c' (father c' isC)) stays
  family := by
    intro c' d linked
    rcases modify_eq_linked.mp (show (s.modify c f).record c' = _ from linked) with
      ⟨rfl, d', was, rfl⟩ | ⟨ne, linked⟩
    · rw [keeps]
      exact here d' was
    have aside : ∀ p : ExitPlace, (∀ c', p.fatherOf = some c' → c' = c) → Aside p c' := by
      intro p only
      constructor
      · rintro rfl
        exact ne (only c' rfl)
      · rintro rfl
        exact ne (only c' rfl)
    exact (sound.family c' d linked).moves place (sound.linkage.father_ne linked)
      (fun _ => ⟨aside _ only, aside _ fun c'' isC => only c'' (father c'' isC)⟩)
      (fun isT => own (isT ▸ ne))
  status := StatusOk.update sound.status status
  registered w mem unborn := by
    refine sound.registered w mem ((modify_record_iff (P := (· = .unborn)) ?_).mp unborn)
    rintro (_ | _ | _ | _) <;> simp [ExitRecord.modify]
  proper := sound.proper.mono (fun _ _ => modify_father keeps) fun _ _ _ => id

theorem place_of_fatherOf (isFather : place.fatherOf = some c) :
    place.afterRaise = false ∧ (∀ v, place ≠ .raising v) ∧ (∀ c, place ≠ .freeing c) ∧
      place ≠ .dead ∧ ∀ status, StatusOk place status ↔ status = none := by
  cases place <;> simp_all [fatherOf, afterRaise, StatusOk]

variable (sound : s.Sound)
include sound

/-- A step of the father, in `process_wait` before and after it. -/
theorem Sound.father_step
    (keeps : ∀ d, (f d).father = d.father) (old : (s.place t).fatherOf = some c)
    (after : place.fatherOf = some c) (linked : s.record c = .linked d)
    (here : Family d c (s.place t) (s.place c) (s.status c) (s.Logged t c) →
      Family (f d) c place (s.place c) (s.status c) (s.Logged t c)) :
    ((s.modify c f).goto t place).Sound := by
  obtain ⟨d', linked', rfl⟩ := sound.linkage.father t c old
  cases linked.symm.trans linked'
  have status := sound.status d.father
  have other := sound.linkage.father_ne linked
  have family := here (sound.family c d linked)
  obtain ⟨notRaised, -, notFreeing, -, unset⟩ := place_of_fatherOf old
  obtain ⟨notRaised', notRaising, notFreeing', alive, unset'⟩ := place_of_fatherOf after
  refine sound.modify_goto keeps notFreeing notFreeing' alive (by simp [old, after])
    (by simp [old]) (fun _ => ⟨notRaised'.trans notRaised.symm, notRaising⟩) (by simp [notRaised])
    ?_ ((unset' _).mpr ((unset _).mp status))
  intro d' linked'
  cases linked.symm.trans linked'
  rwa [update_self, update_of_ne other.symm]

/-- The father sets `called_process_wait`. -/
theorem Sound.isFather_step (isAt : s.place t = .isFather c)
    (linked : s.record c = .linked d) (first : d.calledProcessWait = false) :
    ((s.modify c fun data => { data with calledProcessWait := true }).goto t
      (.waiting c)).Sound := by
  refine sound.father_step (fun _ => rfl) (by rw [isAt]; rfl) rfl linked ?_
  rintro ⟨called, notLogged, woken, down, up, code⟩
  constructor <;> grind

/-- The father gets past `sema_down`. -/
theorem Sound.waiting_step (isAt : s.place t = .waiting c)
    (linked : s.record c = .linked d) (pos : d.dieSema ≠ 0) :
    ((s.modify c fun data => { data with dieSema := data.dieSema - 1 }).goto t
      (.woken c)).Sound := by
  refine sound.father_step (fun _ => rfl) (by rw [isAt]; rfl) rfl linked ?_
  rintro ⟨called, notLogged, woken, down, up, code⟩
  constructor <;> grind

/-- A step of `process_exit` with the process's own record. -/
theorem Sound.own_step (keeps : ∀ d, (f d).father = d.father)
    (old : (s.place t).fatherOf = none ∧ ∀ c, s.place t ≠ .freeing c)
    (after : place.fatherOf = none ∧ (∀ c, place ≠ .freeing c) ∧ place ≠ .dead)
    (stays : (s.place t).afterRaise = true → place.afterRaise = true)
    (status : StatusOk place (s.status t))
    (here : ∀ {d father logged}, Family d t father (s.place t) (s.status t) logged →
      Family (f d) t father place (s.status t) logged) : ((s.modify t f).goto t place).Sound := by
  refine sound.modify_goto keeps old.2 after.2.1 after.2.2 (by simp [after]) (by simp [old])
    (absurd rfl) stays ?_ status
  intro d linked
  rw [update_self, update_of_ne (sound.linkage.father_ne linked)]
  exact here (sound.family t d linked)

theorem Sound.storing_step (isAt : s.place t = .storing v) :
    ((s.modify t fun data => { data with exitCode := v }).goto t (.raising v)).Sound := by
  have status := sound.status t
  rw [isAt] at status
  refine sound.own_step (fun _ => rfl) (by simp [isAt, fatherOf])
    (by simp [fatherOf]) (by simp [isAt, afterRaise]) status ?_
  rintro d father logged ⟨called, notLogged, woken, down, up, code⟩
  constructor <;> grind [afterRaise, StatusOk]

/-- A process raises `die_sema`. -/
theorem Sound.raising_step (isAt : s.place t = .raising v) :
    ((s.modify t fun data => { data with dieSema := data.dieSema + 1 }).goto t
      .destroying).Sound := by
  refine sound.own_step (fun _ => rfl) (by simp [isAt, fatherOf])
    (by simp [fatherOf]) (by simp [afterRaise]) trivial ?_
  rintro d father logged ⟨called, notLogged, woken, down, up, code⟩
  constructor <;> grind [afterRaise]

/-- What the log says does not depend on the record of a process, except for its father. -/
theorem Sound.log_update (s' : ExitSystem)
    (isRecord : s'.record = update s.record c record) (isLog : s'.log = s.log)
    (isStatus : s'.status = s.status) (born : record ≠ .unborn)
    (father : s.record c ≠ .unborn → record.father = (s.record c).father) :
    (∀ w ∈ s'.log, s'.record w.child ≠ .unborn) ∧ s'.Proper s'.log := by
  rw [isLog, isRecord]
  constructor
  · intro w mem unborn
    rw [update_apply] at unborn
    split at unborn
    · exact born unborn
    · exact sound.registered w mem unborn
  refine sound.proper.mono (fun w mem => ?_) fun _ _ _ known => by rwa [isStatus]
  rw [isRecord, update_apply]
  split
  · rename_i same
    rw [same] at ⊢
    exact father (same ▸ sound.registered w mem)
  · rfl

/-- The record of `c` leaves the table; the other families stay as they are. -/
theorem Sound.family_forget (gone : ∀ d, record ≠ .linked d) (old : (s.place t).afterRaise = true)
    (after : place.afterRaise = true) (c' : ThreadId) (d : ExitData)
    (linked : update s.record c record c' = .linked d) :
    Family d c' (update s.place t place d.father) (update s.place t place c') (s.status c')
      (s.Logged d.father c') := by
  have ne : c' ≠ c := by
    rintro rfl
    exact gone d ((update_self ..).symm.trans linked)
  rw [update_of_ne ne] at linked
  refine (sound.family c' d linked).moves _ (sound.linkage.father_ne linked) (fun _ => ?_) fun _ => ?_
  · unfold Aside
    grind [afterRaise]
  · grind [afterRaise]

/-- `hash_delete`. -/
theorem Sound.delete_step {rest : List ThreadId}
    (isAt : s.place t = .destroying) (list : s.chExitData t = c :: rest)
    (linked : s.record c = .linked d) :
    (((s.setRecord c (.unlinked d)).setChildren t rest).goto t (.freeing c)).Sound := by
  have isFather : d.father = t := by
    obtain ⟨d', linked', isFather⟩ := (sound.linkage.children t c).mp (by simp [list])
    cases linked.symm.trans linked'
    exact isFather
  have nodup := sound.linkage.nodup t
  rw [list, List.nodup_cons] at nodup
  have log := sound.log_update
    (((s.setRecord c (.unlinked d)).setChildren t rest).goto t (.freeing c))
    rfl rfl rfl nofun fun _ => by rw [linked]; rfl
  refine ⟨?_, sound.family_forget nofun (by rw [isAt]; rfl) rfl,
    StatusOk.update sound.status trivial, log.1, log.2⟩
  · obtain ⟨children, nodups, unlinked, dead, father, other, freed⟩ := sound.linkage
    constructor <;> simp only [ExitSystem.goto, setRecord, setChildren, update_apply]
    · intro u c'
      have children := children u c'
      grind
    · grind
    · intro u c'
      have unlinked := unlinked u c'
      grind
    · grind
    · intro u c' isC
      have father := father u c'
      grind [fatherOf]
    · grind [data]
    · grind [afterRaise]

/-- `free`. -/
theorem Sound.free_step (isAt : s.place t = .freeing c) (unlinked : s.record c = .unlinked d) :
    ((s.setRecord c (.freed d.father)).goto t .destroying).Sound := by
  have log := sound.log_update ((s.setRecord c (.freed d.father)).goto t .destroying)
    rfl rfl rfl nofun fun _ => by rw [unlinked]; rfl
  refine ⟨?_, sound.family_forget nofun (by rw [isAt]; rfl) rfl,
    StatusOk.update sound.status trivial, log.1, log.2⟩
  · obtain ⟨children, nodup, unlinkeds, dead, father, other, freed⟩ := sound.linkage
    constructor <;> simp only [ExitSystem.goto, setRecord, update_apply]
    · intro u c'
      have children := children u c'
      grind
    · exact nodup
    · intro u c'
      have here := unlinkeds t c'
      have unlinkeds := unlinkeds u c'
      grind
    · grind
    · intro u c' isC
      have father := father u c'
      grind [fatherOf]
    · grind [data]
    · grind [afterRaise]

/-- `init_exit_data`, before the child looks up its record. -/
theorem Sound.register_step (isAt : s.place t = .running) (other : t ≠ c)
    (unborn : s.record c = .unborn) (early : (s.place c).beforeLookup = true) :
    (s.register t c).Sound := by
  have log := sound.log_update (s.register t c) rfl rfl rfl nofun fun born => absurd unborn born
  have notLogged : ∀ u, ¬s.Logged u c := by
    rintro u ⟨w, mem, -, isC⟩
    exact sound.registered w mem (isC ▸ unborn)
  refine ⟨?_, ?_, sound.status, log.1, log.2⟩
  · obtain ⟨children, nodup, unlinkeds, dead, father, others, freed⟩ := sound.linkage
    constructor <;> simp only [register, setRecord, setChildren, update_apply]
    · intro u c'
      have children := children u c'
      by_cases same : c' = c
      · rw [same, unborn] at children
        by_cases isT : u = t
        · simp [same, isT]
        · simp [same, isT, children, Ne.symm isT]
      · grind
    · intro u
      have nodup := nodup u
      have children := children t c
      grind
    · intro u c'
      have unlinkeds := unlinkeds u c'
      grind
    · grind
    · intro u c' isC
      have father := father u c'
      grind
    · grind [data]
    · grind
  intro c' d' linked'
  simp only [register, setChildren, setRecord, update_apply] at linked'
  split at linked'
  · rename_i same
    subst same
    cases linked'
    have waits := isAt
    have notRaised : (s.place c').afterRaise = false ∧ ∀ v, s.place c' ≠ .raising v := by
      cases isC : s.place c' <;> simp_all [afterRaise, beforeLookup]
    have notLogged := notLogged t
    show Family _ c' (s.place t) (s.place c') (s.status c') (s.Logged t c')
    constructor <;> grind
  · exact sound.family c' d' linked'

/-- `process_exit` is called. -/
theorem Sound.exit_step (isAt : s.place t = .running) :
    Sound { s.goto t (.exiting v) with status := update s.status t (some v) } := by
  have unset : s.status t = none := by
    have ok := sound.status t
    rwa [isAt] at ok
  have linkage : (s.goto t (.exiting v)).Linkage :=
    sound.linkage.goto (by simp [isAt]) (by simp) nofun nofun (by simp [isAt, afterRaise])
  refine ⟨linkage.congr rfl rfl rfl, ?_, ?_, sound.registered, ?_⟩
  · intro c' d' linked'
    have family := (sound.family c' d' linked').moves (t := t) (.exiting v)
      (sound.linkage.father_ne linked') (fun _ => by simp [Aside, isAt])
      (fun _ => by simp [isAt, afterRaise])
    by_cases same : c' = t
    · obtain ⟨called, notLogged, woken, down, up, code⟩ := family
      refine ⟨called, notLogged, woken, down, up, ?_⟩
      show (update s.place t (.exiting v) c').afterRaise = true ∨ (∃ w, _) → _
      rw [same, update_self]
      simp [afterRaise, ExitSystem.goto]
    show Family d' c' _ _ (update s.status t (some v) c') _
    rw [update_of_ne same]
    exact family
  · intro u
    show StatusOk (update s.place t (.exiting v) u) (update s.status t (some v) u)
    by_cases same : u = t
    · rw [same, update_self, update_self]
      rfl
    · rw [update_of_ne same, update_of_ne same]
      exact sound.status u
  refine sound.proper.mono (fun _ _ => rfl) fun w _ x known => ?_
  show update s.status t (some v) w.child = some x
  rw [update_of_ne]
  · exact known
  intro same
  rw [same, unset] at known
  cases known

end ExitSystem

end Pintos
