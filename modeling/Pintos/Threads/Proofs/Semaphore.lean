import Pintos.Threads.Semaphore

/-!
# What a semaphore counts

The value is what `sema_init` gave plus the completed ups minus the completed downs, modulo
`2 ^ 32`. A wakeup is not lost: as long as threads wait, every unit of the value has a thread that
was woken and has not looked at it yet. It can lose the unit to another thread, and it waits again
then. A lock starts with one unit, which its holder has.
-/

namespace Pintos

open List Option

variable {otherwise phase : LockPhase} {v : Nat}

theorem decUnsigned_eq (pos : v ≠ 0) : decUnsigned v = v - 1 := if_neg pos

theorem incUnsigned_eq (small : v + 1 < 0x100000000) : incUnsigned v = v + 1 :=
  if_neg fun largest => by omega

theorem incUnsigned_lt (small : v < 0x100000000) : incUnsigned v < 0x100000000 := by
  unfold incUnsigned
  split <;> omega

theorem incUnsigned_le (v : Nat) : incUnsigned v ≤ v + 1 := by
  unfold incUnsigned
  split <;> omega

namespace SemaRun

variable {Tid : Type} {s s' : SemaRun Tid} {t : Tid} {priority : Tid → Int}

/-- The value counts the calls, and no wakeup is lost. -/
structure Counted (s : SemaRun Tid) : Prop where
  small : s.value < 0x100000000
  count : (s.value : Int) = (s.initial + s.ups - s.downs) % 0x100000000
  woken : s.waiters ≠ [] → s.value ≤ s.woken.length
  nodup : (s.waiters ++ s.woken).Nodup

theorem Initial.counted (init : s.Initial) : s.Counted where
  small := init.value ▸ init.unsigned
  count := by
    have unsigned := init.unsigned
    rw [init.value, init.ups, init.downs]
    omega
  woken waits := absurd init.waiters waits
  nodup := by simp [init.waiters, init.woken]

/-- A call takes a unit, of which one more may be there than threads were woken for. -/
theorem Counted.take (small : s.value < 0x100000000)
    (count : (s.value : Int) = (s.initial + s.ups - s.downs) % 0x100000000) (pos : s.value ≠ 0)
    (woken : s.waiters ≠ [] → s.value ≤ s.woken.length + 1)
    (nodup : (s.waiters ++ s.woken).Nodup) : s.take.Counted := by
  have isValue : s.take.value = s.value - 1 := decUnsigned_eq pos
  constructor
  case small => omega
  case count =>
    rw [isValue]
    show ((s.value - 1 : Nat) : Int) = (s.initial + s.ups - (s.downs + 1 : Nat)) % 0x100000000
    omega
  case woken =>
    intro waits
    rw [isValue]
    exact Nat.sub_le_of_le_add (woken waits)
  case nodup => exact nodup

/-- A turn of the loop of `sema_down` by a thread that is in no list. -/
theorem Counted.semaDown (small : s.value < 0x100000000)
    (count : (s.value : Int) = (s.initial + s.ups - s.downs) % 0x100000000)
    (woken : s.waiters ≠ [] → s.value ≤ s.woken.length + 1)
    (nodup : (s.waiters ++ s.woken).Nodup) (outside : s.Outside t) : (s.semaDown t).2.Counted := by
  unfold SemaRun.semaDown
  by_cases zero : s.value = 0
  · rw [if_pos zero]
    refine ⟨small, count, fun _ => zero ▸ Nat.zero_le _, ?_⟩
    have front : (s.waiters ++ [t] ++ s.woken).Perm (t :: (s.waiters ++ s.woken)) := by
      rw [append_assoc]
      exact perm_middle
    refine front.nodup_iff.mpr (nodup_cons.mpr ⟨?_, nodup⟩)
    simp only [mem_append, not_or]
    exact outside
  · rw [if_neg zero]
    exact .take small count zero woken nodup

theorem Counted.semaTryDown (counted : s.Counted) : s.semaTryDown.2.Counted := by
  unfold SemaRun.semaTryDown
  split
  · rename_i pos
    exact .take counted.small counted.count (Nat.ne_of_gt pos)
      (fun waits => Nat.le_succ_of_le (counted.woken waits)) counted.nodup
  · exact counted

theorem semaDown_outcome (sema : SemaRun Tid) (t : Tid) (unit : sema.value ≤ 1) :
    ((sema.semaDown t).1 = true ∧ sema.value = 1 ∧ (sema.semaDown t).2.value = 0) ∨
      ((sema.semaDown t).1 = false ∧ (sema.semaDown t).2.value = sema.value) := by
  unfold SemaRun.semaDown
  by_cases zero : sema.value = 0
  · rw [if_pos zero]
    exact .inr ⟨rfl, rfl⟩
  have one : sema.value = 1 := by omega
  rw [if_neg zero]
  refine .inl ⟨rfl, one, ?_⟩
  exact (decUnsigned_eq zero).trans (by rw [one])

theorem semaTryDown_outcome (sema : SemaRun Tid) (unit : sema.value ≤ 1) :
    (sema.semaTryDown.1 = true ∧ sema.value = 1 ∧ sema.semaTryDown.2.value = 0) ∨
      (sema.semaTryDown.1 = false ∧ sema.semaTryDown.2.value = sema.value) := by
  unfold SemaRun.semaTryDown
  by_cases pos : 0 < sema.value
  · have one : sema.value = 1 := by omega
    rw [if_pos pos]
    refine .inl ⟨rfl, one, ?_⟩
    exact (decUnsigned_eq (Nat.ne_of_gt pos)).trans (by rw [one])
  · rw [if_neg pos]
    exact .inr ⟨rfl, rfl⟩

variable [DecidableEq Tid]

theorem Counted.retest (counted : s.Counted) (mem : t ∈ s.woken) : (s.retest t).2.Counted := by
  have nodup := counted.nodup
  have nodupWoken := (nodup_append.mp nodup).2.1
  have pos : 0 < s.woken.length := length_pos_of_mem mem
  apply Counted.semaDown
  case small => exact counted.small
  case count => exact counted.count
  case woken =>
    intro waits
    have bound := counted.woken waits
    show s.value ≤ (s.woken.erase t).length + 1
    rw [length_erase_of_mem mem]
    omega
  case nodup => exact nodup.sublist ((List.Sublist.refl _).append erase_sublist)
  case outside =>
    refine ⟨fun waits => ?_, nodupWoken.not_mem_erase⟩
    exact (nodup_append.mp nodup).2.2 t waits t mem rfl

theorem Counted.semaUp (counted : s.Counted) (run : s.semaUp priority = some s') : s'.Counted := by
  have small := incUnsigned_lt counted.small
  have count : (incUnsigned s.value : Int) =
      (s.initial + (s.ups + 1 : Nat) - s.downs) % 0x100000000 := by
    have old := counted.count
    have bound := counted.small
    unfold incUnsigned
    split <;> omega
  have nodup := counted.nodup
  unfold SemaRun.semaUp at run
  cases isWaiters : s.waiters with
  | nil =>
    rw [isWaiters] at run nodup
    cases run
    exact ⟨small, count, fun waits => absurd rfl waits, nodup⟩
  | cons first rest =>
    rw [isWaiters] at run nodup
    obtain ⟨m, isMax, run⟩ := bind_eq_some_iff.mp run
    cases run
    have mem := listMax_mem isMax
    refine ⟨small, count, fun _ => ?_, ?_⟩
    · have bound := counted.woken (isWaiters ▸ cons_ne_nil first rest)
      show incUnsigned s.value ≤ (m :: s.woken).length
      rw [length_cons]
      exact Nat.le_trans (incUnsigned_le _) (Nat.succ_le_succ bound)
    show ((first :: rest).erase m ++ m :: s.woken).Nodup
    exact ((perm_middle.trans
      (List.Perm.append_right s.woken (perm_cons_erase mem).symm)).nodup_iff).mpr nodup

theorem Counted.next (counted : s.Counted) {call : SemaCall Tid} (taken : s.next call = some s') :
    s'.Counted := by
  cases call with
  | down t =>
    obtain ⟨outside, rfl⟩ := ite_some_none_eq_some.mp taken
    exact .semaDown counted.small counted.count
      (fun waits => Nat.le_succ_of_le (counted.woken waits)) counted.nodup outside
  | resume t =>
    obtain ⟨mem, rfl⟩ := ite_some_none_eq_some.mp taken
    exact counted.retest mem
  | tryDown =>
    cases taken
    exact counted.semaTryDown
  | up priority => exact counted.semaUp taken

theorem counted_of_reachable (reach : Reachable Initial next AnyStep s) : s.Counted :=
  reach.invariant (fun _ init => init.counted) fun _ _ _ counted _ taken =>
    counted.next taken

/-! ## Runs without wrap-around -/

/-- The value is exact: what was there and what came is there or was taken. -/
structure Exact (s : SemaRun Tid) : Prop where
  small : s.value < 0x100000000
  count : s.value + s.downs = s.initial + s.ups

omit [DecidableEq Tid] in
theorem Exact.take (exact : s.Exact) (pos : s.value ≠ 0) : s.take.Exact := by
  have small := exact.small
  have count := exact.count
  have isValue : s.take.value = s.value - 1 := decUnsigned_eq pos
  constructor
  · omega
  rw [isValue]
  show s.value - 1 + (s.downs + 1) = s.initial + s.ups
  omega

omit [DecidableEq Tid] in
theorem Exact.semaDown (exact : s.Exact) : (s.semaDown t).2.Exact := by
  unfold SemaRun.semaDown
  by_cases zero : s.value = 0
  · rw [if_pos zero]
    exact ⟨exact.small, exact.count⟩
  · rw [if_neg zero]
    exact exact.take zero

theorem Exact.semaUp (exact : s.Exact) (noWrap : s.value + 1 < 0x100000000)
    (run : s.semaUp priority = some s') : s'.Exact := by
  have after : incUnsigned s.value + s.downs = s.initial + (s.ups + 1) := by
    rw [incUnsigned_eq noWrap]
    have count := exact.count
    omega
  unfold SemaRun.semaUp at run
  cases isWaiters : s.waiters with
  | nil =>
    rw [isWaiters] at run
    cases run
    exact ⟨incUnsigned_lt exact.small, after⟩
  | cons first rest =>
    rw [isWaiters] at run
    obtain ⟨m, -, run⟩ := bind_eq_some_iff.mp run
    cases run
    exact ⟨incUnsigned_lt exact.small, after⟩

theorem Exact.next (exact : s.Exact) {call : SemaCall Tid} (noWrap : s.NoWrap call)
    (taken : s.next call = some s') : s'.Exact := by
  cases call with
  | down t =>
    obtain ⟨-, rfl⟩ := ite_some_none_eq_some.mp taken
    exact exact.semaDown
  | resume t =>
    obtain ⟨-, rfl⟩ := ite_some_none_eq_some.mp taken
    have erased : Exact { s with woken := s.woken.erase t } := ⟨exact.small, exact.count⟩
    exact erased.semaDown
  | tryDown =>
    cases taken
    unfold semaTryDown
    split
    · rename_i pos
      exact exact.take (Nat.ne_of_gt pos)
    · exact exact
  | up priority => exact exact.semaUp noWrap taken

theorem exact_of_reachable (reach : Reachable Initial next NoWrap s) : s.Exact := by
  apply reach.invariant
  · intro s init
    refine ⟨init.value ▸ init.unsigned, ?_⟩
    rw [init.value, init.ups, init.downs]
  · exact fun _ _ _ exact noWrap taken => exact.next noWrap taken

/-! ## A single unit -/

theorem semaUp_value {sema sema' : SemaRun Tid}
    (run : sema.semaUp priority = some sema') : sema'.value = incUnsigned sema.value := by
  unfold SemaRun.semaUp at run
  cases isWaiters : sema.waiters with
  | nil =>
    rw [isWaiters] at run
    cases run
    rfl
  | cons first rest =>
    rw [isWaiters] at run
    obtain ⟨m, -, run⟩ := bind_eq_some_iff.mp run
    cases run
    rfl

end SemaRun

/-! ## Locks -/

/-- The thread has the unit of the lock's semaphore. -/
def LockPhase.Inside : LockPhase → Prop
  | .taking | .holding | .releasing => True
  | .outside | .acquiring => False

namespace LockRun
variable {Tid : Type} [DecidableEq Tid] {s s' : LockRun Tid} {t : Tid} {inside : Option Tid}
@[simp] theorem setPhase_self (phase : LockPhase) : (s.setPhase t phase).phase t = phase :=
  Function.update_self ..

theorem setPhase_of_ne {u : Tid} (other : u ≠ t) (phase : LockPhase) :
    (s.setPhase t phase).phase u = s.phase u := Function.update_of_ne other ..

/-- The lock's unit is in the semaphore, or one thread has it. -/
structure Excludes (s : LockRun Tid) (inside : Option Tid) : Prop where
  unit : ∀ t, (s.phase t).Inside ↔ inside = some t
  value : s.sema.value = if inside = none then 1 else 0
  holder : ∀ t, s.holder = some t → s.phase t = .holding

/-- A thread that is not inside takes the unit, or goes on without it. -/
theorem Excludes.settle (excludes : s.Excludes inside)
    (notInside : ¬ (s.phase t).Inside) {taken : Bool} {sema : SemaRun Tid}
    (notTaken : ¬ otherwise.Inside) (outcome : (taken = true ∧ s.sema.value = 1 ∧ sema.value = 0) ∨
      (taken = false ∧ sema.value = s.sema.value)) :
    ∃ inside, (s.settle t (taken, sema) otherwise).Excludes inside := by
  have isOther : ∀ u, u ≠ t → (s.settle t (taken, sema) otherwise).phase u = s.phase u :=
    fun u other => setPhase_of_ne other _
  have isSelf : (s.settle t (taken, sema) otherwise).phase t = if taken then .taking else otherwise :=
    setPhase_self _
  have holder : ∀ u, s.holder = some u → (s.settle t (taken, sema) otherwise).phase u = .holding := by
    intro u isHolder
    have holding := excludes.holder u isHolder
    rw [isOther u, holding]
    rintro rfl
    rw [holding] at notInside
    exact notInside trivial
  rcases outcome with ⟨rfl, one, zero⟩ | ⟨rfl, same⟩
  · have free : inside = none := by
      by_contra held
      rw [excludes.value, if_neg held] at one
      cases one
    refine ⟨some t, ?_, zero, holder⟩
    intro u
    by_cases same : u = t
    · rw [same, isSelf]
      simp [LockPhase.Inside]
    · rw [isOther u same, excludes.unit, free]
      simp [Ne.symm same]
  refine ⟨inside, ?_, same.trans excludes.value, holder⟩
  intro u
  by_cases isT : u = t
  · rw [isT, isSelf, ← excludes.unit]
    exact ⟨fun now => absurd now notTaken, fun now => absurd now notInside⟩
  · rw [isOther u isT, excludes.unit]

theorem Excludes.move (excludes : s.Excludes inside)
    (isInside : (s.phase t).Inside) {holder : Option Tid}
    (stays : phase.Inside) (isHolder : ∀ u, holder = some u → u = t ∧ phase = .holding) :
    Excludes ({ s with holder }.setPhase t phase) inside := by
  refine ⟨?_, excludes.value, ?_⟩
  · intro u
    rw [← excludes.unit]
    by_cases same : u = t
    · rw [same, setPhase_self]
      exact ⟨fun _ => isInside, fun _ => stays⟩
    · rw [setPhase_of_ne same]
  intro u isU
  obtain ⟨rfl, holding⟩ := isHolder u isU
  rw [setPhase_self, holding]

theorem Excludes.next (excludes : s.Excludes inside) {call : LockCall Tid}
    (taken : s.next call = some s') : ∃ inside, s'.Excludes inside := by
  have unit : s.sema.value ≤ 1 := by
    rw [excludes.value]
    split <;> decide
  cases call with
  | acquire t =>
    obtain ⟨⟨outside, -⟩, rfl⟩ := ite_some_none_eq_some.mp taken
    exact excludes.settle (outside ▸ id) id (s.sema.semaDown_outcome t unit)
  | resume t =>
    obtain ⟨⟨acquiring, -⟩, rfl⟩ := ite_some_none_eq_some.mp taken
    exact excludes.settle (acquiring ▸ id) id (SemaRun.semaDown_outcome _ t unit)
  | tryAcquire t =>
    obtain ⟨⟨outside, -⟩, rfl⟩ := ite_some_none_eq_some.mp taken
    exact excludes.settle (outside ▸ id) id (s.sema.semaTryDown_outcome unit)
  | acquired t =>
    obtain ⟨taking, rfl⟩ := ite_some_none_eq_some.mp taken
    refine ⟨inside, excludes.move (taking ▸ trivial) trivial ?_⟩
    exact fun u isU => ⟨(some.inj isU).symm, rfl⟩
  | release t =>
    obtain ⟨⟨-, isHolder⟩, rfl⟩ := ite_some_none_eq_some.mp taken
    have holding := excludes.holder t isHolder
    exact ⟨inside, excludes.move (holding ▸ trivial) trivial nofun⟩
  | released t priority =>
    obtain ⟨releasing, isAfter⟩ := ite_none_right_eq_some.mp taken
    obtain ⟨sema, run, isAfter⟩ := bind_eq_some_iff.mp isAfter
    cases isAfter
    have isInside : inside = some t := (excludes.unit t).mp (releasing ▸ trivial)
    have zero : s.sema.value = 0 := by
      rw [excludes.value, isInside]
      rfl
    refine ⟨none, ?_, ?_, ?_⟩
    · intro u
      by_cases same : u = t
      · rw [same, setPhase_self]
        simp [LockPhase.Inside]
      · rw [setPhase_of_ne same, excludes.unit, isInside]
        simp [Ne.symm same]
    · show sema.value = 1
      rw [SemaRun.semaUp_value run, zero]
      rfl
    intro u isHolder
    have holding := excludes.holder u isHolder
    have other : u ≠ t := by
      rintro rfl
      rw [releasing] at holding
      cases holding
    rw [setPhase_of_ne other]
    exact holding

theorem excludes_of_reachable (reach : Reachable Initial next AnyStep s) :
    ∃ inside, s.Excludes inside := by
  apply reach.invariant (P := fun s => ∃ inside, s.Excludes inside)
  · intro s init
    refine ⟨none, ?_, ?_, ?_⟩
    · intro t
      rw [init.phase t]
      simp [LockPhase.Inside]
    · rw [init.sema.value, init.one]
      rfl
    intro t isHolder
    rw [init.holder] at isHolder
    cases isHolder
  · exact fun _ _ _ ⟨_, excludes⟩ _ taken => excludes.next taken

end LockRun

/-! ## The laws -/

/-- In every interleaving, the value of a semaphore is the initial value plus the completed ups
    minus the completed downs modulo `2 ^ 32`, and exactly that if no up finds the largest value;
    while threads wait, the value is at most the number of threads that were woken and have not
    tested it since. At most one thread is between `lock_acquire` and `lock_release`. -/
theorem semaphore_counts_and_lock_excludes (Tid : Type) [DecidableEq Tid] :
    (∀ s : SemaRun Tid, Reachable SemaRun.Initial SemaRun.next AnyStep s →
      (s.value : Int) = (s.initial + s.ups - s.downs) % 2 ^ 32 ∧
      (s.waiters ≠ [] → s.value ≤ s.woken.length) ∧ s.woken.Nodup) ∧
    (∀ s : SemaRun Tid, Reachable SemaRun.Initial SemaRun.next SemaRun.NoWrap s →
      s.value + s.downs = s.initial + s.ups) ∧
    ∀ s : LockRun Tid, Reachable LockRun.Initial LockRun.next AnyStep s →
      ∀ t u, s.phase t = .holding → s.phase u = .holding → t = u := by
  refine ⟨?_, ?_, ?_⟩
  · intro s reached
    have counted := SemaRun.counted_of_reachable reached
    exact ⟨counted.count, counted.woken, (nodup_append.mp counted.nodup).2.1⟩
  · exact fun s reached => (SemaRun.exact_of_reachable reached).count
  intro s reached t u holdingT holdingU
  obtain ⟨inside, excludes⟩ := LockRun.excludes_of_reachable reached
  have isT := (excludes.unit t).mp (holdingT ▸ trivial)
  have isU := (excludes.unit u).mp (holdingU ▸ trivial)
  exact some.inj (isT.symm.trans isU)

/-- `sema_init` and `lock_init`, before any call. -/
def SemaRun.start (value : Nat) : SemaRun Nat := ⟨value, [], [], value, 0, 0⟩

def LockRun.start : LockRun Nat := ⟨.start 1, none, fun _ => .outside⟩

theorem SemaRun.start_initial {value : Nat} (unsigned : value < 0x100000000) :
    (SemaRun.start value).Initial := ⟨rfl, unsigned, rfl, rfl, rfl, rfl⟩

/-- Thread 1 waits and is woken, but another call takes the unit first. Thread 1 has the lock and
    thread 2 is in the queue. -/
theorem semaphore_counts_and_lock_excludes_overtaken :
    (∃ s : SemaRun Nat, Reachable SemaRun.Initial SemaRun.next SemaRun.NoWrap s ∧
      s.waiters = [1] ∧ s.ups = 1 ∧ s.downs = 1 ∧ s.value + s.downs = s.initial + s.ups ∧
      s.value ≤ s.woken.length) ∧
    ∃ s : LockRun Nat, Reachable LockRun.Initial LockRun.next AnyStep s ∧ s.sema.waiters = [2] ∧
      s.phase 1 = .holding ∧ ∀ t, s.phase t = .holding → t = 1 := by
  have laws := semaphore_counts_and_lock_excludes Nat
  constructor
  · obtain ⟨s, reached, waits, ups, downs⟩ := reachable_of_run SemaRun.next SemaRun.NoWrap
      (show SemaRun.Initial (.start 0) from SemaRun.start_initial (by decide))
      [.down 1, .up fun _ => 31, .tryDown, .resume 1]
      (fun s => s.waiters = [1] ∧ s.ups = 1 ∧ s.downs = 1) (by decide)
    have any := laws.1 s (reached.mono fun _ _ _ => trivial)
    exact ⟨s, reached, waits, ups, downs, laws.2.1 s reached, any.2.1 (by rw [waits]; decide)⟩
  obtain ⟨s, reached, waits, holding⟩ := reachable_of_run LockRun.next AnyStep
    (show LockRun.Initial LockRun.start from
      ⟨SemaRun.start_initial (by decide), rfl, rfl, fun _ => rfl⟩)
    [.acquire 1, .acquired 1, .acquire 2] (fun s => s.sema.waiters = [2] ∧ s.phase 1 = .holding)
    (by decide)
  exact ⟨s, reached, waits, holding, fun t other => laws.2.2 s reached t 1 other holding⟩

/-- A semaphore with the largest value has none left after `sema_up`. -/
theorem sema_up_of_largest_value :
    ∃ s : SemaRun Nat, Reachable SemaRun.Initial SemaRun.next AnyStep s ∧
      s.value + s.downs ≠ s.initial + s.ups := by
  exact reachable_of_run SemaRun.next AnyStep
    (show SemaRun.Initial (.start 0xffffffff) from SemaRun.start_initial (by decide)) [.up fun _ => 31]
    (fun s => s.value + s.downs ≠ s.initial + s.ups) (by decide)

end Pintos
