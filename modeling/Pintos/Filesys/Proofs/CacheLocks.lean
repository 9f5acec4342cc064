import Pintos.Filesys.CacheLocks

/-!
# Deadlock between the cache and the frame table

`frame_lock` comes before `cache_lock`, and `cache_lock` before the locks of the cache blocks.
The order is kept as long as no thread faults while it holds the lock of a cache block. A
`memcpy` from or to a page that is not resident breaks it, in two ways.
-/

namespace Pintos

open Function List Option KernelCall

variable {i front : Fin cacheSize} {held hit : Bool} {call : CacheFunction} {place : CachePlace}

/-- The order of the locks. -/
def KLock.rank : KLock → Nat
  | .frameLock => 0
  | .cacheLock => 1
  | .entry _ => 2

/-- The locks that a cache call has taken. -/
def CachePlace.locks : CachePlace → List KLock
  | .enter => []
  | .look _ => [.cacheLock]
  | .looking i _ => [.cacheLock, .entry i]
  | .victim _ => [.cacheLock]
  | .located i _ => [.cacheLock, .entry i]
  | .copying i _ => [.entry i]
  | .swept => [.cacheLock]

/-- The cache call has taken the lock of the cache block itself. -/
def CachePlace.own : CachePlace → Bool
  | .looking _ held => !held
  | .located _ held => !held
  | .copying _ held => !held
  | _ => true

def FaultPlace.locks : FaultPlace → List KLock
  | .evicting => [.frameLock]
  | .pinning => [.frameLock]
  | _ => []

def KernelCall.locks : KernelCall → List KLock
  | .cache _ place => place.locks
  | .fault place => place.locks

attribute [local simp] locks CachePlace.locks FaultPlace.locks

/-- The calls of a thread that does not fault in a `memcpy`. -/
inductive Flat : List KernelCall → Prop
  | user : Flat []
  | cache {call : CacheFunction} {place : CachePlace} (own : place.own = true) :
      Flat [.cache call place]
  | fault {place : FaultPlace} : Flat [.fault place]
  | nested {call : CacheFunction} {place : CachePlace} {outer : FaultPlace} (own : place.own = true)
      (calls : outer = .evicting ∨ outer = .loading) : Flat [.cache call place, .fault outer]

namespace KernelLocks

variable {s s' : KernelLocks} {t : ThreadId} {l : KLock} {rest stack : List KernelCall}

/-- The calls of a thread show which locks it holds. -/
structure Sound (s : KernelLocks) : Prop where
  flat : ∀ t, Flat (s.stack t)
  holds : ∀ t l, s.holder l = some t ↔ l ∈ (s.stack t).flatMap locks

@[simp] theorem release_holder : (s.release l).holder = update s.holder l none := rfl

/-- A step of `t` that changes what it holds along with its calls. -/
theorem Sound.update {holder : KLock → Option ThreadId}
    (sound : s.Sound) (flat : Flat stack) (own : ∀ l, holder l = some t ↔ l ∈ stack.flatMap locks)
    (others : ∀ u, u ≠ t → ∀ l, holder l = some u ↔ s.holder l = some u) :
    Sound { holder, stack := update s.stack t stack } where
  flat u := by
    dsimp only
    by_cases same : u = t
    · rw [same, update_self]
      exact flat
    · rw [update_of_ne same]
      exact sound.flat u
  holds u l := by
    dsimp only
    by_cases same : u = t
    · rw [same, update_self]
      exact own l
    · rw [update_of_ne same, others u same, sound.holds u]

theorem Sound.stay (sound : s.Sound) (flat : Flat stack) (same : ∀ l, l ∈ stack.flatMap locks ↔
      l ∈ (s.stack t).flatMap locks) : (s.setStack t stack).Sound :=
  sound.update flat (fun l => by rw [same, sound.holds]) fun _ _ _ => Iff.rfl

theorem Sound.acquire (sound : s.Sound) (run : s.acquire t l = some s') (flat : Flat stack)
    (more : ∀ l', l' ∈ stack.flatMap locks ↔
      l' = l ∨ l' ∈ (s.stack t).flatMap locks) : (s'.setStack t stack).Sound := by
  simp only [KernelLocks.acquire, ite_none_right_eq_some, some.injEq] at run
  obtain ⟨free, rfl⟩ := run
  refine sound.update flat (fun l' => ?_) fun u ne l' => ?_
  · dsimp only
    rw [more, ← sound.holds, update_apply]
    by_cases same : l' = l <;> simp [same]
  dsimp only
  rw [update_apply]
  by_cases same : l' = l
  · simp [same, free, Ne.symm ne]
  · rw [if_neg same]

theorem Sound.release (sound : s.Sound) (flat : Flat stack) (held : l ∈ (s.stack t).flatMap locks)
    (less : ∀ l', l' ∈ stack.flatMap locks ↔ l' ≠ l ∧ l' ∈ (s.stack t).flatMap locks) :
    ((s.release l).setStack t stack).Sound := by
  have holder := (sound.holds t l).mpr held
  refine sound.update flat (fun l' => ?_) fun u ne l' => ?_
  · rw [less, ← sound.holds, release_holder, update_apply]
    by_cases same : l' = l <;> simp [same]
  rw [release_holder, update_apply]
  by_cases same : l' = l
  · simp [same, holder, Ne.symm ne]
  · rw [if_neg same]

theorem Sound.lockEntry (sound : s.Sound) (run : s.lockEntry t i = some (held, s'))
    (free : .entry i ∉ (s.stack t).flatMap locks) (flat : held = false → Flat stack)
    (more : ∀ l', l' ∈ stack.flatMap locks ↔ l' = .entry i ∨ l' ∈ (s.stack t).flatMap locks) :
    held = false ∧ (s'.setStack t stack).Sound := by
  unfold KernelLocks.lockEntry at run
  rw [if_neg (by rwa [sound.holds])] at run
  simp only [bind_eq_bind, bind_eq_some_iff, some.injEq, Prod.mk.injEq] at run
  obtain ⟨s'', acquired, rfl, rfl⟩ := run
  exact ⟨rfl, sound.acquire acquired (flat rfl) more⟩

/-- The calls outside a cache call hold `frame_lock` at most. -/
theorem Flat.of_cache (flat : Flat (.cache call place :: rest)) :
    place.own = true ∧ Flat rest ∧ (∀ l ∈ rest.flatMap locks, l = .frameLock) ∧
      ∀ place' : CachePlace, place'.own = true → Flat (.cache call place' :: rest) := by
  cases flat with
  | cache own => exact ⟨own, .user, by simp, fun _ own => .cache own⟩
  | nested own calls =>
    refine ⟨own, .fault, ?_, fun _ own => .nested own calls⟩
    rcases calls with rfl | rfl <;> simp

section

variable (sound : s.Sound)
include sound

theorem Sound.goCache (isStack : s.stack t = .cache call place :: rest)
    (run : s.goCache t call rest hit front place = some s') : s'.Sound := by
  obtain ⟨own, outer, only, keeps⟩ := Flat.of_cache (isStack ▸ sound.flat t)
  have noEntry : ∀ i, .entry i ∉ rest.flatMap locks := fun i mem => nomatch only _ mem
  have noCache : .cacheLock ∉ rest.flatMap locks := fun mem => nomatch only _ mem
  cases place with
  | enter =>
    simp only [KernelLocks.goCache, bind_eq_bind, bind_eq_some_iff, some.injEq] at run
    obtain ⟨s'', acquired, rfl⟩ := run
    exact sound.acquire acquired (keeps _ rfl) (by simp [isStack])
  | look i =>
    by_cases inRange : i < cacheSize
    · simp only [KernelLocks.goCache, dif_pos inRange, bind_eq_bind, bind_eq_some_iff,
        some.injEq, Prod.exists] at run
      obtain ⟨held, s'', locked, rfl⟩ := run
      refine (sound.lockEntry locked ?_ (fun isOwn => keeps _ (by rw [isOwn]; rfl)) ?_).2
      · simpa [isStack] using noEntry ⟨i, inRange⟩
      · simp [isStack]
        tauto
    simp only [KernelLocks.goCache, dif_neg inRange] at run
    cases call <;> cases run <;>
      exact sound.stay (keeps _ rfl) (by simp [isStack])
  | looking i held =>
    cases held with
    | true => cases own
    | false =>
      have held : .entry i ∈ (s.stack t).flatMap locks := by
        simp [isStack]
      have less : ∀ place : CachePlace, place.locks = [.cacheLock] → ∀ l',
          l' ∈ (cache call place :: rest).flatMap locks ↔
            l' ≠ .entry i ∧ l' ∈ (s.stack t).flatMap locks := by
        intro place isLocks l'
        have noEntry := noEntry i
        simp only [isStack, flatMap_cons, locks, isLocks, mem_append]
        grind [CachePlace.locks]
      cases call <;> cases hit <;> cases run
      · exact sound.release (keeps _ rfl) held (less _ rfl)
      · exact sound.stay (keeps _ rfl) (by simp [isStack])
      · exact sound.release (keeps _ rfl) held (less _ rfl)
      · exact sound.release (keeps _ rfl) held (less _ rfl)
  | victim i =>
    simp only [KernelLocks.goCache, bind_eq_bind, bind_eq_some_iff, some.injEq, Prod.exists] at run
    obtain ⟨held, s'', locked, rfl⟩ := run
    refine (sound.lockEntry locked ?_ (fun isOwn => keeps _ (by rw [isOwn]; rfl)) ?_).2
    · simpa [isStack] using noEntry i
    · simp [isStack]
      tauto
  | located i held =>
    cases held with
    | true => cases own
    | false =>
      cases run
      refine sound.release (keeps _ rfl) (by simp [isStack]) ?_
      intro l'
      simp only [isStack, flatMap_cons, locks, CachePlace.locks, mem_append]
      grind
  | copying i held =>
    cases held with
    | true => cases own
    | false =>
      cases run
      refine sound.release outer (by simp [isStack]) ?_
      intro l'
      have noEntry := noEntry i
      simp only [isStack, flatMap_cons, locks, CachePlace.locks, mem_append]
      grind
  | swept =>
    cases run
    refine sound.release outer (by simp [isStack]) ?_
    intro l'
    simp only [isStack, flatMap_cons, locks, CachePlace.locks, mem_append]
    grind

theorem Sound.goFault {place : FaultPlace}
    (isStack : s.stack t = .fault place :: rest) (run : s.goFault t rest place = some s') :
    s'.Sound := by
  have flat := sound.flat t
  rw [isStack] at flat
  cases flat
  cases place with
  | alloc =>
    simp only [KernelLocks.goFault, bind_eq_bind, bind_eq_some_iff, some.injEq] at run
    obtain ⟨s'', acquired, rfl⟩ := run
    exact sound.acquire acquired .fault (by simp [isStack])
  | evicting =>
    cases run
    exact sound.release .fault (by simp [isStack]) (by simp [isStack])
  | loading =>
    cases run
    exact sound.stay .fault (by simp [isStack])
  | pin =>
    simp only [KernelLocks.goFault, bind_eq_bind, bind_eq_some_iff, some.injEq] at run
    obtain ⟨s'', acquired, rfl⟩ := run
    exact sound.acquire acquired .fault (by simp [isStack])
  | pinning =>
    cases run
    exact sound.release .user (by simp [isStack]) (by simp [isStack])

theorem Sound.push {call : KernelCall} (isStack : s.stack t = stack)
    (flat : Flat (call :: stack)) (none : call.locks = []) : (s.push t call).Sound :=
  sound.stay (isStack ▸ flat) fun l => by rw [flatMap_cons, none, nil_append]

theorem Sound.kill {place : FaultPlace}
    (isStack : s.stack t = .fault place :: rest) (none : place.locks = []) : (s.kill t).Sound := by
  have flat := sound.flat t
  rw [isStack] at flat
  cases flat
  have holds : ∀ l, s.holder l ≠ some t := fun l => by
    simp [sound.holds, isStack, -FaultPlace.locks, none]
  refine sound.update .user (fun l => ?_) fun u _ l => ?_
  · simp [holds]
  · simp [holds]

theorem Sound.next {step : KernelStep} (resident : s.Resident step)
    (run : s.next step = some s') : s'.Sound := by
  cases step with
  | call t call =>
    simp only [KernelLocks.next] at run
    split at run
    next isStack =>
      cases run
      exact sound.push isStack (.cache rfl) rfl
    next isStack =>
      cases run
      have flat := sound.flat t
      rw [isStack] at flat
      cases flat
      exact sound.push isStack (.nested rfl (.inl rfl)) rfl
    next isStack =>
      cases run
      have flat := sound.flat t
      rw [isStack] at flat
      cases flat
      exact sound.push isStack (.nested rfl (.inr rfl)) rfl
    next => cases run
  | fault t =>
    simp only [KernelLocks.next] at run
    split at run
    next isStack =>
      cases run
      exact sound.push isStack .fault rfl
    next i held rest isStack =>
      -- the copying call holds the lock of its cache block
      refine absurd ((sound.holds t (.entry i)).mpr ?_) (resident i)
      simp [isStack]
    next => cases run
  | frame t =>
    simp only [KernelLocks.next] at run
    split at run
    next isStack =>
      cases run
      exact sound.push isStack .fault rfl
    next => cases run
  | go t hit front =>
    simp only [KernelLocks.next] at run
    split at run
    next => cases run
    next isStack => exact sound.goCache isStack run
    next isStack => exact sound.goFault isStack run
  | kill t =>
    simp only [KernelLocks.next] at run
    split at run
    next isStack =>
      cases run
      exact sound.kill isStack rfl
    next isStack =>
      cases run
      exact sound.kill isStack rfl
    next => cases run

end

theorem Initial.sound (init : s.Initial) : s.Sound where
  flat t := by
    rw [init.stack]
    exact .user
  holds t l := by simp [init.holder, init.stack]

/-- The innermost call waits for a lock above those that the thread holds. -/
theorem Sound.ordered (sound : s.Sound) : Ordered s.wants s.holder KLock.rank := by
  intro t l l' wanted held
  rw [sound.holds] at held
  have flat := sound.flat t
  unfold wants at wanted
  cases isStack : s.stack t with
  | nil => simp [isStack] at held
  | cons call rest =>
    rw [isStack] at flat held wanted
    cases call with
    | cache call place =>
      obtain ⟨-, -, only, -⟩ := Flat.of_cache flat
      have outer : l' ∈ rest.flatMap locks → l'.rank = 0 := fun mem => by
        rw [only l' mem]
        rfl
      simp only [flatMap_cons, mem_append, locks] at held
      cases place <;>
        grind [CachePlace.locks, KLock.rank]
    | fault place =>
      cases flat
      cases place <;> simp_all

/-- If no thread faults while it holds the lock of a cache block, no threads wait for each other
    in a circle. -/
theorem no_deadlock_of_resident {s : KernelLocks}
    (reached : Reachable Initial KernelLocks.next Resident s) : ¬Deadlocked s.wants s.holder := by
  have sound : s.Sound := by
    refine reached.invariant (fun _ initial => initial.sound) ?_
    intro s step s' sound resident run
    exact sound.next resident run
  exact sound.ordered.not_deadlocked

theorem booted_initial : booted.Initial where
  holder _ := rfl
  stack _ := rfl

/-- Thread 2 writes back a victim while thread 1 copies to a resident buffer; thread 2 waits for
    the cache block of thread 1. -/
theorem no_deadlock_of_resident_waiting :
    ∃ s : KernelLocks, Reachable Initial KernelLocks.next Resident s ∧
      WaitsFor s.wants s.holder 2 1 ∧ ¬Deadlocked s.wants s.holder := by
  obtain ⟨s, reached, test⟩ := reachable_of_run KernelLocks.next Resident booted_initial
    [.call 1 (.access true), .go 1 true 0, .go 1 true 0, .go 1 true 0, .go 1 true 0, .fault 2,
      .go 2 true 0, .call 2 (.access false), .go 2 true 0]
    (fun s => s.wants 2 = some (.entry 0) ∧ s.holder (.entry 0) = some 1) (by decide)
  exact ⟨s, reached, ⟨_, test⟩, no_deadlock_of_resident reached⟩

/-- A thread that faults in its `memcpy` waits for `frame_lock`, which an eviction holds, or for
    `cache_lock`, to read its page. The other thread holds that lock and waits for the cache
    block. -/
theorem copying_fault_deadlocks : (∃ s : KernelLocks, Reachable Initial KernelLocks.next AnyStep s ∧
        s.wants 1 = some .frameLock ∧ Deadlocked s.wants s.holder) ∧
      ∃ s : KernelLocks, Reachable Initial KernelLocks.next AnyStep s ∧
        s.wants 1 = some .cacheLock ∧ Deadlocked s.wants s.holder := by
  constructor
  · obtain ⟨s, reached, first, second⟩ := reachable_of_run KernelLocks.next AnyStep booted_initial
      [.call 1 (.access true), .go 1 true 0, .go 1 true 0, .go 1 true 0, .go 1 true 0, .fault 2,
        .go 2 true 0, .call 2 (.access false), .go 2 true 0, .fault 1]
      (fun s => (s.wants 1 = some .frameLock ∧ s.holder .frameLock = some 2) ∧
        s.wants 2 = some (.entry 0) ∧ s.holder (.entry 0) = some 1) (by decide)
    exact ⟨s, reached, first.1, deadlocked_of_pair ⟨_, first⟩ ⟨_, second⟩⟩
  obtain ⟨s, reached, first, second⟩ := reachable_of_run KernelLocks.next AnyStep booted_initial
    [.call 1 (.access true), .go 1 true 0, .go 1 true 0, .go 1 true 0, .go 1 true 0, .fault 1,
      .go 1 true 0, .go 1 true 0, .call 1 (.access false), .call 2 (.access true), .go 2 true 0]
    (fun s => (s.wants 1 = some .cacheLock ∧ s.holder .cacheLock = some 2) ∧
      s.wants 2 = some (.entry 0) ∧ s.holder (.entry 0) = some 1) (by decide)
  exact ⟨s, reached, first.1, deadlocked_of_pair ⟨_, first⟩ ⟨_, second⟩⟩

end KernelLocks

end Pintos
