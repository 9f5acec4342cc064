import Pintos.Filesys.FreeMapThreads
import Pintos.Misc.Transition

/-!
# No sector is allocated twice

The groups that threads have marked and those that are owned stay disjoint as
long as each thread marks what is still free. Without that condition two threads
that scan before either marks get the same sector.
-/

namespace Pintos

open Function List Option FreeMapEvent

variable {b : Bitmap} {value written : Bool} {i cnt : Nat} {q : SectorRange}
namespace FreeMapThreads

variable {Tid : Type} {r : SectorRange} {s s' : FreeMapThreads Tid} {t : Tid}

/-- The group is owned, or marked by a thread that is still writing the file. -/
def Held (s : FreeMapThreads Tid) (r : SectorRange) : Prop :=
  r ∈ s.owned ∨ ∃ t, s.phase t = .marked r

/-- The invariant behind `NoSharedSector`. -/
structure Inv (s : FreeMapThreads Tid) : Prop where
  used : ∀ r, s.Held r → 0 < r.cnt ∧ ∀ i, r.Covers i → s.freeMap.bits i = true
  scannedPos : ∀ t r, s.phase t = .scanned r → 0 < r.cnt
  ownedApart : s.owned.Pairwise fun r r' => ∀ i, r.Covers i → ¬r'.Covers i
  markedOwned : ∀ t r, s.phase t = .marked r → ∀ r' ∈ s.owned, ∀ i, r.Covers i → ¬r'.Covers i
  markedApart : ∀ t u r r', t ≠ u → s.phase t = .marked r → s.phase u = .marked r' →
    ∀ i, r.Covers i → ¬r'.Covers i
  /-- A sector whose last event is an allocation is owned. -/
  live : ∀ sector r, lastEvent (allocates sector) (releases sector)
    s.log = some (.allocated r) → r ∈ s.owned
  noShared : s.NoSharedSector

attribute [local simp] allocates releases

theorem covers_first (pos : 0 < r.cnt) : r.Covers r.sector := by
  unfold SectorRange.Covers
  omega

theorem bits_of_not_covers
    (outside : ¬r.Covers i) : (bitmapSetMultiple b r.sector r.cnt value).bits i = b.bits i := by
  rw [bitmapSetMultiple_bits]
  exact if_neg outside

theorem bits_of_covers
    (inside : r.Covers i) : (bitmapSetMultiple b r.sector r.cnt value).bits i = value := by
  rw [bitmapSetMultiple_bits]
  exact if_pos inside

variable [DecidableEq Tid]

theorem Inv.scan (inv : s.Inv) (step : s.next (.scan t cnt) = some s') : s'.Inv := by
  simp only [next] at step
  split at step
  · rename_i start
    split at step
    · obtain rfl := some.inj step
      exact inv
    rename_i sector found
    obtain rfl := some.inj step
    -- Only the phase of `t` changes, and it marks nothing old or after.
    have marked : ∀ u r, update s.phase t (.scanned ⟨sector, cnt⟩) u = .marked r →
        s.phase u = .marked r := by
      intro u r phase
      by_cases hu : u = t
      · subst hu
        simp at phase
      · simpa [hu] using phase
    refine ⟨?_, ?_, inv.ownedApart, ?_, ?_, inv.live, inv.noShared⟩
    · intro r held
      exact inv.used r (held.imp_right fun ⟨u, phase⟩ => ⟨u, marked u r phase⟩)
    · intro u r phase
      by_cases hu : u = t
      · subst hu
        simp only [update_self, AllocPhase.scanned.injEq] at phase
        exact phase ▸ start.2
      · exact inv.scannedPos u r (by simpa [hu] using phase)
    · intro u r phase
      exact inv.markedOwned u r (marked u r phase)
    · intro u v r r' ne phase phase'
      exact inv.markedApart u v r r' ne (marked u r phase) (marked v r' phase')
  · cases step

theorem Inv.mark (inv : s.Inv)
    (free : s.StillFree (.mark t)) (step : s.next (.mark t) = some s') : s'.Inv := by
  simp only [next] at step
  simp only [StillFree] at free
  split at step
  · rename_i r scanned
    obtain rfl := some.inj step
    simp only [scanned, bitmapContains_eq_false, Bool.not_true] at free
    -- What is free belongs to no group in use.
    have apart : ∀ r', s.Held r' → ∀ i, r.Covers i → ¬r'.Covers i := by
      intro r' held i inside inside'
      have bit := (inv.used r' held).2 i inside'
      rw [free i inside.1 inside.2] at bit
      cases bit
    have marked : ∀ u q, update s.phase t (.marked r) u = .marked q →
        (u = t ∧ q = r) ∨ (u ≠ t ∧ s.phase u = .marked q) := by
      intro u q phase
      by_cases hu : u = t
      · subst hu
        simp only [update_self, AllocPhase.marked.injEq] at phase
        exact .inl ⟨rfl, phase.symm⟩
      · exact .inr ⟨hu, by simpa [hu] using phase⟩
    have old : ∀ q, s.Held q → 0 < q.cnt ∧ ∀ i, q.Covers i →
        (bitmapSetMultiple s.freeMap r.sector r.cnt true).bits i = true := by
      intro q held
      refine ⟨(inv.used q held).1, ?_⟩
      intro i inside
      rw [bits_of_not_covers fun inside' => apart q held i inside' inside]
      exact (inv.used q held).2 i inside
    refine ⟨?_, ?_, inv.ownedApart, ?_, ?_, inv.live, inv.noShared⟩
    · intro q held
      rcases held with owned | ⟨u, phase⟩
      · exact old q (.inl owned)
      rcases marked u q phase with ⟨-, rfl⟩ | ⟨-, phase⟩
      · exact ⟨inv.scannedPos t q scanned, fun i inside => bits_of_covers inside⟩
      · exact old q (.inr ⟨u, phase⟩)
    · intro u q phase
      by_cases hu : u = t
      · subst hu
        simp at phase
      · exact inv.scannedPos u q (by simpa [hu] using phase)
    · intro u q phase r' owned
      rcases marked u q phase with ⟨-, rfl⟩ | ⟨-, phase⟩
      · exact apart r' (.inl owned)
      · exact inv.markedOwned u q phase r' owned
    intro u v q q' ne phase phase'
    rcases marked u q phase with ⟨rfl, rfl⟩ | ⟨-, before⟩ <;>
      rcases marked v q' phase' with ⟨rfl, rfl⟩ | ⟨-, before'⟩
    · exact absurd rfl ne
    · exact apart q' (.inr ⟨v, before'⟩)
    · intro i inside inside'
      exact apart q (.inr ⟨u, before⟩) i inside' inside
    · exact inv.markedApart u v q q' ne before before'
  · cases step

/-- Once a thread is idle again, the groups still marked are those of the others. -/
theorem marked_of_idle {u : Tid}
    (phase : update s.phase t .idle u = .marked q) : u ≠ t ∧ s.phase u = .marked q := by
  by_cases hu : u = t
  · subst hu
    simp at phase
  · exact ⟨hu, by simpa [hu] using phase⟩

theorem scanned_of_idle {u : Tid}
    (phase : update s.phase t .idle u = .scanned q) : s.phase u = .scanned q := by
  by_cases hu : u = t
  · subst hu
    simp at phase
  · simpa [hu] using phase

theorem Inv.finish (inv : s.Inv) (step : s.next (.finish t written) = some s') : s'.Inv := by
  simp only [next] at step
  split at step
  · rename_i r phaset
    obtain ⟨pos, bits⟩ := inv.used r (.inr ⟨t, phaset⟩)
    split at step
    · obtain rfl := some.inj step
      -- An allocation that is still live has no sector in common with this one.
      have fresh : ∀ sector, allocates sector (.allocated r) = true → ∀ e,
          lastEvent (allocates sector) (releases sector) s.log = some e →
          allocates sector e = false := by
        intro sector first e last
        cases e with
        | released q => rfl
        | allocated q =>
          by_contra again
          have owned := inv.live sector q last
          have qpos := (inv.used q (.inl owned)).1
          simp only [allocates, beq_iff_eq] at first
          simp only [allocates, beq_iff_eq, Bool.not_eq_false] at again
          refine inv.markedOwned t r phaset q owned r.sector (covers_first pos) ?_
          rw [first, ← again]
          exact covers_first qpos
      refine ⟨?_, ?_, ?_, ?_, ?_, ?_, ?_⟩
      · intro q held
        rcases held with owned | ⟨u, phase⟩
        · rcases mem_cons.mp owned with rfl | owned
          · exact ⟨pos, bits⟩
          · exact inv.used q (.inl owned)
        · exact inv.used q (.inr ⟨u, (marked_of_idle phase).2⟩)
      · intro u q phase
        exact inv.scannedPos u q (scanned_of_idle phase)
      · exact pairwise_cons.mpr ⟨inv.markedOwned t r phaset, inv.ownedApart⟩
      · intro u q phase r' owned
        obtain ⟨ne, old⟩ := marked_of_idle phase
        rcases mem_cons.mp owned with rfl | owned
        · exact inv.markedApart u t q r' ne old phaset
        · exact inv.markedOwned u q old r' owned
      · intro u v q q' ne phase phase'
        exact inv.markedApart u v q q' ne (marked_of_idle phase).2 (marked_of_idle phase').2
      · intro sector q last
        by_cases here : r.sector = sector
        · rw [lastEvent_cons_of_either (.inl (by simp [here]))] at last
          simp only [some.injEq, allocated.injEq] at last
          simp [last]
        · rw [lastEvent_cons_of_neither (by simp [here]) rfl] at last
          exact mem_cons_of_mem r (inv.live sector q last)
      · intro sector
        exact (inv.noShared sector).cons (fresh sector)
    obtain rfl := some.inj step
    refine ⟨?_, ?_, inv.ownedApart, ?_, ?_, inv.live, inv.noShared⟩
    · intro q held
      have other : s.Held q ∧ ∀ i, r.Covers i → ¬q.Covers i := by
        rcases held with owned | ⟨u, phase⟩
        · exact ⟨.inl owned, inv.markedOwned t r phaset q owned⟩
        · obtain ⟨ne, phase⟩ := marked_of_idle phase
          exact ⟨.inr ⟨u, phase⟩, inv.markedApart t u r q ne.symm phaset phase⟩
      refine ⟨(inv.used q other.1).1, ?_⟩
      intro i inside
      rw [bits_of_not_covers fun inside' => other.2 i inside' inside]
      exact (inv.used q other.1).2 i inside
    · intro u q phase
      exact inv.scannedPos u q (scanned_of_idle phase)
    · intro u q phase
      exact inv.markedOwned u q (marked_of_idle phase).2
    · intro u v q q' ne phase phase'
      exact inv.markedApart u v q q' ne (marked_of_idle phase).2 (marked_of_idle phase').2
  · cases step

theorem Inv.release (inv : s.Inv) (step : s.next (.release r) = some s') : s'.Inv := by
  simp only [next, ite_none_right_eq_some] at step
  obtain ⟨⟨owned, -, -⟩, result⟩ := step
  obtain rfl := some.inj result
  have split : ∀ q ∈ s.owned.erase r, ∀ i, r.Covers i → ¬q.Covers i := by
    have sorted := inv.ownedApart.perm (perm_cons_erase owned)
      (fun apart i inside inside' => apart i inside' inside)
    exact (pairwise_cons.mp sorted).1
  refine ⟨?_, inv.scannedPos, ?_, ?_, inv.markedApart, ?_, ?_⟩
  · intro q held
    have other : s.Held q ∧ ∀ i, r.Covers i → ¬q.Covers i := by
      rcases held with mem | ⟨u, phase⟩
      · exact ⟨.inl (mem_of_mem_erase mem), split q mem⟩
      · exact ⟨.inr ⟨u, phase⟩, fun i inside inside' =>
          inv.markedOwned u q phase r owned i inside' inside⟩
    refine ⟨(inv.used q other.1).1, ?_⟩
    intro i inside
    rw [bits_of_not_covers fun inside' => other.2 i inside' inside]
    exact (inv.used q other.1).2 i inside
  · exact inv.ownedApart.sublist erase_sublist
  · intro u q phase r' mem
    exact inv.markedOwned u q phase r' (mem_of_mem_erase mem)
  · intro sector q last
    by_cases here : r.sector = sector
    · rw [lastEvent_cons_of_either (.inr (by simp [here]))] at last
      cases last
    rw [lastEvent_cons_of_neither rfl (by simp [here])] at last
    refine (mem_erase_of_ne ?_).mpr (inv.live sector q last)
    rintro rfl
    rcases lastEvent_some last with same | same
    · simp [here] at same
    · cases same
  · intro sector
    exact (inv.noShared sector).cons (by simp)

theorem Inv.step (inv : s.Inv) {a : FreeMapStep Tid}
    (free : s.StillFree a) (step : s.next a = some s') : s'.Inv := by
  cases a with
  | scan t cnt => exact inv.scan step
  | mark t => exact inv.mark free step
  | finish t written => exact inv.finish step
  | release r => exact inv.release step

/-- In every run of any number of threads in which each thread marks sectors that are still free, no
    two successful allocations without a release between them return the same sector. -/
theorem noSharedSector_of_stillFree
    (reached : Reachable Initial next StillFree s) : s.NoSharedSector := by
  refine Inv.noShared (Reachable.invariant ?_ ?_ reached)
  · rintro s ⟨idle, log, used, apart⟩
    refine ⟨?_, ?_, apart, ?_, ?_, ?_, ?_⟩
    · intro r held
      rcases held with owned | ⟨t, phase⟩
      · exact used r owned
      · simp [idle] at phase
    · intro t r phase
      simp [idle] at phase
    · intro t r phase
      simp [idle] at phase
    · intro t u r r' _ phase
      simp [idle] at phase
    · intro sector r last
      rw [log, lastEvent_nil] at last
      cases last
    intro sector
    rw [log]
    exact .nil
  · exact fun s a s' inv free step => inv.step free step

/-- A free map of four sectors, all free. -/
def fourFreeSectors : FreeMapThreads Nat where
  freeMap := { bitCnt := 4, bits := fun _ => false }
  phase := fun _ => .idle
  owned := []
  log := []

theorem fourFreeSectors_initial : fourFreeSectors.Initial := by
  refine ⟨fun _ => rfl, rfl, ?_, List.Pairwise.nil⟩
  intro r owned
  cases owned

/-- Two threads whose scan and mark are not separated, and the reuse of a sector
    after its release. -/
theorem noSharedSector_of_stillFree_reuse :
    ∃ s : FreeMapThreads Nat, Reachable Initial next StillFree s ∧
      s.log = [.allocated ⟨0, 1⟩, .released ⟨0, 1⟩, .allocated ⟨1, 1⟩, .allocated ⟨0, 1⟩] ∧
      s.NoSharedSector := by
  obtain ⟨s, reached, log⟩ := reachable_of_run next StillFree fourFreeSectors_initial
    [.scan 0 1, .mark 0, .scan 1 1, .mark 1, .finish 0 true, .finish 1 true, .release ⟨0, 1⟩,
      .scan 1 1, .mark 1, .finish 1 true]
    (fun s => s.log =
      [.allocated ⟨0, 1⟩, .released ⟨0, 1⟩, .allocated ⟨1, 1⟩, .allocated ⟨0, 1⟩]) (by decide)
  exact ⟨s, reached, log, noSharedSector_of_stillFree reached⟩

/-- Both threads scan before either marks: both are given sector 0. -/
theorem two_threads_allocate_one_sector :
    ¬∀ s : FreeMapThreads Nat, Reachable Initial next AnyStep s → s.NoSharedSector := by
  intro always
  obtain ⟨s, reached, log⟩ := reachable_of_run next AnyStep fourFreeSectors_initial
    [.scan 0 1, .scan 1 1, .mark 0, .mark 1, .finish 0 true, .finish 1 true]
    (fun s => s.log = [.allocated ⟨0, 1⟩, .allocated ⟨0, 1⟩]) (by decide)
  obtain ⟨e, member, -⟩ := always s reached 0 [] [] [] (.allocated ⟨0, 1⟩) (.allocated ⟨0, 1⟩)
    log rfl rfl
  cases member

end FreeMapThreads
end Pintos
