import Pintos.Filesys.CacheReentry
import Pintos.Filesys.Proofs.CacheView
import Pintos.Misc.Transition

/-!
# One cache block per sector, with faults

A cache block is claimed when it is valid or reserved by an unfinished call.
As long as no call is nested into a call that is filling the same sector, the
claimed blocks have different sectors. Without that condition two blocks of one
sector can become valid.
-/

namespace Pintos

open Function List Option CacheState

variable {i : Fin cacheSize} {write : Bool} {sector : BlockSector}
namespace CacheThreads

variable {Dev Tid : Type} {s s' : CacheThreads Dev Tid} {st st' : CacheState Dev} {t : Tid}

/-- Valid, or reserved by an unfinished call of some thread. -/
def Claimed (s : CacheThreads Dev Tid) (i : Fin cacheSize) : Prop :=
  (s.st.cache i).valid = true ∨ ∃ t, ∃ frame ∈ s.frames t, frame.entry = i

/-- The invariant behind `AtMostOneValid`. -/
structure Inv (s : CacheThreads Dev Tid) : Prop where
  unique : ∀ i j, s.Claimed i → s.Claimed j → (s.st.cache i).block = (s.st.cache j).block →
    (s.st.cache i).sector = (s.st.cache j).sector → i = j
  /-- An unfinished call holds the lock of its block. -/
  locked : ∀ t, ∀ frame ∈ s.frames t, s.lock frame.entry = some t
  /-- A call that took the lock itself has no outer call on the same block. -/
  owner : ∀ t, (s.frames t).Pairwise fun inner outer =>
    inner.lockHeld = false → outer.entry ≠ inner.entry

theorem Inv.atMostOneValid (inv : s.Inv) : s.AtMostOneValid :=
  fun i j validi validj => inv.unique i j (.inl validi) (.inl validj)

/-- Changes of the cache that keep the valid bits and the sectors keep the invariant. -/
theorem Inv.of_same (inv : s.Inv)
    (valid : ∀ i, (st'.cache i).valid = true → (s.st.cache i).valid = true)
    (block : ∀ i, (st'.cache i).block = (s.st.cache i).block)
    (sector : ∀ i, (st'.cache i).sector = (s.st.cache i).sector) :
    ({ s with st := st' } : CacheThreads Dev Tid).Inv := by
  refine ⟨?_, inv.locked, inv.owner⟩
  intro i j claimedi claimedj sameBlock sameSector
  have old : ∀ k, ({ s with st := st' } : CacheThreads Dev Tid).Claimed k → s.Claimed k := by
    intro k claimed
    rcases claimed with validk | reserved
    · exact .inl (valid k validk)
    · exact .inr reserved
  simp only [block, sector] at sameBlock sameSector
  exact inv.unique i j (old i claimedi) (old j claimedj) sameBlock sameSector

variable [DecidableEq Dev]

theorem writeBack_cache {cb : CacheBlock Dev}
    (run : st.writeBack cb = some st') : st'.cache = st.cache := by
  unfold writeBack blockWrite at run
  split at run
  · split at run
    · rw [← some.inj run]
    · cases run
  · rw [← some.inj run]

theorem flushBlock_fields (run : st.flushBlock i = some st') (j : Fin cacheSize) :
    (st'.cache j).valid = (st.cache j).valid ∧ (st'.cache j).block = (st.cache j).block ∧
      (st'.cache j).sector = (st.cache j).sector := by
  unfold flushBlock at run
  simp only [bind_eq_bind, bind_eq_some_iff] at run
  obtain ⟨back, written, rest⟩ := run
  have cache := writeBack_cache written
  split at rest
  · rw [← some.inj rest]
    by_cases hj : j = i
    · subst hj
      simp
    · simp [hj, cache]
  · rw [← some.inj rest, cache]
    simp

theorem foldlM_flushBlock_fields {blocks : List (Fin cacheSize)}
    (run : blocks.foldlM (fun st' i => st'.flushBlock i) st = some st') (j : Fin cacheSize) :
    (st'.cache j).valid = (st.cache j).valid ∧ (st'.cache j).block = (st.cache j).block ∧
      (st'.cache j).sector = (st.cache j).sector := by
  induction blocks generalizing st with
  | nil =>
    simp only [foldlM_nil, pure, some.injEq] at run
    simp [run]
  | cons i rest ih =>
    simp only [foldlM_cons, bind_eq_bind, bind_eq_some_iff] at run
    obtain ⟨mid, first, later⟩ := run
    obtain ⟨h1, h2, h3⟩ := ih later
    obtain ⟨g1, g2, g3⟩ := flushBlock_fields first j
    exact ⟨h1.trans g1, h2.trans g2, h3.trans g3⟩

/-- The sectors of the cache blocks after `cacheEnter`: on a hit the block found,
    on a miss a block that is reserved for the sector. -/
theorem cacheEnter_cases {block : Dev} (run : st.cacheEnter write block sector = some (i, st')) :
    (∀ j, j ≠ i → st'.cache j = st.cache j) ∧ (st'.cache i).block = block ∧
      (st'.cache i).sector = sector ∧
      ((st.find block sector = some i ∧ (st'.cache i).valid = true) ∨
        (st.find block sector = none ∧ (st'.cache i).valid = false)) := by
  unfold cacheEnter at run
  split at run
  · cases run
  split at run
  · rename_i k found
    obtain ⟨valid, blockk, sectork⟩ := find_some found
    simp only [some.injEq, Prod.mk.injEq] at run
    obtain ⟨rfl, rfl⟩ := run
    refine ⟨?_, by simp [blockk], by simp [sectork], .inl ⟨found, by simp [valid]⟩⟩
    intro j ne
    simp [ne, touch]
  rename_i absent
  split at run
  · cases run
  rename_i k rest list
  simp only [bind_eq_bind, bind_eq_some_iff, some.injEq, Prod.mk.injEq] at run
  obtain ⟨back, written, data, -, rfl, rfl⟩ := run
  have cache := writeBack_cache written
  refine ⟨?_, by simp, by simp, .inr ⟨absent, by simp⟩⟩
  intro j ne
  simp [ne, cache]

variable [DecidableEq Tid]

/-- Entering a call keeps the invariant: on a miss every block is unlocked or
    belongs to the same thread, whose outer calls fill other sectors. -/
theorem Inv.enter (inv : s.Inv) {block : Dev} (apart : s.NotInFlight (.enter t write block sector))
    (step : s.next (.enter t write block sector) = some s') : s'.Inv := by
  simp only [next, ite_none_right_eq_some, bind_eq_bind, bind_eq_some_iff] at step
  obtain ⟨free, ⟨i, st'⟩, run, result⟩ := step
  obtain ⟨others, blocki, sectori, hit⟩ := cacheEnter_cases run
  have hst : s'.st = st' := by rw [← some.inj result]
  have hframes : s'.frames = update s.frames t
      ({ entry := i, write, lockHeld := decide (s.lock i = some t) } :: s.frames t) := by
    rw [← some.inj result]
  have hlock : s'.lock = update s.lock i (some t) := by rw [← some.inj result]
  -- No claimed block but `i` itself has the sector of the call.
  have fresh : ∀ j, j ≠ i → s.Claimed j →
      ¬((s.st.cache j).block = block ∧ (s.st.cache j).sector = sector) := by
    rintro j ne claimed ⟨sameBlock, sameSector⟩
    rcases hit with ⟨found, -⟩ | ⟨absent, -⟩
    · obtain ⟨valid, foundBlock, foundSector⟩ := find_some found
      exact ne (inv.unique j i claimed (.inl valid) (sameBlock.trans foundBlock.symm)
        (sameSector.trans foundSector.symm))
    rcases claimed with valid | ⟨u, frame, member, rfl⟩
    · exact find_none absent j valid ⟨sameBlock, sameSector⟩
    have mine : u = t := by
      have held := inv.locked u frame member
      rcases free frame.entry (by simp [scanned, absent]) with unlocked | own
      · simp [held] at unlocked
      · simpa [held] using own
    subst mine
    by_cases valid : (s.st.cache frame.entry).valid = true
    · exact find_none absent _ valid ⟨sameBlock, sameSector⟩
    · exact apart frame member ⟨by simpa using valid, sameBlock, sameSector⟩
  have stack : ∀ u, ∀ frame ∈ s'.frames u, frame ∈ s.frames u ∨ (u = t ∧ frame.entry = i) := by
    intro u frame member
    rw [hframes] at member
    by_cases hu : u = t
    · subst hu
      simp only [update_self, mem_cons] at member
      rcases member with rfl | member
      · exact .inr ⟨rfl, rfl⟩
      · exact .inl member
    · simp only [update_of_ne hu] at member
      exact .inl member
  have old : ∀ j, j ≠ i → s'.Claimed j → s.Claimed j := by
    intro j ne claimed
    rcases claimed with valid | ⟨u, frame, member, rfl⟩
    · rw [hst, others j ne] at valid
      exact .inl valid
    rcases stack u frame member with member | ⟨-, same⟩
    · exact .inr ⟨u, frame, member, rfl⟩
    · exact absurd same ne
  refine ⟨?_, ?_, ?_⟩
  · intro j k claimedj claimedk sameBlock sameSector
    rw [hst] at sameBlock sameSector
    by_cases hj : j = i <;> by_cases hk : k = i
    · rw [hj, hk]
    · subst hj
      rw [others k hk, blocki] at sameBlock
      rw [others k hk, sectori] at sameSector
      exact absurd ⟨sameBlock.symm, sameSector.symm⟩ (fresh k hk (old k hk claimedk))
    · subst hk
      rw [others j hj, blocki] at sameBlock
      rw [others j hj, sectori] at sameSector
      exact absurd ⟨sameBlock, sameSector⟩ (fresh j hj (old j hj claimedj))
    · rw [others j hj, others k hk] at sameBlock sameSector
      exact inv.unique j k (old j hj claimedj) (old k hk claimedk) sameBlock sameSector
  · intro u frame member
    rw [hlock]
    by_cases hi : frame.entry = i
    · rcases stack u frame member with member | ⟨rfl, -⟩
      · -- The search waits for the block of another thread's call.
        have looked : i ∈ scanned s.st block sector := by
          unfold scanned
          rcases hit with ⟨found, -⟩ | ⟨absent, -⟩
          · simp [found]
          · simp [absent]
        have held := inv.locked u frame member
        rw [hi] at held
        rcases free i looked with unlocked | own
        · rw [held] at unlocked
          cases unlocked
        · rw [held] at own
          rw [hi, update_self, own]
      · rw [hi, update_self]
    rw [update_of_ne hi]
    rcases stack u frame member with member | ⟨-, same⟩
    · exact inv.locked u frame member
    · exact absurd same hi
  intro u
  rw [hframes]
  by_cases hu : u = t
  · subst hu
    simp only [update_self, pairwise_cons]
    refine ⟨?_, inv.owner u⟩
    intro outer member notHeld same
    have held := inv.locked u outer member
    rw [same] at held
    simp [held] at notHeld
  · simp only [update_of_ne hu]
    exact inv.owner u

/-- Leaving a call makes a reserved block valid: it was claimed before. -/
theorem Inv.leave (inv : s.Inv) (step : s.next (.leave t) = some s') : s'.Inv := by
  simp only [next] at step
  cases stack : s.frames t with
  | nil => simp [stack] at step
  | cons frame outer =>
    simp only [stack, some.injEq] at step
    have hst : s'.st = s.st.cacheLeave frame.entry := by rw [← step]
    have hframes : s'.frames = update s.frames t outer := by rw [← step]
    have hlock : s'.lock = if frame.lockHeld then s.lock
        else update s.lock frame.entry none := by rw [← step]
    have reserved : s.Claimed frame.entry := .inr ⟨t, frame, by simp [stack], rfl⟩
    have fields : ∀ j, (s'.st.cache j).block = (s.st.cache j).block ∧
        (s'.st.cache j).sector = (s.st.cache j).sector := by
      intro j
      rw [hst]
      by_cases hj : j = frame.entry
      · subst hj
        simp [cacheLeave]
      · simp [cacheLeave, hj]
    have inner : ∀ u, ∀ g ∈ s'.frames u, g ∈ s.frames u := by
      intro u g mem
      rw [hframes] at mem
      by_cases hu : u = t
      · subst hu
        simp only [update_self] at mem
        simp [stack, mem]
      · simpa [hu] using mem
    have own := inv.owner t
    rw [stack, pairwise_cons] at own
    refine ⟨?_, ?_, ?_⟩
    · intro j k claimedj claimedk sameBlock sameSector
      have old : ∀ l, s'.Claimed l → s.Claimed l := by
        intro l claimed
        rcases claimed with valid | ⟨u, g, mem, rfl⟩
        · by_cases hl : l = frame.entry
          · exact hl ▸ reserved
          · rw [hst, cacheLeave, setBlock_of_ne _ _ hl] at valid
            exact .inl valid
        · exact .inr ⟨u, g, inner u g mem, rfl⟩
      simp only [fields] at sameBlock sameSector
      exact inv.unique j k (old j claimedj) (old k claimedk) sameBlock sameSector
    · intro u g mem
      have held := inv.locked u g (inner u g mem)
      by_cases byOuter : frame.lockHeld = true
      · simpa [hlock, byOuter] using held
      have ne : g.entry ≠ frame.entry := by
        intro same
        have mine := inv.locked t frame (by simp [stack])
        rw [same, mine] at held
        obtain rfl : t = u := by simpa using held
        rw [hframes, update_self] at mem
        exact own.1 g mem (by simpa using byOuter) same
      simpa [hlock, byOuter, update_of_ne ne] using held
    intro u
    rw [hframes]
    by_cases hu : u = t
    · subst hu
      simpa using own.2
    · simpa [hu] using inv.owner u

/-- The blocks of a killed call become unlocked and stay as they are. -/
theorem Inv.kill (inv : s.Inv) (step : s.next (.kill t) = some s') : s'.Inv := by
  obtain rfl := some.inj step
  have kept : ∀ u, ∀ frame ∈ update s.frames t [] u, u ≠ t ∧ frame ∈ s.frames u := by
    intro u frame mem
    by_cases hu : u = t
    · subst hu
      simp at mem
    · exact ⟨hu, by simpa [hu] using mem⟩
  refine ⟨?_, ?_, ?_⟩
  · intro i j claimedi claimedj
    refine inv.unique i j ?_ ?_
    · exact claimedi.imp_right fun ⟨u, frame, mem, same⟩ =>
        ⟨u, frame, (kept u frame mem).2, same⟩
    · exact claimedj.imp_right fun ⟨u, frame, mem, same⟩ =>
        ⟨u, frame, (kept u frame mem).2, same⟩
  · intro u frame mem
    obtain ⟨ne, mem⟩ := kept u frame mem
    simp [inv.locked u frame mem, ne]
  intro u
  by_cases hu : u = t
  · subst hu
    simp
  · simpa [hu] using inv.owner u

theorem Inv.step (inv : s.Inv) {a : CacheStep Dev Tid}
    (apart : s.NotInFlight a) (step : s.next a = some s') : s'.Inv := by
  cases a with
  | enter t write block sector => exact inv.enter apart step
  | copy t src size offset =>
    simp only [next] at step
    split at step
    · cases step
    rename_i frame _ _
    obtain ⟨-, rfl⟩ := ite_none_right_eq_some.mp step |>.imp_right some.inj
    refine inv.of_same ?_ ?_ ?_ <;> intro i <;> by_cases hi : i = frame.entry <;>
      simp [cacheStore, hi]
  | leave t => exact inv.leave step
  | kill t => exact inv.kill step
  | flush =>
    simp only [next, ite_none_right_eq_some, map_eq_some_iff] at step
    obtain ⟨-, st', run, rfl⟩ := step
    have fields := foldlM_flushBlock_fields run
    exact inv.of_same (fun i valid => (fields i).1 ▸ valid) (fun i => (fields i).2.1)
      (fun i => (fields i).2.2)
  | free block sector =>
    simp only [next, ite_none_right_eq_some, map_eq_some_iff] at step
    obtain ⟨-, st', run, rfl⟩ := step
    unfold cacheFree at run
    split at run
    · cases run
    split at run
    · rename_i i _
      obtain rfl := some.inj run
      refine inv.of_same ?_ ?_ ?_ <;> intro j <;> by_cases hj : j = i
      all_goals first | (subst hj; simp) | simp [hj]
    · obtain rfl := some.inj run
      exact inv.of_same (fun _ h => h) (fun _ => rfl) (fun _ => rfl)

/-- In every run of any number of threads in which no call is made for a sector
    that an unfinished call of the same thread is filling its block with, at most
    one valid cache block holds a given sector, in every state. -/
theorem atMostOneValid_of_notInFlight
    (reached : Reachable Initial next NotInFlight s) : s.AtMostOneValid := by
  refine Inv.atMostOneValid (Reachable.invariant ?_ ?_ reached)
  · rintro s ⟨⟨device, disk, blockSize, hst⟩, frames, -⟩
    refine ⟨?_, ?_, ?_⟩
    · intro i j claimed
      rcases claimed with valid | ⟨t, frame, member, -⟩
      · simp [hst, cacheInit] at valid
      · simp [frames] at member
    · intro t frame member
      simp [frames] at member
    · intro t
      simp [frames]
  · exact fun s a s' inv apart step => inv.step apart step

/-- A cache over one device, with all sectors zero. -/
def emptyCache : CacheThreads Unit Nat where
  st := cacheInit () (fun _ _ _ => 0) (fun _ => 16)
  frames := fun _ => []
  lock := fun _ => none

theorem emptyCache_initial : emptyCache.Initial :=
  ⟨⟨(), fun _ _ _ => 0, fun _ => 16, rfl⟩, fun _ => rfl, fun _ => rfl⟩

/-- A fault that reads another sector than the one being filled. -/
theorem atMostOneValid_of_notInFlight_nested :
    ∃ s : CacheThreads Unit Nat, Reachable Initial next NotInFlight s ∧
      (s.st.cache 0).valid = true ∧ (s.st.cache 1).valid = true ∧ s.AtMostOneValid := by
  obtain ⟨s, reached, first, second⟩ := reachable_of_run next NotInFlight emptyCache_initial
    [.enter 0 true () 5, .enter 0 false () 6, .leave 0, .leave 0]
    (fun s => (s.st.cache 0).valid ∧ (s.st.cache 1).valid) (by decide)
  exact ⟨s, reached, first, second, atMostOneValid_of_notInFlight reached⟩

/-- A `cache_write` whose buffer is a page that has to be read from the sector
    being written: the nested `cache_read` does not see the block reserved by the
    outer call, and both blocks end up valid. -/
theorem two_valid_blocks_for_one_sector :
    ¬∀ s : CacheThreads Unit Nat, Reachable Initial next AnyStep s → s.AtMostOneValid := by
  intro always
  obtain ⟨s, reached, first, second, same⟩ := reachable_of_run next AnyStep emptyCache_initial
    [.enter 0 true () 5, .enter 0 false () 5, .leave 0, .leave 0]
    (fun s => (s.st.cache 0).valid ∧ (s.st.cache 1).valid ∧
      (s.st.cache 0).sector = (s.st.cache 1).sector) (by decide)
  have := always s reached 0 1 first second rfl same
  exact absurd this (by decide)

end CacheThreads
end Pintos
