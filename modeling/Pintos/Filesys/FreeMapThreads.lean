import Pintos.Lib.Bitmap
import Pintos.Misc.EventLog

/-!
# Concurrent allocation of sectors

`free_map_allocate` and `free_map_release` (`src/filesys/free-map.c:27-58`) run
by several threads at once. No lock protects the free map: an allocation is the
scan of `bitmap_scan_and_flip`, then its `bitmap_set_multiple`, then the write of
the free map file, and other threads may run in between.
-/

namespace Pintos

open Function

/-- A group of consecutive sectors. -/
structure SectorRange where
  sector : Nat
  cnt : Nat
  deriving DecidableEq

/-- `i` is one of the sectors of the group. -/
def SectorRange.Covers (r : SectorRange) (i : Nat) : Prop := r.sector ≤ i ∧ i < r.sector + r.cnt

/-- Where a thread is in `free_map_allocate`. -/
inductive AllocPhase where
  | idle
  /-- `bitmap_scan` has returned this group. -/
  | scanned (r : SectorRange)
  /-- The group is marked; the free map file is being written. -/
  | marked (r : SectorRange)
  deriving DecidableEq

/-- A `free_map_allocate` call that returned true, or a `free_map_release` call. -/
inductive FreeMapEvent where
  | allocated (r : SectorRange)
  | released (r : SectorRange)
  deriving DecidableEq

/-- The event is an allocation that returned `sector`. -/
def FreeMapEvent.allocates (sector : Nat) : FreeMapEvent → Bool
  | .allocated r => r.sector == sector
  | .released _ => false

/-- The event is a release of the sectors from `sector` on. -/
def FreeMapEvent.releases (sector : Nat) : FreeMapEvent → Bool
  | .allocated _ => false
  | .released r => r.sector == sector

/-- The free map with the threads that use it. `owned` holds the groups that were
    handed out and not yet released; `log` the events so far, newest first. -/
structure FreeMapThreads (Tid : Type) where
  freeMap : Bitmap
  phase : Tid → AllocPhase
  owned : List SectorRange
  log : List FreeMapEvent

inductive FreeMapStep (Tid : Type) where
  | scan (t : Tid) (cnt : Nat)
  | mark (t : Tid)
  /-- `written` is the result of `bitmap_write`. -/
  | finish (t : Tid) (written : Bool)
  | release (r : SectorRange)

namespace FreeMapThreads

variable {Tid : Type} [DecidableEq Tid]

/-- One step; `none` when it is not the thread's turn to take it or when an assertion fails. Groups
    are released by the inode that was given them, so a released group is one of `owned`. -/
def next (s : FreeMapThreads Tid) : FreeMapStep Tid → Option (FreeMapThreads Tid)
  | .scan t cnt =>
      if s.phase t = .idle ∧ 0 < cnt then
        match bitmapScan s.freeMap 0 cnt false with
        | none => some s
        | some sector => some { s with phase := update s.phase t (.scanned ⟨sector, cnt⟩) }
      else none
  | .mark t =>
      match s.phase t with
      | .scanned r => some { s with
          freeMap := bitmapSetMultiple s.freeMap r.sector r.cnt true
          phase := update s.phase t (.marked r) }
      | _ => none
  | .finish t written =>
      match s.phase t with
      | .marked r =>
          if written then
            some { s with phase := update s.phase t .idle
                          owned := r :: s.owned
                          log := .allocated r :: s.log }
          else
            some { s with freeMap := bitmapSetMultiple s.freeMap r.sector r.cnt false
                          phase := update s.phase t .idle }
      | _ => none
  | .release r =>
      if r ∈ s.owned ∧ r.sector + r.cnt ≤ s.freeMap.bitCnt ∧
          bitmapAll s.freeMap r.sector r.cnt = true then
        some { s with freeMap := bitmapSetMultiple s.freeMap r.sector r.cnt false
                      owned := s.owned.erase r
                      log := .released r :: s.log }
      else none

/-- Before the first call: the groups in use are marked and have no sector in common. -/
def Initial (s : FreeMapThreads Tid) : Prop :=
  (∀ t, s.phase t = .idle) ∧ s.log = [] ∧
    (∀ r ∈ s.owned, 0 < r.cnt ∧ ∀ i, r.Covers i → s.freeMap.bits i = true) ∧
    s.owned.Pairwise fun r r' => ∀ i, r.Covers i → ¬r'.Covers i

/-- Two successful allocations that return the same sector have a release of
    that sector between them. -/
def NoSharedSector (s : FreeMapThreads Tid) : Prop :=
  ∀ sector, Separated (FreeMapEvent.allocates sector) (FreeMapEvent.releases sector) s.log

/-- What the scan of a thread found is still free when the thread marks it. -/
def StillFree (s : FreeMapThreads Tid) : FreeMapStep Tid → Prop
  | .mark t =>
      match s.phase t with
      | .scanned r => bitmapContains s.freeMap r.sector r.cnt true = false
      | _ => True
  | _ => True

instance (s : FreeMapThreads Tid) (a : FreeMapStep Tid) : Decidable (s.StillFree a) := by
  unfold StillFree
  cases a <;> dsimp only <;> first | infer_instance | (split <;> infer_instance)

end FreeMapThreads
end Pintos
