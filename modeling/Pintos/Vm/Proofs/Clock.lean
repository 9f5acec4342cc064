import Pintos.Vm.Clock
import Pintos.Vm.Proofs.FrameTable

/-!
# Where the clock pointer is

`clock_ptr` stays on the list as long as `frame_evict` starts with it on a frame and
it never has to leave the only frame there is. From `frame_init` on it is at the end
sentinel until the first eviction, which then takes the sentinel for a frame.
-/

namespace Pintos.FrameClock

open Option

variable {c c' : FrameClock} {table : FrameTable} {gone : Option FrameId}

/-- The invariant; while `frame_evict` looks for a victim there are other frames. -/
structure Clocked (c : FrameClock) : Prop where
  listed : c.table.Listed
  onList : ∀ f ∈ c.clockPtr, f ∈ c.table.frameList
  scanning : c.cycleCnt ≠ none → c.clockPtr ≠ none ∧ 1 < c.table.frameList.length

theorem Clocked.frameInit : Clocked FrameClock.frameInit where
  listed := .frameInit
  onList _ isPtr := nomatch isPtr
  scanning busy := absurd rfl busy

section

variable (clocked : c.Clocked)
include clocked

/-- On a list of several frames `next_frame_` finds another frame. -/
theorem Clocked.nextFrame {f : FrameId} (isPtr : c.clockPtr = some f)
    (others : 1 < c.table.frameList.length) :
    ∃ g ∈ c.table.frameList, g ≠ f ∧ c.nextFrame = some (some g) := by
  have mem := clocked.onList f isPtr
  unfold FrameClock.nextFrame
  rw [isPtr]
  dsimp only
  rw [if_pos mem]
  cases next : listNext f c.table.frameList with
  | some g => exact ⟨g, listNext_mem next, listNext_ne clocked.listed.nodup next, rfl⟩
  | none =>
    have notFirst := head?_ne_of_listNext_none others next
    cases first : c.table.frameList.head? with
    | none =>
      rw [List.head?_eq_none_iff.mp first] at mem
      cases mem
    | some g =>
      refine ⟨g, List.mem_of_mem_head? first, ?_, rfl⟩
      rintro rfl
      exact notFirst first

/-- A frame is freed, and `clock_ptr` had another one to go to. -/
theorem Clocked.freed (idle : c.cycleCnt = none)
    (others : c.clockPtr = none ∨ 1 < c.table.frameList.length) (listed : table.Listed)
    (frees : (gone = none ∧ table.frameList = c.table.frameList) ∨
      ∃ f ∈ c.table.frameList, gone = some f ∧ table.frameList = c.table.frameList.erase f)
    (run : c.freed table gone = some c') : c'.Clocked := by
  unfold FrameClock.freed at run
  rcases frees with ⟨rfl, sameList⟩ | ⟨f, mem, rfl, erased⟩
  · rw [if_neg (fun both => both.1 rfl)] at run
    rw [← some.inj run]
    refine ⟨listed, ?_, fun busy => absurd idle busy⟩
    intro g isPtr
    rw [show ({ c with table } : FrameClock).table.frameList = _ from sameList]
    exact clocked.onList g isPtr
  have stays : ∀ g ∈ c.table.frameList, g ≠ f → g ∈ table.frameList := by
    intro g memberG ne
    rw [erased]
    exact (clocked.listed.nodup.mem_erase_iff).mpr ⟨ne, memberG⟩
  split at run
  · rename_i leaves
    rcases others with atEnd | others
    · rw [atEnd] at leaves
      cases leaves.2
    obtain ⟨g, memberG, ne, next⟩ := clocked.nextFrame leaves.2 others
    rw [next] at run
    rw [← some.inj run]
    refine ⟨listed, ?_, fun busy => absurd idle busy⟩
    intro h isPtr
    rw [← some.inj isPtr]
    exact stays g memberG ne
  rename_i elsewhere
  rw [← some.inj run]
  refine ⟨listed, ?_, fun busy => absurd idle busy⟩
  intro g isPtr
  refine stays g (clocked.onList g isPtr) ?_
  rintro rfl
  exact elsewhere ⟨nofun, isPtr⟩

theorem Clocked.setTable (listed : table.Listed)
    (same : table.frameList = c.table.frameList) : ({ c with table } : FrameClock).Clocked where
  listed := listed
  onList f isPtr := by
    rw [same]
    exact clocked.onList f isPtr
  scanning busy := by
    rw [same]
    exact clocked.scanning busy

theorem Clocked.evictTurn {cycleCnt : Nat} {f : FrameId} {accessed : Bool}
    (isCnt : c.cycleCnt = some cycleCnt) (isPtr : c.clockPtr = some f)
    (run : c.evictTurn cycleCnt f accessed = some c') : c'.Clocked := by
  have others := (clocked.scanning (by rw [isCnt]; exact nofun)).2
  obtain ⟨g, memberG, ne, next⟩ := clocked.nextFrame isPtr others
  unfold FrameClock.evictTurn at run
  rw [next] at run
  have moved : ∀ cnt, (cnt ≠ none → 1 < c.table.frameList.length) →
      Clocked { c with clockPtr := some g, cycleCnt := cnt } := by
    intro cnt still
    refine ⟨clocked.listed, ?_, fun busy => ⟨nofun, still busy⟩⟩
    intro h isPtr
    rw [← some.inj isPtr]
    exact memberG
  dsimp only [bind_eq_bind, bind_some] at run
  split at run
  · rw [← some.inj run]
    exact moved _ fun _ => others
  obtain ⟨⟨table, freed⟩, frees, rest⟩ := bind_eq_some_iff.mp run
  have dropped := clocked.listed.dropOwners f
  obtain ⟨listed, list⟩ := dropped.frameFree frees
  exact (moved none fun busy => absurd rfl busy).freed rfl (Or.inr others) listed list rest

theorem Clocked.next (step : FrameClockStep) (guarded : c.Guarded step)
    (run : c.next step = some c') : c'.Clocked := by
  unfold FrameClock.next at run
  cases step with
  | frameAlloc kpage owner pinned =>
    rw [ite_none_right_eq_some] at run
    obtain ⟨⟨idle, free, -⟩, run⟩ := run
    rw [← some.inj run]
    refine ⟨clocked.listed.frameAlloc free _ _ _, ?_, fun busy => absurd idle busy⟩
    intro f isPtr
    exact mem_listInsert.mpr (Or.inr (clocked.onList f isPtr))
  | frameShare kpage owner =>
    rw [ite_none_right_eq_some] at run
    obtain ⟨table, share, rest⟩ := bind_eq_some_iff.mp run.2
    rw [← some.inj rest]
    refine clocked.setTable (clocked.listed.frameShare share) ?_
    obtain ⟨f, -, rfl⟩ := FrameTable.frameShare_eq_some.mp share
    rfl
  | frameSetPinned kpage status =>
    rw [ite_none_right_eq_some] at run
    obtain ⟨table, pin, rest⟩ := bind_eq_some_iff.mp run.2
    rw [← some.inj rest]
    refine clocked.setTable (clocked.listed.frameSetPinned pin) ?_
    obtain ⟨f, -, rfl⟩ := FrameTable.frameSetPinned_eq_some.mp pin
    rfl
  | frameRemove kpage page =>
    rw [ite_none_right_eq_some] at run
    obtain ⟨⟨table, freed⟩, remove, rest⟩ := bind_eq_some_iff.mp run.2
    obtain ⟨listed, list⟩ := clocked.listed.frameRemove remove
    exact clocked.freed run.1 guarded listed list rest
  | frameFree kpage =>
    rw [ite_none_right_eq_some] at run
    obtain ⟨⟨table, freed⟩, free, rest⟩ := bind_eq_some_iff.mp run.2
    obtain ⟨listed, list⟩ := clocked.listed.frameFree free
    exact clocked.freed run.1 guarded listed list rest
  | frameEvict =>
    rw [ite_none_right_eq_some] at run
    obtain ⟨idle, run⟩ := run
    split at run
    · rw [← some.inj run]
      exact clocked
    rename_i notEmpty
    rw [← some.inj run]
    exact ⟨clocked.listed, clocked.onList, fun _ => guarded.resolve_left notEmpty⟩
  | evictTurn accessed =>
    dsimp only at run
    split at run
    · rename_i cycleCnt f isCnt isPtr
      rw [ite_none_right_eq_some] at run
      exact clocked.evictTurn isCnt isPtr run.2
    · cases run
  | evictNone =>
    dsimp only at run
    split at run
    · rw [ite_none_right_eq_some] at run
      rw [← some.inj run.2]
      exact ⟨clocked.listed, clocked.onList, fun busy => absurd rfl busy⟩
    · cases run

theorem Clocked.sound : c.Sound := by
  refine ⟨clocked.onList, ?_⟩
  intro cycleCnt isCnt _
  have busy : c.cycleCnt ≠ none := by
    rw [mem_def.mp isCnt]
    exact nofun
  obtain ⟨f, isPtr⟩ := ne_none_iff_exists'.mp (clocked.scanning busy).1
  exact ⟨f, isPtr, clocked.onList f isPtr⟩

end

/-- `frame_init` leaves `clock_ptr` where the invariant wants it, and from every such
    state on, in every run whose steps are `Guarded`, `clock_ptr` is an element of the
    list or its end and `frame_evict` takes only elements of the list for frames. -/
theorem clock_on_list_of_guarded {c : FrameClock}
    (reached : Reachable Clocked FrameClock.next Guarded c) : Clocked frameInit ∧ c.Sound := by
  refine ⟨.frameInit, ?_⟩
  apply Clocked.sound
  apply reached.invariant
  · exact fun c clocked => clocked
  · exact fun c step c' clocked guarded run => clocked.next step guarded run

/-- Three frames with `clock_ptr` on the second: one is evicted, another is freed, and
    `clock_ptr` ends on the one that is left. -/
theorem clock_on_list_of_guarded_evict :
    ∃ c, Reachable Clocked FrameClock.next Guarded c ∧ c.table.frameList = [2] ∧
      c.clockPtr = some 2 ∧ c.Sound := by
  let owner : FrameOwner := ⟨0, 0, 0⟩
  let table := ((FrameTable.frameInit.frameAlloc none 4 owner true).frameAlloc none 5 owner
    false).frameAlloc none 6 owner false
  have listed : table.Listed :=
    ((FrameTable.Listed.frameInit.frameAlloc rfl _ _ _).frameAlloc rfl _ _ _).frameAlloc rfl _ _ _
  have start : Clocked ⟨table, some 1, none⟩ := by
    refine ⟨listed, ?_, fun busy => absurd rfl busy⟩
    intro f isPtr
    rw [← some.inj isPtr]
    decide
  obtain ⟨c, reached, list, ptr⟩ := reachable_of_run FrameClock.next Guarded start
    [.frameEvict, .evictTurn true, .evictTurn true, .evictTurn false, .evictTurn false,
      .frameRemove 4 0]
    (fun c => c.table.frameList = [2] ∧ c.clockPtr = some 2) (by decide)
  exact ⟨c, reached, list, ptr, (clock_on_list_of_guarded reached).2⟩

def Started (c : FrameClock) : Prop := c = frameInit

/-- The first eviction after `frame_init`, with one frame in the table, takes the end of the list
    for a frame. -/
theorem first_evict_takes_sentinel :
    ∃ c, Reachable Started FrameClock.next AnyStep c ∧ c.table.frameList = [0] ∧
      c.cycleCnt = some 0 ∧ c.clockPtr = none ∧ ¬c.Sound := by
  obtain ⟨c, reached, list, scans, ptr⟩ := reachable_of_run FrameClock.next AnyStep
    (show Started frameInit from rfl) [.frameAlloc 4 ⟨0, 0, 0⟩ false, .frameEvict]
    (fun c => c.table.frameList = [0] ∧ c.cycleCnt = some 0 ∧ c.clockPtr = none) (by decide)
  refine ⟨c, reached, list, scans, ptr, fun sound => ?_⟩
  obtain ⟨f, isPtr, -⟩ := sound.2 0 scans (by decide)
  rw [ptr] at isPtr
  cases isPtr

end Pintos.FrameClock
