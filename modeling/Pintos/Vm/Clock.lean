import Pintos.Misc.Transition
import Pintos.Vm.Frame

/-!
# The clock pointer

`clock_ptr` of `src/vm/frame.c` under the functions that use or move it:
`frame_alloc` inserts before it, `frame_free` moves it away from the frame that it
frees, and `frame_evict` moves it round the list. A turn of the loop of `frame_evict`
(`frame.c:189-216`) is one step, in which the element at `clock_ptr` is treated as a
`struct frame`; whether an owner has accessed the frame is left open.

The list has an end sentinel, which is `none` here. `clock_ptr` is set to it by
`frame_init`, and `next_frame_` is written as if it could not stay there.
-/

namespace Pintos

structure FrameClock where
  table : FrameTable
  clockPtr : Option FrameId
  /-- `cycle_cnt` in the loop of `frame_evict`. -/
  cycleCnt : Option Nat

inductive FrameClockStep where
  /-- `frame_alloc` when `palloc_get_page` has returned `kpage`. -/
  | frameAlloc (kpage : KPage) (owner : FrameOwner) (pinned : Bool)
  | frameShare (kpage : KPage) (owner : FrameOwner)
  | frameSetPinned (kpage : KPage) (status : Bool)
  | frameRemove (kpage : KPage) (page : PageId)
  | frameFree (kpage : KPage)
  /-- `frame_evict` up to its loop. -/
  | frameEvict
  /-- One turn of the loop, with the rest of `frame_evict` if a victim is found. -/
  | evictTurn (accessed : Bool)
  /-- `frame_evict` returns without a victim. -/
  | evictNone

namespace FrameClock

/-- `frame_init` (`frame.c:31-38`). -/
def frameInit : FrameClock := ⟨.frameInit, none, none⟩

variable (c : FrameClock)

/-- `next_frame_` (`frame.c:165-172`); `none` if `clock_ptr` is no element of the list. -/
def nextFrame : Option (Option FrameId) :=
  match c.clockPtr with
  | none => some c.table.frameList.head?
  | some f =>
      if f ∈ c.table.frameList then
        some ((listNext f c.table.frameList).or c.table.frameList.head?)
      else none

/-- The end of `frame_free`: `clock_ptr` leaves the freed frame. -/
def freed (table : FrameTable) (frame : Option FrameId) : Option FrameClock :=
  if frame ≠ none ∧ c.clockPtr = frame then do
    let clockPtr ← c.nextFrame
    some { c with table, clockPtr }
  else some { c with table }

/-- One turn of the loop of `frame_evict` with `clock_ptr` at `f` (`frame.c:191-216`,
    and `262-276` for a victim). -/
def evictTurn (cycleCnt : Nat) (f : FrameId) (accessed : Bool) : Option FrameClock := do
  let cycleCnt := if c.table.frameList.head? = some f then cycleCnt + 1 else cycleCnt
  let clockPtr ← c.nextFrame
  if (c.table.frame f).pinned = true ∨ accessed = true then
    some { c with clockPtr, cycleCnt := some cycleCnt }
  else do
    let table := c.table.dropOwners f
    let (table, frame) ← table.frameFree (table.frame f).kpage
    { c with clockPtr, cycleCnt := none }.freed table frame

/-- One step; `none` if it cannot be taken or if it uses memory that is no frame. All of
    `frame_evict` runs under `frame_lock`. -/
def next : FrameClockStep → Option FrameClock
  | .frameAlloc kpage owner pinned =>
      if c.cycleCnt = none ∧ c.table.frameHash kpage = none ∧
          (∀ f ∈ c.clockPtr, f ∈ c.table.frameList) then
        some { c with table := c.table.frameAlloc c.clockPtr kpage owner pinned }
      else none
  | .frameShare kpage owner =>
      if c.cycleCnt = none then do
        let table ← c.table.frameShare kpage owner
        some { c with table }
      else none
  | .frameSetPinned kpage status =>
      if c.cycleCnt = none then do
        let table ← c.table.frameSetPinned kpage status
        some { c with table }
      else none
  | .frameRemove kpage page =>
      if c.cycleCnt = none then do
        let (table, frame) ← c.table.frameRemove kpage page
        c.freed table frame
      else none
  | .frameFree kpage =>
      if c.cycleCnt = none then do
        let (table, frame) ← c.table.frameFree kpage
        c.freed table frame
      else none
  | .frameEvict =>
      if c.cycleCnt = none then
        if c.table.frameList = [] then some c else some { c with cycleCnt := some 0 }
      else none
  | .evictTurn accessed =>
      match c.cycleCnt, c.clockPtr with
      | some cycleCnt, some f => if cycleCnt ≤ 2 then c.evictTurn cycleCnt f accessed else none
      | _, _ => none
  | .evictNone =>
      match c.cycleCnt with
      | some cycleCnt => if 2 < cycleCnt then some { c with cycleCnt := none } else none
      | none => none

/-- `clock_ptr` is an element of the list or its end, and where the loop of
    `frame_evict` takes it for a frame, it is an element. -/
def Sound : Prop :=
  (∀ f ∈ c.clockPtr, f ∈ c.table.frameList) ∧
    ∀ cycleCnt ∈ c.cycleCnt, cycleCnt ≤ 2 → ∃ f ∈ c.clockPtr, f ∈ c.table.frameList

/-- `frame_evict` is called for an empty table, or with `clock_ptr` on a frame of a table
    with at least two, and the only frame is not freed while `clock_ptr` is on it. -/
def Guarded : FrameClockStep → Prop
  | .frameEvict => c.table.frameList = [] ∨ c.clockPtr ≠ none ∧ 1 < c.table.frameList.length
  | .frameRemove .. | .frameFree _ => c.clockPtr = none ∨ 1 < c.table.frameList.length
  | _ => True

instance (step : FrameClockStep) : Decidable (c.Guarded step) := by
  unfold Guarded
  cases step <;> infer_instance

end FrameClock

end Pintos
