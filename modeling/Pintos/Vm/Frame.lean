import Mathlib.Data.BitVec
import Pintos.Lib.List

/-!
# The frame table

Model of the table of `src/vm/frame.c`: the memory of the `struct frame`s, the hash
table that finds them by `kpage` and the list that `frame_evict` goes round. A kernel
page is its number in the user pool, a user page its page number. Hash tables of the
source keep the element they have when an equal one is inserted.

What the functions do to page directories and pages is in `Pintos.Vm.Page`, where
`clock_ptr` goes is in `Pintos.Vm.Clock`.
-/

namespace Pintos

open Function

abbrev ThreadId := Nat
abbrev PageId := Nat
abbrev FrameId := Nat
abbrev KPage := Nat

/-- `struct frame_owner` (`frame.h:9-15`). -/
structure FrameOwner where
  upage : Nat
  thread : ThreadId
  supPage : PageId
  deriving DecidableEq

/-- `struct frame` (`frame.h:17-24`). -/
structure Frame where
  kpage : KPage
  pinned : Bool
  ownerList : List FrameOwner
  deriving DecidableEq

/-- The static variables of `frame.c`; frames are known by the order in which they
    were allocated. -/
structure FrameTable where
  frame : FrameId → Frame
  frameHash : KPage → Option FrameId
  frameList : List FrameId
  nextFrame : FrameId

namespace FrameTable

/-- `frame_init` (`frame.c:31-38`). -/
def frameInit : FrameTable where
  frame _ := ⟨0, false, []⟩
  frameHash _ := none
  frameList := []
  nextFrame := 0

variable (table : FrameTable)

/-- Replace one frame. -/
def setFrame (f : FrameId) (frame : Frame) : FrameTable :=
  { table with frame := update table.frame f frame }

/-- `frame_alloc` from the first `malloc` on (`frame.c:57-69`), for a page that
    `palloc_get_page` returned; the frame is put before `before` in the list. -/
def frameAlloc (before : Option FrameId) (kpage : KPage) (owner : FrameOwner) (pinned : Bool) :
    FrameTable where
  frame := update table.frame table.nextFrame ⟨kpage, pinned, [owner]⟩
  frameHash :=
    if table.frameHash kpage = none then
      update table.frameHash kpage (some table.nextFrame)
    else table.frameHash
  frameList := listInsert before table.nextFrame table.frameList
  nextFrame := table.nextFrame + 1

/-- `frame_share` (`frame.c:74-107`); `none` if there is no such frame. -/
def frameShare (kpage : KPage) (owner : FrameOwner) : Option FrameTable := do
  let f ← table.frameHash kpage
  let frame := table.frame f
  some (table.setFrame f { frame with ownerList := frame.ownerList ++ [owner] })

/-- `frame_set_pinned` (`frame.c:145-162`); `none` if there is no such frame. -/
def frameSetPinned (kpage : KPage) (status : Bool) : Option FrameTable := do
  let f ← table.frameHash kpage
  some (table.setFrame f { table.frame f with pinned := status })

/-- `hash_delete` and `list_remove` of a frame. -/
def drop (f : FrameId) : FrameTable :=
  { table with
    frameHash := update table.frameHash (table.frame f).kpage none
    frameList := table.frameList.erase f }

/-- `frame_free` (`frame.c:111-141`) with the frame that it frees, if there is one;
    `none` if the frame has owners. -/
def frameFree (kpage : KPage) : Option (FrameTable × Option FrameId) :=
  match table.frameHash kpage with
  | none => some (table, none)
  | some f => if (table.frame f).ownerList = [] then some (table.drop f, some f) else none

/-- Take the record of a page out of the owners of a frame (`frame.c:290-303`). -/
def dropOwner (f : FrameId) (page : PageId) : FrameTable :=
  let frame := table.frame f
  table.setFrame f { frame with ownerList := frame.ownerList.eraseP fun o => o.supPage = page }

/-- `frame_remove` (`frame.c:281-308`) of the page `page` whose `kpage` is given, with
    the frame that it frees. -/
def frameRemove (kpage : KPage) (page : PageId) : Option (FrameTable × Option FrameId) := do
  let f ← table.frameHash kpage
  let table := table.dropOwner f page
  if (table.frame f).ownerList = [] then table.frameFree (table.frame f).kpage
  else some (table, none)

/-- The loop of `frame_evict` that takes all owners from the victim (`frame.c:262-273`). -/
def dropOwners (f : FrameId) : FrameTable :=
  table.setFrame f { table.frame f with ownerList := [] }

end FrameTable

end Pintos
