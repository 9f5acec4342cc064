import Pintos.Userprog.Load
import Pintos.Userprog.SharedText

/-!
# Loads that fail

`page_full_load` of `src/vm/page.c` once more, with all the ways in which it can fail after it has
a frame. Besides a file that cannot be read, `pagedir_install_page`
(`src/userprog/pagedir.c:234-243`) fails when a page table has to be made and the kernel pool is
empty. `Pintos.Vm.Page` leaves this out; the model there is this one with page tables.
-/

namespace Pintos.Vm

-- There is a page table for the address, or a page in the kernel pool for a new one.
variable (vm : Vm) (tablePage : Bool)

/-- The label `end` of `page_full_load`, where `pagedir_install_page` may have no page table. -/
def finishLoadIn (p : PageId) (page : Page) (kpage : KPage) : Except Panic (Bool × Vm) :=
  if tablePage then vm.finishLoad p page kpage else vm.failLoad kpage

/-- `page_full_load` with a frame to share (`page.c:109-116`). -/
def loadSharedIn (p : PageId) (page cur : Page) : Except Panic (Bool × Vm) :=
  match cur.kpage, cur.slotIdx with
  | some kpage, none =>
      if page.upage < physBasePage then
        match vm.table.frameShare kpage (ownerRecord p page) with
        | none => .error .assertion
        | some table => { vm with table }.finishLoadIn tablePage p page kpage
      else .error .assertion
  | _, _ => .error .assertion

/-- `page_full_load` from the file (`page.c:122-135`). -/
def loadFileIn (p : PageId) (page : Page) (victim : Option FrameId) :
    Except Panic (Bool × Vm) := do
  let (kpage, vm) ← vm.frameAlloc false (ownerRecord p page) true victim
  if vm.ReadsAll page then
    let memory := Function.update vm.memory kpage (vm.initialData page)
    Vm.finishLoadIn { vm with memory } tablePage p page kpage
  else vm.failLoad kpage

/-- `page_full_load` from a swap slot (`page.c:137-147`). -/
def loadSlotIn (p : PageId) (page : Page) (slot : SlotId) (victim : Option FrameId) :
    Except Panic (Bool × Vm) := do
  let (kpage, vm) ← vm.frameAlloc false (ownerRecord p page) true victim
  match ← vm.swap.swapIn slot with
  | none => vm.failLoad kpage
  | some (d, swap) =>
      let memory := Function.update vm.memory kpage d
      Vm.finishLoadIn { vm with swap, memory } tablePage p page kpage

/-- `page_full_load` of a page that was found. -/
def loadPageIn (p : PageId) (page : Page) (victim : Option FrameId) : Except Panic (Bool × Vm) :=
  match page.type, page.kpage, page.slotIdx with
  | .alloc, none, some slot => vm.loadSlotIn tablePage p page slot victim
  | .unalloc, none, none | .file, none, none =>
      match vm.sharedPage page with
      | some cur => vm.loadSharedIn tablePage p page cur
      | none => vm.loadFileIn tablePage p page victim
  | _, _, _ => .error .assertion

/-- `page_full_load` (`page.c:80-169`), called by `t` for the fault address `addr`. -/
def pageFullLoadIn (t : ThreadId) (addr : Nat) (victim : Option FrameId) :
    Except Panic (Bool × Vm) :=
  if addr = 0 then .ok (false, vm)
  else
    match vm.getPage t (addr / pgSize) with
    | none => .ok (false, vm)
    | some p =>
        match vm.page p with
        | none => .error .undefined
        | some page => vm.loadPageIn tablePage p page victim

/-- The page can be mapped and, if it has to be read, its file can be read that far once
    there is a frame: the address is one of the user and there is a page table, unless
    `frame_alloc` stops first. -/
def Loadable (p : PageId) (page : Page) (victim : Option FrameId) : Prop :=
  page.upage < physBasePage ∧
    if vm.sharedPage page = none then
      ∀ granted ∈ (vm.frameAlloc false (ownerRecord p page) true victim).toOption,
        tablePage = true ∧ (page.type ≠ .alloc → granted.2.ReadsAll page)
    else tablePage = true

instance (p : PageId) (page : Page) (victim : Option FrameId) :
    Decidable (vm.Loadable tablePage p page victim) := by
  unfold Loadable
  infer_instance

end Pintos.Vm
