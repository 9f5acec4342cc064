import Pintos.Userprog.Mmap

/-!
# Shared frames of executables

A read-only page of an executable may be in a frame that another page was loaded into:
`page_full_load` (`src/vm/page.c:94-118`) looks for one by the names of the two processes and the
offset in the file, and does not compare the files. Runs here are those of virtual memory with
writes to files through descriptors and the denial of writes by `load` and `process_exit`, since
the frame of an executable is shared for as long as a page of it is registered.
-/

namespace Pintos

inductive TextStep where
  | vm (step : VmStep)
  | fileWrite (file : FileId) (buffer : Nat → Byte) (size ofs : Nat)
  | setDenyWrite (file : FileId) (denyWrite : Bool)

/-- A read-only page that was loaded, in whose frame others are put. -/
def Page.IsText (page : Page) : Prop := page.type = .alloc ∧ page.writable = false

instance (page : Page) : Decidable page.IsText := inferInstanceAs (Decidable (_ ∧ _))

namespace Vm

variable (vm : Vm)

/-- One operation; `none` if the kernel stops in it or it cannot be taken. -/
def nextText : TextStep → Option Vm
  | .vm step => vm.next step
  | .fileWrite file buffer size ofs => some (vm.fileWrite file buffer size ofs)
  | .setDenyWrite file denyWrite => some (vm.setDenyWrite file denyWrite)

/-- The pages whose frame a read-only page may share are of the same part of the same file. -/
def Alike (page : Page) : Prop :=
  page.type = .unalloc → page.writable = false →
    ∀ q ∈ vm.supPageTable, ∀ cur ∈ vm.page q, vm.Sharable page cur →
      cur.file = page.file ∧ cur.readBytes = page.readBytes

instance (page : Page) : Decidable (vm.Alike page) :=
  inferInstanceAs (Decidable (_ → _ → ∀ q ∈ vm.supPageTable, ∀ cur ∈ vm.page q, _ → _))

/-- The page that is loaded shares a frame only with a page that is alike. -/
def LoadsAlike : TextStep → Prop
  | .vm (.pageFullLoad t addr _) =>
      ∀ p ∈ vm.getPage t (addr / pgSize), ∀ page ∈ vm.page p, vm.Alike page
  | _ => True

instance (step : TextStep) : Decidable (vm.LoadsAlike step) := by
  unfold LoadsAlike
  split <;> infer_instance

/-- Writes to the files of the pages that can be shared are denied, or leave them as they are. -/
def KeepsTexts (vm' : Vm) : Prop :=
  ∀ q ∈ vm.supPageTable, ∀ cur ∈ vm.page q, cur.IsText → ∀ file ∈ cur.file,
    (vm.file file).denyWrite = true ∨
      (vm'.file file).bytes = (vm.file file).bytes ∧ (vm'.file file).readEnd = (vm.file file).readEnd

/-- Only pages that are alike share a frame, and no file is written whose pages can be shared. -/
def SharesAlike (step : TextStep) : Prop :=
  vm.LoadsAlike step ∧ ∀ vm' ∈ vm.nextText step, vm.KeepsTexts vm'

end Vm

end Pintos
