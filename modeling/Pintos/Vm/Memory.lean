import Pintos.Misc.Transition
import Pintos.Vm.Page

/-!
# The private memory of a process

`page_fault` of `src/userprog/exception.c` on top of virtual memory, and the memory that
a process is promised: a byte for each address. A page starts with the bytes of its file
followed by zeros, or with zeros if it belongs to the stack; after that only the process
itself changes it.
-/

namespace Pintos

/-- `STACK_SIZE_MAX` (`page.h:9`). -/
abbrev stackSizeMax : Nat := 0x800000

namespace Vm

variable (vm : Vm)

/-- `page_fault` takes the access for one that makes the stack grow
    (`exception.c:167-170`); `esp - 32` is computed with 32 bits. -/
def GrowsStack (t : ThreadId) (addr esp : Nat) : Prop :=
  (esp + (2 ^ 32 - 32)) % 2 ^ 32 ≤ addr ∧
    physBasePage * pgSize - stackSizeMax ≤ addr / pgSize * pgSize ∧
    addr < physBasePage * pgSize ∧ vm.getPage t (addr / pgSize) = none

instance (t : ThreadId) (addr esp : Nat) : Decidable (vm.GrowsStack t addr esp) :=
  inferInstanceAs (Decidable (_ ∧ _ ∧ _ ∧ _))

/-- `page_fault` (`exception.c:130-211`) for an access of the process or of the kernel to
    `addr`; false if the process is killed. -/
def pageFault (t : ThreadId) (addr esp : Nat) (user notPresent : Bool) (victim : Option FrameId) :
    Except Panic (Bool × Vm) :=
  if vm.GrowsStack t addr esp then vm.pageFullLoadStack t (addr / pgSize) victim
  else if !user ∧ addr < physBasePage * pgSize then
    if notPresent then vm.pageFullLoad t addr victim else .ok (false, vm)
  else if user ∧ notPresent then vm.pageFullLoad t addr victim
  else .ok (false, vm)

end Vm

/-- Virtual memory, with the bytes that a process is to find at its addresses. -/
structure PrivateMemory where
  vm : Vm
  bytes : Nat → Byte

/-- Fill a page. -/
def setPage (bytes : Nat → Byte) (upage : Nat) (d : PageData) : Nat → Byte :=
  fun addr => if addr / pgSize = upage then d.byte (addr % pgSize) else bytes addr

namespace PrivateMemory

variable (t : ThreadId)

/-- What an operation does to the bytes of the process `t`. -/
def record (vm : Vm) (bytes : Nat → Byte) : VmStep → Nat → Byte
  | .pageLazyLoad t' args .unalloc =>
      -- the first page that is registered for an address is the one that counts
      if t' = t ∧ vm.getPage t args.upage = none then
        setPage bytes args.upage
          (vm.initialData { args with type := .unalloc, kpage := none, slotIdx := none, owner := t })
      else bytes
  | .pageFullLoadStack t' upage _ => if t' = t then setPage bytes upage fun _ => 0 else bytes
  | .userWrite t' addr b => if t' = t then Function.update bytes addr b else bytes
  | _ => bytes

/-- The process lives: `page_fault`, `setup_stack` and `mmap_` use addresses that are not
    registered, and before `process_exit` only `munmap_` frees pages of the process. Other
    processes are free to do anything. -/
def Lives (vm : Vm) : VmStep → Prop
  | .pageLazyLoad t' args type => t' = t → type = .file → vm.getPage t args.upage = none
  | .pageFullLoadStack t' upage _ => t' = t → vm.getPage t upage = none
  | .pageFree p => ∀ pg ∈ vm.page p, pg.owner = t → pg.type = .file ∧ p ∈ vm.supPageTable
  | _ => True

instance (vm : Vm) (step : VmStep) : Decidable (Lives t vm step) := by
  unfold Lives
  cases step <;> infer_instance

/-- No mapped page is written back to the file of a private page of the process. `load` denies
    writes to the executable, but only after it has registered the pages. -/
def FilesKept (vm : Vm) (step : VmStep) : Prop :=
  ∀ p ∈ vm.pageList t, ∀ pg ∈ vm.page p, ∀ file ∈ pg.file, (vm.file file).denyWrite = true ∨
    ∀ vm', vm.next step = some vm' → (vm'.file file).bytes = (vm.file file).bytes

/-- One operation. -/
def next (s : PrivateMemory) (step : VmStep) : Option PrivateMemory :=
  (s.vm.next step).map fun vm => ⟨vm, record t s.vm s.bytes step⟩

/-- The machine was just started. -/
def Initial (s : PrivateMemory) : Prop := s.vm.Initial

end PrivateMemory

end Pintos
