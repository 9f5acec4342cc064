import Pintos.Userprog.Mmap

/-!
# `mmap_` with open counts and failing allocations

`mmap_` of `src/userprog/syscall.c` in full. `file_reopen` opens the inode once more before the last
checks are made, and each `malloc` may fail: the one of the `struct file`, the one of each `struct
page` and the one of the `struct mmap_data`. `Mmaps.mmap` of `Pintos.Userprog.Mmap` is this function
without the open counts, when no allocation fails.
-/

namespace Pintos

/-- The mapped files and `open_cnt` of the inodes. -/
structure MmapCounts where
  mmaps : Mmaps
  openCnt : FileId → Nat

namespace MmapCounts

variable (s : MmapCounts)

/-- `inode_reopen` (`inode.c:478-489`). -/
def reopen (file : FileId) : MmapCounts :=
  { s with openCnt := Function.update s.openCnt file (s.openCnt file + 1) }

/-- `file_close` of the file that was reopened. -/
def close (file : FileId) : MmapCounts :=
  { s with openCnt := Function.update s.openCnt file (s.openCnt file - 1) }

/-- The first `count` turns of the loop over `page_lazy_load` (`syscall.c:532-539`). -/
def lazyLoads (t : ThreadId) (file : FileId) (addr count : Nat) (vm : Vm) : Vm :=
  let len := vm.fileLength file
  (List.range count).foldl (fun vm k =>
    vm.pageLazyLoad t (mmapArgs file addr len (k * pgSize)) .file) vm

/-- A turn of the loop at the label `fail`. A page that is not registered is passed to `page_free`
    as a null pointer. -/
def undoPage (t : ThreadId) (addr : Nat) (vm : Vm) (k : Nat) : Except Panic Vm :=
  match vm.getPage t ((addr + k * pgSize) / pgSize) with
  | none => .ok vm
  | some p => vm.pageFree p

/-- The loop at the label `fail` (`syscall.c:556-561`), which starts at the page `last`. -/
def undo (t : ThreadId) (addr last : Nat) (vm : Vm) : Except Panic Vm :=
  (List.range (last + 1)).reverse.foldlM (undoPage t addr) vm

/-- The label `fail` of `mmap_`, reached after `count` calls of `page_lazy_load` have succeeded. -/
def fail (t : ThreadId) (file : FileId) (addr count : Nat) :
    Except Panic (Option Nat × MmapCounts) := do
  let vm ← undo t addr count (lazyLoads t file addr count s.mmaps.vm)
  .ok (none, { s with mmaps := { s.mmaps with vm } }.close file)

/-- `mmap_` from the test of the length on (`syscall.c:524-563`). -/
def enter (t : ThreadId) (file : FileId) (addr mallocs : Nat) :
    Except Panic (Option Nat × MmapCounts) :=
  let cnt := pageCnt (s.mmaps.vm.fileLength file)
  if s.mmaps.vm.fileLength file = 0 then .ok (none, s)
  else if ∃ k < cnt, s.mmaps.vm.getPage t ((addr + k * pgSize) / pgSize) ≠ none then .ok (none, s)
  else if mallocs ≤ cnt then s.fail t file addr mallocs
  else
    let (mapping, mmaps) := s.mmaps.register t file addr
    .ok (mapping, { s with mmaps })

/-- `mmap_` (`syscall.c:503-563`) by the process `t`, in which the first `mallocs` allocations
    succeed and the next one fails. A descriptor is the inode that it refers to, or none if it is
    not open. -/
def mmap (t : ThreadId) (fd : Option FileId) (addr mallocs : Nat) :
    Except Panic (Option Nat × MmapCounts) :=
  if addr = 0 ∨ addr % pgSize ≠ 0 then .ok (none, s)
  else
    match fd, mallocs with
    | none, _ => .ok (none, s)
    -- `file_length (NULL)`
    | some _, 0 => .error .assertion
    | some file, mallocs + 1 => (s.reopen file).enter t file addr mallocs

/-- What `mmap_` finds out only after it has reopened the file is in order: the file is not empty,
    no page of the range is registered, and memory does not run out, or does before the first page
    is registered. -/
def Clear (t : ThreadId) (fd : Option FileId) (addr mallocs : Nat) : Prop :=
  ∀ file ∈ fd, addr ≠ 0 → addr % pgSize = 0 →
    s.mmaps.vm.fileLength file ≠ 0 ∧
    (∀ k < pageCnt (s.mmaps.vm.fileLength file),
      s.mmaps.vm.getPage t ((addr + k * pgSize) / pgSize) = none) ∧
    (mallocs = 1 ∨ pageCnt (s.mmaps.vm.fileLength file) + 2 ≤ mallocs)

end MmapCounts

end Pintos
