import Pintos.Vm.Memory

/-!
# Memory mapped files

Model of `mmap_` and `munmap_` of `src/userprog/syscall.c` and of the end of a process in
`process_exit` of `src/userprog/process.c`, on top of virtual memory. `mmap_` registers a
page for each page of the file. It does not keep their number: `munmap_` computes it
from the length that the file has by then.

Each call runs to its end. A descriptor is the inode that it refers to, or none if it is
not open. As for virtual memory, allocations from the kernel pool succeed, so the label
`fail` of `mmap_` is not reached. The file system keeps files far below `2 ^ 31` bytes, so
the offsets do not overflow. A write through a descriptor makes the file as long as it has to
be, or fails for want of sectors, which may take its index blocks. What writes do to a file
without them is not modelled.
-/

namespace Pintos

open Function

/-- `struct mmap_data` (`syscall.h:10-17`). The last two fields are not in the source:
    the `struct page`s that `mmap_` made for the mapping. -/
structure MmapData where
  mapping : Nat
  file : FileId
  owner : ThreadId
  uaddr : Nat
  firstPage : PageId
  count : Nat

/-- `mmap_` made the page for this mapping. -/
def MmapData.HasPage (d : MmapData) (p : PageId) : Prop :=
  d.firstPage ≤ p ∧ p < d.firstPage + d.count

instance (d : MmapData) (p : PageId) : Decidable (d.HasPage p) :=
  inferInstanceAs (Decidable (_ ∧ _))

/-- The number of turns of `for (off_t i = 0; i < len; i += PGSIZE)`. -/
def pageCnt (len : Nat) : Nat := (len + (pgSize - 1)) / pgSize

/-- The bytes of the file in the page at offset `i` (`syscall.c:535`). -/
def mmapReadBytes (len i : Nat) : Nat := if i + pgSize < len then pgSize else len - i

theorem mmapReadBytes_le (len i : Nat) : mmapReadBytes len i ≤ pgSize := by
  unfold mmapReadBytes
  split <;> omega

/-- The page that `mmap_` registers for the offset `i` of a file of `len` bytes. -/
def mmapArgs (file : FileId) (addr len i : Nat) : PageArgs where
  file := some file
  ofs := i
  upage := (addr + i) / pgSize
  readBytes := mmapReadBytes len i
  zeroBytes := pgSize - mmapReadBytes len i
  fills := Nat.add_sub_cancel' (mmapReadBytes_le len i)
  writable := true

namespace Vm

variable (vm : Vm)

/-- `file_write` through a descriptor at the position `ofs`. -/
def fileWrite (file : FileId) (buffer : Nat → Byte) (size ofs : Nat) : Vm :=
  if (vm.file file).denyWrite then vm
  else
    let bytes := (vm.file file).bytes.write buffer size ofs
    { vm with file := update vm.file file { vm.file file with bytes } }

/-- `file_write` that has to make the file longer, when there is no room for a data sector: a file
    of more than ten sectors loses its index blocks, and its length stays (`inode.c:687-692`). -/
def fileWriteFails (file : FileId) : Vm :=
  if (vm.file file).denyWrite ∨ (vm.file file).bytes.length ≤ 10 * 512 then vm
  else
    let readEnd := some (min (10 * 512) ((vm.file file).readEnd.getD (10 * 512)))
    { vm with file := update vm.file file { vm.file file with readEnd } }

/-- `file_deny_write` and `file_allow_write`. -/
def setDenyWrite (file : FileId) (denyWrite : Bool) : Vm :=
  { vm with file := update vm.file file { vm.file file with denyWrite } }

/-- The first lines of the loop of `munmap_`: the page is loaded if it has no frame
    (`syscall.c:580-581`). -/
def munmapLoad (t : ThreadId) (addr : Nat) (p : PageId) (victim : Option FrameId) :
    Except Panic Vm :=
  if (vm.page p).bind Page.kpage = none then do
    -- whether the page was loaded is not looked at
    let (_, vm) ← vm.pageFullLoad t addr victim
    .ok vm
  else .ok vm

/-- A page that was written is written to the file (`syscall.c:582-586`). -/
def munmapWrite (d : MmapData) (i : Nat) (p : PageId) : Except Panic Vm :=
  if (vm.pte d.owner ((d.uaddr + i) / pgSize)).dirty then
    match vm.page p with
    | none => .error .undefined
    | some page =>
        match page.kpage with
        | none => .error .undefined
        | some kpage => .ok (vm.fileWriteAt d.file (vm.memory kpage) page.readBytes i)
  else .ok vm

/-- One turn of the loop of `munmap_` (`syscall.c:576-588`). -/
def munmapPage (d : MmapData) (i : Nat) (victim : Option FrameId) : Except Panic Vm :=
  match vm.getPage d.owner ((d.uaddr + i) / pgSize) with
  | none => .error .assertion
  | some p => do
      let vm ← vm.munmapLoad d.owner (d.uaddr + i) p victim
      let vm ← vm.munmapWrite d i p
      vm.pageFree p

/-- The length of a file. -/
def fileLength (file : FileId) : Nat := (vm.file file).bytes.length

end Vm

/-- What a process is doing. -/
inductive ProcessStage where
  /-- `load` of `process.c`. -/
  | loading
  | running
  | exited
  deriving DecidableEq

/-- Virtual memory and the mapped files. -/
structure Mmaps where
  vm : Vm
  /-- `mmap_table`. -/
  mmapTable : List MmapData
  /-- `mapid_next` of each process. -/
  mapidNext : ThreadId → Nat
  stage : ThreadId → ProcessStage

namespace Mmaps

variable (s : Mmaps)

/-- `hash_query` (`syscall.c:621-632`). -/
def hashQuery (mapping : Nat) (owner : ThreadId) : Option MmapData :=
  s.mmapTable.find? fun d => d.mapping = mapping ∧ d.owner = owner

/-- `mmap_` once its arguments are checked (`syscall.c:532-551`). -/
def register (t : ThreadId) (file : FileId) (addr : Nat) : Option Nat × Mmaps :=
  let len := s.vm.fileLength file
  let vm := (List.range (pageCnt len)).foldl (fun vm k =>
    vm.pageLazyLoad t (mmapArgs file addr len (k * pgSize)) .file) s.vm
  let mapping := s.mapidNext t
  let d : MmapData := ⟨mapping, file, t, addr, s.vm.nextPage, pageCnt len⟩
  let mmapTable :=
    if s.hashQuery mapping t = none then d :: s.mmapTable else s.mmapTable
  (some mapping, { s with vm, mmapTable, mapidNext := update s.mapidNext t (mapping + 1) })

/-- `mmap_` (`syscall.c:503-553`) by the process `t`; no mapping is `-1`. -/
def mmap (t : ThreadId) (fd : Option FileId) (addr : Nat) : Option Nat × Mmaps :=
  match fd with
  | none => (none, s)
  | some file =>
      if addr = 0 ∨ addr % pgSize ≠ 0 ∨ s.vm.fileLength file = 0 ∨
          ∃ k < pageCnt (s.vm.fileLength file),
            s.vm.getPage t ((addr + k * pgSize) / pgSize) ≠ none then
        (none, s)
      else s.register t file addr

/-- `munmap_` (`syscall.c:566-595`); `victims` are the frames that are evicted for the
    pages of the mapping. -/
def munmap (t : ThreadId) (mapping : Nat) (victims : Nat → Option FrameId) : Except Panic Mmaps :=
  match s.hashQuery mapping t with
  | none => .ok s
  | some d => do
      let vm ← (List.range (pageCnt (s.vm.fileLength d.file))).foldlM (fun vm k =>
        vm.munmapPage d (k * pgSize) (victims k)) s.vm
      .ok { s with
        vm, mmapTable := s.mmapTable.filter fun e => ¬ (e.mapping = mapping ∧ e.owner = t) }

/-- `process_exit` (`process.c:260-275`): the pages of `page_list`, then the mappings from
    the last one down. -/
def processExit (t : ThreadId) (victims : Nat → Nat → Option FrameId) : Except Panic Mmaps := do
  let vm ← s.vm.freePageList t
  let s ← (List.range (s.mapidNext t)).reverse.foldlM (fun s mapping =>
    s.munmap t mapping (victims mapping)) { s with vm, stage := update s.stage t .exited }
  .ok { s with mapidNext := update s.mapidNext t 0 }

end Mmaps

inductive MmapStep where
  /-- `load_segment` registers a page. -/
  | loadSegment (t : ThreadId) (args : PageArgs)
  /-- `setup_stack`, the last part of `load`. -/
  | setupStack (t : ThreadId) (victim : Option FrameId)
  | pageFault (t : ThreadId) (addr esp : Nat) (user notPresent : Bool) (victim : Option FrameId)
  | frameEvict (victim : Option FrameId)
  | userWrite (t : ThreadId) (addr : Nat) (b : Byte)
  /-- The iterator goes through `sup_page_table` in another order. -/
  | rehash (order : List PageId)
  | fileWrite (file : FileId) (buffer : Nat → Byte) (size ofs : Nat)
  | fileWriteFails (file : FileId)
  | setDenyWrite (file : FileId) (denyWrite : Bool)
  | mmap (t : ThreadId) (fd : Option FileId) (addr : Nat)
  | munmap (t : ThreadId) (mapping : Nat) (victims : Nat → Option FrameId)
  | processExit (t : ThreadId) (victims : Nat → Nat → Option FrameId)

namespace Mmaps

variable (s : Mmaps)

/-- An operation of virtual memory. -/
def withVm (outcome : Option Vm) : Option Mmaps := outcome.map fun vm => { s with vm }

/-- One operation; `none` if the kernel stops in it or it cannot be taken. -/
def next : MmapStep → Option Mmaps
  | .loadSegment t args =>
      if s.stage t = .loading then s.withVm (s.vm.next (.pageLazyLoad t args .unalloc)) else none
  | .setupStack t victim =>
      if s.stage t = .loading then
        (s.withVm (s.vm.next (.pageFullLoadStack t (physBasePage - 1) victim))).map fun s =>
          { s with stage := update s.stage t .running }
      else none
  | .pageFault t addr esp user notPresent victim =>
      if s.stage t = .running then
        s.withVm ((s.vm.pageFault t addr esp user notPresent victim).toOption.map Prod.snd)
      else none
  | .frameEvict victim => s.withVm (s.vm.next (.frameEvict victim))
  | .userWrite t addr b => s.withVm (s.vm.next (.userWrite t addr b))
  | .rehash order => s.withVm (s.vm.next (.rehash order))
  | .fileWrite file buffer size ofs => some { s with vm := s.vm.fileWrite file buffer size ofs }
  | .fileWriteFails file => some { s with vm := s.vm.fileWriteFails file }
  | .setDenyWrite file denyWrite => some { s with vm := s.vm.setDenyWrite file denyWrite }
  | .mmap t fd addr =>
      -- `syscall_handler` checks the address before it calls `mmap_` (`syscall.c:230-231`)
      if s.stage t = .running ∧ addr + 4 ≤ physBasePage * pgSize then some (s.mmap t fd addr).2
      else none
  | .munmap t mapping victims =>
      if s.stage t = .running then (s.munmap t mapping victims).toOption else none
  | .processExit t victims =>
      if s.stage t ≠ .exited then (s.processExit t victims).toOption else none

/-- A write to a file that is mapped does not go past the last page of the file, and if it fails
    the file has at most ten sectors. Only files that can be read as a whole are written and
    mapped. -/
def Contained : MmapStep → Prop
  | .fileWrite file _ size ofs => (s.vm.file file).readEnd = none ∧
      ∀ d ∈ s.mmapTable, d.file = file → ofs + size ≤ pageCnt (s.vm.fileLength file) * pgSize
  | .fileWriteFails file => ∀ d ∈ s.mmapTable, d.file = file → s.vm.fileLength file ≤ 10 * 512
  | .mmap _ fd _ => ∀ file ∈ fd, (s.vm.file file).readEnd = none
  | _ => True

instance (step : MmapStep) : Decidable (s.Contained step) := by
  unfold Contained
  apply @MmapStep.casesOn _ step <;> intros <;> infer_instance

/-- No process was started. -/
structure Initial (s : Mmaps) : Prop where
  vm : s.vm.Initial
  mmapTable : s.mmapTable = []
  mapidNext : ∀ t, s.mapidNext t = 1
  stage : ∀ t, s.stage t = .loading

end Mmaps

end Pintos
