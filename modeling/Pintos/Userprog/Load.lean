import Pintos.Userprog.Mmap
import Pintos.Userprog.Syscall

/-!
# Loading executables

Model of `load` of `src/userprog/process.c` with `validate_segment`, `load_segment` and
`setup_stack`, of the part of `start_process` that depends on its result, and of the end of a
process, on top of virtual memory and mapped files. An executable is the bytes of its file. The
processes take turns: a step of `load` is one turn of its loop over the program headers, the
part before the loop or the part after it.

A thread is its tid, and it is live as long as it is in `all_list`. As for virtual memory,
allocations from the kernel pool succeed.
-/

namespace Pintos

open Function

/-! ## Executables -/

/-- `PGMASK` (`vaddr.h:21`). -/
def pgMask : BitVec 32 := 0xfff

/-- `ROUND_UP (x, PGSIZE)` (`round.h:6`). -/
def pgRoundUp (x : BitVec 32) : BitVec 32 := (x + 4095) / 4096 * 4096

/-- `struct Elf32_Phdr` (`process.c:351-361`), with the fields that `load` uses. -/
structure ElfPhdr where
  type : BitVec 32
  offset : BitVec 32
  vaddr : BitVec 32
  filesz : BitVec 32
  memsz : BitVec 32
  flags : BitVec 32
  deriving DecidableEq

namespace ElfPhdr

def ptLoad : BitVec 32 := 1
def ptDynamic : BitVec 32 := 2
def ptInterp : BitVec 32 := 3
def ptShlib : BitVec 32 := 5

/-- `PF_W`. -/
def pfW : BitVec 32 := 2

variable (phdr : ElfPhdr)

/-- `validate_segment` (`process.c:510-548`) for a file of this length. -/
def ValidateSegment (length : Nat) : Prop :=
  phdr.offset &&& pgMask = phdr.vaddr &&& pgMask ∧
    phdr.offset ≤ BitVec.ofNat 32 length ∧
    phdr.filesz ≤ phdr.memsz ∧
    phdr.memsz ≠ 0 ∧
    phdr.vaddr < physBase ∧
    phdr.vaddr + phdr.memsz < physBase ∧
    phdr.vaddr ≤ phdr.vaddr + phdr.memsz ∧
    4096 ≤ phdr.vaddr

instance (length : Nat) : Decidable (phdr.ValidateSegment length) :=
  inferInstanceAs (Decidable (_ ∧ _ ∧ _ ∧ _ ∧ _ ∧ _ ∧ _ ∧ _))

/-- `load` gives up at this header (`process.c:434-477`). -/
def Rejected (length : Nat) : Prop :=
  phdr.type = ptDynamic ∨ phdr.type = ptInterp ∨ phdr.type = ptShlib ∨
    phdr.type = ptLoad ∧ ¬ phdr.ValidateSegment length

instance (length : Nat) : Decidable (phdr.Rejected length) :=
  inferInstanceAs (Decidable (_ ∨ _ ∨ _ ∨ _ ∧ ¬_))

/-- `page_offset`. -/
def pageOffset : BitVec 32 := phdr.vaddr &&& pgMask

/-- `read_bytes` of `load` (`process.c:455-469`). -/
def readBytes : BitVec 32 := if 0 < phdr.filesz then phdr.pageOffset + phdr.filesz else 0

/-- `zero_bytes` of `load`. -/
def zeroBytes : BitVec 32 := pgRoundUp (phdr.pageOffset + phdr.memsz) - phdr.readBytes

end ElfPhdr

/-- The first seven bytes of an executable. -/
def elfIdent : List Byte := [0x7f, 0x45, 0x4c, 0x46, 1, 1, 1]

namespace FileBytes

variable (b : FileBytes)

/-- The 32-bit number at an offset. -/
def word (ofs : Nat) : BitVec 32 := wordAt (fun k => b.byte (ofs + k)) 0

/-- The 16-bit number at an offset. -/
def half (ofs : Nat) : Nat := (b.byte (ofs + 1) ++ b.byte ofs).toNat

/-- The executable header is read and verified (`process.c:412-422`): `e_phnum` and `e_phoff`,
    or none if `load` gives up. -/
def elfHeader : Option (Nat × Int) :=
  if 52 ≤ b.length ∧ (List.range 7).map b.byte = elfIdent ∧ b.half 16 = 2 ∧ b.half 18 = 3 ∧
      b.word 20 = 1 ∧ b.half 42 = 32 ∧ b.half 44 ≤ 1024 then
    some (b.half 44, (b.word 28).toInt)
  else none

/-- The program header at `file_ofs`, if it can be read (`process.c:427-433`). -/
def elfPhdr (fileOfs : Int) : Option ElfPhdr :=
  if 0 ≤ fileOfs ∧ fileOfs.toNat + 32 ≤ b.length then
    let ofs := fileOfs.toNat
    some ⟨b.word ofs, b.word (ofs + 4), b.word (ofs + 8), b.word (ofs + 16), b.word (ofs + 20),
      b.word (ofs + 24)⟩
  else none

/-- `load` gives up at the header at `file_ofs`. -/
def RejectsHeader (fileOfs : Int) : Prop := ∀ phdr ∈ b.elfPhdr fileOfs, phdr.Rejected b.length

instance (fileOfs : Int) : Decidable (b.RejectsHeader fileOfs) :=
  inferInstanceAs (Decidable (∀ phdr ∈ b.elfPhdr fileOfs, phdr.Rejected b.length))

end FileBytes

/-! ## Segments -/

/-- The page of a segment of which `readBytes` bytes are left in the file. -/
def segmentArgs (file : FileId) (ofs upage readBytes : Nat) (writable : Bool) : PageArgs where
  file := some file
  ofs := ofs
  upage := upage
  readBytes := min readBytes pgSize
  zeroBytes := pgSize - min readBytes pgSize
  fills := Nat.add_sub_cancel' (Nat.min_le_right ..)
  writable := writable

namespace Vm

/-- The loop of `load_segment` (`process.c:576-618`). A turn takes `PGSIZE` off `read_bytes` and
    `zero_bytes` together, so it takes as many turns as there are pages in their sum. -/
def segmentPages (t : ThreadId) (file : FileId) (writable : Bool) :
    Nat → Nat → Nat → Nat → Vm → Vm
  | 0, _, _, _, vm => vm
  | turns + 1, ofs, upage, readBytes, vm =>
      segmentPages t file writable turns (ofs + pgSize) (upage + 1)
        (readBytes - min readBytes pgSize)
        (vm.pageLazyLoad t (segmentArgs file ofs upage readBytes writable) .unalloc)

variable (vm : Vm)

/-- `load_segment` (`process.c:567-620`) as `load` calls it for a header. -/
def loadSegment (t : ThreadId) (file : FileId) (phdr : ElfPhdr) : Except Panic Vm :=
  let readBytes := phdr.readBytes
  let zeroBytes := phdr.zeroBytes
  let filePage := phdr.offset &&& ~~~pgMask
  let memPage := phdr.vaddr &&& ~~~pgMask
  if (readBytes + zeroBytes).toNat % pgSize = 0 ∧ memPage.toNat % pgSize = 0 ∧
      filePage.toNat % pgSize = 0 then
    .ok (segmentPages t file (phdr.flags &&& ElfPhdr.pfW ≠ 0)
      ((readBytes + zeroBytes).toNat / pgSize) filePage.toNat (memPage.toNat / pgSize)
      readBytes.toNat vm)
  else .error .assertion

end Vm

/-! ## Processes -/

/-- Where a process is in `load`. -/
inductive LoadPlace where
  /-- Before `filesys_open`; none if there is no such file. -/
  | opening (file : Option FileId)
  /-- In the loop, with the number of headers that are left and `file_ofs`. -/
  | headers (file : FileId) (left : Nat) (fileOfs : Int)

/-- The threads, virtual memory and the mapped files. -/
structure Processes where
  mmaps : Mmaps
  /-- `all_list`. -/
  allList : List ThreadId
  /-- `next_tid` of `allocate_tid`. -/
  nextTid : ThreadId
  /-- Where a process is in `load`, as long as it is there. -/
  load : ThreadId → Option LoadPlace

inductive ProcessStep where
  /-- `process_execute`: the new thread will load the file. -/
  | execute (file : Option FileId)
  /-- The next part of `load`. -/
  | load (t : ThreadId) (victim : Option FrameId)
  | processExit (t : ThreadId) (victims : Nat → Nat → Option FrameId)
  /-- A page fault, an eviction, a store, or a system call on files or mappings. -/
  | mmaps (step : MmapStep)

/-- `load` and `process_exit` have steps of their own. -/
def MmapStep.Ordinary : MmapStep → Prop
  | .loadSegment .. | .setupStack .. | .processExit .. => False
  | _ => True

instance (step : MmapStep) : Decidable step.Ordinary := by
  unfold MmapStep.Ordinary
  apply @MmapStep.casesOn _ step <;> intros <;> infer_instance

namespace Processes

variable (s : Processes)

/-- `thread_exit` (`thread.c:301-314`). -/
def threadExit (t : ThreadId) : Processes :=
  { s with
    mmaps := { s.mmaps with stage := update s.mmaps.stage t .exited }
    allList := s.allList.erase t
    load := update s.load t none }

def setLoad (t : ThreadId) (place : LoadPlace) : Processes :=
  { s with load := update s.load t (some place) }

/-- `load` has succeeded (`process.c:487-495`). -/
def startRunning (t : ThreadId) (file : FileId) : Processes :=
  { s with
    mmaps := { s.mmaps with
      vm := s.mmaps.vm.setDenyWrite file true
      stage := update s.mmaps.stage t .running }
    load := update s.load t none }

/-- The bytes of a file. -/
def bytes (file : FileId) : FileBytes := (s.mmaps.vm.file file).bytes

/-- A turn of the loop of `load` over the program headers (`process.c:423-478`). -/
def loadHeader (t : ThreadId) (file : FileId) (left : Nat) (fileOfs : Int) :
    Except Panic Processes :=
  match (s.bytes file).elfPhdr fileOfs with
  | none => .ok (s.threadExit t)
  | some phdr =>
      if phdr.Rejected (s.bytes file).length then .ok (s.threadExit t)
      else if phdr.type = ElfPhdr.ptLoad then do
        let vm ← s.mmaps.vm.loadSegment t file phdr
        .ok ({ s with mmaps := { s.mmaps with vm } }.setLoad t (.headers file left (fileOfs + 32)))
      else .ok (s.setLoad t (.headers file left (fileOfs + 32)))

/-- `setup_stack` and the end of `load` (`process.c:480-500`). -/
def setupStack (t : ThreadId) (file : FileId) (victim : Option FrameId) :
    Except Panic Processes := do
  let (success, vm) ← s.mmaps.vm.pageFullLoadStack t (physBasePage - 1) victim
  let s := { s with mmaps := { s.mmaps with vm } }
  .ok (if success then s.startRunning t file else s.threadExit t)

/-- The next part of `load` (`process.c:387-500`). If it fails, `start_process` calls
    `thread_exit` (`process.c:158-163`). -/
def loadPart (t : ThreadId) (victim : Option FrameId) : LoadPlace → Except Panic Processes
  | .opening none => .ok (s.threadExit t)
  | .opening (some file) =>
      match (s.bytes file).elfHeader with
      | none => .ok (s.threadExit t)
      | some (phnum, phoff) => .ok (s.setLoad t (.headers file phnum phoff))
  | .headers file 0 _ => s.setupStack t file victim
  | .headers file (left + 1) fileOfs => s.loadHeader t file left fileOfs

/-- `process_exit` (`process.c:230-296`). -/
def processExit (t : ThreadId) (victims : Nat → Nat → Option FrameId) :
    Except Panic Processes := do
  let mmaps ← s.mmaps.processExit t victims
  .ok ({ s with mmaps }.threadExit t)

/-- One step; `none` if the kernel stops in it or it cannot be taken. -/
def next : ProcessStep → Option Processes
  | .execute file =>
      some ({ s with allList := s.allList ++ [s.nextTid], nextTid := s.nextTid + 1 }.setLoad
        s.nextTid (.opening file))
  | .load t victim => do
      let place ← s.load t
      (s.loadPart t victim place).toOption
  | .processExit t victims =>
      if s.mmaps.stage t = .running then (s.processExit t victims).toOption else none
  | .mmaps step =>
      if step.Ordinary then (s.mmaps.next step).map fun mmaps => { s with mmaps } else none

/-- There are threads of the kernel only. -/
structure Initial (s : Processes) : Prop where
  mmaps : s.mmaps.Initial
  nodup : s.allList.Nodup
  old : ∀ t ∈ s.allList, t < s.nextTid
  load : ∀ t, s.load t = none

/-- `load` is at a program header and gives up at it. -/
def GivesUp : LoadPlace → Prop
  | .headers file (_ + 1) fileOfs => (s.bytes file).RejectsHeader fileOfs
  | .headers _ 0 _ | .opening _ => False

instance (place : LoadPlace) : Decidable (s.GivesUp place) := by
  unfold GivesUp
  split <;> infer_instance

/-- `load` gives up at a header only as long as it has registered no page for the process, and
    writes to mapped files stay inside their last page. -/
def Early : ProcessStep → Prop
  | .load t _ => ∀ place ∈ s.load t, s.GivesUp place → s.mmaps.vm.pageList t = []
  | .mmaps step => s.mmaps.Contained step
  | .execute _ | .processExit _ _ => True

instance (step : ProcessStep) : Decidable (s.Early step) := by
  unfold Early
  cases step <;> infer_instance

end Processes

end Pintos
