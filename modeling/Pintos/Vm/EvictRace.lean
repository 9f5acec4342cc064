import Pintos.Misc.Transition
import Pintos.Vm.Page

/-!
# Eviction while the processes run

`frame_evict` of `src/vm/frame.c` from the point where the victim is chosen, taken apart:
the test of the dirty bit, the write of each sector by `swap_out`, the write-back to a
file, the reset of the dirty bit and the clearing of each mapping are steps of their own.
Between any two of them a process can be scheduled, and as long as its mapping is there it
can write to the page that is being saved; `frame_lock` does not keep it from that.
-/

namespace Pintos

/-- Where the contents of the victim were saved. -/
inductive SavedIn where
  /-- The page was not dirty; these were its contents when that was tested. -/
  | nowhere (d : PageData)
  | slot (slot : SlotId)
  | file (file : FileId) (ofs readBytes : Nat)

/-- The next step of `frame_evict`. -/
inductive EvictStage where
  /-- `pagedir_is_dirty` (`frame.c:224-227` or `250-252`). -/
  | testDirty
  /-- The write of a sector to the slot of the page `page` (`swap.c:47-49`). -/
  | writeSector (page : PageId) (slot : SlotId) (i : Nat)
  /-- `file_write_at` (`frame.c:254-256`). -/
  | writeBack (owner : FrameOwner) (file : FileId) (ofs readBytes : Nat)
  /-- `pagedir_set_dirty` (`frame.c:257-258`). -/
  | setClean (owner : FrameOwner) (file : FileId) (ofs readBytes : Nat)
  /-- `pagedir_clear_page` of the first of these owners (`frame.c:262-274`). -/
  | clear (savedIn : SavedIn) (owners : List FrameOwner)
  /-- `frame_free` (`frame.c:276`). -/
  | free
  | done

/-- An eviction in progress. -/
structure EvictRace where
  vm : Vm
  victim : FrameId
  stage : EvictStage

inductive RaceStep where
  /-- The next step of `frame_evict`. -/
  | evict
  /-- A process writes a byte. -/
  | userWrite (t : ThreadId) (addr : Nat) (b : Byte)

namespace EvictRace

variable (s : EvictRace)

/-- The frame of the victim. -/
def kpage : KPage := (s.vm.table.frame s.victim).kpage

def owners : List FrameOwner := (s.vm.table.frame s.victim).ownerList

/-- What follows when the victim is saved. -/
def clearFrom (savedIn : SavedIn) : List FrameOwner → EvictStage
  | [] => .free
  | owners => .clear savedIn owners

/-- The test of the dirty bit for a page of type `PAGE_ALLOC`. A slot is reserved before
    its sectors are written. -/
def testAlloc (first : FrameOwner) : Option EvictRace :=
  if (s.vm.pte first.thread first.upage).dirty then
    match bitmapScanAndFlip s.vm.swap.bitmap 0 1 false with
    | (none, _) => none
    | (some slot, bitmap) =>
        let given := Function.update s.vm.swap.given slot (s.vm.memory s.kpage)
        let swap := { s.vm.swap with bitmap, given }
        some { s with vm := { s.vm with swap }, stage := .writeSector first.supPage slot 0 }
  else
    let vm := s.owners.foldl (fun vm o => vm.modifyPage o.supPage fun page =>
      { page with type := .unalloc, slotIdx := none }) s.vm
    some { s with vm, stage := clearFrom (.nowhere (s.vm.memory s.kpage)) s.owners }

/-- The test of the dirty bit for a page of type `PAGE_FILE`. -/
def testFile (first : FrameOwner) (page : Page) : Option EvictRace :=
  if (s.vm.pte first.thread first.upage).dirty then
    match page.file with
    | none => none
    | some file => some { s with stage := .writeBack first file page.ofs page.readBytes }
  else some { s with stage := clearFrom (.nowhere (s.vm.memory s.kpage)) s.owners }

/-- The test of the dirty bit. -/
def testDirty : Option EvictRace :=
  match s.owners with
  | [] => none
  | first :: _ =>
      match s.vm.page first.supPage with
      | none => none
      | some page =>
          if first.upage = page.upage then
            match page.type with
            | .alloc => s.testAlloc first
            | .file => s.testFile first page
            | .unalloc => none
          else none

/-- The write of one sector; after the last one the page learns its slot. -/
def writeSector (p : PageId) (slot : SlotId) (i : Nat) : EvictRace :=
  let device := Function.update s.vm.swap.device (slot * slotSize + i)
    ((s.vm.memory s.kpage).sector i)
  let vm := { s.vm with swap := { s.vm.swap with device } }
  if i + 1 < slotSize then { s with vm, stage := .writeSector p slot (i + 1) }
  else
    { s with
      vm := vm.modifyPage p fun page => { page with slotIdx := some slot }
      stage := clearFrom (.slot slot) s.owners }

/-- The next step of `frame_evict`; `none` if the kernel stops in it or there is none. -/
def evict : Option EvictRace :=
  match s.stage with
  | .testDirty => s.testDirty
  | .writeSector p slot i => some (s.writeSector p slot i)
  | .writeBack owner file ofs readBytes =>
      let vm := s.vm.fileWriteAt file (s.vm.memory s.kpage) readBytes ofs
      some { s with vm, stage := .setClean owner file ofs readBytes }
  | .setClean owner file ofs readBytes =>
      let vm := s.vm.pagedirSetDirty owner.thread owner.upage false
      some { s with vm, stage := clearFrom (.file file ofs readBytes) s.owners }
  | .clear _ [] => none
  | .clear savedIn (o :: rest) =>
      let vm := (s.vm.pagedirClearPage o.thread o.upage).modifyPage o.supPage fun page =>
        { page with kpage := none }
      some { s with vm, stage := clearFrom savedIn rest }
  | .free =>
      let kpage := s.kpage
      let vm := { s.vm with table := s.vm.table.dropOwners s.victim }
      (vm.frameFree kpage).toOption.map fun vm => { s with vm, stage := .done }
  | .done => none

def next : RaceStep → Option EvictRace
  | .evict => s.evict
  | .userWrite t addr b => (s.vm.userWrite t addr b).map fun vm => { s with vm }

/-- The contents of the victim are where they were saved. For a file only the part that
    belongs to it counts. -/
def Kept : SavedIn → Prop
  | .nowhere d => s.vm.memory s.kpage = d
  | .slot slot => s.vm.swap.slotData slot = s.vm.memory s.kpage
  | .file file ofs readBytes => ∀ i : Fin pgSize, i < readBytes →
      (s.vm.file file).bytes.byte (ofs + i) = s.vm.memory s.kpage i

/-- The part of the page that `addr` is in can still change: it is not saved yet, and if
    it has to be saved this is known. -/
def Open (addr : Nat) : EvictStage → Prop
  | .testDirty | .writeBack .. => True
  | .writeSector _ _ i => i ≤ addr % pgSize / blockSectorSize
  | .setClean .. | .clear .. => False
  | .free | .done => True

/-- Write-back is to a file that can be written. -/
def Accepted (vm : Vm) : EvictStage → Prop
  | .writeBack _ file _ _ => (vm.file file).denyWrite = false
  | _ => True

/-- Nobody writes to a part of the victim that was saved or found clean, and its file, if
    it has one, takes the write-back. -/
def Spares : RaceStep → Prop
  | .evict => Accepted s.vm s.stage
  | .userWrite t addr _ =>
      (s.vm.pte t (addr / pgSize)).kpage = s.kpage → Open addr s.stage

instance (addr : Nat) (stage : EvictStage) : Decidable (Open addr stage) := by
  unfold Open
  cases stage <;> infer_instance

instance (vm : Vm) (stage : EvictStage) : Decidable (Accepted vm stage) := by
  unfold Accepted
  cases stage <;> infer_instance

instance (step : RaceStep) : Decidable (s.Spares step) := by
  unfold Spares
  cases step <;> infer_instance

/-- `frame_evict` has chosen a victim. -/
structure Chosen (s : EvictRace) : Prop where
  reached : Reachable Vm.Initial Vm.next AnyStep s.vm
  member : s.victim ∈ s.vm.table.frameList
  unpinned : (s.vm.table.frame s.victim).pinned = false
  stage : s.stage = .testDirty

end EvictRace

end Pintos
