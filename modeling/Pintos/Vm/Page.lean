import Pintos.Filesys.Volume
import Pintos.Vm.Frame
import Pintos.Vm.Swap

/-!
# Virtual memory

Model of `src/vm/page.c` and of the parts of `src/vm/frame.c`, `src/userprog/pagedir.c`
and `src/threads/palloc.c` that it uses, for any number of processes. Each function
runs to its end; the kernel stops with a `Panic`.

A user page is its page number, a kernel page its number in the user pool, a `struct
page` the order of its allocation. A file is its inode: the bytes and whether writing
is denied. The accessed bits and `clock_ptr` only serve to choose a victim; the choice
is an argument here. Allocations from the kernel pool (`malloc`, page tables, the
scratch page of `page_free`) are taken to succeed.
-/

namespace Pintos

open Function

abbrev FileId := Nat

/-- The page number of `PHYS_BASE` (`loader.h:13`); user pages are below it. -/
abbrev physBasePage : Nat := 0xc0000

/-- `enum page_type` (`page.h:12-17`). -/
inductive PageType where
  | unalloc
  | alloc
  | file
  deriving DecidableEq

/-- Where the first contents of a page come from. -/
structure PageArgs where
  file : Option FileId
  ofs : Nat
  upage : Nat
  readBytes : Nat
  zeroBytes : Nat
  fills : readBytes + zeroBytes = pgSize
  writable : Bool

/-- `struct page` (`page.h:27-44`). -/
structure Page extends PageArgs where
  type : PageType
  kpage : Option KPage
  slotIdx : Option SlotId
  owner : ThreadId

/-- An entry of a page table (`pte.h`), without the accessed bit. Where there is no page
    table the entry is not present and clean. -/
structure Pte where
  present : Bool
  kpage : KPage
  writable : Bool
  dirty : Bool
  deriving DecidableEq

structure VmFile where
  bytes : FileBytes
  denyWrite : Bool
  /-- Where `file_read` ends early: at the beginning of a directory (`file.c:68-76`), and after the
      ten direct sectors once a growth that failed has taken the index blocks
      (`inode.c:346-348`, `378-380`). -/
  readEnd : Option Nat := none

/-- The bytes that `file_read` can return. -/
def VmFile.readable (f : VmFile) : Nat := min f.bytes.length (f.readEnd.getD f.bytes.length)

structure Vm where
  table : FrameTable
  /-- `used_map` of the user pool. -/
  userPool : Bitmap
  memory : KPage → PageData
  /-- The `struct page`s in use. -/
  page : PageId → Option Page
  nextPage : PageId
  /-- `sup_page_table`, in the order of its iterator. -/
  supPageTable : List PageId
  /-- `page_list` of each process. -/
  pageList : ThreadId → List PageId
  pte : ThreadId → Nat → Pte
  swap : Swap
  file : FileId → VmFile
  /-- `name` of each thread. -/
  name : ThreadId → List Byte

namespace Vm

variable (vm : Vm)

/-- Change a `struct page`. -/
def modifyPage (p : PageId) (change : Page → Page) : Vm :=
  { vm with page := update vm.page p ((vm.page p).map change) }

/-! ## `palloc.c` -/

/-- `palloc_get_page (PAL_USER)`, with `zero` for `PAL_ZERO` (`palloc.c:70-112`). -/
def pallocGetPage (zero : Bool) : Option (KPage × Vm) :=
  match bitmapScanAndFlip vm.userPool 0 1 false with
  | (none, _) => none
  | (some kpage, userPool) =>
      let memory := if zero then update vm.memory kpage fun _ => 0 else vm.memory
      some (kpage, { vm with userPool, memory })

/-- `palloc_free_page` (`palloc.c:117-149`), which fills the page with `0xcc`. -/
def pallocFreePage (kpage : KPage) : Except Panic Vm :=
  if bitmapAll vm.userPool kpage 1 then
    .ok { vm with userPool := bitmapSetMultiple vm.userPool kpage 1 false
                  memory := update vm.memory kpage fun _ => 0xcc }
  else .error .assertion

/-! ## `pagedir.c` -/

def setPte (t : ThreadId) (upage : Nat) (entry : Pte) : Vm :=
  { vm with pte := update vm.pte t (update (vm.pte t) upage entry) }

/-- `pagedir_install_page` (`pagedir.c:238-246`). -/
def pagedirInstallPage (t : ThreadId) (upage : Nat) (kpage : KPage) (writable : Bool) :
    Option Vm :=
  if (vm.pte t upage).present then none
  else some (vm.setPte t upage ⟨true, kpage, writable, false⟩)

/-- `pagedir_clear_page` (`pagedir.c:139-153`). -/
def pagedirClearPage (t : ThreadId) (upage : Nat) : Vm :=
  vm.setPte t upage { vm.pte t upage with present := false }

/-- `pagedir_set_dirty` (`pagedir.c:168-182`). -/
def pagedirSetDirty (t : ThreadId) (upage : Nat) (dirty : Bool) : Vm :=
  vm.setPte t upage { vm.pte t upage with dirty }

/-! ## `frame.c` -/

/-- `frame_free` (`frame.c:111-141`). -/
def frameFree (kpage : KPage) : Except Panic Vm :=
  match vm.table.frameFree kpage with
  | none => .error .assertion
  | some (table, none) => .ok { vm with table }
  | some (table, some _) => { vm with table }.pallocFreePage kpage

/-- `file_write_at (file, kpage, size, ofs)`. -/
def fileWriteAt (file : FileId) (d : PageData) (size ofs : Nat) : Vm :=
  if (vm.file file).denyWrite then vm
  else
    let bytes := (vm.file file).bytes.write d.byte size ofs
    { vm with file := update vm.file file { vm.file file with bytes } }

/-- A victim of type `PAGE_ALLOC` (`frame.c:224-249`). -/
def saveAlloc (kpage : KPage) (owners : List FrameOwner) (first : FrameOwner) : Except Panic Vm :=
  if (vm.pte first.thread first.upage).dirty then
    match vm.swap.swapOut (vm.memory kpage) with
    | (none, _) => .error .swapFull
    | (some slot, swap) =>
        .ok ({ vm with swap }.modifyPage first.supPage fun page =>
          { page with slotIdx := some slot })
  else
    .ok (owners.foldl (fun vm o => vm.modifyPage o.supPage fun page =>
      { page with type := .unalloc, slotIdx := none }) vm)

/-- A victim of type `PAGE_FILE` (`frame.c:250-260`). -/
def saveFile (kpage : KPage) (first : FrameOwner) (page : Page) : Except Panic Vm :=
  if (vm.pte first.thread first.upage).dirty then
    match page.file with
    | none => .error .undefined
    | some file =>
        .ok ((vm.fileWriteAt file (vm.memory kpage) page.readBytes page.ofs).pagedirSetDirty
          first.thread first.upage false)
  else .ok vm

/-- The part of `frame_evict` that saves the contents of the victim (`frame.c:219-260`). -/
def saveVictim (kpage : KPage) (owners : List FrameOwner) : Except Panic Vm :=
  match owners with
  | [] => .error .undefined
  | first :: _ =>
      match vm.page first.supPage with
      | none => .error .undefined
      | some page =>
          if first.upage = page.upage then
            match page.type with
            | .alloc => vm.saveAlloc kpage owners first
            | .file => vm.saveFile kpage first page
            | .unalloc => .error .assertion
          else .error .assertion

/-- The loop of `frame_evict` over the owners of the victim (`frame.c:262-273`). -/
def unbind (owners : List FrameOwner) : Vm :=
  owners.foldl (fun vm o => (vm.pagedirClearPage o.thread o.upage).modifyPage o.supPage
    fun page => { page with kpage := none }) vm

/-- `frame_evict` once the victim is found (`frame.c:219-277`). -/
def evictVictim (f : FrameId) : Except Panic Vm := do
  let frame := vm.table.frame f
  let vm ← vm.saveVictim frame.kpage frame.ownerList
  let vm := vm.unbind frame.ownerList
  { vm with table := vm.table.dropOwners f }.frameFree frame.kpage

/-- `frame_evict` (`frame.c:176-277`). The victim is a frame of the list that is not
    pinned; without one the function returns. -/
def frameEvict (victim : Option FrameId) : Except Panic Vm :=
  match victim with
  | none => .ok vm
  | some f =>
      if f ∈ vm.table.frameList ∧ (vm.table.frame f).pinned = false then vm.evictVictim f
      else .ok vm

/-- `frame_alloc` when it has a page. -/
def addFrame (kpage : KPage) (owner : FrameOwner) (pinned : Bool) : Vm :=
  { vm with table := vm.table.frameAlloc none kpage owner pinned }

/-- `frame_alloc` (`frame.c:42-71`). -/
def frameAlloc (zero : Bool) (owner : FrameOwner) (pinned : Bool) (victim : Option FrameId) :
    Except Panic (KPage × Vm) :=
  if owner.upage < physBasePage then
    match vm.pallocGetPage zero with
    | some (kpage, vm) => .ok (kpage, vm.addFrame kpage owner pinned)
    | none => do
        let vm ← vm.frameEvict victim
        match vm.pallocGetPage zero with
        | some (kpage, vm) => .ok (kpage, vm.addFrame kpage owner pinned)
        | none => .error .noFrame
  else .error .assertion

/-! ## `page.c` -/

/-- The page is the one of this process at this address. -/
def HasKey (t : ThreadId) (upage : Nat) (p : PageId) : Prop :=
  ∃ page ∈ vm.page p, page.owner = t ∧ page.upage = upage

instance (t : ThreadId) (upage : Nat) (p : PageId) : Decidable (vm.HasKey t upage p) := by
  unfold HasKey
  cases vm.page p <;> infer_instance

/-- `get_page` (`page.c:65-76`). -/
def getPage (t : ThreadId) (upage : Nat) : Option PageId :=
  vm.supPageTable.find? fun p => vm.HasKey t upage p

/-- A new `struct page`, put into `sup_page_table` and `page_list` (`page.c:36-62` and
    `217-239`). -/
def addPage (page : Page) : Vm :=
  { vm with
    page := update vm.page vm.nextPage (some page)
    nextPage := vm.nextPage + 1
    supPageTable :=
      if vm.getPage page.owner page.upage = none then vm.nextPage :: vm.supPageTable
      else vm.supPageTable
    pageList :=
      if page.type = .unalloc then
        update vm.pageList page.owner (vm.pageList page.owner ++ [vm.nextPage])
      else vm.pageList }

/-- `page_lazy_load` (`page.c:34-62`). -/
def pageLazyLoad (t : ThreadId) (args : PageArgs) (type : PageType) : Vm :=
  vm.addPage { args with type, kpage := none, slotIdx := none, owner := t }

/-- The record of a page among the owners of a frame. -/
def ownerRecord (p : PageId) (page : Page) : FrameOwner := ⟨page.upage, page.owner, p⟩

/-- The contents of a page that was never written: bytes of its file, then zeros. -/
def initialData (page : Page) : PageData := fun i =>
  if i < page.readBytes then
    match page.file with
    | none => 0
    | some file => (vm.file file).bytes.byte (page.ofs + i)
  else 0

/-- `file_read` returns all `read_bytes` (`page.c:127-133`). -/
def ReadsAll (page : Page) : Prop :=
  page.readBytes = 0 ∨
    ∃ file ∈ page.file, page.ofs + page.readBytes ≤ (vm.file file).readable

instance (page : Page) : Decidable (vm.ReadsAll page) := by
  unfold ReadsAll
  cases page.file <;> infer_instance

/-- The label `fail` of `page_full_load` with a frame (`page.c:165-168`). -/
def failLoad (kpage : KPage) : Except Panic (Bool × Vm) := do
  let vm ← vm.frameFree kpage
  .ok (false, vm)

/-- The label `end` of `page_full_load` (`page.c:149-163`). -/
def finishLoad (p : PageId) (page : Page) (kpage : KPage) : Except Panic (Bool × Vm) :=
  match vm.pagedirInstallPage page.owner page.upage kpage page.writable with
  | none => vm.failLoad kpage
  | some vm =>
      let vm :=
        if page.type = .alloc then vm.pagedirSetDirty page.owner page.upage true else vm
      let vm := vm.modifyPage p fun page =>
        { page with kpage := some kpage
                    type := if page.type = .unalloc then .alloc else page.type }
      match vm.table.frameSetPinned kpage false with
      | none => .error .assertion
      | some table => .ok (true, { vm with table })

/-- A page whose frame can be shared (`page.c:104-107`). -/
def Sharable (page cur : Page) : Prop :=
  vm.name page.owner = vm.name cur.owner ∧ page.ofs = cur.ofs ∧ cur.type = .alloc ∧
    cur.writable = false

instance (page cur : Page) : Decidable (vm.Sharable page cur) :=
  inferInstanceAs (Decidable (_ ∧ _))

/-- The loop of `page_full_load` over `sup_page_table` (`page.c:94-118`). -/
def sharedPage (page : Page) : Option Page :=
  if page.type = .unalloc ∧ page.file ≠ none ∧ page.writable = false then
    vm.supPageTable.findSome? fun q => (vm.page q).filter fun cur => vm.Sharable page cur
  else none

/-- `page_full_load` with a frame to share (`page.c:109-116`). -/
def loadShared (p : PageId) (page cur : Page) : Except Panic (Bool × Vm) :=
  match cur.kpage, cur.slotIdx with
  | some kpage, none =>
      if page.upage < physBasePage then
        match vm.table.frameShare kpage (ownerRecord p page) with
        | none => .error .assertion
        | some table => { vm with table }.finishLoad p page kpage
      else .error .assertion
  | _, _ => .error .assertion

/-- `page_full_load` from the file (`page.c:122-135`). -/
def loadFile (p : PageId) (page : Page) (victim : Option FrameId) : Except Panic (Bool × Vm) := do
  let (kpage, vm) ← vm.frameAlloc false (ownerRecord p page) true victim
  if vm.ReadsAll page then
    let memory := update vm.memory kpage (vm.initialData page)
    Vm.finishLoad { vm with memory } p page kpage
  else vm.failLoad kpage

/-- `page_full_load` from a swap slot (`page.c:137-147`). -/
def loadSlot (p : PageId) (page : Page) (slot : SlotId) (victim : Option FrameId) :
    Except Panic (Bool × Vm) := do
  let (kpage, vm) ← vm.frameAlloc false (ownerRecord p page) true victim
  match ← vm.swap.swapIn slot with
  | none => vm.failLoad kpage
  | some (d, swap) =>
      let memory := update vm.memory kpage d
      Vm.finishLoad { vm with swap, memory } p page kpage

/-- `page_full_load` of a page that was found. -/
def loadPage (p : PageId) (page : Page) (victim : Option FrameId) : Except Panic (Bool × Vm) :=
  match page.type, page.kpage, page.slotIdx with
  | .alloc, none, some slot => vm.loadSlot p page slot victim
  | .unalloc, none, none | .file, none, none =>
      match vm.sharedPage page with
      | some cur => vm.loadShared p page cur
      | none => vm.loadFile p page victim
  | _, _, _ => .error .assertion

/-- `page_full_load` (`page.c:80-169`), called by `t` for the fault address `addr`. -/
def pageFullLoad (t : ThreadId) (addr : Nat) (victim : Option FrameId) :
    Except Panic (Bool × Vm) :=
  if addr = 0 then .ok (false, vm)
  else
    match vm.getPage t (addr / pgSize) with
    | none => .ok (false, vm)
    | some p =>
        match vm.page p with
        | none => .error .undefined
        | some page => vm.loadPage p page victim

/-- The arguments of a stack page (`page.c:230-235`). -/
def stackArgs (upage : Nat) : PageArgs where
  file := none
  ofs := 0
  upage := upage
  readBytes := 0
  zeroBytes := pgSize
  fills := rfl
  writable := true

/-- `page_full_load_stack` (`page.c:214-258`). -/
def pageFullLoadStack (t : ThreadId) (upage : Nat) (victim : Option FrameId) :
    Except Panic (Bool × Vm) := do
  let p := vm.nextPage
  let vm := vm.pageLazyLoad t (stackArgs upage) .unalloc
  let (kpage, vm) ← vm.frameAlloc true ⟨upage, t, p⟩ true victim
  match vm.pagedirInstallPage t upage kpage true with
  | none => Vm.failLoad { vm with page := update vm.page p none } kpage
  | some vm =>
      let vm := vm.modifyPage p fun page => { page with kpage := some kpage, type := .alloc }
      match vm.table.frameSetPinned kpage false with
      | none => .error .assertion
      | some table => .ok (true, { vm with table })

/-- `page_free` with a frame (`page.c:177-190`). -/
def freeResident (p : PageId) (page : Page) (kpage : KPage) : Except Panic Vm :=
  match vm.table.frameRemove kpage p with
  | none => .error .assertion
  | some (table, freed) => do
      let vm := { vm with table }
      let vm ← if freed = none then .ok vm else vm.pallocFreePage kpage
      let vm := vm.modifyPage p fun page => { page with kpage := none }
      .ok ((vm.pagedirSetDirty page.owner page.upage false).pagedirClearPage page.owner page.upage)

/-- `page_free` of a page that is in a swap slot (`page.c:191-199`). -/
def freeSlot (page : Page) : Except Panic Vm :=
  match page.slotIdx with
  | none => .error .assertion
  | some slot => do
      match ← vm.swap.swapIn slot with
      | none => .error .assertion
      | some (_, swap) => .ok { vm with swap }

/-- The end of `page_free` (`page.c:204-209`). `hash_delete` removes the element that is
    equal to the page. -/
def dropPage (p : PageId) (page : Page) : Vm :=
  { vm with
    page := update vm.page p none
    supPageTable :=
      match vm.getPage page.owner page.upage with
      | none => vm.supPageTable
      | some q => vm.supPageTable.erase q
    pageList :=
      if page.type = .file then vm.pageList
      else update vm.pageList page.owner ((vm.pageList page.owner).erase p) }

/-- Pin the frame of a page, if it has one. -/
def pinPage (page : Page) (status : Bool) : Except Panic Vm :=
  match page.kpage with
  | none => .ok vm
  | some kpage =>
      match vm.table.frameSetPinned kpage status with
      | none => .error .assertion
      | some table => .ok { vm with table }

/-- `page_free` (`page.c:171-210`). A frame that `page_free` has pinned is unpinned at
    the end only if the page still has it. -/
def pageFree (p : PageId) : Except Panic Vm :=
  match vm.page p with
  | none => .error .undefined
  | some page => do
      let vm ← vm.pinPage page true
      let (vm, kpage) ←
        match page.type, page.kpage with
        | .unalloc, kpage => .ok (vm, kpage)
        | _, some kpage => do
            let vm ← vm.freeResident p page kpage
            .ok (vm, none)
        | _, none => do
            let vm ← vm.freeSlot page
            .ok (vm, none)
      let vm ← vm.pinPage { page with kpage } false
      .ok (vm.dropPage p page)

/-! ## User accesses -/

/-- The byte that a process reads at an address; `none` if the access faults. -/
def userRead (t : ThreadId) (addr : Nat) : Option Byte :=
  let entry := vm.pte t (addr / pgSize)
  if entry.present then some ((vm.memory entry.kpage).byte (addr % pgSize)) else none

/-- A process writes a byte, and the processor sets the dirty bit; `none` if the access faults. -/
def userWrite (t : ThreadId) (addr : Nat) (b : Byte) : Option Vm :=
  let entry := vm.pte t (addr / pgSize)
  if entry.present ∧ entry.writable then
    let d := fun i : Fin pgSize => if i = addr % pgSize then b else vm.memory entry.kpage i
    some ({ vm with memory := update vm.memory entry.kpage d }.setPte t (addr / pgSize)
      { entry with dirty := true })
  else none

/-! ## Exit -/

/-- The loop of `process_exit` over `page_list` (`process.c:260-270`). -/
def freePageList (t : ThreadId) : Except Panic Vm := (vm.pageList t).foldlM pageFree vm

/-- `pagedir_destroy` gives the page back to the pool (`pagedir.c:28-49`): a present
    entry maps it. -/
def PagedirDestroyFrees (t : ThreadId) (kpage : KPage) : Prop :=
  ∃ upage, (vm.pte t upage).present = true ∧ (vm.pte t upage).kpage = kpage

/-! ## Runs -/

/-- The state after `palloc_init`, `frame_init`, `page_init` and `swap_init`. -/
structure Initial (vm : Vm) : Prop where
  table : vm.table = .frameInit
  userPool : ∀ k, vm.userPool.bits k = false
  page : ∀ p, vm.page p = none
  supPageTable : vm.supPageTable = []
  pageList : ∀ t, vm.pageList t = []
  pte : ∀ t upage, (vm.pte t upage).present = false
  swap : ∀ slot, vm.swap.bitmap.bits slot = false

end Vm

inductive VmStep where
  /-- `load_segment` and `mmap_` make pages of type `PAGE_UNALLOC` and `PAGE_FILE`, both
      with a file. -/
  | pageLazyLoad (t : ThreadId) (args : PageArgs) (type : PageType)
  | pageFullLoad (t : ThreadId) (addr : Nat) (victim : Option FrameId)
  | pageFullLoadStack (t : ThreadId) (upage : Nat) (victim : Option FrameId)
  | pageFree (p : PageId)
  | frameEvict (victim : Option FrameId)
  | userWrite (t : ThreadId) (addr : Nat) (b : Byte)
  /-- The iterator goes through `sup_page_table` in another order. -/
  | rehash (order : List PageId)

/-- One operation; `none` if the kernel stops in it or it cannot be taken. -/
def Vm.next (vm : Vm) : VmStep → Option Vm
  | .pageLazyLoad t args type =>
      if type ≠ .alloc ∧ args.file ≠ none then some (vm.pageLazyLoad t args type) else none
  | .pageFullLoad t addr victim => (vm.pageFullLoad t addr victim).toOption.map Prod.snd
  | .pageFullLoadStack t upage victim =>
      (vm.pageFullLoadStack t upage victim).toOption.map Prod.snd
  | .pageFree p => (vm.pageFree p).toOption
  | .frameEvict victim => (vm.frameEvict victim).toOption
  | .userWrite t addr b => vm.userWrite t addr b
  | .rehash order =>
      if order.Perm vm.supPageTable then some { vm with supPageTable := order } else none

end Pintos
