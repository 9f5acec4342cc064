import Pintos.Userprog.Load

/-!
# The pages of a segment

The arithmetic of `load` and `load_segment` (`src/userprog/process.c`) on the fields of a program
header, with what becomes of values that need not fit into 32 bits left open: the processor wraps
them, and a checked machine stops.
-/

namespace Pintos

/-- Why there is no list of pages. -/
inductive SegmentError where
  | overflow
  | assertion
  /-- The loop takes more turns than are allowed. -/
  | turns
  deriving DecidableEq

/-- What a value becomes as an `uint32_t` and as an `off_t`. -/
structure Words where
  word : Int → Except SegmentError Int
  off : Int → Except SegmentError Int

namespace Words

def wrapping : Words := ⟨fun x => .ok (x % 2 ^ 32), fun x => .ok (int32 x)⟩

def checked : Words where
  word x := if 0 ≤ x ∧ x < 2 ^ 32 then .ok x else .error .overflow
  off x := if -2 ^ 31 ≤ x ∧ x < 2 ^ 31 then .ok x else .error .overflow

end Words

/-- The arguments of a call of `page_lazy_load` that differ from page to page. -/
structure SegmentPage where
  ofs : Int
  upage : Int
  readBytes : Int
  zeroBytes : Int

/-- What `page_full_load` puts at byte `i` of the page. -/
def SegmentPage.fill (page : SegmentPage) (b : FileBytes) (i : Nat) : Byte :=
  if i < page.readBytes then b.byte (page.ofs.toNat + i) else 0

section

variable (m : Words)

/-- `ROUND_UP (x, PGSIZE)`. -/
def roundUpPage (x : Int) : Except SegmentError Int := do
  let y ← m.word (x + 4096)
  let y ← m.word (y - 1)
  m.word (y / 4096 * 4096)

/-- The loop of `load_segment` (`process.c:576-618`). -/
def segmentLoop : Nat → Int → Int → Int → Int → Except SegmentError (List SegmentPage)
  | 0, _, _, _, _ => .error .turns
  | turns + 1, ofs, upage, readBytes, zeroBytes =>
      if 0 < readBytes ∨ 0 < zeroBytes then do
        let pageReadBytes := if readBytes < 4096 then readBytes else 4096
        let pageZeroBytes ← m.word (4096 - pageReadBytes)
        let readBytes ← m.word (readBytes - pageReadBytes)
        let zeroBytes ← m.word (zeroBytes - pageZeroBytes)
        let nextUpage ← m.word (upage + 4096)
        let nextOfs ← m.off (ofs + 4096)
        let rest ← segmentLoop turns nextOfs nextUpage readBytes zeroBytes
        .ok (⟨ofs, upage, pageReadBytes, pageZeroBytes⟩ :: rest)
      else .ok []

/-- The case `PT_LOAD` of `load` (`process.c:447-476`) for a header that `validate_segment`
    accepts, and the sum that this computes; at most so many turns of the loop. -/
def segmentOf (turns : Nat) (phdr : ElfPhdr) : Except SegmentError (List SegmentPage) := do
  let _ ← m.word (phdr.vaddr.toNat + phdr.memsz.toNat)
  let filePage := phdr.offset &&& ~~~pgMask
  let memPage := phdr.vaddr &&& ~~~pgMask
  let readBytes ← (if 0 < phdr.filesz then m.word (phdr.pageOffset.toNat + phdr.filesz.toNat)
    else .ok 0)
  let size ← m.word (phdr.pageOffset.toNat + phdr.memsz.toNat)
  let size ← roundUpPage m size
  let zeroBytes ← m.word (size - readBytes)
  let sum ← m.word (readBytes + zeroBytes)
  let ofs ← m.off filePage.toNat
  if sum % 4096 = 0 ∧ memPage.toNat % 4096 = 0 ∧ ofs % 4096 = 0 then
    segmentLoop m turns ofs memPage.toNat readBytes zeroBytes
  else .error .assertion

end

/-- The pages are those of the segment, and filling them gives its bytes. -/
structure DescribesSegment (phdr : ElfPhdr) (b : FileBytes) (pages : List SegmentPage) : Prop where
  /-- The pages are contiguous, from the page of the first byte to that of the last. -/
  upage : pages.map (·.upage) = (List.range pages.length).map fun i : Nat =>
    (4096 * (phdr.vaddr.toNat / 4096) + 4096 * i : Int)
  covers : phdr.vaddr.toNat / 4096 + pages.length =
    (phdr.vaddr.toNat + phdr.memsz.toNat + 4095) / 4096
  user : ∀ page ∈ pages, 4096 ≤ page.upage ∧ page.upage + 4096 ≤ physBase.toNat
  full : ∀ page ∈ pages, 0 ≤ page.readBytes ∧ 0 ≤ page.zeroBytes ∧
    page.readBytes + page.zeroBytes = 4096
  /-- `file_read` finds all the bytes in the file. -/
  reads : ∀ page ∈ pages, page.readBytes = 0 ∨
    0 ≤ page.ofs ∧ page.ofs + page.readBytes ≤ b.length
  bytes : ∀ k < phdr.memsz.toNat, ∀ page ∈ pages, ∀ i : Nat, i < 4096 →
    page.upage + i = phdr.vaddr.toNat + k →
      page.fill b i = if k < phdr.filesz.toNat then b.byte (phdr.offset.toNat + k) else 0

end Pintos
