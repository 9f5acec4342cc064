import Mathlib.Data.BitVec

/-!
# Block devices

Sectors and their bytes, after `src/devices/block.h` and `src/devices/block.c`. A
device is known by its handle; `struct block`'s name, type and counters are used
by no modelled function and are left out.
-/

namespace Pintos

abbrev Byte := BitVec 8

/-- `BLOCK_SECTOR_SIZE` (`block.h:11`). -/
abbrev blockSectorSize : Nat := 512

/-- `block_sector_t` (`block.h:15`). -/
abbrev BlockSector := BitVec 32

/-- `BLOCK_SECTOR_NONE` (`block.h:16`). -/
def blockSectorNone : BlockSector := BitVec.allOnes 32

/-- The bytes of one sector. -/
abbrev SectorData := Fin blockSectorSize → Byte

namespace SectorData

/-- The byte at `i`; the callers stay below `blockSectorSize`. -/
def byte (d : SectorData) (i : Nat) : Byte :=
  if h : i < blockSectorSize then d ⟨i, h⟩ else 0

/-- `memcpy (buffer, data + offset, size)`: the bytes that reach the buffer. -/
def copyOut (d : SectorData) (offset size : Nat) : List Byte :=
  (List.range size).map fun k => d.byte (offset + k)

/-- `memcpy (data + offset, src, size)`. -/
def copyIn (d : SectorData) (offset size : Nat) (src : Nat → Byte) : SectorData :=
  fun i => if offset ≤ i ∧ i < offset + size then src (i - offset) else d i

@[simp] theorem byte_coe (d : SectorData) (i : Fin blockSectorSize) : d.byte i = d i := by
  simp [byte, i.2]

theorem byte_copyIn (d : SectorData) (offset size : Nat) (src : Nat → Byte) {i : Nat}
    (hi : i < blockSectorSize) :
    (d.copyIn offset size src).byte i =
      if offset ≤ i ∧ i < offset + size then src (i - offset) else d.byte i := by
  simp [byte, copyIn, hi]

theorem ext_byte {d e : SectorData} (same : ∀ i < blockSectorSize, d.byte i = e.byte i) :
    d = e := by
  funext i
  simpa using same i i.2

end SectorData

end Pintos
