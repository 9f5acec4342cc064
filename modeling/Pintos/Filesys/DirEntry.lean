import Pintos.Devices.Block

/-!
# Directory entries

`struct dir_entry` of `src/filesys/directory.c:17-23` and the names it can hold.
-/

namespace Pintos

/-- The characters of a C string, without the terminating null character. -/
abbrev FileName := List Byte

/-- `NAME_MAX` (`directory.h:13`). -/
def nameMax : Nat := 30

/-- The names `"."` and `".."`. -/
def dotName : FileName := [0x2e]
def dotDotName : FileName := [0x2e, 0x2e]

/-- `struct dir_entry`. -/
structure DirEntry where
  inodeSector : BlockSector
  name : FileName
  inUse : Bool
  deriving DecidableEq

/-- An entry of a part of the directory that was never written: all bytes zero. -/
def DirEntry.zero : DirEntry := { inodeSector := 0, name := [], inUse := false }

/-- The test of a slot by `lookup`: `e.in_use && !strcmp (name, e.name)`. -/
def DirEntry.isNamed (name : FileName) (e : DirEntry) : Bool := e.inUse && e.name == name

/-- The names that `dir_add` accepts (`directory.c:228-232`). -/
def validName (name : FileName) : Bool :=
  name ≠ [] && name.length ≤ nameMax && name ≠ dotName && name ≠ dotDotName

end Pintos
