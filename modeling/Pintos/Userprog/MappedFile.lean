import Pintos.Userprog.Mmap

/-!
# A mapped file and the writes through its mapping

A file, and beside it the bytes that it is to have when its mapping goes: those of the file when
`mmap_` maps it, then at each offset the last byte that the process has stored through the
mapping. An offset behind the end of the file has a byte here too, which never gets to the file.
Evictions, page faults, other processes and other mappings go on meanwhile.
-/

namespace Pintos

/-- The machine, with the bytes that a file is to have. -/
structure MappedFile where
  mmaps : Mmaps
  bytes : Nat → Byte

/-- The address is one of the mapping. -/
def MmapData.HasAddr (d : MmapData) (t : ThreadId) (addr : Nat) : Prop :=
  d.owner = t ∧ d.uaddr ≤ addr ∧ addr < d.uaddr + d.count * pgSize

instance (d : MmapData) (t : ThreadId) (addr : Nat) : Decidable (d.HasAddr t addr) :=
  inferInstanceAs (Decidable (_ ∧ _ ∧ _))

namespace MappedFile

variable (file : FileId)

/-- What an operation does to the bytes of the file. -/
def record (s : MappedFile) : MmapStep → Nat → Byte
  | .mmap _ fd _ => if fd = some file then (s.mmaps.vm.file file).bytes.byte else s.bytes
  | .userWrite t addr b =>
      match s.mmaps.mmapTable.find? fun d => d.file = file ∧ d.HasAddr t addr with
      | none => s.bytes
      | some d => Function.update s.bytes (addr - d.uaddr) b
  | _ => s.bytes

/-- One operation. -/
def next (s : MappedFile) (step : MmapStep) : Option MappedFile :=
  (s.mmaps.next step).map fun mmaps => ⟨mmaps, s.record file step⟩

/-- The file is mapped. -/
def IsMapped (s : MappedFile) : Prop := ∃ d ∈ s.mmaps.mmapTable, d.file = file

instance (s : MappedFile) : Decidable (s.IsMapped file) :=
  inferInstanceAs (Decidable (∃ d ∈ s.mmaps.mmapTable, d.file = file))

/-- The file is mapped once and is not denied then; while it is mapped it is not written by other
    means, and writing is not denied. -/
def Undisturbed (s : MappedFile) : MmapStep → Prop
  | .mmap _ fd _ => fd = some file → (s.mmaps.vm.file file).denyWrite = false ∧ ¬ s.IsMapped file
  | .fileWrite f _ _ _ => f = file → ¬ s.IsMapped file
  | .setDenyWrite f denyWrite => f = file → denyWrite = true → ¬ s.IsMapped file
  | _ => True

instance (s : MappedFile) (step : MmapStep) : Decidable (s.Undisturbed file step) := by
  unfold Undisturbed
  apply @MmapStep.casesOn _ step <;> intros <;> infer_instance

/-- In addition, no write makes a mapped file longer than its last page. -/
def Apart (s : MappedFile) (step : MmapStep) : Prop :=
  s.Undisturbed file step ∧ s.mmaps.Contained step

instance (s : MappedFile) (step : MmapStep) : Decidable (s.Apart file step) :=
  inferInstanceAs (Decidable (_ ∧ _))

/-- No process was started. -/
def Initial (s : MappedFile) : Prop := s.mmaps.Initial

/-- The file has the bytes that it is to have. -/
def Holds (s : MappedFile) (after : Mmaps) : Prop :=
  after.vm.fileLength file = s.mmaps.vm.fileLength file ∧
    ∀ j < s.mmaps.vm.fileLength file, (after.vm.file file).bytes.byte j = s.bytes j

end MappedFile

end Pintos
