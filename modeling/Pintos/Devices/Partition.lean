import Pintos.Devices.Block
import Pintos.Misc.Words

/-!
# Partition tables

Model of `partition_scan` (`src/devices/partition.c:26-162`). An extended partition is a table in a
sector of its own. `read_partition_table` takes the number of that sector, but whatever the number
is it reads sector 0.
-/

namespace Pintos

/-- `struct partition_table_entry` (`partition.c:53-61`), the fields that are read. -/
structure PartitionTableEntry where
  type : Byte
  offset : BlockSector
  size : BlockSector
  deriving DecidableEq

/-- `struct partition_table` (`partition.c:64-69`). -/
structure PartitionTable where
  partitions : List PartitionTableEntry
  signature : BitVec 16
  deriving DecidableEq

/-- The table in the bytes of a sector. -/
def SectorData.partitionTable (d : SectorData) : PartitionTable where
  partitions := (List.range 4).map fun i =>
    let e := 446 + 16 * i
    { type := d.byte (e + 4)
      offset := wordAt (fun k => d.byte (e + 8 + k)) 0
      size := wordAt (fun k => d.byte (e + 12 + k)) 0 }
  signature := d.byte 511 ++ d.byte 510

namespace PartitionTableEntry

variable (e : PartitionTableEntry)

def IsEmpty : Prop := e.size = 0 ∨ e.type = 0

def IsExtended : Prop := e.type = 0x05 ∨ e.type = 0x0f ∨ e.type = 0x85 ∨ e.type = 0xc5

instance : Decidable e.IsEmpty := inferInstanceAs (Decidable (_ ∨ _))

instance : Decidable e.IsExtended := inferInstanceAs (Decidable (_ ∨ _))

end PartitionTableEntry

/-- The arguments of a call of `found_partition`; the `n`-th call has `part_nr = n`. -/
structure FoundPartition where
  type : Byte
  start : BlockSector
  size : BlockSector
  deriving DecidableEq

/-- A reader of the table in a sector, with the primary extended sector and what was found. -/
abbrev TableReader :=
  BlockSector → BlockSector → List FoundPartition → Option (List FoundPartition)

/-- The loop over the entries (`partition.c:103-141`) of the table in `sector`. -/
def parsePartitions (read : TableReader) (sector primaryExtendedSector : BlockSector) :
    List PartitionTableEntry → List FoundPartition → Option (List FoundPartition)
  | [], found => some found
  | e :: rest, found =>
      if e.IsEmpty then parsePartitions read sector primaryExtendedSector rest found
      else if e.IsExtended then do
        let found ←
          (if sector = 0 then read e.offset e.offset found
            else read (e.offset + primaryExtendedSector) primaryExtendedSector found)
        parsePartitions read sector primaryExtendedSector rest found
      else
        parsePartitions read sector primaryExtendedSector rest
          (found ++ [⟨e.type, e.offset + sector, e.size⟩])

/-- `read_partition_table` with the table that it finds for each sector number; `none` if the
    calls are nested deeper than `fuel`. -/
def readTables (table : BlockSector → PartitionTable) (blockSize : BlockSector) :
    Nat → TableReader
  | 0, _, _, _ => none
  | fuel + 1, sector, primaryExtendedSector, found =>
      if blockSize ≤ sector then some found
      else if (table sector).signature ≠ 0xaa55 then some found
      else parsePartitions (readTables table blockSize fuel) sector primaryExtendedSector
        (table sector).partitions found

variable (disk : BlockSector → SectorData) (blockSize : BlockSector) (fuel : Nat)

/-- `partition_scan`: the table is that of `block_read (block, 0, pt)` (`partition.c:88`). -/
def partitionScan : Option (List FoundPartition) :=
  readTables (fun _ => (disk 0).partitionTable) blockSize fuel 0 0 []

/-- The partitions of the device, each extended table read from its own sector. -/
def chainedPartitions : Option (List FoundPartition) :=
  readTables (fun sector => (disk sector).partitionTable) blockSize fuel 0 0 []

/-- The calls of `read_partition_table` with their two sector numbers. -/
inductive Called : BlockSector → BlockSector → Prop
  | scan : Called 0 0
  | extended {sector primaryExtendedSector : BlockSector} {e : PartitionTableEntry} :
      Called sector primaryExtendedSector → sector < blockSize →
      (disk 0).partitionTable.signature = 0xaa55 → e ∈ (disk 0).partitionTable.partitions →
      ¬e.IsEmpty → e.IsExtended →
      Called (if sector = 0 then e.offset else e.offset + primaryExtendedSector)
        (if sector = 0 then e.offset else primaryExtendedSector)

/-- The partitions of a table in `sector`, with those of its extended entries. -/
def tablePartitions (sector : BlockSector) (logical : PartitionTableEntry → List FoundPartition)
    (entries : List PartitionTableEntry) : List FoundPartition :=
  entries.flatMap fun e =>
    if e.IsEmpty then [] else if e.IsExtended then logical e
    else [⟨e.type, e.offset + sector, e.size⟩]

/-- The partitions of a device whose extended tables have no extended table in turn. -/
def storedPartitions : List FoundPartition :=
  if blockSize ≤ 0 ∨ (disk 0).partitionTable.signature ≠ 0xaa55 then []
  else tablePartitions 0 (fun e =>
    if blockSize ≤ e.offset then []
    else tablePartitions e.offset (fun _ => []) (disk e.offset).partitionTable.partitions)
      (disk 0).partitionTable.partitions

/-- No table is read, or only sector 0, or the extended tables are copies of it and their own
    extended entries lead beyond the end of the device. -/
def FlatDevice : Prop :=
  blockSize ≤ 0 ∨ (disk 0).partitionTable.signature ≠ 0xaa55 ∨
    ∀ e ∈ (disk 0).partitionTable.partitions, ¬e.IsEmpty → e.IsExtended → e.offset < blockSize →
      e.offset ≠ 0 ∧ (disk e.offset).partitionTable = (disk 0).partitionTable ∧
        ∀ e' ∈ (disk 0).partitionTable.partitions, ¬e'.IsEmpty → e'.IsExtended →
          blockSize ≤ e'.offset + e.offset

variable {disk blockSize}

/-- The loop over a table, from what the calls for its extended entries find. -/
theorem parsePartitions_eq {read : TableReader} {sector primary : BlockSector}
    {logical : PartitionTableEntry → List FoundPartition} {entries : List PartitionTableEntry}
    (found : List FoundPartition) (calls : ∀ e ∈ entries, ¬e.IsEmpty → e.IsExtended → ∀ found,
      (if sector = 0 then read e.offset e.offset found
        else read (e.offset + primary) primary found) = some (found ++ logical e)) :
    parsePartitions read sector primary entries found =
      some (found ++ tablePartitions sector logical entries) := by
  unfold tablePartitions
  induction entries generalizing found with
  | nil => simp [parsePartitions]
  | cons e rest ih =>
    have tail := fun found => ih found fun e mem => calls e (List.mem_cons_of_mem _ mem)
    unfold parsePartitions
    rw [List.flatMap_cons, ← List.append_assoc]
    by_cases empty : e.IsEmpty
    · simpa only [if_pos empty, List.append_nil] using tail found
    by_cases extended : e.IsExtended
    · simpa only [if_neg empty, if_pos extended, calls e List.mem_cons_self empty extended,
        Option.bind_eq_bind, Option.bind_some] using tail (found ++ logical e)
    simpa only [if_neg empty, if_neg extended] using
      tail (found ++ [⟨e.type, e.offset + sector, e.size⟩])

theorem FlatDevice.readTables_eq (isFlat : FlatDevice disk blockSize)
    {table : BlockSector → PartitionTable} (first : table 0 = (disk 0).partitionTable)
    (copies : ∀ sector, (disk sector).partitionTable = (disk 0).partitionTable →
      table sector = (disk 0).partitionTable) :
    readTables table blockSize (fuel + 3) 0 0 [] = some (storedPartitions disk blockSize) := by
  rw [readTables, first]
  unfold storedPartitions
  by_cases empty : blockSize ≤ 0
  · rw [if_pos empty, if_pos (.inl empty)]
  by_cases signed : (disk 0).partitionTable.signature ≠ 0xaa55
  · rw [if_neg empty, if_pos signed, if_pos (.inr signed)]
  rw [if_neg empty, if_neg signed, if_neg (not_or.mpr ⟨empty, signed⟩),
    ← List.nil_append (tablePartitions 0 _ _)]
  have inside := (isFlat.resolve_left empty).resolve_left signed
  refine parsePartitions_eq [] fun e mem nonempty extended found => ?_
  rw [if_pos rfl, readTables]
  by_cases beyond : blockSize ≤ e.offset
  · rw [if_pos beyond, if_pos beyond, List.append_nil]
  obtain ⟨nonzero, copy, outside⟩ := inside e mem nonempty extended (BitVec.not_le.mp beyond)
  rw [if_neg beyond, if_neg beyond, copies _ copy, copy, if_neg signed]
  refine parsePartitions_eq found fun e' mem' nonempty' extended' found' => ?_
  rw [if_neg nonzero, readTables, if_pos (outside e' mem' nonempty' extended'), List.append_nil]

/-- No call gets further than the extended tables of sector 0. -/
theorem FlatDevice.called (isFlat : FlatDevice disk blockSize) {sector primary : BlockSector}
    (called : Called disk blockSize sector primary) : sector = 0 ∨ blockSize ≤ sector ∨
      sector = primary ∧ (disk sector).partitionTable = (disk 0).partitionTable ∧
        ∀ e ∈ (disk 0).partitionTable.partitions, ¬e.IsEmpty → e.IsExtended →
          blockSize ≤ e.offset + sector := by
  induction called with
  | scan => exact .inl rfl
  | @extended sector primary e _ inside signed mem nonempty extended ih =>
    by_cases zero : sector = 0
    · subst zero
      rw [if_pos rfl, if_pos rfl]
      by_cases beyond : blockSize ≤ e.offset
      · exact .inr (.inl beyond)
      have flat := (isFlat.resolve_left (BitVec.not_le.mpr inside)).resolve_left
        (not_not.mpr signed)
      exact .inr (.inr ⟨rfl, (flat e mem nonempty extended (BitVec.not_le.mp beyond)).2⟩)
    · obtain ⟨rfl, -, outside⟩ := (ih.resolve_left zero).resolve_left (BitVec.not_le.mpr inside)
      rw [if_neg zero, if_neg zero]
      exact .inr (.inl (outside e mem nonempty extended))

theorem parsePartitions_none {read : TableReader} {entries : List PartitionTableEntry}
    {e : PartitionTableEntry} (mem : e ∈ entries) (nonempty : ¬e.IsEmpty) (extended : e.IsExtended)
    {sector primary : BlockSector} (endless : ∀ found,
      (if sector = 0 then read e.offset e.offset found
        else read (e.offset + primary) primary found) = none) (found : List FoundPartition) :
    parsePartitions read sector primary entries found = none := by
  induction entries generalizing found with
  | nil => cases mem
  | cons first rest ih =>
    unfold parsePartitions
    rcases List.mem_cons.mp mem with rfl | mem
    · simp only [if_neg nonempty, if_pos extended, endless, Option.bind_eq_bind, Option.bind_none]
    have tail := ih mem
    split
    · exact tail found
    split
    · simp [tail]
    · exact tail _

/-- The scan finds the extended entries of sector 0 again at every depth. -/
theorem partitionScan_none (e e' : PartitionTableEntry)
    (mem : e ∈ (disk 0).partitionTable.partitions) (nonempty : ¬e.IsEmpty)
    (extended : e.IsExtended) (mem' : e' ∈ (disk 0).partitionTable.partitions)
    (nonempty' : ¬e'.IsEmpty) (extended' : e'.IsExtended)
    (signed : (disk 0).partitionTable.signature = 0xaa55)
    (first : e.offset < blockSize) (second : e'.offset + e.offset < blockSize) :
    partitionScan disk blockSize fuel = none := by
  have deep (sector primary : BlockSector) (inside : sector < blockSize)
      (base : sector = 0 ∨ primary = e.offset) (found : List FoundPartition) :
      readTables (fun _ => (disk 0).partitionTable) blockSize fuel sector primary found = none := by
    induction fuel generalizing sector primary found with
    | zero => rfl
    | succ fuel ih =>
      rw [readTables, if_neg (BitVec.not_le.mpr inside), if_neg (not_not.mpr signed)]
      by_cases zero : sector = 0
      · refine parsePartitions_none mem nonempty extended (fun found => ?_) found
        rw [if_pos zero]
        exact ih _ _ first (.inr rfl) found
      · obtain rfl := base.resolve_left zero
        refine parsePartitions_none mem' nonempty' extended' (fun found => ?_) found
        rw [if_neg zero]
        exact ih _ _ second (.inr rfl) found
  exact deep 0 0 (Nat.zero_le _ |>.trans_lt (BitVec.lt_def.mp first)) (.inl rfl) []

/-- The scan ends and takes each table from its own sector exactly if the device is flat; it then
    finds the partitions that are stored, each once. -/
theorem partitionScan_flat_iff (disk : BlockSector → SectorData) (blockSize : BlockSector) :
    ((∃ fuel found, partitionScan disk blockSize fuel = some found) ∧
      (∀ sector primary, Called disk blockSize sector primary → sector < blockSize →
        (disk 0).partitionTable = (disk sector).partitionTable) ↔ FlatDevice disk blockSize) ∧
    (FlatDevice disk blockSize → ∀ fuel,
      partitionScan disk blockSize (fuel + 3) = some (storedPartitions disk blockSize) ∧
      chainedPartitions disk blockSize (fuel + 3) = some (storedPartitions disk blockSize)) := by
  refine ⟨⟨fun ⟨⟨fuel, found, ends⟩, own⟩ => ?_, fun isFlat => ⟨⟨3, _,
    isFlat.readTables_eq 0 rfl fun _ _ => rfl⟩, fun sector primary called inside => ?_⟩⟩,
    fun isFlat fuel => ⟨isFlat.readTables_eq fuel rfl fun _ _ => rfl,
      isFlat.readTables_eq fuel rfl fun _ copy => copy⟩⟩
  · refine or_iff_not_imp_left.mpr fun nonempty => or_iff_not_imp_left.mpr fun signed => ?_
    have signed := not_not.mp signed
    intro e mem isUsed extended inside
    -- an extended entry that leads back into the device is found without end
    have outside (e' : PartitionTableEntry) (mem' : e' ∈ (disk 0).partitionTable.partitions)
        (isUsed' : ¬e'.IsEmpty) (extended' : e'.IsExtended) : blockSize ≤ e'.offset + e.offset := by
      refine BitVec.not_lt.mp fun second => ?_
      rw [partitionScan_none fuel _ _ mem isUsed extended mem' isUsed' extended' signed inside second]
        at ends
      cases ends
    refine ⟨fun zero => ?_, (own _ _ (.extended .scan (BitVec.not_le.mp nonempty) signed mem isUsed
      extended) inside).symm, outside⟩
    have := outside e mem isUsed extended
    rw [zero] at this
    exact nonempty this
  · rcases isFlat.called called with rfl | beyond | ⟨-, copy, -⟩
    · rfl
    · exact absurd inside (BitVec.not_lt.mpr beyond)
    · exact copy.symm

/-- A device with the extended table in sector 1, and one partition in that. -/
def extendedDisk (sector : BlockSector) : SectorData := fun k =>
  if k = 450 then if sector = 0 then 0x05 else 0x21
  else if k = 454 ∨ k = 458 then 1
  else if k = 510 then 0x55
  else if k = 511 then 0xaa
  else 0

theorem partitionScan_endless : ∃ disk blockSize,
    (∃ fuel found, chainedPartitions disk blockSize fuel = some found) ∧
      ∀ fuel, partitionScan disk blockSize fuel = none :=
  ⟨extendedDisk, 8, ⟨3, [⟨0x21, 2, 1⟩], by decide⟩, fun fuel =>
    partitionScan_none fuel ⟨0x05, 1, 1⟩ ⟨0x05, 1, 1⟩ (by decide) (by decide)
      (by decide) (by decide) (by decide) (by decide) (by decide) (by decide) (by decide)⟩

end Pintos
