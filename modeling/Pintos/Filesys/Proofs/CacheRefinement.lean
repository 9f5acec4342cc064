import Pintos.Filesys.Proofs.CacheView

/-!
# The cache refines an array of sectors

The buffer cache against its purpose: an array of sectors that takes every write
at once. A run is any list of `cache_read`, `cache_write` and `cache_flush` calls
on sectors of their devices, with buffers that do not fault.
-/

namespace Pintos

/-- A call on the cache. -/
inductive CacheCall (Dev : Type) where
  | read (block : Dev) (sector : BlockSector) (size offset : Nat)
  | write (block : Dev) (sector : BlockSector) (src : Nat → Byte) (size offset : Nat)
  | flush

namespace CacheCall

variable {Dev : Type}

/-- The calls `cache.c` is written for: the sector lies on the device and the
    bytes lie in the sector. -/
def Legal (blockSize : Dev → Nat) : CacheCall Dev → Prop
  | read block sector size offset | write block sector _ size offset =>
      sector ≠ blockSectorNone ∧ sector.toNat < blockSize block ∧ offset + size ≤ blockSectorSize
  | flush => True

variable [DecidableEq Dev]

/-- Execute a call; a read returns its bytes. -/
def exec (st : CacheState Dev) : CacheCall Dev → Option (List Byte × CacheState Dev)
  | read block sector size offset => st.cacheRead block sector size offset
  | write block sector src size offset =>
      (st.cacheWrite block sector src size offset).map fun st' => ([], st')
  | flush => st.cacheFlush.map fun st' => ([], st')

/-- Execute a list of calls and collect what the reads return. -/
def execAll : CacheState Dev → List (CacheCall Dev) → Option (List (List Byte) × CacheState Dev)
  | st, [] => some ([], st)
  | st, call :: rest => do
      let (bytes, st') ← call.exec st
      let (more, last) ← execAll st' rest
      some (bytes :: more, last)

end CacheCall

/-- The plain array of sectors the cache stands for. -/
abbrev PlainDisk (Dev : Type) := Dev → BlockSector → SectorData

namespace PlainDisk

variable {Dev : Type} [DecidableEq Dev]

/-- A call on the plain array: reads look, writes take effect at once. -/
def exec (plain : PlainDisk Dev) : CacheCall Dev → List Byte × PlainDisk Dev
  | .read block sector size offset => ((plain block sector).copyOut offset size, plain)
  | .write block sector src size offset =>
      ([], fun b s => if b = block ∧ s = sector then
        (plain block sector).copyIn offset size src else plain b s)
  | .flush => ([], plain)

/-- A list of calls on the plain array. -/
def execAll : PlainDisk Dev → List (CacheCall Dev) → List (List Byte) × PlainDisk Dev
  | plain, [] => ([], plain)
  | plain, call :: rest =>
      let (bytes, plain') := exec plain call
      let (more, last) := execAll plain' rest
      (bytes :: more, last)

end PlainDisk

namespace CacheState

variable {Dev : Type} [DecidableEq Dev]

theorem exec_refines {st : CacheState Dev} (wf : st.WellFormed) (call : CacheCall Dev)
    (legal : call.Legal st.blockSize) :
    ∃ st', call.exec st = some ((PlainDisk.exec st.view call).1, st') ∧ st'.WellFormed ∧
      st'.view = (PlainDisk.exec st.view call).2 ∧ st'.blockSize = st.blockSize ∧
      (call = .flush → st'.disk = st'.view) := by
  cases call with
  | read block sector size offset =>
    obtain ⟨st', run, wf', view', size'⟩ := cacheRead_spec wf legal.1 legal.2.1 size offset
    exact ⟨st', run, wf', view', size', by simp⟩
  | write block sector src size offset =>
    obtain ⟨st', run, wf', view', size'⟩ := cacheWrite_spec wf legal.1 legal.2.1 src size offset
    refine ⟨st', by simp [CacheCall.exec, run, PlainDisk.exec], wf', ?_, size', by simp⟩
    funext b s
    exact view' b s
  | flush =>
    obtain ⟨st', run, wf', view', size', disk'⟩ := cacheFlush_spec wf
    exact ⟨st', by simp [CacheCall.exec, run, PlainDisk.exec], wf', view', size',
      fun _ => disk'.trans view'.symm⟩

theorem execAll_refines (calls : List (CacheCall Dev)) :
    ∀ {st : CacheState Dev}, st.WellFormed → (∀ call ∈ calls, call.Legal st.blockSize) →
      ∃ st', CacheCall.execAll st calls = some ((PlainDisk.execAll st.view calls).1, st') ∧
        st'.WellFormed ∧ st'.view = (PlainDisk.execAll st.view calls).2 ∧
        st'.blockSize = st.blockSize := by
  induction calls with
  | nil => exact fun {st} wf _ => ⟨st, rfl, wf, rfl, rfl⟩
  | cons call rest ih =>
    intro st wf legal
    obtain ⟨mid, run, wfMid, viewMid, sizeMid, -⟩ := exec_refines wf call (legal call (by simp))
    have legalRest : ∀ later ∈ rest, later.Legal mid.blockSize := by
      intro later mem
      rw [sizeMid]
      exact legal later (List.mem_cons_of_mem _ mem)
    obtain ⟨last, runLast, wfLast, viewLast, sizeLast⟩ := ih wfMid legalRest
    rw [viewMid] at runLast viewLast
    refine ⟨last, ?_, wfLast, ?_, sizeLast.trans sizeMid⟩
    · simp [CacheCall.execAll, run, runLast, PlainDisk.execAll]
    · simpa [PlainDisk.execAll] using viewLast

end CacheState

open CacheState in
/-- Every run of the cache from `cache_init` returns what the plain array of sectors returns and
    never panics. After each call the blocks are unique, the clean ones equal the disk and
    `cache_list` is a permutation of the blocks; after a flush the disk is the plain array. -/
theorem cache_refines_plain_disk {Dev : Type} [DecidableEq Dev] (device : Dev)
    (disk : PlainDisk Dev) (blockSize : Dev → Nat) (calls : List (CacheCall Dev))
    (legal : ∀ call ∈ calls, call.Legal blockSize) :
    ∃ st, CacheCall.execAll (cacheInit device disk blockSize) calls =
        some ((PlainDisk.execAll disk calls).1, st) ∧
      (∀ i j, (st.cache i).valid → (st.cache j).valid →
        (st.cache i).block = (st.cache j).block → (st.cache i).sector = (st.cache j).sector →
          i = j) ∧
      (∀ i, (st.cache i).valid → (st.cache i).dirty = false →
        (st.cache i).data = st.disk (st.cache i).block (st.cache i).sector) ∧
      st.cacheList.Perm (List.finRange cacheSize) ∧
      ∃ flushed, st.cacheFlush = some flushed ∧
        flushed.disk = (PlainDisk.execAll disk calls).2 := by
  obtain ⟨wf, view⟩ := cacheInit_wellFormed device disk blockSize
  obtain ⟨st, run, wf', view', -⟩ := execAll_refines calls wf legal
  rw [view] at run view'
  obtain ⟨flushed, runFlush, -, -, -, synced⟩ := cacheFlush_spec wf'
  exact ⟨st, run, wf'.unique, wf'.clean, wf'.perm, flushed, runFlush, synced.trans view'⟩

/-- A write, a read back and a flush of one sector. -/
theorem cache_refines_plain_disk_one_sector :
    ∃ st, CacheCall.execAll (cacheInit () (fun _ _ _ => 0) (fun _ => 8))
        [.write () 3 (fun _ => 7) 2 510, .read () 3 3 509, .flush] =
        some ([[], [0, 7, 7], []], st) ∧
      st.cacheList.Perm (List.finRange cacheSize) := by
  obtain ⟨st, run, -, -, perm, -⟩ :=
    cache_refines_plain_disk () (fun _ _ _ => (0 : Byte)) (fun _ => 8)
      [.write () 3 (fun _ => 7) 2 510, .read () 3 3 509, .flush]
      (by simp [CacheCall.Legal, blockSectorNone])
  refine ⟨st, ?_, perm⟩
  rw [run]
  simp [PlainDisk.execAll, PlainDisk.exec, SectorData.copyOut, SectorData.byte,
    SectorData.copyIn, List.range_succ, blockSectorSize]

end Pintos
