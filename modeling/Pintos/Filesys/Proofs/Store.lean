import Pintos.Filesys.FreeMap
import Pintos.Filesys.Proofs.CacheView

/-!
# The sectors as a heap

The cache and the disk behind it are seen as one partial map from sectors to
their contents, defined on the sectors that the free map marks as used. Each
access of the file system to a used sector is one read or update of this map.
-/

namespace Pintos

open Option

/-! ## Sectors with a known format -/

namespace SectorData

/-- The sector that a write of all its bytes leaves. -/
def ofBytes (b : Nat → Byte) : SectorData := fun i => b i

@[simp] theorem byte_ofBytes (b : Nat → Byte) {k : Nat} (hk : k < blockSectorSize) :
    (ofBytes b).byte k = b k := by
  simp [byte, ofBytes, hk]

theorem copyIn_all (d : SectorData) (src : Nat → Byte) :
    d.copyIn 0 blockSectorSize src = ofBytes src := by
  funext i
  simp [copyIn, ofBytes]

theorem copyOut_getD (d : SectorData) {k : Nat} (hk : k < blockSectorSize) :
    (d.copyOut 0 blockSectorSize).getD k 0 = d.byte k := by
  simp [copyOut, List.getD_eq_getElem?_getD, hk]

end SectorData

namespace InodeDisk

/-- The inode in a sector. -/
def ofSector (c : SectorData) : InodeDisk := decode c.byte

/-- The sector of an inode. -/
def toSector (d : InodeDisk) : SectorData := .ofBytes d.encode

@[simp] theorem ofSector_toSector (d : InodeDisk) : ofSector d.toSector = d := by
  unfold ofSector toSector
  rw [decode_congr fun k hk => SectorData.byte_ofBytes d.encode hk, decode_encode]

end InodeDisk

namespace IndirectBlock

/-- The index block in a sector. -/
def ofSector (c : SectorData) : IndirectBlock := decode c.byte

/-- The sector of an index block. -/
def toSector (ib : IndirectBlock) : SectorData := .ofBytes ib.encode

@[simp] theorem ofSector_toSector (ib : IndirectBlock) : ofSector ib.toSector = ib := by
  unfold ofSector toSector
  rw [decode_congr fun k hk => SectorData.byte_ofBytes ib.encode hk, decode_encode]

@[simp] theorem toSector_ofSector (c : SectorData) : toSector (ofSector c) = c := by
  apply SectorData.ext_byte
  intro k hk
  rw [toSector, SectorData.byte_ofBytes _ hk, ofSector, encode_decode _ hk]

end IndirectBlock

/-! ## The heap of a state -/

/-- The contents of the sectors in use. -/
abbrev Heap := BlockSector → Option SectorData

namespace FS

/-- The free map marks the sector as used. -/
def Used (fs : FS) (sector : BlockSector) : Prop :=
  sector.toNat < fs.freeMap.bitCnt ∧ fs.freeMap.bits sector.toNat = true

instance (fs : FS) (sector : BlockSector) : Decidable (fs.Used sector) :=
  inferInstanceAs (Decidable (_ ∧ _))

/-- What a read of the sector through the cache returns. -/
def view (fs : FS) (sector : BlockSector) : SectorData := fs.store.view () sector

end FS

/-- The heap `g` is what the state stores. -/
structure Stored (g : Heap) (fs : FS) : Prop where
  wf : fs.store.WellFormed
  /-- The free map has one bit for each sector of the device. -/
  size : fs.store.blockSize () = fs.freeMap.bitCnt
  bound : fs.freeMap.bitCnt < 2 ^ 32
  heap : ∀ s, g s = if fs.Used s then some (fs.view s) else none

namespace Stored

variable {g : Heap} {fs : FS} {s : BlockSector} {c : SectorData}

section

variable (stored : Stored g fs)
include stored

theorem some_iff : g s = some c ↔ fs.Used s ∧ fs.view s = c := by
  rw [stored.heap s]
  split <;> simp_all

theorem used_iff : fs.Used s ↔ (g s).isSome := by
  rw [stored.heap s]
  split <;> simp_all

theorem range (held : g s = some c) : s.toNat < fs.store.blockSize () := by
  rw [stored.size]
  exact (stored.some_iff.mp held).1.1

/-- `BLOCK_SECTOR_NONE` is no sector of the device. -/
theorem ne_none (held : g s = some c) : s ≠ blockSectorNone := by
  intro same
  have low := (stored.some_iff.mp held).1.1
  have high := stored.bound
  rw [same, show blockSectorNone.toNat = 2 ^ 32 - 1 by decide] at low
  omega

theorem update (held : g s = some c) {store : CacheState Unit}
    {c' : SectorData} (wf : store.WellFormed) (size : store.blockSize = fs.store.blockSize)
    (view : ∀ t, store.view () t = if t = s then c' else fs.view t) :
    Stored (Function.update g s (some c')) { fs with store } := by
  have used : fs.Used s := (stored.some_iff.mp held).1
  refine ⟨wf, by rw [← stored.size]; exact congrFun size (), stored.bound, ?_⟩
  intro t
  show _ = if fs.Used t then some (store.view () t) else none
  rw [view t]
  by_cases same : t = s
  · subst same
    simp [used]
  · simp only [Function.update_of_ne same, same, if_false]
    exact stored.heap t

theorem of_view {store : CacheState Unit} (wf : store.WellFormed)
    (size : store.blockSize = fs.store.blockSize) (view : store.view = fs.store.view) :
    Stored g { fs with store } := by
  refine ⟨wf, by rw [← stored.size]; exact congrFun size (), stored.bound, ?_⟩
  intro t
  show _ = if fs.Used t then some (store.view () t) else none
  rw [view]
  exact stored.heap t

end

/-! ## Access -/

variable (stored : Stored g fs)
include stored

theorem cacheRead (held : g s = some c) (size offset : Nat) :
    ∃ store, fs.cacheRead s size offset = some (c.copyOut offset size, { fs with store }) ∧
      Stored g { fs with store } := by
  obtain ⟨store, run, wf, view, same⟩ :=
    CacheState.cacheRead_spec stored.wf (stored.ne_none held) (stored.range held) size offset
  refine ⟨store, ?_, stored.of_view wf same view⟩
  have content : fs.store.view () s = c := (stored.some_iff.mp held).2
  simp [FS.cacheRead, run, content]

theorem cacheWrite (held : g s = some c) (src : Nat → Byte) (size offset : Nat) :
    ∃ store, fs.cacheWrite s src size offset = some { fs with store } ∧
      Stored (Function.update g s (some (c.copyIn offset size src))) { fs with store } := by
  obtain ⟨store, run, wf, view, same⟩ :=
    CacheState.cacheWrite_spec stored.wf (stored.ne_none held) (stored.range held) src size offset
  refine ⟨store, by simp [FS.cacheWrite, run], stored.update held wf same ?_⟩
  intro t
  have content : fs.store.view () s = c := (stored.some_iff.mp held).2
  rw [view () t, content]
  simp [FS.view]

/-- A dropped sector keeps its bit in the free map but not its content. -/
theorem cacheFree (held : g s = some c) : ∃ store c', fs.cacheFree s = some { fs with store } ∧
      Stored (Function.update g s (some c')) { fs with store } := by
  obtain ⟨store, run, wf, same, view⟩ : ∃ store, fs.store.cacheFree () s = some store ∧ _ :=
    CacheState.cacheFree_spec stored.wf (stored.ne_none held)
  refine ⟨store, store.view () s, by simp [FS.cacheFree, run], stored.update held wf same ?_⟩
  intro t
  by_cases equal : t = s
  · rw [if_pos equal, equal]
  · rw [if_neg equal, view () t (fun both => equal both.2)]
    rfl

theorem cacheFlush :
    ∃ store, fs.cacheFlush = some { fs with store } ∧ Stored g { fs with store } := by
  obtain ⟨store, run, wf, view, same, -⟩ := CacheState.cacheFlush_spec stored.wf
  exact ⟨store, by simp [FS.cacheFlush, run], stored.of_view wf same view⟩

theorem readInode (held : g s = some c) :
    ∃ store, fs.readInode s = some (.ofSector c, { fs with store }) ∧
      Stored g { fs with store } := by
  obtain ⟨store, run, stored'⟩ := stored.cacheRead held blockSectorSize 0
  refine ⟨store, ?_, stored'⟩
  have decoded : InodeDisk.decode (fun k => (c.copyOut 0 blockSectorSize).getD k 0) = .ofSector c :=
    InodeDisk.decode_congr fun k hk => c.copyOut_getD hk
  simp only [FS.readInode, run, bind_eq_bind, bind_some, decoded]

theorem readIndirect (held : g s = some c) :
    ∃ store, fs.readIndirect s = some (.ofSector c, { fs with store }) ∧
      Stored g { fs with store } := by
  obtain ⟨store, run, stored'⟩ := stored.cacheRead held blockSectorSize 0
  refine ⟨store, ?_, stored'⟩
  have decoded :
      IndirectBlock.decode (fun k => (c.copyOut 0 blockSectorSize).getD k 0) = .ofSector c :=
    IndirectBlock.decode_congr fun k hk => c.copyOut_getD hk
  simp only [FS.readIndirect, run, bind_eq_bind, bind_some, decoded]

end Stored

end Pintos
