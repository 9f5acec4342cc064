import Pintos.Filesys.Proofs.FileData

/-!
# Allocating and releasing sectors

Every change of the free map is written to the file of the free map. `On F h fs`
hides that file: `F` are the sectors it occupies, and `h` is the heap without
them. Seen this way an allocation adds one sector to the heap, a release removes
one, and no other sector changes.
-/

namespace Pintos

open List Option BitVec
open Function (update update_idem update_of_ne update_self)

variable {fs fs' fs'' : FS} {g g' : Heap} {F : List BlockSector} {s : BlockSector} {inode : Inode}
  {L : Layout}

/-- The heap without the sectors in `F`. -/
def Heap.without (g : Heap) (F : List BlockSector) : Heap := fun s => if s ∈ F then none else g s

/-- The free map's file is open and long enough for the free map. -/
structure FreeMapOpen (g : Heap) (fs : FS) (inode : Inode) (L : Layout) : Prop where
  opened : fs.openInodes freeMapSector = some inode
  once : inode.openCnt = 1
  kept : inode.removed = false
  allowed : inode.denyWriteCnt = 0
  disk : g freeMapSector = some inode.data.toSector
  maps : Maps g inode.data L
  owns : Owns g (freeMapSector :: L.sectors)
  length : inode.data.length.toInt = bitmapFileSize fs.freeMap
  fits : bitmapFileSize fs.freeMap ≤ 512 * L.data.length

/-- The file holds the free map. -/
def Saved (g : Heap) (b : Bitmap) (L : Layout) : Prop :=
  ∀ i < b.bitCnt, (fileByte g L.data (i / 8)).getLsbD (i % 8) = b.bits i

theorem bitmapBytes_getLsbD (b : Bitmap) (i : Nat) :
    (bitmapBytes b (i / 8)).getLsbD (i % 8) = b.bits i := by
  have split : i = 8 * (i / 8) + i % 8 := by omega
  have low : i % 8 < 8 := Nat.mod_lt _ (by decide)
  unfold bitmapBytes
  rw [getLsbD_ofBoolListLE]
  conv_rhs => rw [split]
  generalize i / 8 = k
  generalize i % 8 = j at low
  have cases : j = 0 ∨ j = 1 ∨ j = 2 ∨ j = 3 ∨ j = 4 ∨ j = 5 ∨ j = 6 ∨ j = 7 := by omega
  rcases cases with rfl | rfl | rfl | rfl | rfl | rfl | rfl | rfl <;> rfl

/-- The state stores the heap `h` and, in the sectors `F`, its free map. Before
    `free_map_create` there is no file, and `F` is empty. -/
structure OnWith (F : List BlockSector) (g h : Heap) (fs : FS) : Prop where
  stored : Stored g fs
  heap : h = g.without F
  absent : fs.freeMapFile = false → F = []
  file : fs.freeMapFile = true → ∃ inode L,
    F = freeMapSector :: L.sectors ∧ FreeMapOpen g fs inode L ∧ Saved g fs.freeMap L

/-- The state stores the heap `h` beside the free map. -/
def On (F : List BlockSector) (h : Heap) (fs : FS) : Prop := ∃ g, OnWith F g h fs

/-- No sector is free. -/
def Exhausted (F : List BlockSector) (h : Heap) (fs : FS) : Prop :=
  ∀ s : BlockSector, s.toNat < fs.freeMap.bitCnt → s ∈ F ∨ (h s).isSome

/-- What the operations on sectors leave alone, an allocation included. -/
structure Later (fs fs' : FS) : Prop where
  openInodes : fs'.openInodes = fs.openInodes
  freeMapFile : fs'.freeMapFile = fs.freeMapFile
  bitCnt : fs'.freeMap.bitCnt = fs.freeMap.bitCnt
  growFailed : fs'.growFailed = fs.growFailed
  allocFailed : fs.allocFailed = true → fs'.allocFailed = true

/-- What they leave alone if no allocation fails. -/
structure Same (fs fs' : FS) : Prop extends Later fs fs' where
  quiet : fs'.allocFailed = fs.allocFailed

theorem Later.trans (first : Later fs fs') (second : Later fs' fs'') : Later fs fs'' where
  openInodes := second.openInodes.trans first.openInodes
  freeMapFile := second.freeMapFile.trans first.freeMapFile
  bitCnt := second.bitCnt.trans first.bitCnt
  growFailed := second.growFailed.trans first.growFailed
  allocFailed := second.allocFailed ∘ first.allocFailed

theorem Same.refl (fs : FS) : Same fs fs := ⟨⟨rfl, rfl, rfl, rfl, id⟩, rfl⟩

theorem Same.trans (first : Same fs fs') (second : Same fs' fs'') : Same fs fs'' :=
  ⟨first.toLater.trans second.toLater, second.quiet.trans first.quiet⟩

theorem Same.store (fs : FS) (store : CacheState Unit) : Same fs { fs with store } :=
  ⟨⟨rfl, rfl, rfl, rfl, id⟩, rfl⟩

/-- An allocation failed because there is no free sector. -/
structure Refused (F : List BlockSector) (h : Heap) (fs fs' : FS) : Prop where
  on : On F h fs'
  later : Later fs fs'
  failed : fs'.allocFailed = true
  exhausted : Exhausted F h fs'

theorem Heap.without_eq_some {c : SectorData} : g.without F s = some c ↔ s ∉ F ∧ g s = some c := by
  unfold Heap.without
  split <;> simp_all

theorem Heap.without_update (outside : s ∉ F) (c : Option SectorData) :
    Heap.without (update g s c) F = update (g.without F) s c := by
  funext t
  by_cases same : t = s
  · subst same
    simp [Heap.without, outside]
  · simp [Heap.without, update_of_ne same]

/-! ## The file of the free map -/

theorem FreeMapOpen.congr (file : FreeMapOpen g fs inode L) (opens : fs'.openInodes = fs.openInodes)
    (bitCnt : fs'.freeMap.bitCnt = fs.freeMap.bitCnt)
    (index : ∀ x ∈ freeMapSector :: L.index, g' x = g x)
    (data : ∀ x ∈ L.data, (g' x).isSome) : FreeMapOpen g' fs' inode L where
  opened := opens ▸ file.opened
  once := file.once
  kept := file.kept
  allowed := file.allowed
  disk := (index _ mem_cons_self).trans file.disk
  maps := file.maps.congr fun x hx => index x (mem_cons_of_mem _ hx)
  owns := by
    refine ⟨file.owns.nodup, ?_⟩
    intro x hx
    rcases mem_cons.mp hx with rfl | hx
    · rw [index _ mem_cons_self]
      exact file.owns.held _ mem_cons_self
    rcases mem_append.mp hx with inData | inIndex
    · exact data x inData
    · rw [index x (mem_cons_of_mem _ inIndex)]
      exact file.owns.held x (mem_cons_of_mem _ hx)
  length := by
    rw [file.length]
    unfold bitmapFileSize
    rw [bitCnt]
  fits := by
    have := file.fits
    unfold bitmapFileSize at this ⊢
    rwa [bitCnt]

/-- Writing the free map back changes the data sectors of its file alone. -/
theorem Stored.bitmapWrite (stored : Stored g fs) (file : FreeMapOpen g fs inode L) :
    ∃ store g', fs.bitmapWrite = some (true, { fs with store }) ∧ Stored g' { fs with store } ∧
      (∀ x, x ∉ L.data → g' x = g x) ∧ FreeMapOpen g' { fs with store } inode L ∧
      Saved g' fs.freeMap L := by
  have nodup : L.sectors.Nodup := (nodup_cons.mp file.owns.nodup).2
  have held : ∀ x ∈ L.data, (g x).isSome := fun x hx =>
    file.owns.held x (mem_cons_of_mem _ (mem_append_left _ hx))
  have bound : inode.data.length.toInt < 2 ^ 31 := toInt_lt
  have length := file.length
  obtain ⟨store, g', run, stored', others, bytes⟩ :=
    writeLoop_spec nodup file.length file.fits (bitmapBytes fs.freeMap) (bitmapFileSize fs.freeMap)
      0 0 stored file.maps held (by omega)
  have notData : ∀ x ∈ freeMapSector :: L.index, x ∉ L.data := by
    intro x hx inData
    rcases mem_cons.mp hx with rfl | inIndex
    · exact (nodup_cons.mp file.owns.nodup).1 (mem_append_left _ inData)
    · exact (nodup_append.mp nodup).2.2 x inData x inIndex rfl
  have held' : ∀ x ∈ L.data, (g' x).isSome := fun x hx =>
    stored'.used_iff.mp (stored.used_iff.mpr (held x hx))
  refine ⟨store, g', ?_, stored', others, file.congr rfl rfl (fun x hx => others x (notData x hx))
    held', ?_⟩
  · simp only [FS.bitmapWrite, file.opened, bind_eq_bind, bind_some, file.allowed,
      ne_eq, not_true_eq_false, if_false]
    rw [int32_of_bounds (by omega) (by omega), if_neg (by omega)]
    simp only [Int.natCast_zero, Nat.zero_add] at run
    rw [run]
    simp
  intro i hi
  rw [bytes (i / 8), if_pos (by unfold bitmapFileSize; omega), Nat.zero_add, Nat.sub_zero,
    bitmapBytes_getLsbD]

/-! ## Changing one bit -/

theorem Stored.setBit (stored : Stored g fs) {c : Option SectorData} (value : Bool)
    (here : c = if s.toNat < fs.freeMap.bitCnt ∧ value = true then some (fs.view s) else none) :
    Stored (Function.update g s c)
      { fs with freeMap := bitmapSetMultiple fs.freeMap s.toNat 1 value } := by
  refine ⟨stored.wf, stored.size, stored.bound, ?_⟩
  intro t
  by_cases same : t = s
  · subst same
    simp [FS.Used, bitmapSetMultiple_bits, here, FS.view]
  have ne : ¬(s.toNat ≤ t.toNat ∧ t.toNat < s.toNat + 1) := by
    intro equal
    exact same (eq_of_toNat_eq (by omega))
  rw [update_of_ne same, stored.heap t]
  simp only [FS.Used, bitmapSetMultiple_bitCnt, bitmapSetMultiple_bits, ne, if_false]
  rfl

namespace OnWith

variable {F : List BlockSector} {g h : Heap} {fs : FS} {s : BlockSector} {c : SectorData}

theorem held_iff (on : OnWith F g h fs) : h s = some c ↔ s ∉ F ∧ g s = some c := by
  rw [on.heap]
  exact Heap.without_eq_some

theorem used (on : OnWith F g h fs) (mem : s ∈ F) : (g s).isSome := by
  cases open? : fs.freeMapFile with
  | false => simp [on.absent open?] at mem
  | true =>
    obtain ⟨inode, L, rfl, file, -⟩ := on.file open?
    exact file.owns.held s mem

/-- A change of the store outside `F`. -/
theorem of_store (on : OnWith F g h fs) {store : CacheState Unit}
    (stored' : Stored g' { fs with store }) (same : ∀ x ∈ F, g' x = g x) :
    OnWith F g' (g'.without F) { fs with store } := by
  refine ⟨stored', rfl, on.absent, ?_⟩
  intro open?
  obtain ⟨inode, L, rfl, file, saved⟩ := on.file open?
  refine ⟨inode, L, rfl, file.congr rfl rfl ?_ ?_, ?_⟩
  · intro x hx
    apply same
    rcases mem_cons.mp hx with rfl | hx
    · exact mem_cons_self
    · exact mem_cons_of_mem _ (mem_append_right _ hx)
  · intro x hx
    have mem : x ∈ freeMapSector :: L.sectors :=
      mem_cons_of_mem _ (mem_append_left _ hx)
    rw [same x mem]
    exact file.owns.held x mem
  intro i hi
  rw [fileByte_congr (fun x hx => same x (mem_cons_of_mem _ (mem_append_left _ hx)))]
  exact saved i hi

/-- A change of the free map outside `F`, written back to its file. -/
theorem writeBack (on : OnWith F g h fs) (open? : fs.freeMapFile = true) (freeMap : Bitmap)
    (bitCnt : freeMap.bitCnt = fs.freeMap.bitCnt)
    (stored' : Stored g' { fs with freeMap }) (same : ∀ x ∈ F, g' x = g x) :
    ∃ fs', ({ fs with freeMap } : FS).bitmapWrite = some (true, fs') ∧ On F (g'.without F) fs' ∧
      Same fs fs' := by
  obtain ⟨inode, L, rfl, file, -⟩ := on.file open?
  have inFile : ∀ x ∈ L.data, x ∈ freeMapSector :: L.sectors := fun x hx =>
    mem_cons_of_mem _ (mem_append_left _ hx)
  have file' : FreeMapOpen g' { fs with freeMap } inode L := by
    apply file.congr
    · rfl
    · exact bitCnt
    · intro x hx
      apply same
      rcases mem_cons.mp hx with rfl | hx
      · exact mem_cons_self
      · exact mem_cons_of_mem _ (mem_append_right _ hx)
    intro x hx
    rw [same x (inFile x hx)]
    exact file.owns.held x (inFile x hx)
  obtain ⟨store, g'', run, stored'', others, file'', saved⟩ := stored'.bitmapWrite file'
  refine ⟨_, run, ⟨g'', stored'', ?_, ?_, fun _ => ⟨inode, L, rfl, file'', saved⟩⟩,
    ⟨rfl, rfl, bitCnt, rfl, id⟩, rfl⟩
  · funext x
    unfold Heap.without
    split
    · rfl
    · rename_i notF
      exact (others x fun inData => notF (inFile x inData)).symm
  · exact fun closed => absurd (open?.symm.trans closed) (by decide)

end OnWith

/-! ## Operations beside the free map -/

namespace On

variable {F : List BlockSector} {h : Heap} {fs : FS} {s : BlockSector} {c : SectorData}
  (on : On F h fs)
include on

theorem used_iff : (h s).isSome ↔ s ∉ F ∧ fs.Used s := by
  obtain ⟨g, on⟩ := on
  rw [isSome_iff_exists, on.stored.used_iff, isSome_iff_exists]
  simp only [on.held_iff, exists_and_left]

/-- The heap does not depend on the open inodes, except the free map's, nor on the
    record of failures. -/
theorem congr (store : fs'.store = fs.store)
    (freeMap : fs'.freeMap = fs.freeMap) (freeMapFile : fs'.freeMapFile = fs.freeMapFile)
    (opened : fs'.openInodes freeMapSector = fs.openInodes freeMapSector) : On F h fs' := by
  obtain ⟨store', freeMap', freeMapFile', openInodes', allocFailed', growFailed'⟩ := fs'
  obtain rfl : store' = fs.store := store
  obtain rfl : freeMap' = fs.freeMap := freeMap
  obtain rfl : freeMapFile' = fs.freeMapFile := freeMapFile
  obtain ⟨g, on⟩ := on
  refine ⟨g, ⟨on.stored.wf, on.stored.size, on.stored.bound, on.stored.heap⟩, on.heap, on.absent, ?_⟩
  intro open?
  obtain ⟨inode, L, isF, file, saved⟩ := on.file open?
  exact ⟨inode, L, isF, ⟨opened.trans file.opened, file.once, file.kept, file.allowed, file.disk,
    file.maps, file.owns, file.length, file.fits⟩, saved⟩

theorem ne_none (held : h s = some c) : s ≠ blockSectorNone := by
  obtain ⟨g, on⟩ := on
  exact on.stored.ne_none (on.held_iff.mp held).2

theorem cacheWrite (held : h s = some c) (src : Nat → Byte) (size offset : Nat) :
    ∃ fs', fs.cacheWrite s src size offset = some fs' ∧
      On F (update h s (some (c.copyIn offset size src))) fs' ∧ Same fs fs' := by
  obtain ⟨g, on⟩ := on
  obtain ⟨outside, content⟩ := on.held_iff.mp held
  obtain ⟨store, run, stored⟩ := on.stored.cacheWrite content src size offset
  have on' := on.of_store stored fun x hx =>
    update_of_ne (fun equal : x = s => outside (equal ▸ hx)) _ _
  rw [Heap.without_update outside, ← on.heap] at on'
  exact ⟨_, run, ⟨_, on'⟩, Same.store fs store⟩

theorem cacheFlush : ∃ fs', fs.cacheFlush = some fs' ∧ On F h fs' ∧ Same fs fs' := by
  obtain ⟨g, on⟩ := on
  obtain ⟨store, run, stored⟩ := on.stored.cacheFlush
  refine ⟨_, run, ⟨g, ?_⟩, Same.store fs store⟩
  rw [on.heap]
  exact on.of_store stored fun _ _ => rfl

theorem readInode (held : h s = some c) :
    ∃ fs', fs.readInode s = some (.ofSector c, fs') ∧ On F h fs' ∧ Same fs fs' := by
  obtain ⟨g, on⟩ := on
  obtain ⟨store, run, stored⟩ := on.stored.readInode (on.held_iff.mp held).2
  refine ⟨_, run, ⟨g, ?_⟩, Same.store fs store⟩
  rw [on.heap]
  exact on.of_store stored fun _ _ => rfl

theorem readIndirect (held : h s = some c) :
    ∃ fs', fs.readIndirect s = some (.ofSector c, fs') ∧ On F h fs' ∧ Same fs fs' := by
  obtain ⟨g, on⟩ := on
  obtain ⟨store, run, stored⟩ := on.stored.readIndirect (on.held_iff.mp held).2
  refine ⟨_, run, ⟨g, ?_⟩, Same.store fs store⟩
  rw [on.heap]
  exact on.of_store stored fun _ _ => rfl

theorem writeInode (held : h s = some c) (d : InodeDisk) :
    ∃ fs', fs.writeInode s d = some fs' ∧ On F (update h s (some d.toSector)) fs' ∧
      Same fs fs' := by
  have run := on.cacheWrite held d.encode blockSectorSize 0
  rwa [SectorData.copyIn_all] at run

theorem writeIndirect (held : h s = some c) (ib : IndirectBlock) :
    ∃ fs', fs.writeIndirect s ib = some fs' ∧ On F (update h s (some ib.toSector)) fs' ∧
      Same fs fs' := by
  have run := on.cacheWrite held ib.encode blockSectorSize 0
  rwa [SectorData.copyIn_all] at run

/-- The effect of `free_map_allocate`: a free sector, or none because there is no free sector. -/
theorem allocate : ∃ r fs', fs.freeMapAllocate = some (r, fs') ∧
      match r with
      | none => Refused F h fs fs'
      | some t => Same fs fs' ∧ h t = none ∧ ∃ c, On F (update h t (some c)) fs' := by
  obtain ⟨g, on⟩ := on
  unfold FS.freeMapAllocate bitmapScanAndFlip
  cases scan : bitmapScan fs.freeMap 0 1 false with
  | none =>
    refine ⟨none, _, rfl, On.congr ⟨g, on⟩ rfl rfl rfl rfl, ⟨rfl, rfl, rfl, rfl, fun _ => rfl⟩, rfl,
      ?_⟩
    · intro t range
      have range : t.toNat < fs.freeMap.bitCnt := range
      obtain ⟨i, low, high, bit⟩ := bitmapScan_none scan (Nat.zero_le t.toNat) (by omega)
      have same : i = t.toNat := by omega
      subst same
      by_cases mem : t ∈ F
      · exact Or.inl mem
      right
      obtain ⟨content, held⟩ := isSome_iff_exists.mp
        (on.stored.used_iff.mp (⟨range, by simpa using bit⟩ : fs.Used t))
      rw [on.held_iff.mpr ⟨mem, held⟩]
      rfl
  | some idx =>
    obtain ⟨-, range, bits⟩ := bitmapScan_some scan
    have bound := on.stored.bound
    have number : (BitVec.ofNat 32 idx).toNat = idx := by
      rw [BitVec.toNat_ofNat]
      omega
    have free : g (BitVec.ofNat 32 idx) = none := by
      rw [on.stored.heap, if_neg]
      intro used
      have := used.2
      rw [number, bits idx (Nat.le_refl _) (by omega)] at this
      cases this
    generalize BitVec.ofNat 32 idx = t at number free ⊢
    subst number
    have outside : t ∉ F := by
      intro mem
      have := on.used mem
      rw [free] at this
      cases this
    have marked := on.stored.setBit true (if_pos ⟨show t.toNat < fs.freeMap.bitCnt by omega, rfl⟩).symm
    have freeH : h t = none := by
      rw [on.heap, Heap.without, if_neg outside, free]
    have others : ∀ x ∈ F, update g t (some (fs.view t)) x = g x := fun x hx =>
      update_of_ne (fun equal : x = t => outside (equal ▸ hx)) _ _
    have heap : update h t (some (fs.view t)) = Heap.without (update g t (some (fs.view t))) F := by
      rw [on.heap, Heap.without_update outside]
    by_cases open? : fs.freeMapFile = true
    · obtain ⟨fs', run, on', same⟩ := on.writeBack open?
        (bitmapSetMultiple fs.freeMap t.toNat 1 true) rfl marked others
      refine ⟨some t, fs', ?_, same, freeH, fs.view t, heap ▸ on'⟩
      simp only [open?, if_true, Bool.not_false] at run ⊢
      simp only [run, bind_eq_bind, bind_some, if_true, ofNat_toNat, setWidth_eq]
    refine ⟨some t, { fs with freeMap := bitmapSetMultiple fs.freeMap t.toNat 1 true }, ?_,
      ⟨⟨rfl, rfl, rfl, rfl, id⟩, rfl⟩, freeH, fs.view t, _, marked, heap, on.absent, ?_⟩
    · simp only [open?, if_false, Bool.not_false, ofNat_toNat, setWidth_eq, Bool.false_eq_true]
    · exact fun impossible => absurd impossible open?

/-- `cache_free` may lose the content of a sector. -/
theorem cacheFree (held : h s = some c) :
    ∃ fs' c', fs.cacheFree s = some fs' ∧ On F (update h s (some c')) fs' ∧ Same fs fs' := by
  obtain ⟨g, on⟩ := on
  obtain ⟨outside, content⟩ := on.held_iff.mp held
  obtain ⟨store, c', run, stored⟩ := on.stored.cacheFree content
  have on' := on.of_store stored fun x hx =>
    update_of_ne (fun equal : x = s => outside (equal ▸ hx)) _ _
  rw [Heap.without_update outside, ← on.heap] at on'
  exact ⟨_, c', run, ⟨_, on'⟩, Same.store fs store⟩

/-- `free_map_release` removes a sector from the heap. -/
theorem freeMapRelease (open? : fs.freeMapFile = true) (held : h s = some c) :
    ∃ fs', fs.freeMapRelease s = some fs' ∧ On F (update h s none) fs' ∧ Same fs fs' := by
  obtain ⟨g, on⟩ := on
  obtain ⟨outside, content⟩ := on.held_iff.mp held
  have others : ∀ x ∈ F, update g s none x = g x := fun x hx =>
    update_of_ne (fun equal : x = s => outside (equal ▸ hx)) _ _
  obtain ⟨fs', run, on', same⟩ := on.writeBack open?
    (bitmapSetMultiple fs.freeMap s.toNat 1 false) rfl (on.stored.setBit false (by simp)) others
  have all : bitmapAll fs.freeMap s.toNat 1 = true := by
    rw [bitmapAll_iff]
    intro i low high
    rw [show i = s.toNat by omega]
    exact (on.stored.some_iff.mp content).1.2
  refine ⟨fs', ?_, ?_, same⟩
  · unfold FS.freeMapRelease
    simp only [all, if_true, open?] at run ⊢
    rw [run]
    rfl
  · rwa [Heap.without_update outside, ← on.heap] at on'

/-- `cache_free` and `free_map_release` remove a sector from the heap. -/
theorem releaseSector (open? : fs.freeMapFile = true) (held : h s = some c) :
    ∃ fs', fs.releaseSector s = some fs' ∧ On F (update h s none) fs' ∧ Same fs fs' := by
  obtain ⟨fs1, c1, run1, on1, same1⟩ := on.cacheFree held
  obtain ⟨fs2, run2, on2, same2⟩ := on1.freeMapRelease (same1.freeMapFile.trans open?)
    (update_self ..)
  rw [update_idem] at on2
  refine ⟨fs2, ?_, on2, same1.trans same2⟩
  unfold FS.releaseSector
  rw [run1]
  exact run2

end On

end Pintos
