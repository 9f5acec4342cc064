import Pintos.Filesys.Filesys
import Pintos.Filesys.Proofs.InodeLife

/-!
# Formatting

A formatted file system represents the volume whose only inode is the root
directory. The free map's file is created while there is no file to write the free
map to, so the growth of that one inode is followed without `Represents`.
-/

namespace Pintos

open List Option
open Function (update update_eq_self update_idem update_of_ne)

variable {g : Heap} {s r : BlockSector} {F R : List BlockSector} {d : InodeDisk} {sectors i : Nat}
  {fs : FS} {h : Heap} {size : BlockSector} {L : Layout}

/-! ## Before the free map has a file -/

/-- The sectors in use with their contents. -/
def FS.heap (fs : FS) : Heap := fun s => if fs.Used s then some (fs.view s) else none

theorem Heap.without_nil (g : Heap) : g.without [] = g := by
  funext s
  simp [Heap.without]

theorem Stored.on_nil (stored : Stored g fs) (closed : fs.freeMapFile = false) : On [] g fs := by
  refine ⟨g, stored, g.without_nil.symm, fun _ => rfl, ?_⟩
  intro open?
  rw [closed] at open?
  cases open?

theorem On.stored_nil (on : On [] h fs) : Stored h fs := by
  obtain ⟨g, on⟩ := on
  rw [on.heap, g.without_nil]
  exact on.stored

theorem bootFS_on (size : BlockSector) (disk : BlockSector → SectorData) :
    On [] (bootFS size disk).heap (bootFS size disk) := by
  refine Stored.on_nil ⟨?_, rfl, size.isLt, fun _ => rfl⟩ rfl
  exact (CacheState.cacheInit_wellFormed () (fun _ => disk) (fun _ => size.toNat)).1

theorem bootFS_used (disk : BlockSector → SectorData) (two : 2 ≤ size.toNat) (low : s.toNat < 2) :
    ((bootFS size disk).heap s).isSome := by
  have used : (bootFS size disk).Used s := by
    refine ⟨Nat.lt_of_lt_of_le low two, ?_⟩
    show (if 0 ≤ s.toNat ∧ s.toNat < 0 + 2 then true else false) = true
    rw [if_pos (by omega)]
  unfold FS.heap
  rw [if_pos used]
  rfl

theorem bootFS_freeCount (size : BlockSector) (disk : BlockSector → SectorData) :
    size.toNat ≤ (bootFS size disk).freeCount + 2 := by
  have covered : (List.range size.toNat).countP (fun _ => true) ≤
      (List.range size.toNat).countP (fun i => !(bootFS size disk).freeMap.bits i) +
        [0, 1].length := by
    apply countP_le_add_of_subset nodup_range
    intro i _ _
    by_cases reserved : i < 2
    · right
      simp only [mem_cons, not_mem_nil, or_false]
      omega
    left
    show (!if 0 ≤ i ∧ i < 0 + 2 then true else false) = true
    rw [if_neg (by omega)]
    rfl
  simpa [FS.freeCount, bootFS] using covered

/-- A growth without a file for the free map. The undoing of a failed one would
    panic; either way it does not return true. -/
theorem inodeGrowUnlocked_early (pos : 0 < sectors) (on : On F h fs) (maps : Maps h d L)
    (owns : Owns h L.sectors) (tight : L.Tight) :
    (∃ d' h' fs' ys zs, inodeGrowUnlocked d sectors fs = some (true, d', fs') ∧
      Grows F h fs d L h' fs' d' ys zs ∧ ys.length = sectors ∧ (L.extend ys zs).Tight) ∨
    ((∀ r, inodeGrowUnlocked d sectors fs = some r → r.1 = false) ∧
      (maxSectors < L.data.length + sectors ∨ fs.freeCount ≤ sectors + 130)) := by
  obtain ⟨ok, d1, ys, zs, h1, fs1, run, grows, -, success, failure⟩ :=
    growSectors_spec (show 0 < (sectors : Int) by omega) on maps owns tight
  unfold inodeGrowUnlocked
  rw [if_neg (by omega), run]
  simp only [bind_eq_bind, bind_some]
  cases ok with
  | true =>
    left
    obtain ⟨count, tight1⟩ := success rfl
    exact ⟨d1, h1, fs1, ys, zs, rfl, grows, by omega, tight1⟩
  | false =>
    right
    obtain ⟨less, why⟩ := failure rfl
    constructor
    · intro r
      rw [if_neg (by decide)]
      cases growFail d1 ys.length fs1 with
      | none => exact fun none => nomatch none
      | some result => exact fun isR => by rw [← some.inj isR]
    rcases why with full | ⟨-, exhausted⟩
    · left
      rw [length_append] at full
      omega
    right
    have zero := exhausted.freeCount grows.added.on
    have enough : ys.length ≤ sectors := by omega
    have spent := (grows.steady on enough).free
    omega

/-! ## The free map's file -/

theorem Represents.of_newFile {n : Node} (on : On [] h fs) (closed : ∀ s, fs.openInodes s = none)
    (node : NodeAt h freeMapSector d L n) (length : n.content.length = bitmapFileSize fs.freeMap)
    (held : (h r).isSome) (outside : r ∉ freeMapSector :: L.sectors) :
    ∃ fs1 fs2, fs.inodeOpen freeMapSector = some fs1 ∧
      { fs1 with freeMapFile := true }.bitmapWrite = some (true, fs2) ∧ Steady 0 fs fs2 ∧
      Models fs2 Volume.empty [r] := by
  obtain ⟨fs1, run1, on1, same1⟩ := on.readInode node.disk
  rw [InodeDisk.ofSector_toSector] at run1
  have costs1 := Steady.of_same on on1 same1 fun _ held => held
  let inode : Inode := { openCnt := 1, removed := false, denyWriteCnt := 0, data := d }
  let fs2 : FS := { fs1.setInode freeMapSector (some inode) with freeMapFile := true }
  have stored1 := on1.stored_nil
  have stored2 : Stored h fs2 := ⟨stored1.wf, stored1.size, stored1.bound, stored1.heap⟩
  have size2 : bitmapFileSize fs2.freeMap = n.content.length := by
    rw [length]
    unfold bitmapFileSize
    rw [show fs2.freeMap.bitCnt = fs.freeMap.bitCnt from same1.bitCnt]
  have file2 : FreeMapOpen h fs2 inode L := by
    refine ⟨fs1.setInode_self freeMapSector (some inode), rfl, rfl, rfl, node.disk, node.maps,
      node.owns, ?_, ?_⟩
    · rw [size2]
      exact node.length
    · rw [size2]
      exact node.fits
  obtain ⟨store, g, run3, stored3, others, file3, saved⟩ := stored2.bitmapWrite file2
  have costs3 : Steady 0 fs1 { fs2 with store } :=
    ⟨⟨Nat.le_refl _, Or.inl, id, id, rfl⟩, rfl⟩
  have on3 : On (freeMapSector :: L.sectors) (g.without (freeMapSector :: L.sectors))
      { fs2 with store } := by
    refine ⟨g, stored3, rfl, ?_, fun _ => ⟨inode, L, rfl, file3, saved⟩⟩
    exact fun closed => nomatch closed
  refine ⟨fs1.setInode freeMapSector (some inode), { fs2 with store }, ?_, run3, costs1.trans costs3,
    _, _, fun _ => none, on3, rfl, ?_, ?_, ?_, ?_, ?_, ?_, nodup_singleton r⟩
  · unfold FS.inodeOpen
    rw [closed freeMapSector]
    dsimp only
    rw [run1]
    rfl
  · exact fun s m found => nomatch found
  · exact fun s M layout => nomatch layout
  · exact fun s t M N layout => nomatch layout
  · intro s notFile
    show none = Option.map Inode.handle (update fs1.openInodes freeMapSector _ s)
    rw [update_of_ne notFile, same1.openInodes, closed s]
    rfl
  · intro s open? notFile opened
    have none : update fs1.openInodes freeMapSector (some inode) s = none := by
      rw [update_of_ne notFile, same1.openInodes, closed s]
    exact nomatch none.symm.trans opened
  intro x hx
  obtain rfl : x = r := mem_singleton.mp hx
  refine ⟨?_, fun s M layout => nomatch layout⟩
  have notData : x ∉ L.data := fun inData =>
    outside (mem_cons_of_mem _ (mem_append_left _ inData))
  unfold Heap.without
  rwa [if_neg outside, others x notData]

/-- The sectors that `free_map_create` asks for. -/
def freeMapSectors (size : BlockSector) : Nat := (4 * ((size.toNat + 31) / 32) + 511) / 512

theorem freeMapCreate_spec (disk : BlockSector → SectorData) (two : 2 ≤ size.toNat) :
    (∃ fs, (bootFS size disk).freeMapCreate = some fs ∧
      Steady (freeMapSectors size + 130) (bootFS size disk) fs ∧
      Models fs Volume.empty [rootDirSector]) ∨
    ((bootFS size disk).freeMapCreate = none ∧ (maxSectors < freeMapSectors size ∨
        (bootFS size disk).freeCount ≤ freeMapSectors size + 130)) := by
  have fileSize : bitmapFileSize (bootFS size disk).freeMap = 4 * ((size.toNat + 31) / 32) := rfl
  have range := size.isLt
  have bound : bitmapFileSize (bootFS size disk).freeMap ≤ 2 ^ 31 - 512 := by
    rw [fileSize]
    omega
  have on := bootFS_on size disk
  have held0 := bootFS_used disk two (s := freeMapSector) (by decide)
  have held1 := bootFS_used disk two (s := rootDirSector) (by decide)
  unfold FS.freeMapCreate FS.inodeCreate
  rw [if_neg (by omega), bytesToSectors_of_bounds bound, fileSize]
  rcases inodeGrowUnlocked_early (show 0 < freeMapSectors size by unfold freeMapSectors; omega) on
    (Maps.newInode _ (4 * ((size.toNat + 31) / 32) : Nat) false blockSectorNone) (Owns.empty _)
    (Eq.refl 0) with ⟨d, h1, fs1, ys, zs, run, grows, count, tight⟩ | ⟨failed, why⟩
  · left
    obtain ⟨fs2, run2, on2, same2, costs2, node⟩ :=
      grows.writeNew held0 count tight (by rw [fileSize] at bound; omega)
    have opens2 : ∀ s, fs2.openInodes s = none := by
      intro s
      rw [same2.openInodes, grows.added.same.openInodes]
      rfl
    have notNew : rootDirSector ∉ ys ++ zs := grows.added.notMem_of_held held1
    have held2 : (update h1 freeMapSector (some d.toSector) rootDirSector).isSome := by
      rw [update_of_ne (by decide)]
      exact grows.added.isSome held1
    obtain ⟨fs3, fs4, run3, run4, costs4, models⟩ := Represents.of_newFile on2 opens2 node (by
        unfold bitmapFileSize
        rw [same2.bitCnt, grows.added.same.bitCnt]
        rfl)
      held2 (by
        intro mem
        rcases mem_cons.mp mem with isZero | inside
        · exact absurd isZero (by decide)
        · exact notNew inside)
    refine ⟨fs4, ?_, ((grows.steady on (Nat.le_of_eq count)).trans costs2).trans costs4, models⟩
    unfold freeMapSectors at run
    rw [run]
    simp only [bind_eq_bind, bind_some]
    rw [if_pos trivial, run2]
    simp only [bind_some]
    rw [run3]
    simp only [bind_some]
    rw [run4]
    rfl
  right
  refine ⟨?_, ?_⟩
  · unfold freeMapSectors at failed
    cases result : inodeGrowUnlocked
        (newInode (4 * ((size.toNat + 31) / 32) : Nat) false blockSectorNone)
        ((4 * ((size.toNat + 31) / 32) + 511) / 512 : Nat) (bootFS size disk) with
    | none => rfl
    | some r =>
      have isFalse := failed r result
      obtain ⟨ok, d, fs⟩ := r
      dsimp only at isFalse
      subst isFalse
      rfl
  apply why.imp_left
  intro tooLong
  have : Layout.empty.data.length = 0 := rfl
  omega

/-- What `bitmap_read` makes of the file of the free map. -/
theorem Saved.bits {b : Bitmap} (saved : Saved g b L) {bytes : List Byte}
    (isFile : bytes = (List.range (bitmapFileSize b)).map (fileByte g L.data))
    (range : i < b.bitCnt) :
    (bitmapOfBytes b.bitCnt fun k => bytes.getD k 0).bits i = b.bits i := by
  have low : i / 8 < bitmapFileSize b := by
    unfold bitmapFileSize
    omega
  have byte : bytes.getD (i / 8) 0 = fileByte g L.data (i / 8) := by
    simp [isFile, getD_eq_getElem?_getD, low]
  show (decide (i < b.bitCnt) && (bytes.getD (i / 8) 0).getLsbD (i % 8)) = b.bits i
  rw [byte, saved i range, decide_eq_true range, Bool.true_and]

theorem Models.freeMapReopen {V : Volume} (models : Models fs V R) :
    ∃ fs1 fs2, fs.freeMapClose = some fs1 ∧ fs1.freeMapOpen = some fs2 ∧ Steady 0 fs fs2 ∧
      Models fs2 V R := by
  obtain ⟨F, h, G, rep⟩ := models
  obtain ⟨g, on⟩ := rep.on
  obtain ⟨inode, L, rfl, file, saved⟩ := on.file rep.opened
  have stored := on.stored
  have stored1 : Stored g (fs.setInode freeMapSector none) :=
    ⟨stored.wf, stored.size, stored.bound, stored.heap⟩
  obtain ⟨store2, run2, stored2⟩ := stored1.cacheFlush
  let fs2 : FS := { fs.setInode freeMapSector none with store := store2, freeMapFile := false }
  have stored2 : Stored g fs2 := ⟨stored2.wf, stored2.size, stored2.bound, stored2.heap⟩
  obtain ⟨store3, run3, stored3⟩ := stored2.readInode file.disk
  rw [InodeDisk.ofSector_toSector] at run3
  let fs3 : FS := { fs2 with store := store3 }.setInode freeMapSector
    (some { openCnt := 1, removed := false, denyWriteCnt := 0, data := inode.data })
  have stored3 : Stored g fs3 := ⟨stored3.wf, stored3.size, stored3.bound, stored3.heap⟩
  have held : ∀ x ∈ L.data, (g x).isSome := fun x hx =>
    file.owns.held x (mem_cons_of_mem _ (mem_append_left _ hx))
  obtain ⟨store4, run4, stored4⟩ := readLoop_spec file.maps held file.length file.fits
    (bitmapFileSize fs.freeMap) stored3 (show 0 < 2 ^ 31 by decide)
  rw [Nat.sub_zero, Nat.min_self] at run4
  simp only [Nat.zero_add] at run4
  let bytes := (List.range (bitmapFileSize fs.freeMap)).map (fileByte g L.data)
  let freeMap := bitmapOfBytes fs.freeMap.bitCnt fun k => bytes.getD k 0
  let fs5 : FS := { fs3 with store := store4, freeMap, freeMapFile := true }
  have bits : ∀ i < fs.freeMap.bitCnt, freeMap.bits i = fs.freeMap.bits i := fun i range =>
    saved.bits rfl range
  have used : ∀ s, fs5.Used s ↔ fs.Used s := by
    intro s
    unfold FS.Used
    constructor
    · intro ⟨range, bit⟩
      exact ⟨range, (bits _ range).symm.trans bit⟩
    · intro ⟨range, bit⟩
      exact ⟨range, (bits _ range).trans bit⟩
  have opens : fs5.openInodes = fs.openInodes := by
    have again : (⟨1, false, 0, inode.data⟩ : Inode) = inode := by
      rw [← file.once, ← file.kept, ← file.allowed]
    show update (update fs.openInodes freeMapSector none) freeMapSector _ = _
    rw [update_idem, again, ← file.opened, update_eq_self]
  have on5 : On (freeMapSector :: L.sectors) h fs5 := by
    refine ⟨g, ⟨stored4.wf, stored4.size, stored4.bound, ?_⟩, on.heap, ?_, ?_⟩
    · intro s
      rw [stored4.heap s]
      exact if_congr (used s).symm rfl rfl
    · exact fun closed => nomatch closed
    intro _
    refine ⟨inode, L, rfl, ⟨by rw [opens]; exact file.opened, file.once, file.kept, file.allowed,
      file.disk, file.maps, file.owns, file.length, file.fits⟩, ?_⟩
    intro i range
    rw [saved i range]
    exact (bits i range).symm
  have count : fs5.freeCount = fs.freeCount := by
    unfold FS.freeCount
    apply countP_congr
    intro i hi
    rw [show fs5.freeMap.bits i = fs.freeMap.bits i from bits i (mem_range.mp hi)]
  refine ⟨fs2, fs5, ?_, ?_, ⟨⟨Nat.le_of_eq count.symm, Or.inl, id, id, rfl⟩, rfl⟩, _, h, G,
    rep.of_after on5 ⟨opens, rep.opened.symm, rfl, id, id⟩⟩
  · unfold FS.freeMapClose FS.inodeClose
    rw [file.opened]
    simp only [bind_eq_bind, bind_some]
    rw [if_pos (by rw [file.once]; rfl), run2]
    simp only [bind_some]
    rw [file.kept]
    rfl
  have run3 : fs2.inodeOpen freeMapSector = some fs3 := by
    unfold FS.inodeOpen
    rw [show fs2.openInodes freeMapSector = none from fs.setInode_self freeMapSector none]
    dsimp only
    rw [run3]
    rfl
  have run4 : fs3.inodeReadAt freeMapSector (bitmapFileSize fs3.freeMap) 0 =
      some (bytes, { fs3 with store := store4 }) := by
    unfold FS.inodeReadAt
    rw [show fs3.openInodes freeMapSector = _ from FS.setInode_self _ freeMapSector _]
    exact run4
  have full : bytes.length = bitmapFileSize fs3.freeMap := by
    rw [length_map, length_range]
    rfl
  unfold FS.freeMapOpen
  rw [run3]
  simp only [bind_eq_bind, bind_some]
  rw [run4]
  simp only [bind_some]
  rw [if_pos full]
  rfl

/-! ## The formatted file system -/

/-- The volume after `do_format`: an empty root directory. -/
def formattedVolume : Volume :=
  Volume.empty.put rootDirSector (some (Node.new true rootDirSector 576)) none

/-- The most sectors that formatting takes. -/
def formatCost (size : BlockSector) : Nat := freeMapSectors size + 130 + 132

theorem filesysInit_spec (disk : BlockSector → SectorData) (two : 2 ≤ size.toNat) :
    (∃ fs, filesysInit size disk = some fs ∧ Steady (formatCost size) (bootFS size disk) fs ∧
      Models fs formattedVolume []) ∨
    (filesysInit size disk = none ∧
      (maxSectors < freeMapSectors size ∨ size.toNat ≤ formatCost size + 2)) := by
  have count := bootFS_freeCount size disk
  unfold filesysInit FS.doFormat formatCost
  rcases freeMapCreate_spec disk two with ⟨fs1, run1, costs1, models1⟩ | ⟨failed, why⟩
  · rw [run1]
    simp only [bind_eq_bind, bind_some]
    obtain ⟨ok, fs2, run2, costs2, success, failure⟩ :=
      models1.inodeCreate (show 576 ≤ 2 ^ 31 - 512 by decide) true rootDirSector
    have run2 : fs1.dirCreate rootDirSector 16 rootDirSector = some (ok, fs2) := run2
    rw [run2]
    cases ok with
    | true =>
      left
      obtain ⟨steady2, models2⟩ := success rfl
      obtain ⟨fs3, fs4, run3, run4, costs4, models4⟩ := models2.freeMapReopen
      simp only [bind_some]
      rw [run3]
      exact ⟨fs4, run4, (costs1.trans ⟨costs2, steady2⟩).trans costs4, models4⟩
    | false =>
      right
      refine ⟨rfl, Or.inr ?_⟩
      obtain ⟨-, -, tooLong | refused⟩ := failure rfl
      · exact absurd tooLong (by decide)
      rcases (costs1.toCosts.trans costs2).quiet refused with old | few
      · cases old
      · omega
  right
  rw [failed]
  exact ⟨rfl, why.imp_right fun few => by omega⟩

/-- A formatted file system. -/
def Formatted (fs : FS) : Prop :=
  ∃ (size : BlockSector) (disk : BlockSector → SectorData),
    2 ≤ size.toNat ∧ filesysInit size disk = some fs

theorem Formatted.models (formatted : Formatted fs) : Models fs formattedVolume [] := by
  obtain ⟨size, disk, two, run⟩ := formatted
  rcases filesysInit_spec disk two with ⟨fs', run', -, models⟩ | ⟨failed, -⟩
  · rw [run] at run'
    rwa [some.inj run']
  · rw [failed] at run
    cases run

theorem filesysInit_enough (size : BlockSector) (disk : BlockSector → SectorData)
    (small : freeMapSectors size ≤ maxSectors) (enough : formatCost size + 2 < size.toNat) :
    ∃ fs, Formatted fs ∧ fs.allocFailed = false ∧ fs.growFailed = false ∧
      fs.freeMap.bitCnt = size.toNat ∧ size.toNat ≤ fs.freeCount + formatCost size + 2 := by
  have two : 2 ≤ size.toNat := by omega
  have count := bootFS_freeCount size disk
  rcases filesysInit_spec disk two with ⟨fs, run, costs, -⟩ | ⟨-, why⟩
  · refine ⟨fs, ⟨size, disk, two, run⟩, ?_, costs.steady, costs.bitCnt, ?_⟩
    · cases failed : fs.allocFailed with
      | false => rfl
      | true =>
        rcases costs.quiet failed with old | few
        · cases old
        · omega
    · have := costs.free
      omega
  · omega

/-- A disk of 2000 sectors. -/
theorem exists_formatted : ∃ fs, Formatted fs ∧ fs.allocFailed = false ∧ fs.growFailed = false ∧
    fs.freeMap.bitCnt = 2000 ∧ 1735 ≤ fs.freeCount := by
  obtain ⟨fs, formatted, quiet, grown, bits, count⟩ :=
    filesysInit_enough 2000 (fun _ _ => 0) (by decide) (by decide)
  have cost : formatCost 2000 = 263 := by decide
  have size : (2000 : BlockSector).toNat = 2000 := by decide
  exact ⟨fs, formatted, quiet, grown, bits.trans size, by omega⟩

end Pintos
