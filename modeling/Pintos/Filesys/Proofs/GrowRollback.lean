import Pintos.Filesys.Proofs.InodeRefinement

/-!
# When a failed growth is undone

`inode_grow_unlocked` counts the data sectors that it added, and after a failure it
gives so many of them back. Which index blocks are new is not recorded. If a data
sector was added, the walk back over the data meets exactly the new ones. If none
was added, the indirect and the doubly indirect block are released in any case
(`inode.c:346-348`, `378-380`), which undoes the growth only of an inode that had
no index block before.
-/

namespace Pintos

open List Option Layout

variable {h1 h' : Heap} {fs1 : FS} {d1 d' : InodeDisk} {xs ys olds : List BlockSector}
  {F : List BlockSector} {h : Heap} {fs fs' : FS} {d : InodeDisk} {L : Layout}
  {zs : List BlockSector} {sectors : Int}

/-- A growth that found no room for one data sector took the index blocks in front of
    it, and these were all the free sectors. -/
theorem Grows.freeCount_le (grows : Grows F h fs d L h1 fs1 d1 [] zs) (on : On F h fs)
    (tight : L.Tight) (ahead : (L.extend [] zs).Ahead) (exhausted : Exhausted F h1 fs1) :
    fs.freeCount ≤ indexCount (L.data.length + 1) - indexCount L.data.length := by
  have spent := (grows.added.steady on).free
  have zero := exhausted.freeCount grows.added.on
  unfold Layout.Ahead at ahead
  unfold Layout.Tight at tight
  simp only [extend_index, extend_data, length_append, append_nil, nil_append] at ahead spent
  omega

/-- Without a data sector added, the failure path restores an inode that uses its
    direct pointers only. -/
theorem Grows.growFail_direct (grows : Grows F h fs d L h1 fs1 d1 [] zs)
    (opened : fs.freeMapFile = true) (maps : Maps h d L) (owns : Owns h L.sectors) (tight : L.Tight)
    (ahead : (L.extend [] zs).Ahead) (low : L.data.length ≤ 10) :
    ∃ fs2, growFail d1 0 fs1 = some (d, fs2) ∧ On F h fs2 ∧ Same fs1 fs2 := by
  have noIndex : L.index = [] :=
    eq_nil_of_length_eq_zero (tight.trans (indexCount_of_le low))
  have few : zs.length ≤ 2 := by
    have next : indexCount (L.data.length + 1) ≤ 1 := indexCount_le_one (by omega)
    unfold Layout.Ahead at ahead
    simp only [extend_index, extend_data, append_nil, noIndex, nil_append] at ahead
    omega
  obtain ⟨h2, fs2, run, shed⟩ := growFail_zero grows.added.on
    (grows.added.same.freeMapFile.trans opened) grows.maps (grows.owns owns)
  rw [extend_index, noIndex, nil_append, take_of_length_le few] at shed
  have heap : h2 = h := by
    funext x
    by_cases new : x ∈ zs
    · rw [shed.free x new, grows.added.fresh x new]
    · rw [shed.frame x new not_mem_nil, grows.added.frame x new (by simp [noIndex])]
  have cut : Maps h { d1 with indirect := blockSectorNone, doublyIndirect := blockSectorNone } L := by
    have direct := grows.maps.direct
    rw [extend_data, append_nil] at direct
    refine ⟨direct, ?_, ?_, maps.first, maps.middle, maps.second, maps.real, maps.covered,
      maps.small⟩ <;> rw [noIndex] <;> rfl
  have attrs : SameAttrs d
      { d1 with indirect := blockSectorNone, doublyIndirect := blockSectorNone } :=
    ⟨grows.attrs.isDir, grows.attrs.fileCnt, grows.attrs.length, grows.attrs.parent,
      grows.attrs.magic⟩
  rw [maps.inode_unique cut attrs] at run
  exact ⟨fs2, run, heap ▸ shed.on, shed.same⟩

/-- There is room for one more data sector: the inode is not full, and there are more
    free sectors than index blocks in front of its next data sector. -/
def RoomForSector (fs : FS) (L : Layout) : Prop :=
  L.data.length < maxSectors ∧
    indexCount (L.data.length + 1) - indexCount L.data.length < fs.freeCount

/-- What is left of a failed growth of a small inode, or of one with room for a data sector. -/
theorem inodeGrowUnlocked_undone (on : On F h fs) (opened : fs.freeMapFile = true) (maps : Maps h d L)
    (owns : Owns h L.sectors) (tight : L.Tight) (room : L.data.length ≤ 10 ∨ RoomForSector fs L)
    (run : inodeGrowUnlocked d sectors fs = some (false, d', fs')) :
    d' = d ∧ On F h fs' ∧ fs'.freeMap.bitCnt = fs.freeMap.bitCnt := by
  by_cases pos : 0 < sectors
  swap
  · rw [inodeGrowUnlocked_nonpos d (Int.not_lt.mp pos) fs] at run
    cases run
  obtain ⟨ok, d1, ys, zs, h1, fs1, run1, grows, ahead, -, failure⟩ :=
    growSectors_spec pos on maps owns tight
  unfold inodeGrowUnlocked at run
  rw [if_neg (by omega), run1, bind_eq_bind, bind_some] at run
  cases ok with
  | true => cases run
  | false =>
    -- what remains is the result of the failure path
    have finish : ∀ fs2, growFail d1 ys.length fs1 = some (d, fs2) → On F h fs2 → Same fs1 fs2 →
        d' = d ∧ On F h fs' ∧ fs'.freeMap.bitCnt = fs.freeMap.bitCnt := by
      intro fs2 run2 on2 same2
      dsimp only at run
      rw [if_neg (by decide), run2, bind_eq_bind, bind_some] at run
      cases run
      exact ⟨rfl, on2.congr rfl rfl rfl rfl, same2.bitCnt.trans grows.added.same.bitCnt⟩
    cases ys with
    | cons y ys =>
      obtain ⟨fs2, run2, on2, same2, -⟩ :=
        grows.growFail_undoes opened maps owns tight (Nat.succ_pos _)
      exact finish fs2 run2 on2 same2
    | nil =>
      by_cases low : L.data.length ≤ 10
      · obtain ⟨fs2, run2, on2, same2⟩ := grows.growFail_direct opened maps owns tight ahead low
        exact finish fs2 run2 on2 same2
      obtain ⟨less, enough⟩ := room.resolve_left low
      obtain ⟨-, full | ⟨-, exhausted⟩⟩ := failure rfl
      · rw [append_nil] at full
        omega
      · have := grows.freeCount_le on tight ahead exhausted
        omega

theorem On.agree (on : On F h fs) (on' : On F h fs') :
    (∀ s, fs'.Used s ↔ fs.Used s) ∧ ∀ s, (h s).isSome → fs'.view s = fs.view s := by
  refine ⟨fun s => on'.used_or.trans on.used_or.symm, ?_⟩
  intro s held
  obtain ⟨c, content⟩ := isSome_iff_exists.mp held
  obtain ⟨g, on⟩ := on
  obtain ⟨g', on'⟩ := on'
  have old := (on.stored.some_iff.mp (on.held_iff.mp content).2).2
  have after := (on'.stored.some_iff.mp (on'.held_iff.mp content).2).2
  exact after.trans old.symm

theorem On.bits_eq (on : On F h fs)
    (bitCnt : fs'.freeMap.bitCnt = fs.freeMap.bitCnt) (used : ∀ s, fs'.Used s ↔ fs.Used s) :
    ∀ i < fs.freeMap.bitCnt, fs'.freeMap.bits i = fs.freeMap.bits i := by
  intro i inside
  have same := used (BitVec.ofNat 32 i)
  simp only [FS.Used, on.toNat_ofNat inside, bitCnt, inside, true_and] at same
  exact Bool.eq_iff_iff.mpr same

/-- Without room for a data sector a growth takes the indirect and the doubly indirect block from
    the inode. -/
theorem inodeGrowUnlocked_noRoom (on : On F h fs) (opened : fs.freeMapFile = true)
    (maps : Maps h d L) (owns : Owns h L.sectors) (tight : L.Tight) (noRoom : ¬RoomForSector fs L)
    (pos : 0 < sectors) : ∃ d' fs', inodeGrowUnlocked d sectors fs = some (false, d', fs') ∧
      d'.indirect = blockSectorNone ∧ ∀ s ∈ L.index.take 2, ¬fs'.Used s := by
  obtain ⟨ok, d1, ys, zs, h1, fs1, run1, grows, -, success, -⟩ :=
    growSectors_spec pos on maps owns tight
  obtain rfl : ys = [] := by
    by_contra some
    have added := length_pos_iff.mpr some
    have spent := on.freeCount_add_le grows.added.on grows.added.same.bitCnt grows.added.nodup
      grows.added.fresh (fun _ => grows.added.added_isSome) fun _ => grows.added.isSome
    have small := grows.maps.small
    have covered := grows.maps.covered
    simp only [extend_index, extend_data, length_append] at spent small covered
    have more := indexCount_mono (show L.data.length + 1 ≤ L.data.length + ys.length by omega)
    unfold Layout.Tight at tight
    unfold RoomForSector at noRoom
    omega
  obtain ⟨h2, fs2, run2, shed⟩ := growFail_zero grows.added.on
    (grows.added.same.freeMapFile.trans opened) grows.maps (grows.owns owns)
  unfold inodeGrowUnlocked
  rw [if_neg (by omega), run1, bind_eq_bind, bind_some]
  cases ok with
  | true =>
    have := (success rfl).1
    simp only [length_nil] at this
    omega
  | false =>
    dsimp only [length_nil]
    rw [if_neg (by decide), Int.natCast_zero, run2, bind_eq_bind, bind_some]
    refine ⟨_, _, rfl, rfl, ?_⟩
    intro s gone used
    have gone' : s ∈ (L.index ++ zs).take 2 := by
      rw [take_append]
      exact mem_append_left _ gone
    rcases shed.on.used_or.mp used with file | held
    · have old := owns.index s (mem_of_mem_take gone)
      exact (on.used_iff.mp old).1 file
    · rw [shed.free s gone'] at held
      cases held

/-- The failing growths leave the inode, its index blocks, its data and the free map as they were
    exactly if nothing is to be added, the inode uses its direct pointers only, or there is room
    for one more data sector. -/
theorem inode_grow_failure_restores_iff (on : On F h fs) (opened : fs.freeMapFile = true)
    (maps : Maps h d L) (owns : Owns h L.sectors) (tight : L.Tight) :
    (∀ d' fs', inodeGrowUnlocked d sectors fs = some (false, d', fs') →
      d' = d ∧ fs'.freeMap.bitCnt = fs.freeMap.bitCnt ∧
        (∀ i < fs.freeMap.bitCnt, fs'.freeMap.bits i = fs.freeMap.bits i) ∧
        ∀ s ∈ L.sectors, fs'.view s = fs.view s) ↔
      sectors ≤ 0 ∨ L.data.length ≤ 10 ∨ RoomForSector fs L := by
  constructor
  · intro restores
    by_contra! noRoom
    obtain ⟨pos, high, noRoom⟩ := noRoom
    obtain ⟨d', fs', run, dropped, -⟩ :=
      inodeGrowUnlocked_noRoom on opened maps owns tight noRoom pos
    rw [(restores d' fs' run).1, maps.indirect] at dropped
    have indexed : 0 < L.index.length := by
      have := indexCount_mono (show 11 ≤ L.data.length by omega)
      unfold Layout.Tight at tight
      exact tight ▸ Nat.lt_of_lt_of_le (by decide) this
    rw [getD_eq_getElem _ _ indexed] at dropped
    exact maps.real _ (getElem_mem indexed) dropped
  · intro room d' fs' run
    rcases room with none | room
    · rw [inodeGrowUnlocked_nonpos d none fs] at run
      cases run
    obtain ⟨rfl, on', bitCnt⟩ := inodeGrowUnlocked_undone on opened maps owns tight room run
    obtain ⟨used, view⟩ := on.agree on'
    exact ⟨rfl, bitCnt, on.bits_eq bitCnt used, fun s member => view s (owns.held s member)⟩

/-! ## A full disk -/

theorem On.length_le (on : On F h fs) (owns : Owns h xs) : xs.length ≤ fs.freeMap.bitCnt := by
  have distinct : (xs.map BitVec.toNat).Nodup :=
    owns.nodup.map fun _ _ => BitVec.eq_of_toNat_eq
  have inside : xs.map BitVec.toNat ⊆ List.range fs.freeMap.bitCnt := by
    intro i mem
    obtain ⟨x, held, rfl⟩ := mem_map.mp mem
    exact mem_range.mpr (on.used_iff.mp (owns.held x held)).2.1
  simpa using (subperm_of_subset distinct inside).length_le

theorem On.exists_exhausted (on : On F h fs) (small : fs.freeMap.bitCnt < maxSectors) :
    ∃ h' fs', On F h' fs' ∧ Exhausted F h' fs' ∧ fs'.freeMapFile = fs.freeMapFile ∧
      ∀ x, (h x).isSome → h' x = h x := by
  obtain ⟨ok, d1, ys, zs, h1, fs1, -, grows, -, success, failure⟩ :=
    growSectors_spec (show 0 < ((maxSectors + 1 : Nat) : Int) by decide) on
      (Maps.newInode h 0 false rootDirSector) (Owns.empty h) (Eq.refl 0)
  have owned := grows.owns (Owns.empty h)
  have few : (empty.data ++ ys).length < maxSectors := by
    have data : Owns h1 (empty.data ++ ys) :=
      ⟨(nodup_append.mp owned.nodup).1, fun x mem => owned.held x (mem_append_left _ mem)⟩
    have := grows.added.on.length_le data
    rw [grows.added.same.bitCnt] at this
    omega
  cases ok with
  | true =>
    have := (success rfl).1
    rw [length_append] at few
    omega
  | false =>
    obtain ⟨-, full | ⟨-, exhausted⟩⟩ := failure rfl
    · omega
    · exact ⟨h1, fs1, grows.added.on, exhausted, grows.added.same.freeMapFile,
        fun x held => grows.added.keep held not_mem_nil⟩

theorem exists_indexed_inode : ∃ F h fs d L, On F h fs ∧ fs.freeMapFile = true ∧ Maps h d L ∧
    Owns h L.sectors ∧ L.Tight ∧ L.data.length = 11 ∧ fs.freeMap.bitCnt = 2000 ∧
    1000 ≤ fs.freeCount := by
  obtain ⟨fs, formatted, quiet, -, bits, count⟩ := exists_formatted
  obtain ⟨r, fs', -, costs, failure, success⟩ := InodeRun.createOpen_spec formatted.models
    (show 5632 ≤ 2 ^ 31 - 512 by decide) false rootDirSector
  have free := costs.free
  cases r with
  | none =>
    rcases (failure rfl).2 with tooLong | failed
    · exact absurd tooLong (by decide)
    rcases costs.quiet failed with old | few
    · rw [quiet] at old
      cases old
    · omega
  | some t =>
    obtain ⟨-, -, F, h, G, rep⟩ := success t rfl
    obtain ⟨d, L, -, node⟩ := rep.nodeAt t _ Volume.put_node_self
    exact ⟨F, h, fs', d, L, rep.on, rep.opened, node.maps, node.owns_layout, node.tight, node.size,
      costs.bitCnt.trans bits, by omega⟩

/-- Growing that file by more than an inode can hold. -/
theorem inode_grow_failure_restores_iff_too_large : ∃ (F : List BlockSector) (h : Heap) (fs fs' : FS)
    (d d' : InodeDisk) (L : Layout), On F h fs ∧ Maps h d L ∧ L.data.length = 11 ∧
      inodeGrowUnlocked d maxSectors fs = some (false, d', fs') ∧
      (d' = d ∧ fs'.freeMap.bitCnt = fs.freeMap.bitCnt ∧
        (∀ i < fs.freeMap.bitCnt, fs'.freeMap.bits i = fs.freeMap.bits i) ∧
        ∀ s ∈ L.sectors, fs'.view s = fs.view s) := by
  obtain ⟨F, h, fs, d, L, on, opened, maps, owns, tight, eleven, -, free⟩ := exists_indexed_inode
  obtain ⟨ok, d', fs', run, -, growth⟩ :=
    inodeGrowUnlocked_spec maxSectors on opened maps owns tight
  cases ok with
  | true =>
    cases growth with
    | grown grows enough _ =>
      have small := grows.maps.small
      rw [extend_data, length_append] at small
      omega
  | false =>
    have room : RoomForSector fs L := by
      unfold RoomForSector
      rw [eleven]
      exact ⟨by decide, Nat.lt_of_lt_of_le (by decide) free⟩
    exact ⟨F, h, fs, fs', d, d', L, on, maps, eleven, run,
      (inode_grow_failure_restores_iff on opened maps owns tight).mpr (.inr (.inr room)) d' fs' run⟩

/-- Growing that file by one sector on a full disk. -/
theorem grow_failure_drops_index_block : ∃ (F : List BlockSector) (h : Heap) (fs fs' : FS)
    (d d' : InodeDisk) (L : Layout), On F h fs ∧ fs.freeMapFile = true ∧ Maps h d L ∧
      Owns h L.sectors ∧ L.Tight ∧ L.data.length = 11 ∧
      inodeGrowUnlocked d 1 fs = some (false, d', fs') ∧
      d'.indirect ≠ d.indirect ∧ fs.Used d.indirect ∧ ¬fs'.Used d.indirect := by
  obtain ⟨F, h0, fs0, d, L, on0, opened, maps0, owns0, tight, eleven, bits, -⟩ :=
    exists_indexed_inode
  obtain ⟨h, fs, on, exhausted, sameFile, kept⟩ :=
    on0.exists_exhausted (by rw [bits]; decide)
  have maps : Maps h d L := maps0.congr fun s member => kept s (owns0.index s member)
  have owns : Owns h L.sectors := by
    refine ⟨owns0.nodup, ?_⟩
    intro x member
    rw [kept x (owns0.held x member)]
    exact owns0.held x member
  have opened := sameFile.trans opened
  have noRoom : ¬RoomForSector fs L := fun room => by
    have some := room.2
    rw [exhausted.freeCount on] at some
    exact Nat.not_lt_zero _ some
  obtain ⟨d', fs', run, dropped, freed⟩ :=
    inodeGrowUnlocked_noRoom on opened maps owns tight noRoom (show (0 : Int) < 1 by decide)
  have counted : L.index.length = 1 := tight.trans (by rw [eleven]; rfl)
  obtain ⟨s, only⟩ := length_eq_one_iff.mp counted
  have pointer : d.indirect = s := by
    rw [maps.indirect, only]
    rfl
  have member : s ∈ L.index := by
    rw [only]
    exact mem_cons_self
  refine ⟨F, h, fs, fs', d, d', L, on, opened, maps, owns, tight, eleven, run, ?_, ?_, ?_⟩
  · rw [pointer, dropped]
    exact (maps.real s member).symm
  · rw [pointer]
    exact (on.used_iff.mp (owns.index s member)).2
  rw [pointer]
  apply freed
  rw [only]
  exact mem_cons_self

end Pintos
