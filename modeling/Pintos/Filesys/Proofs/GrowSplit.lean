import Pintos.Filesys.Proofs.FilesysSpec

/-!
# An inode from its first sector to its last

An inode that grows in several calls of `inode_grow_unlocked` (`inode.c:188-288`) has the same
layout as if it had grown in one. `byte_to_sector_unlocked` finds its sectors in order, and
`inode_close` gives back what was allocated for it. A sector that is released twice would stop
the kernel, since `free_map_release` checks that it is in use.
-/

namespace Pintos

open List

variable {fs fs' : FS} {V : Volume} {R F ns : List _} {h : Heap} {d d' : InodeDisk} {L : Layout}
  {s : BlockSector}

/-- Calls of `inode_grow_unlocked`, one after the other, that all succeed. -/
def growSplit : List Nat → InodeDisk → FS → Option (InodeDisk × FS)
  | [], d, fs => some (d, fs)
  | sectors :: rest, d, fs => do
      let (ok, d, fs) ← inodeGrowUnlocked d sectors fs
      if ok then growSplit rest d fs else none

theorem growSplit_grows (on : On F h fs) (opened : fs.freeMapFile = true) (maps : Maps h d L)
    (owns : Owns h L.sectors) (tight : L.Tight) (run : growSplit ns d fs = some (d', fs')) :
    ∃ h' ys zs, Grows F h fs d L h' fs' d' ys zs ∧ ys.length = ns.sum := by
  induction ns generalizing h d fs L with
  | nil =>
    cases run
    exact ⟨h, [], [], Grows.refl on maps owns, rfl⟩
  | cons sectors rest ih =>
    obtain ⟨ok, d1, fs1, run1, -, growth⟩ := inodeGrowUnlocked_spec sectors on opened maps owns tight
    rw [growSplit, run1] at run
    cases growth with
    | grown grows count tight1 =>
      obtain ⟨h', ys, zs, more, sum⟩ := ih grows.added.on
        (grows.added.same.freeMapFile.trans opened) grows.maps (grows.owns owns) tight1 run
      refine ⟨h', _, _, grows.trans more, ?_⟩
      rw [length_append, count, sum, sum_cons]
    | undone => cases run
    | broken => cases run

/-- The sectors of an inode that has grown from nothing: those of its data, which
    `byte_to_sector_unlocked` finds, and its index blocks were free before, and the last
    `inode_close` after a removal releases them and the inode's own. -/
theorem grown_inode_released (models : Models fs V (s :: R)) (length : Int) (isDir : Bool)
    (parent : BlockSector) (run : growSplit ns (newInode length isDir parent) fs = some (d', fs')) :
    ∃ data index, data.length = ns.sum ∧ (s :: (data ++ index)).Nodup ∧
      (∀ x ∈ data ++ index, ¬fs.Used x ∧ x ≠ blockSectorNone) ∧
      (∀ x, fs'.Used x ↔ fs.Used x ∨ x ∈ data ++ index) ∧
      (∀ pos : Nat, ∃ fs'', fs'.byteToSectorUnlocked d' pos =
        some (data.getD (pos / 512) blockSectorNone, fs'')) ∧
      ∀ inode : Inode, inode.openCnt = 1 → inode.removed = true → inode.data = d' →
        ∃ fs'', (fs'.setInode s (some inode)).inodeClose s = some fs'' ∧
          ∀ x, fs''.Used x ↔ fs'.Used x ∧ x ∉ s :: (data ++ index) := by
  obtain ⟨F, h, G, rep⟩ := models
  obtain ⟨h', data, index, grows, count⟩ := growSplit_grows rep.on rep.opened
    (Maps.newInode h length isDir parent) (Owns.empty h) (Eq.refl 0) run
  have on' := grows.added.on
  have opened' := grows.added.same.freeMapFile.trans rep.opened
  have owns := grows.owns (Owns.empty h)
  have used := (rep.raw s mem_cons_self).1
  have kept : (h' s).isSome := grows.added.isSome used
  have mine : Owns h' (s :: (data ++ index)) :=
    ⟨nodup_cons.mpr ⟨grows.added.notMem_of_held used, owns.nodup⟩,
      forall_mem_cons.mpr ⟨kept, owns.held⟩⟩
  refine ⟨data, index, count, mine.nodup, fun x mem => ⟨fun old => ?_, ?_⟩, fun x => ?_,
    fun pos => ?_, ?_⟩
  · have fresh := grows.added.fresh x mem
    have notF := (on'.used_iff.mp (owns.held x mem)).1
    rcases rep.on.used_or.mp old with isF | held
    · exact notF isF
    · rw [fresh] at held
      cases held
  · obtain ⟨c, held⟩ := Option.isSome_iff_exists.mp (owns.held x mem)
    exact on'.ne_none held
  · have grown : (h' x).isSome ↔ (h x).isSome ∨ x ∈ data ++ index := by
      by_cases mem : x ∈ data ++ index
      · simp only [mem, owns.held x mem, or_true]
      · simp only [mem, grows.added.frame x mem not_mem_nil, or_false]
    rw [on'.used_or, rep.on.used_or, grown, or_assoc]
  · obtain ⟨g, on⟩ := on'
    have maps : Maps g d' ⟨data, index⟩ := by
      apply grows.maps.congr
      intro x mem
      obtain ⟨c, held⟩ := Option.isSome_iff_exists.mp (owns.index x mem)
      rw [held, (on.held_iff.mp held).2]
    obtain ⟨store, run, -⟩ := on.stored.byteToSector maps pos
    exact ⟨_, run⟩
  intro inode once removed isData
  have notFile : s ≠ freeMapSector := by
    rintro rfl
    obtain ⟨g, on⟩ := rep.on
    obtain ⟨-, M, rfl, -⟩ := on.file rep.opened
    exact ((rep.on).used_iff.mp used).1 mem_cons_self
  have on1 := (on'.setInode notFile (some inode)).setInode notFile none
  obtain ⟨fs1, run1, on2, same⟩ := on1.cacheFlush
  obtain ⟨h2, fs2, run2, shed⟩ := inodeDeallocate_spec grows.maps mine on2
    (same.freeMapFile.trans opened')
  refine ⟨fs2, ?_, fun x => ?_⟩
  · simp [FS.inodeClose, FS.setInode_self, once, removed, run1, isData, run2]
  rw [shed.on.used_or, on'.used_or]
  by_cases mem : x ∈ s :: (data ++ index)
  · simp [shed.free x mem, mem, (on'.used_iff.mp (mine.held x mem)).1]
  · simp only [shed.frame x mem not_mem_nil, mem, not_false_eq_true, and_true]

theorem growSplit_isSome (on : On F h fs) (opened : fs.freeMapFile = true) (maps : Maps h d L)
    (owns : Owns h L.sectors) (tight : L.Tight) (quiet : fs.allocFailed = false)
    (small : L.data.length + ns.sum ≤ maxSectors)
    (room : ns.sum + 130 * ns.length < fs.freeCount) : (growSplit ns d fs).isSome := by
  induction ns generalizing h d fs L with
  | nil => rfl
  | cons sectors rest ih =>
    rw [sum_cons] at small room
    rw [length_cons] at room
    obtain ⟨ok, d1, fs1, run1, costs, growth⟩ :=
      inodeGrowUnlocked_spec sectors on opened maps owns tight
    have quiet1 := Models.not_allocFailed costs quiet (by omega)
    rw [growSplit, run1]
    cases growth with
    | grown grows count tight1 =>
      have free := costs.free
      apply ih grows.added.on (grows.added.same.freeMapFile.trans opened) grows.maps
        (grows.owns owns) tight1 quiet1
      · rw [Layout.extend, length_append, count]
        omega
      · omega
    | undone on after failed why =>
      simp [quiet1, show ¬maxSectors < L.data.length + sectors by omega] at why
    | broken pos on after failed why frame =>
      simp [quiet1, show L.data.length ≠ maxSectors by omega] at why

/-- An inode of two times 140 sectors on a formatted device. -/
theorem grown_inode_released_two : ∃ fs V s d' fs', Models fs V [s] ∧
    growSplit [140, 140] (newInode 0 false rootDirSector) fs = some (d', fs') ∧
    ∃ data : List BlockSector, data.length = 280 ∧ data.Nodup ∧ ∀ pos : Nat, ∃ fs'',
      fs'.byteToSectorUnlocked d' pos = some (data.getD (pos / 512) blockSectorNone, fs'') := by
  obtain ⟨fs0, formatted, quiet0, -, -, count⟩ := exists_formatted
  obtain ⟨r, fs, -, steady, result⟩ := formatted.models.freeMapAllocate
  have free := steady.free
  have quiet := Models.not_allocFailed steady.toCosts quiet0 (by omega)
  cases r with
  | none =>
    rw [quiet] at result
    cases result.1
  | some s =>
    have models := result
    obtain ⟨F, h, G, rep⟩ := result
    have grown : (growSplit [140, 140] (newInode 0 false rootDirSector) fs).isSome :=
      growSplit_isSome rep.on rep.opened (Maps.newInode h 0 false rootDirSector) (Owns.empty h)
        (Eq.refl 0) quiet (by decide) (by simp; omega)
    obtain ⟨⟨d', fs'⟩, run⟩ := Option.isSome_iff_exists.mp grown
    obtain ⟨data, index, length, nodup, -, -, found, -⟩ :=
      grown_inode_released models 0 false rootDirSector run
    exact ⟨fs, _, s, d', fs', models, run, data, length,
      (nodup_cons.mp nodup).2.sublist (sublist_append_left ..), found⟩

end Pintos
