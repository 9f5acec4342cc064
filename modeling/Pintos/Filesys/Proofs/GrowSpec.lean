import Pintos.Filesys.Proofs.GrowCut
import Pintos.Filesys.Proofs.Space

/-!
# `inode_grow_unlocked`

The function as a whole. It adds the requested sectors, or it fails. After a
failure the inode and the disk are as before, except when no data sector could be
allocated: then the indirect and the doubly indirect block are released although
the inode on disk still refers to them.
-/

namespace Pintos

open List Option

variable {x : BlockSector} {olds gone touched : List BlockSector} {fs'' fs1 fs2 : FS} {h1 h2 : Heap}
  {d1 d2 : InodeDisk} {sectors : Nat} {F : List BlockSector} {h h' : Heap} {d d' : InodeDisk}
  {L : Layout} {fs fs' : FS} {ys zs : List BlockSector}

/-! ## A layout determines the inode and its index blocks -/

theorem Maps.inode_unique (maps : Maps h d L)
    (maps' : Maps h' d' L) (attrs : SameAttrs d d') : d' = d := by
  obtain ⟨isDir, fileCnt, length, parent, direct, indirect, doublyIndirect, magic⟩ := d
  obtain ⟨isDir', fileCnt', length', parent', direct', indirect', doublyIndirect', magic'⟩ := d'
  have sameDirect : direct' = direct := maps'.direct.slots_unique maps.direct
  have sameIndirect : indirect' = indirect := maps'.indirect.trans maps.indirect.symm
  have sameDoubly : doublyIndirect' = doublyIndirect := maps'.doubly.trans maps.doubly.symm
  obtain ⟨rfl, rfl, rfl, rfl, rfl⟩ := attrs
  rw [sameDirect, sameIndirect, sameDoubly]

theorem Layout.index_cases (mem : x ∈ L.index) :
    ∃ xs, ∀ {h : Heap} {d : InodeDisk}, Maps h d L → IndexAt h x xs := by
  obtain ⟨i, hi, rfl⟩ := getElem_of_mem mem
  have found : L.index[i]? = some L.index[i] := List.getElem?_eq_getElem hi
  match i with
  | 0 => exact ⟨_, fun maps => maps.first _ found⟩
  | 1 => exact ⟨_, fun maps => maps.middle _ found⟩
  | j + 2 => exact ⟨_, fun maps => maps.second j _ (by rw [Nat.add_comm 2 j]; exact found)⟩

theorem Maps.index_unique (maps : Maps h d L)
    (maps' : Maps h' d' L) (mem : x ∈ L.index) : h' x = h x := by
  obtain ⟨xs, index⟩ := Layout.index_cases mem
  exact (index maps').unique (index maps)

theorem Maps.index_length (maps : Maps h d L) : L.index.length ≤ 130 := by
  by_cases short : L.index.length ≤ 1
  · omega
  obtain ⟨c, -, slots⟩ := maps.middle L.index[1] (List.getElem?_eq_getElem (by omega))
  have fits := slots.fits
  rw [length_drop] at fits
  omega

/-! ## The cost of a growth -/

theorem Added.steady (on : On F h fs)
    (added : Added F h fs h' fs' ys zs olds) : Steady (ys ++ zs).length fs fs' := by
  have less : fs.freeCount ≤ fs'.freeCount + (ys ++ zs).length := by
    apply on.freeCount_le added.on added.same.bitCnt
    intro x held
    by_cases new : x ∈ ys ++ zs
    · exact .inr new
    left
    by_cases old : x ∈ olds
    · exact added.old x old
    · rwa [added.frame x new old] at held
  refine ⟨⟨less, ?_, added.same.allocFailed, fun failed => added.same.growFailed ▸ failed,
    added.same.bitCnt⟩, added.same.growFailed⟩
  intro failed
  rcases added.quiet failed with before | exhausted
  · exact .inl before
  right
  have zero := exhausted.freeCount added.on
  omega

theorem Shed.steady (on : On F h fs) (shed : Shed F h fs h' fs' gone touched) : Steady 0 fs fs' := by
  apply Steady.of_same on shed.on shed.same
  intro x held
  by_cases isGone : x ∈ gone
  · rw [shed.free x isGone] at held
    cases held
  by_cases isTouched : x ∈ touched
  · exact shed.used x isTouched
  · rwa [shed.frame x isGone isTouched] at held

theorem Costs.growFailed_true (fs : FS) : Costs 0 fs { fs with growFailed := true } :=
  ⟨Nat.le_refl _, .inl, id, fun _ => rfl, rfl⟩

/-! ## The outcome of a growth -/

/-- What an operation on an inode leaves alone even if a growth fails. -/
structure After (fs fs' : FS) : Prop where
  openInodes : fs'.openInodes = fs.openInodes
  freeMapFile : fs'.freeMapFile = fs.freeMapFile
  bitCnt : fs'.freeMap.bitCnt = fs.freeMap.bitCnt
  growFailed : fs.growFailed = true → fs'.growFailed = true
  allocFailed : fs.allocFailed = true → fs'.allocFailed = true

theorem Later.after (later : Later fs fs') : After fs fs' :=
  ⟨later.openInodes, later.freeMapFile, later.bitCnt, fun failed => later.growFailed ▸ failed,
    later.allocFailed⟩

theorem After.trans (first : After fs fs') (second : After fs' fs'') : After fs fs'' where
  openInodes := second.openInodes.trans first.openInodes
  freeMapFile := second.freeMapFile.trans first.freeMapFile
  bitCnt := second.bitCnt.trans first.bitCnt
  growFailed := second.growFailed ∘ first.growFailed
  allocFailed := second.allocFailed ∘ first.allocFailed

/-- The outcomes of growing the inode `d` with layout `L` by `sectors`. -/
inductive Growth (F : List BlockSector) (h : Heap) (fs : FS) (d : InodeDisk) (L : Layout)
    (sectors : Nat) (fs' : FS) : Bool → InodeDisk → Prop
  | grown {h' : Heap} {d' : InodeDisk} {ys zs : List BlockSector}
      (grows : Grows F h fs d L h' fs' d' ys zs) (count : ys.length = sectors)
      (tight : (L.extend ys zs).Tight) : Growth F h fs d L sectors fs' true d'
  | undone (on : On F h fs') (after : After fs fs') (failed : fs'.growFailed = true)
      (why : maxSectors < L.data.length + sectors ∨ fs'.allocFailed = true) :
      Growth F h fs d L sectors fs' false d
  | broken {h' : Heap} {d' : InodeDisk} (positive : 0 < sectors) (on : On F h' fs')
      (after : After fs fs')
      (failed : fs'.growFailed = true)
      (why : L.data.length = maxSectors ∨ fs'.allocFailed = true)
      (frame : ∀ x, (h x).isSome → x ∉ L.index → h' x = h x) :
      Growth F h fs d L sectors fs' false d'

theorem Grows.refl (on : On F h fs)
    (maps : Maps h d L) (owns : Owns h L.sectors) : Grows F h fs d L h fs d [] [] := by
  refine ⟨(Added.refl on).mono (nil_subset _) owns.index, ?_, SameAttrs.refl d⟩
  unfold Layout.extend
  rwa [append_nil, append_nil]

theorem Layout.extend_cut (tight : L.Tight) (ys zs : List BlockSector) :
    (L.extend ys zs).cut L.data.length = L := by
  unfold Layout.extend Layout.cut
  rw [← tight, take_left, take_left]

/-- After a growth and a cut back the inode and the heap are as before. -/
theorem Grows.undo (grows : Grows F h fs d L h1 fs1 d1 ys zs) (maps : Maps h d L)
    (tight : L.Tight) (cuts : Cuts F h1 fs1 d1 (L.extend ys zs) h2 fs2 d2 L.data.length) :
    h2 = h ∧ d2 = d := by
  have maps2 := cuts.maps
  rw [Layout.extend_cut tight] at maps2
  refine ⟨?_, maps.inode_unique maps2 (grows.attrs.trans cuts.attrs)⟩
  have shed : Shed F h1 fs1 h2 fs2 ((L.data ++ ys).drop L.data.length ++
      (L.index ++ zs).drop (indexCount L.data.length)) ((L.index ++ zs).take (indexCount L.data.length)) :=
    cuts.shed
  rw [← tight, drop_left, drop_left, take_left] at shed
  funext x
  by_cases index : x ∈ L.index
  · exact maps.index_unique maps2 index
  by_cases new : x ∈ ys ++ zs
  · rw [shed.free x new, grows.added.fresh x new]
  · rw [shed.frame x new index, grows.added.frame x new index]

/-- Once a data sector was added, the failure path restores the inode and the heap. -/
theorem Grows.growFail_undoes (grows : Grows F h fs d L h1 fs1 d1 ys zs)
    (opened : fs.freeMapFile = true) (maps : Maps h d L) (owns : Owns h L.sectors) (tight : L.Tight)
    (pos : 0 < ys.length) :
    ∃ fs2, growFail d1 ys.length fs1 = some (d, fs2) ∧ On F h fs2 ∧ Same fs1 fs2 ∧
      Steady 0 fs1 fs2 := by
  obtain ⟨d2, h2, fs2, run, cuts⟩ := growFail_spec grows.added.on
    (grows.added.same.freeMapFile.trans opened) grows.maps (grows.owns owns) pos
  have length : (L.extend ys zs).data.length - ys.length = L.data.length := by
    rw [Layout.extend_data, length_append, Nat.add_sub_cancel]
  rw [length] at cuts
  obtain ⟨rfl, rfl⟩ := grows.undo maps tight cuts
  exact ⟨fs2, run, cuts.shed.on, cuts.shed.same, cuts.shed.steady grows.added.on⟩

theorem Grows.steady (grows : Grows F h fs d L h' fs' d' ys zs) (on : On F h fs)
    (enough : ys.length ≤ sectors) : Steady (sectors + 130) fs fs' := by
  apply (grows.added.steady on).mono
  have few := grows.maps.index_length
  rw [Layout.extend_index, length_append] at few
  rw [length_append]
  omega

theorem inodeGrowUnlocked_nonpos (d : InodeDisk) {sectors : Int} (nonpos : sectors ≤ 0) (fs : FS) :
    inodeGrowUnlocked d sectors fs = some (true, d, fs) := by
  unfold inodeGrowUnlocked
  by_cases zero : sectors = 0
  · rw [if_pos zero]
  have direct : growDirect d sectors 0 fs = some (true, d, 0, fs) := by
    unfold growDirect
    rw [show List.finRange 10 = 0 :: (List.finRange 10).tail from rfl, fillSlots, if_neg (by omega)]
    rfl
  rw [if_neg zero, growSectors, direct]
  simp [nonpos]

theorem inodeGrowUnlocked_spec (sectors : Nat)
    (on : On F h fs) (opened : fs.freeMapFile = true) (maps : Maps h d L) (owns : Owns h L.sectors)
    (tight : L.Tight) :
    ∃ ok d' fs', inodeGrowUnlocked d sectors fs = some (ok, d', fs') ∧
      Costs (sectors + 130) fs fs' ∧ Growth F h fs d L sectors fs' ok d' := by
  by_cases pos : 0 < sectors
  swap
  · obtain rfl : sectors = 0 := by omega
    refine ⟨true, d, fs, rfl, (Costs.refl fs).mono (Nat.zero_le _),
      Growth.grown (Grows.refl on maps owns) rfl ?_⟩
    unfold Layout.extend
    rwa [append_nil, append_nil]
  obtain ⟨ok, d1, ys, zs, h1, fs1, run1, grows, -, success, failure⟩ :=
    growSectors_spec (show 0 < (sectors : Int) by omega) on maps owns tight
  have growCosts : Steady (sectors + 130) fs fs1 := by
    apply grows.steady on
    cases ok with
    | true => have := (success rfl).1; omega
    | false => have := (failure rfl).1; omega
  unfold inodeGrowUnlocked
  rw [if_neg (by omega), run1]
  simp only [bind_eq_bind, bind_some]
  cases ok with
  | true =>
    obtain ⟨count, tight1⟩ := success rfl
    exact ⟨true, d1, fs1, rfl, growCosts.toCosts, Growth.grown grows (by omega) tight1⟩
  | false =>
    obtain ⟨less, why⟩ := failure rfl
    rw [if_neg (by simp)]
    by_cases some? : 0 < ys.length
    · obtain ⟨fs2, run2, on2, same2, steady2⟩ := grows.growFail_undoes opened maps owns tight some?
      have later := grows.added.same.trans same2.toLater
      rw [run2]
      refine ⟨false, d, { fs2 with growFailed := true }, rfl,
        (growCosts.trans steady2).toCosts.trans (Costs.growFailed_true fs2),
        .undone (on2.congr rfl rfl rfl rfl) ?_ rfl ?_⟩
      · exact later.after.trans ⟨rfl, rfl, rfl, fun _ => rfl, id⟩
      rcases why with full | ⟨failed, -⟩
      · left
        rw [length_append] at full
        omega
      · exact .inr (same2.allocFailed failed)
    obtain rfl : ys = [] := eq_nil_of_length_eq_zero (by omega)
    obtain ⟨h2, fs2, run2, shed⟩ :=
      growFail_zero grows.added.on (grows.added.same.freeMapFile.trans opened) grows.maps
        (grows.owns owns)
    have later := grows.added.same.trans shed.same.toLater
    rw [length_nil, Int.natCast_zero, run2]
    refine ⟨false, _, { fs2 with growFailed := true }, rfl,
      (growCosts.trans (shed.steady grows.added.on)).toCosts.trans (Costs.growFailed_true fs2),
      .broken pos (shed.on.congr rfl rfl rfl rfl) ?_ rfl ?_ ?_⟩
    · exact later.after.trans ⟨rfl, rfl, rfl, fun _ => rfl, id⟩
    · rcases why with full | ⟨failed, -⟩
      · rw [append_nil] at full
        exact .inl full
      · exact .inr (shed.same.allocFailed failed)
    intro x used notIndex
    have notNew := grows.added.notMem_of_held used
    rw [nil_append] at notNew
    rw [shed.frame x _ not_mem_nil, grows.added.frame x notNew notIndex]
    intro gone
    rcases mem_append.mp (mem_of_mem_take gone) with old | new
    · exact notIndex old
    · exact notNew new

/-- A growth fails only where the inode would get too large or where there are few free sectors. -/
theorem inodeGrowUnlocked_fails
    (on : On F h fs) (maps : Maps h d L) (owns : Owns h L.sectors) (tight : L.Tight)
    (run : inodeGrowUnlocked d sectors fs = some (false, d', fs')) :
    maxSectors < L.data.length + sectors ∨ fs.freeCount ≤ sectors + 130 := by
  unfold inodeGrowUnlocked at run
  by_cases pos : 0 < sectors
  swap
  · rw [if_pos (by omega)] at run
    cases run
  obtain ⟨ok, d1, ys, zs, h1, fs1, run1, grows, -, success, failure⟩ :=
    growSectors_spec (show 0 < (sectors : Int) by omega) on maps owns tight
  rw [if_neg (by omega), run1, bind_eq_bind, bind_some] at run
  cases ok with
  | true => cases run
  | false =>
    obtain ⟨less, full | ⟨-, exhausted⟩⟩ := failure rfl
    · left
      rw [length_append] at full
      omega
    right
    have zero := exhausted.freeCount grows.added.on
    have costs := (grows.steady on (show ys.length ≤ sectors by omega)).free
    omega

end Pintos
