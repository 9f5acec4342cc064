import Pintos.Filesys.Cache

/-!
# What the cache stores

`view` is the content of a sector as the users of the cache see it: the cached
copy when there is one, the disk's otherwise. `WellFormed` is the invariant of
the cache between calls. Every operation is specified once, by its effect on
these two; the file system above the cache uses nothing else about it.
-/

namespace Pintos

open List

variable {i : Fin cacheSize}
namespace CacheState

variable {Dev : Type} [DecidableEq Dev] {st : CacheState Dev} {block : Dev} {sector : BlockSector}

/-- The content of a sector, cached or not. -/
def view (st : CacheState Dev) (block : Dev) (sector : BlockSector) : SectorData :=
  match st.find block sector with
  | some i => (st.cache i).data
  | none => st.disk block sector

/-- The invariant of the cache between calls. -/
structure WellFormed (st : CacheState Dev) : Prop where
  /-- At most one valid block holds a given sector. -/
  unique : ∀ i j, (st.cache i).valid → (st.cache j).valid →
    (st.cache i).block = (st.cache j).block → (st.cache i).sector = (st.cache j).sector → i = j
  /-- A valid clean block equals the disk. -/
  clean : ∀ i, (st.cache i).valid → (st.cache i).dirty = false →
    (st.cache i).data = st.disk (st.cache i).block (st.cache i).sector
  /-- A valid block lies on its device. -/
  inRange : ∀ i, (st.cache i).valid → (st.cache i).sector.toNat < st.blockSize (st.cache i).block
  /-- `cache_list` is a permutation of the blocks. -/
  perm : st.cacheList.Perm (List.finRange cacheSize)

theorem holds_iff (cb : CacheBlock Dev) (block : Dev) (sector : BlockSector) :
    holds cb block sector = true ↔ cb.valid = true ∧ cb.block = block ∧ cb.sector = sector := by
  simp [holds, and_assoc]

theorem find_holds
    (found : st.find block sector = some i) : holds (st.cache i) block sector = true := by
  have held := List.find?_some found
  exact held

theorem find_some (found : st.find block sector = some i) :
    (st.cache i).valid = true ∧ (st.cache i).block = block ∧ (st.cache i).sector = sector :=
  (holds_iff _ _ _).mp (find_holds found)

theorem find_none
    (absent : st.find block sector = none) (i : Fin cacheSize) (valid : (st.cache i).valid = true) :
    ¬((st.cache i).block = block ∧ (st.cache i).sector = sector) := by
  intro same
  have := List.find?_eq_none.mp absent i (mem_finRange i)
  exact this ((holds_iff _ _ _).mpr ⟨valid, same⟩)

/-- With unique blocks the search finds the block that holds the sector. -/
theorem WellFormed.find_eq (wf : st.WellFormed) (valid : (st.cache i).valid = true) :
    st.find (st.cache i).block (st.cache i).sector = some i := by
  cases found : st.find (st.cache i).block (st.cache i).sector with
  | none => exact absurd ⟨rfl, rfl⟩ (find_none found i valid)
  | some j =>
    obtain ⟨validj, blockj, sectorj⟩ := find_some found
    rw [wf.unique j i validj valid blockj sectorj]

theorem WellFormed.view_of_valid (wf : st.WellFormed) (valid : (st.cache i).valid = true) :
    st.view (st.cache i).block (st.cache i).sector = (st.cache i).data := by
  simp [view, wf.find_eq valid]

theorem view_of_absent (absent : ∀ i, (st.cache i).valid = true →
      ¬((st.cache i).block = block ∧ (st.cache i).sector = sector)) :
    st.view block sector = st.disk block sector := by
  cases found : st.find block sector with
  | none => simp [view, found]
  | some i =>
    obtain ⟨valid, same⟩ := find_some found
    exact absurd same (absent i valid)

/-- A cache and a well-formed one that agree on the valid blocks of a sector and, when
    it has none, on its disk content show the same sector. -/
theorem view_congr {st' : CacheState Dev} (wf' : st'.WellFormed)
    (same : ∀ i, holds (st.cache i) block sector = holds (st'.cache i) block sector)
    (data : ∀ i, holds (st.cache i) block sector = true → (st.cache i).data = (st'.cache i).data)
    (disk : (∀ i, holds (st.cache i) block sector = false) →
      st.disk block sector = st'.disk block sector) :
    st.view block sector = st'.view block sector := by
  cases found : st.find block sector with
  | none =>
    have missing : ∀ i, holds (st.cache i) block sector = false := by
      intro i
      simpa using List.find?_eq_none.mp found i (mem_finRange i)
    have missing' : st'.find block sector = none := by
      simp only [find, List.find?_eq_none, ← same, missing]
      simp
    simp [view, found, missing', disk missing]
  | some i =>
    have held := find_holds found
    have held' := held
    rw [same] at held'
    obtain ⟨valid', rfl, rfl⟩ := (holds_iff _ _ _).mp held'
    rw [wf'.view_of_valid valid', ← data i held]
    simp [view, found]

/-- What `cacheEnter` leaves at its `memcpy`: block `i` is reserved for the sector
    and holds its content, no other valid block does, and the disk has caught up
    with every sector that lost its block. -/
structure Entered (st : CacheState Dev) (write : Bool) (block : Dev) (sector : BlockSector)
    (i : Fin cacheSize) (st' : CacheState Dev) : Prop where
  block_eq : (st'.cache i).block = block
  sector_eq : (st'.cache i).sector = sector
  data_eq : (st'.cache i).data = st.view block sector
  others : ∀ j, j ≠ i → st'.cache j = st.cache j
  alone : ∀ j, j ≠ i → holds (st.cache j) block sector = false
  dirty_write : write = true → (st'.cache i).dirty = true
  clean_read : (st'.cache i).dirty = false → (st'.cache i).data = st'.disk block sector
  disk_kept : ∀ j, j ≠ i → (st.cache j).valid = true →
    st'.disk (st.cache j).block (st.cache j).sector = st.disk (st.cache j).block (st.cache j).sector
  disk_view : ∀ b s, ¬(b = block ∧ s = sector) → (∀ j, j ≠ i → holds (st.cache j) b s = false) →
    st'.disk b s = st.view b s
  perm : st'.cacheList.Perm (List.finRange cacheSize)
  blockSize_eq : st'.blockSize = st.blockSize
  onDevice : sector.toNat < st.blockSize block

section

variable (wf : st.WellFormed)
include wf

theorem enter_hit (write : Bool) (found : st.find block sector = some i) :
    st.Entered write block sector i
      ((st.touch i).setBlock i { st.cache i with dirty := (st.cache i).dirty || write }) := by
  obtain ⟨valid, rfl, rfl⟩ := find_some found
  have alone : ∀ j, j ≠ i → holds (st.cache j) (st.cache i).block (st.cache i).sector = false := by
    intro j ne
    rw [Bool.eq_false_iff, Ne, holds_iff]
    rintro ⟨validj, blockj, sectorj⟩
    exact ne (wf.unique j i validj valid blockj sectorj)
  refine
    { block_eq := by simp, sector_eq := by simp, alone := alone, blockSize_eq := rfl,
      onDevice := wf.inRange i valid, data_eq := ?_, others := ?_, dirty_write := ?_,
      clean_read := ?_, disk_kept := fun _ _ _ => rfl, disk_view := ?_, perm := ?_ }
  · simp [wf.view_of_valid valid]
  · intro j ne
    simp [ne, touch]
  · intro hwrite
    simp [hwrite]
  · intro clean
    simp only [setBlock_same, Bool.or_eq_false_iff] at clean
    simpa [touch] using wf.clean i valid clean.1
  · intro b s otherKey absent
    symm
    apply view_of_absent
    intro j validj same
    by_cases equal : j = i
    · subst equal
      exact otherKey ⟨same.1.symm, same.2.symm⟩
    have held := (holds_iff (st.cache j) b s).mpr ⟨validj, same⟩
    rw [absent j equal] at held
    exact Bool.false_ne_true held
  have mem : i ∈ st.cacheList := wf.perm.mem_iff.mpr (mem_finRange i)
  have moved : (st.cacheList.erase i ++ [i]).Perm st.cacheList :=
    (perm_append_comm).trans (perm_cons_erase mem).symm
  exact moved.trans wf.perm

theorem writeBack_spec (i : Fin cacheSize) (list : List (Fin cacheSize)) :
    ∃ st', ({ st with cacheList := list } : CacheState Dev).writeBack (st.cache i) = some st' ∧
      st'.cache = st.cache ∧ st'.cacheList = list ∧ st'.blockSize = st.blockSize ∧
      (∀ b s, holds (st.cache i) b s = false → st'.disk b s = st.disk b s) ∧
      (∀ b s, holds (st.cache i) b s = true → st'.disk b s = (st.cache i).data) := by
  unfold writeBack
  by_cases dirty : ((st.cache i).valid && (st.cache i).dirty) = true
  · simp only [dirty, if_true]
    rw [Bool.and_eq_true] at dirty
    have range := wf.inRange i dirty.1
    simp only [blockWrite, range, if_true]
    refine ⟨_, rfl, rfl, rfl, rfl, ?_, ?_⟩
    · intro b s free
      have other : ¬(b = (st.cache i).block ∧ s = (st.cache i).sector) := by
        rintro ⟨rfl, rfl⟩
        simp [holds, dirty.1] at free
      simp [other]
    intro b s held
    obtain ⟨-, rfl, rfl⟩ := (holds_iff _ _ _).mp held
    simp
  simp only [dirty, if_false, Bool.false_eq_true]
  refine ⟨_, rfl, rfl, rfl, rfl, fun _ _ _ => rfl, ?_⟩
  intro b s held
  obtain ⟨valid, rfl, rfl⟩ := (holds_iff _ _ _).mp held
  have clean : (st.cache i).dirty = false := by simpa [valid] using dirty
  exact (wf.clean i valid clean).symm

theorem enter_miss {rest : List (Fin cacheSize)} (write : Bool)
    (absent : st.find block sector = none) (list : st.cacheList = i :: rest)
    (range : sector.toNat < st.blockSize block) :
    ∃ st', (do
        let st' ← ({ st with cacheList := rest ++ [i] } : CacheState Dev).writeBack (st.cache i)
        let data ← st'.blockRead block sector
        some (i, st'.setBlock i { block, sector, valid := false, dirty := write, data })) =
          some (i, st') ∧ st.Entered write block sector i st' := by
  obtain ⟨back, written, cache, backList, sizes, kept, saved⟩ :=
    writeBack_spec wf i (rest ++ [i])
  have missing : ∀ j, holds (st.cache j) block sector = false := fun j => by
    simpa using List.find?_eq_none.mp absent j (mem_finRange j)
  have content : back.disk block sector = st.view block sector := by
    rw [kept _ _ (missing i), view_of_absent (find_none absent)]
  have range' : sector.toNat < back.blockSize block := by rw [sizes]; exact range
  simp only [written, Option.bind_eq_bind, Option.bind_some, blockRead, range', if_true]
  refine ⟨_, rfl, ?_⟩
  refine
    { block_eq := by simp, sector_eq := by simp, alone := fun j _ => missing j,
      data_eq := by simp [content], dirty_write := by simp, clean_read := by simp,
      others := ?_, disk_kept := ?_, disk_view := ?_, perm := ?_,
      blockSize_eq := by simp [sizes], onDevice := range }
  · intro j ne
    simp [ne, cache]
  · intro j ne valid
    refine kept _ _ ?_
    rw [Bool.eq_false_iff, Ne, holds_iff]
    rintro ⟨validi, blocki, sectori⟩
    exact ne (wf.unique j i valid validi blocki.symm sectori.symm)
  · intro b s _ none
    by_cases held : holds (st.cache i) b s = true
    · obtain ⟨valid, rfl, rfl⟩ := (holds_iff _ _ _).mp held
      simp only [setBlock_disk]
      rw [saved _ _ held, wf.view_of_valid valid]
    have free : holds (st.cache i) b s = false := by simpa using held
    simp only [setBlock_disk]
    rw [kept _ _ free, view_of_absent]
    intro j valid same
    have heldj := (holds_iff (st.cache j) b s).mpr ⟨valid, same⟩
    by_cases equal : j = i
    · exact Bool.false_ne_true (free.symm.trans (equal ▸ heldj))
    · exact Bool.false_ne_true ((none j equal).symm.trans heldj)
  · have rotated : (rest ++ [i]).Perm (i :: rest) := perm_append_comm
    simpa [backList] using rotated.trans (list ▸ wf.perm)

/-- `cache_read` and `cache_write` reach their `memcpy` for every sector of the device. -/
theorem cacheEnter_spec (write : Bool) (real : sector ≠ blockSectorNone)
    (range : sector.toNat < st.blockSize block) :
    ∃ i st', st.cacheEnter write block sector = some (i, st') ∧
      st.Entered write block sector i st' := by
  unfold cacheEnter
  simp only [real, if_false]
  cases found : st.find block sector with
  | some i => exact ⟨i, _, rfl, enter_hit wf write found⟩
  | none =>
    cases list : st.cacheList with
    | nil =>
      have := wf.perm.length_eq
      simp [list] at this
    | cons i rest =>
      obtain ⟨st', run, entered⟩ := enter_miss wf write found list range
      exact ⟨i, st', run, entered⟩

/-- Leaving the call, with the data changed by `f` when it is a write, restores
    the invariant and changes the content of the one sector. -/
theorem Entered.finish {st' : CacheState Dev} {write : Bool}
    (entered : st.Entered write block sector i st')
    (f : SectorData → SectorData) (reading : write = false → f = id) :
    let last := st'.setBlock i
      { st'.cache i with data := f (st'.cache i).data, valid := true }
    last.WellFormed ∧ ∀ b s, last.view b s =
      if b = block ∧ s = sector then f (st.view block sector) else st.view b s := by
  intro last
  have here : last.cache i =
      { st'.cache i with data := f (st'.cache i).data, valid := true } := by simp [last]
  have there : ∀ j, j ≠ i → last.cache j = st.cache j := by
    intro j ne
    simp [last, ne, entered.others j ne]
  have wfLast : last.WellFormed := by
    constructor
    · intro j k validj validk sameBlock sameSector
      by_cases hj : j = i <;> by_cases hk : k = i
      · rw [hj, hk]
      · subst hj
        rw [here, there k hk] at sameBlock sameSector
        rw [there k hk] at validk
        have held := (holds_iff (st.cache k) block sector).mpr
          ⟨validk, entered.block_eq ▸ sameBlock.symm, entered.sector_eq ▸ sameSector.symm⟩
        exact absurd ((entered.alone k hk).symm.trans held) Bool.false_ne_true
      · subst hk
        rw [here, there j hj] at sameBlock sameSector
        rw [there j hj] at validj
        have held := (holds_iff (st.cache j) block sector).mpr
          ⟨validj, entered.block_eq ▸ sameBlock, entered.sector_eq ▸ sameSector⟩
        exact absurd ((entered.alone j hj).symm.trans held) Bool.false_ne_true
      rw [there j hj, there k hk] at sameBlock sameSector
      rw [there j hj] at validj
      rw [there k hk] at validk
      exact wf.unique j k validj validk sameBlock sameSector
    · intro j valid clean
      by_cases hj : j = i
      · subst hj
        rw [here] at clean ⊢
        have isRead : write = false := by
          by_contra isWrite
          have := entered.dirty_write (by simpa using isWrite)
          simp only at clean
          simp [this] at clean
        simp only [reading isRead, id, last, setBlock_disk, entered.block_eq, entered.sector_eq]
        exact entered.clean_read clean
      rw [there j hj] at valid clean ⊢
      simp only [last, setBlock_disk]
      rw [entered.disk_kept j hj valid]
      exact wf.clean j valid clean
    · intro j valid
      by_cases hj : j = i
      · subst hj
        rw [here]
        simp only [last, setBlock_blockSize, entered.blockSize_eq, entered.block_eq,
          entered.sector_eq]
        exact entered.onDevice
      rw [there j hj] at valid ⊢
      simp only [last, setBlock_blockSize, entered.blockSize_eq]
      exact wf.inRange j valid
    · exact entered.perm
  refine ⟨wfLast, ?_⟩
  intro b s
  split
  · rename_i same
    obtain ⟨rfl, rfl⟩ := same
    have valid : (last.cache i).valid = true := by simp [here]
    have := wfLast.view_of_valid valid
    rw [here] at this
    simpa [entered.block_eq, entered.sector_eq, entered.data_eq] using this
  rename_i other
  by_cases cached : ∃ j, j ≠ i ∧ holds (st.cache j) b s = true
  · obtain ⟨j, ne, held⟩ := cached
    obtain ⟨valid, rfl, rfl⟩ := (holds_iff _ _ _).mp held
    have valid' : (last.cache j).valid = true := by rw [there j ne]; exact valid
    have := wfLast.view_of_valid valid'
    rw [there j ne] at this
    rw [this, wf.view_of_valid valid]
  have none : ∀ j, j ≠ i → holds (st.cache j) b s = false := by
    intro j ne
    by_contra held
    exact cached ⟨j, ne, by simpa using held⟩
  rw [view_of_absent, ← entered.disk_view b s other none]
  · rfl
  intro j valid same
  by_cases hj : j = i
  · subst hj
    rw [here] at same
    exact other ⟨same.1.symm.trans entered.block_eq, same.2.symm.trans entered.sector_eq⟩
  rw [there j hj] at valid same
  have held := (holds_iff (st.cache j) b s).mpr ⟨valid, same⟩
  exact Bool.false_ne_true ((none j hj).symm.trans held)

/-- `cache_read` returns the content of the sector and changes no content. -/
theorem cacheRead_spec (real : sector ≠ blockSectorNone)
    (range : sector.toNat < st.blockSize block) (size offset : Nat) :
    ∃ st', st.cacheRead block sector size offset =
        some ((st.view block sector).copyOut offset size, st') ∧
      st'.WellFormed ∧ st'.view = st.view ∧ st'.blockSize = st.blockSize := by
  obtain ⟨i, st', run, entered⟩ := cacheEnter_spec wf false real range
  obtain ⟨wf', content⟩ := entered.finish wf id (fun _ => rfl)
  refine ⟨st'.cacheLeave i, ?_, wf', ?_, entered.blockSize_eq⟩
  · simp [cacheRead, run, entered.data_eq]
  funext b s
  refine (content b s).trans ?_
  split
  · rename_i same
    rw [same.1, same.2, id]
  · rfl

/-- `cache_write` changes the content of its sector and of no other. -/
theorem cacheWrite_spec (real : sector ≠ blockSectorNone)
    (range : sector.toNat < st.blockSize block) (src : Nat → Byte) (size offset : Nat) :
    ∃ st', st.cacheWrite block sector src size offset = some st' ∧ st'.WellFormed ∧
      (∀ b s, st'.view b s = if b = block ∧ s = sector then
        (st.view block sector).copyIn offset size src else st.view b s) ∧
      st'.blockSize = st.blockSize := by
  obtain ⟨i, st', run, entered⟩ := cacheEnter_spec wf true real range
  obtain ⟨wf', content⟩ := entered.finish wf (fun d => d.copyIn offset size src) (by simp)
  have last : (st'.cacheStore i src size offset).cacheLeave i = st'.setBlock i
      { st'.cache i with data := (st'.cache i).data.copyIn offset size src, valid := true } := by
    simp [cacheStore, cacheLeave, setBlock]
  refine ⟨(st'.cacheStore i src size offset).cacheLeave i, by simp [cacheWrite, run], ?_, ?_, ?_⟩
  · rw [last]
    exact wf'
  · intro b s
    rw [last]
    exact content b s
  · rw [last]
    exact entered.blockSize_eq

/-- One iteration of `cache_flush` cleans its block and leaves the others alone. -/
theorem flushBlock_spec (i : Fin cacheSize) :
    ∃ st', st.flushBlock i = some st' ∧ st'.WellFormed ∧ st'.view = st.view ∧
      st'.blockSize = st.blockSize ∧
      (∀ j, (st'.cache j).valid = (st.cache j).valid) ∧
      (∀ j, (st.cache j).dirty = false → (st'.cache j).dirty = false) ∧
      ((st'.cache i).valid = true → (st'.cache i).dirty = false) := by
  obtain ⟨back, written, cache, list, sizes, kept, saved⟩ := writeBack_spec wf i st.cacheList
  have written' : st.writeBack (st.cache i) = some back := written
  by_cases dirty : ((st.cache i).valid && (st.cache i).dirty) = true
  · rw [Bool.and_eq_true] at dirty
    have here : holds (st.cache i) (st.cache i).block (st.cache i).sector = true := by
      simp [holds, dirty.1]
    have wf' : (back.setBlock i { st.cache i with dirty := false }).WellFormed := by
      have fields : ∀ j, ((back.setBlock i { st.cache i with dirty := false }).cache j).valid =
            (st.cache j).valid ∧
          ((back.setBlock i { st.cache i with dirty := false }).cache j).block =
            (st.cache j).block ∧
          ((back.setBlock i { st.cache i with dirty := false }).cache j).sector =
            (st.cache j).sector ∧
          ((back.setBlock i { st.cache i with dirty := false }).cache j).data =
            (st.cache j).data := by
        intro j
        by_cases hj : j = i
        · subst hj
          simp
        · simp [hj, cache]
      constructor
      · intro j k validj validk sameBlock sameSector
        simp only [fields] at validj validk sameBlock sameSector
        exact wf.unique j k validj validk sameBlock sameSector
      · intro j valid clean
        simp only [fields] at valid ⊢
        simp only [setBlock_disk]
        by_cases hj : j = i
        · subst hj
          rw [saved _ _ here]
        have away : holds (st.cache i) (st.cache j).block (st.cache j).sector = false := by
          rw [Bool.eq_false_iff, Ne, holds_iff]
          rintro ⟨validi, blocki, sectori⟩
          exact hj (wf.unique j i valid validi blocki.symm sectori.symm)
        rw [kept _ _ away]
        simp only [setBlock_of_ne _ _ hj, cache] at clean
        exact wf.clean j valid clean
      · intro j valid
        simp only [fields] at valid ⊢
        simp only [setBlock_blockSize, sizes]
        exact wf.inRange j valid
      · simpa [list] using wf.perm
    refine ⟨_, by simp [flushBlock, written', dirty.1, dirty.2], wf', ?_, ?_, ?_, ?_, ?_⟩
    · funext b s
      refine (view_congr wf' ?_ ?_ ?_).symm
      · intro j
        by_cases hj : j = i
        · subst hj
          simp [holds]
        · simp [hj, cache]
      · intro j _
        by_cases hj : j = i
        · subst hj
          simp
        · simp [hj, cache]
      intro none
      simp only [setBlock_disk]
      exact (kept b s (none i)).symm
    · simp [sizes]
    · intro j
      by_cases hj : j = i
      · subst hj
        simp
      · simp [hj, cache]
    · intro j clean
      by_cases hj : j = i
      · subst hj
        simp
      · simp [hj, cache, clean]
    · simp
  have same : back = st := by
    unfold writeBack at written'
    simp only [dirty] at written'
    simpa using written'.symm
  subst same
  refine ⟨back, by simp [flushBlock, written', dirty], wf, rfl, rfl, fun _ => rfl,
    fun _ clean => clean, ?_⟩
  intro valid
  simpa [valid] using dirty

end

theorem foldlM_flushBlock (blocks : List (Fin cacheSize)) :
    ∀ {st : CacheState Dev}, st.WellFormed →
      ∃ st', blocks.foldlM (fun st' i => st'.flushBlock i) st = some st' ∧ st'.WellFormed ∧
        st'.view = st.view ∧ st'.blockSize = st.blockSize ∧
        (∀ j, (st'.cache j).valid = (st.cache j).valid) ∧
        (∀ j, (st.cache j).dirty = false → (st'.cache j).dirty = false) ∧
        (∀ j ∈ blocks, (st'.cache j).valid = true → (st'.cache j).dirty = false) := by
  induction blocks with
  | nil => exact fun {st} wf => ⟨st, rfl, wf, rfl, rfl, fun _ => rfl, fun _ h => h, by simp⟩
  | cons i rest ih =>
    intro st wf
    obtain ⟨mid, run, wfMid, viewMid, sizeMid, validMid, dirtyMid, cleanMid⟩ :=
      flushBlock_spec wf i
    obtain ⟨last, runLast, wfLast, viewLast, sizeLast, validLast, dirtyLast, cleanLast⟩ := ih wfMid
    refine ⟨last, by simp [foldlM_cons, run, runLast], wfLast, viewLast.trans viewMid,
      sizeLast.trans sizeMid, fun j => (validLast j).trans (validMid j),
      fun j clean => dirtyLast j (dirtyMid j clean), ?_⟩
    intro j mem valid
    rcases mem_cons.mp mem with rfl | later
    · exact dirtyLast j (cleanMid ((validLast j).symm.trans valid))
    · exact cleanLast j later valid

/-- After `cache_flush` the disk holds the content of every sector. -/
theorem cacheFlush_spec (wf : st.WellFormed) :
    ∃ st', st.cacheFlush = some st' ∧ st'.WellFormed ∧ st'.view = st.view ∧
      st'.blockSize = st.blockSize ∧ st'.disk = st.view := by
  obtain ⟨st', run, wf', view', size', -, -, clean⟩ :=
    foldlM_flushBlock (List.finRange cacheSize) wf
  refine ⟨st', run, wf', view', size', ?_⟩
  rw [← view']
  funext b s
  cases found : st'.find b s with
  | none => simp [view, found]
  | some i =>
    obtain ⟨valid, rfl, rfl⟩ := find_some found
    rw [wf'.view_of_valid valid]
    exact (wf'.clean i valid (clean i (mem_finRange i) valid)).symm

/-- `cache_free` changes no content but that of its sector. -/
theorem cacheFree_spec (wf : st.WellFormed) (real : sector ≠ blockSectorNone) :
    ∃ st', st.cacheFree block sector = some st' ∧ st'.WellFormed ∧
      st'.blockSize = st.blockSize ∧
      ∀ b s, ¬(b = block ∧ s = sector) → st'.view b s = st.view b s := by
  unfold cacheFree
  simp only [real, if_false]
  cases found : st.find block sector with
  | none => exact ⟨st, rfl, wf, rfl, fun _ _ _ => rfl⟩
  | some i =>
    obtain ⟨valid, rfl, rfl⟩ := find_some found
    have wf' : (st.setBlock i { st.cache i with valid := false, dirty := false }).WellFormed := by
      have kept : ∀ j, ((st.setBlock i { st.cache i with valid := false, dirty := false }).cache
          j).valid = true → j ≠ i := by
        rintro j validj rfl
        simp at validj
      constructor
      · intro j k validj validk sameBlock sameSector
        simp only [setBlock_of_ne _ _ (kept j validj), setBlock_of_ne _ _ (kept k validk)] at *
        exact wf.unique j k validj validk sameBlock sameSector
      · intro j validj clean
        have away := kept j validj
        simp only [setBlock_of_ne _ _ away, setBlock_disk] at *
        exact wf.clean j validj clean
      · intro j validj
        have away := kept j validj
        simp only [setBlock_of_ne _ _ away, setBlock_blockSize] at *
        exact wf.inRange j validj
      · exact wf.perm
    refine ⟨_, rfl, wf', rfl, ?_⟩
    intro b s other
    refine (view_congr wf' ?_ ?_ ?_).symm
    · intro j
      by_cases hj : j = i
      · subst hj
        have away : holds (st.cache j) b s = false := by
          rw [Bool.eq_false_iff, Ne, holds_iff]
          rintro ⟨-, sameBlock, sameSector⟩
          exact other ⟨sameBlock.symm, sameSector.symm⟩
        rw [away]
        simp [holds]
      · simp [hj]
    · intro j held
      by_cases hj : j = i
      · subst hj
        simp
      · simp [hj]
    · intro _
      rfl

/-- The cache is well formed after `cache_init`, and shows the disk. -/
theorem cacheInit_wellFormed (device : Dev) (disk : Dev → BlockSector → SectorData)
    (blockSize : Dev → Nat) :
    (cacheInit device disk blockSize).WellFormed ∧
      (cacheInit device disk blockSize).view = disk := by
  refine ⟨⟨by simp [cacheInit], by simp [cacheInit], by simp [cacheInit], List.Perm.refl _⟩, ?_⟩
  funext b s
  apply view_of_absent
  simp [cacheInit]

end CacheState
end Pintos
