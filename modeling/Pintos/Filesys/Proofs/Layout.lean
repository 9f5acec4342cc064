import Pintos.Filesys.Proofs.Store
import Pintos.Misc.Slots

/-!
# The layout of an inode

The sectors of an inode as two lists: its data sectors in the order of the file,
and its index blocks in the order in which growth allocates them, which is the
indirect block, the doubly indirect block and the blocks below it. `Maps` says
that an inode on disk has a given layout; `byte_to_sector_unlocked` then looks a
data sector up in the first list.
-/

namespace Pintos

open List Option

variable {h h' : Heap} {s : BlockSector} {xs : List BlockSector} {d d' : InodeDisk} {n k : Nat}

/-- The most data sectors an inode can have. -/
def maxSectors : Nat := 10 + 128 + 128 * 128

/-- The index blocks that an inode with `n` data sectors needs. -/
def indexCount (n : Nat) : Nat :=
  if n ≤ 10 then 0 else if n ≤ 138 then 1 else 2 + (n - 138 + 127) / 128

/-- The sectors of an inode, the inode's own sector apart. -/
structure Layout where
  data : List BlockSector
  index : List BlockSector

/-- All sectors of a layout. -/
def Layout.sectors (L : Layout) : List BlockSector := L.data ++ L.index

/-- The layout of an inode without data. -/
def Layout.empty : Layout := ⟨[], []⟩

/-- The sector holds an index block with the entries `xs`. -/
def IndexAt (h : Heap) (s : BlockSector) (xs : List BlockSector) : Prop :=
  ∃ c, h s = some c ∧ Holds blockSectorNone (IndirectBlock.ofSector c) xs

/-- The inode `d` has the layout `L`. The index blocks suffice for the data; there
    may be more of them while the inode grows. -/
structure Maps (h : Heap) (d : InodeDisk) (L : Layout) : Prop where
  direct : Holds blockSectorNone d.direct (window L.data 0 10)
  indirect : d.indirect = L.index.getD 0 blockSectorNone
  doubly : d.doublyIndirect = L.index.getD 1 blockSectorNone
  first : ∀ s, L.index[0]? = some s → IndexAt h s (window L.data 10 128)
  middle : ∀ s, L.index[1]? = some s → IndexAt h s (L.index.drop 2)
  second : ∀ j s, L.index[2 + j]? = some s → IndexAt h s (window L.data (138 + 128 * j) 128)
  real : ∀ s ∈ L.index, s ≠ blockSectorNone
  covered : indexCount L.data.length ≤ L.index.length
  small : L.data.length ≤ maxSectors

/-- The sectors are distinct and in use. -/
structure Owns (h : Heap) (xs : List BlockSector) : Prop where
  nodup : xs.Nodup
  held : ∀ x ∈ xs, (h x).isSome

theorem IndexAt.congr (index : IndexAt h s xs) (same : h' s = h s) : IndexAt h' s xs := by
  obtain ⟨c, held, slots⟩ := index
  exact ⟨c, same.trans held, slots⟩

theorem IndexAt.unique (index : IndexAt h s xs) (index' : IndexAt h' s xs) : h s = h' s := by
  obtain ⟨c, held, slots⟩ := index
  obtain ⟨c', held', slots'⟩ := index'
  rw [held, held', ← IndirectBlock.toSector_ofSector c, slots.slots_unique slots',
    IndirectBlock.toSector_ofSector]

theorem Maps.congr {L : Layout} (maps : Maps h d L)
    (same : ∀ s ∈ L.index, h' s = h s) : Maps h' d L where
  direct := maps.direct
  indirect := maps.indirect
  doubly := maps.doubly
  first s at0 := (maps.first s at0).congr (same s (mem_of_getElem? at0))
  middle s at1 := (maps.middle s at1).congr (same s (mem_of_getElem? at1))
  second j s atj := (maps.second j s atj).congr (same s (mem_of_getElem? atj))
  real := maps.real
  covered := maps.covered
  small := maps.small

theorem Maps.of_pointers {L : Layout} (maps : Maps h d L)
    (direct : d'.direct = d.direct) (indirect : d'.indirect = d.indirect)
    (doubly : d'.doublyIndirect = d.doublyIndirect) : Maps h d' L where
  direct := direct ▸ maps.direct
  indirect := indirect.trans maps.indirect
  doubly := doubly.trans maps.doubly
  first := maps.first
  middle := maps.middle
  second := maps.second
  real := maps.real
  covered := maps.covered
  small := maps.small

theorem indexCount_of_le (low : n ≤ 10) : indexCount n = 0 := if_pos low

/-- With `k` index blocks an inode has at most this many data sectors. -/
theorem le_of_indexCount_le (few : indexCount n ≤ k) :
    (k = 0 → n ≤ 10) ∧ (k ≤ 1 → n ≤ 138) ∧ (2 ≤ k → n ≤ 138 + 128 * (k - 2)) := by
  unfold indexCount at few
  split at few
  · omega
  · split at few <;> omega

theorem indexCount_le_one (low : n ≤ 138) : indexCount n ≤ 1 := by
  unfold indexCount
  split <;> omega

section Few

variable {data : List BlockSector} (direct : Holds blockSectorNone d.direct (window data 0 10))
  (doubly : d.doublyIndirect = blockSectorNone)
include direct doubly

/-- An inode without index blocks. -/
theorem Maps.of_direct (indirect : d.indirect = blockSectorNone) (low : data.length ≤ 10) :
    Maps h d ⟨data, []⟩ where
  direct := direct
  indirect := indirect
  doubly := doubly
  first x at0 := by simp at at0
  middle x at1 := by simp at at1
  second j x atj := by simp at atj
  real x hx := by cases hx
  covered := Nat.le_of_eq (indexCount_of_le low)
  small := Nat.le_trans low (by decide)

/-- An inode with the indirect block only. -/
theorem Maps.of_indirect (indirect : d.indirect = s) (index : IndexAt h s (window data 10 128))
    (real : s ≠ blockSectorNone) (low : data.length ≤ 138) : Maps h d ⟨data, [s]⟩ where
  direct := direct
  indirect := indirect
  doubly := doubly
  first x at0 := by
    obtain rfl : s = x := by simpa using at0
    exact index
  middle x at1 := by simp at at1
  second j x atj := by simp [Nat.add_comm] at atj
  real x hx := by rwa [mem_singleton.mp hx]
  covered := indexCount_le_one low
  small := Nat.le_trans low (by decide)

end Few

/-! ## Lookups -/

namespace Stored

variable {g : Heap} {fs : FS}

theorem indirectLookup (stored : Stored g fs)
    (index : IndexAt g s xs) (pos : Nat) (inside : pos / 512 < 128) :
    ∃ store, fs.indirectLookup s pos =
        some (xs.getD (pos / 512) blockSectorNone, { fs with store }) ∧
      Stored g { fs with store } := by
  obtain ⟨c, held, slots⟩ := index
  obtain ⟨store, run, stored'⟩ := stored.readIndirect held
  refine ⟨store, ?_, stored'⟩
  have idx : (pos : Int).tdiv 512 = (pos / 512 : Nat) := by
    rw [Int.tdiv_eq_ediv_of_nonneg (by omega)]
    omega
  have slot := slots.slot ⟨pos / 512, inside⟩
  simp only [FS.indirectLookup, stored.ne_none held, if_false, run, bind_eq_bind, bind_some, idx]
  rw [dif_pos (by omega)]
  simp only [Int.toNat_natCast, slot]

/-- `byte_to_sector_unlocked` finds the data sector in which the offset lies. -/
theorem byteToSector (stored : Stored g fs) {L : Layout} (maps : Maps g d L) (pos : Nat) :
    ∃ store, fs.byteToSectorUnlocked d pos =
        some (L.data.getD (pos / 512) blockSectorNone, { fs with store }) ∧
      Stored g { fs with store } := by
  obtain ⟨noIndex, oneIndex, moreIndex⟩ := le_of_indexCount_le maps.covered
  have small := maps.small
  unfold maxSectors at small
  have past : L.data.length ≤ pos / 512 →
      L.data.getD (pos / 512) blockSectorNone = blockSectorNone := getD_eq_default _ _
  unfold FS.byteToSectorUnlocked
  by_cases inDirect : pos < 10 * 512
  · have idx : (pos : Int).tdiv 512 = (pos / 512 : Nat) := by
      rw [Int.tdiv_eq_ediv_of_nonneg (by omega)]
      omega
    have slot := maps.direct.slot ⟨pos / 512, by omega⟩
    rw [window_getD (by show pos / 512 < 10; omega)] at slot
    refine ⟨fs.store, ?_, stored⟩
    rw [if_pos (by omega)]
    simp only [idx]
    rw [dif_pos (by omega)]
    simp only [Int.toNat_natCast, slot, Nat.zero_add]
  rw [if_neg (by omega)]
  by_cases inIndirect : pos < 10 * 512 + 128 * 512
  · rw [if_pos (by omega), maps.indirect]
    cases at0 : L.index[0]? with
    | none =>
      have none : L.index.length = 0 := by simpa using at0
      refine ⟨fs.store, ?_, stored⟩
      rw [past (by have := noIndex none; omega)]
      simp [FS.indirectLookup, getD_eq_getElem?_getD, at0]
    | some s =>
      obtain ⟨store, run, stored'⟩ := stored.indirectLookup (maps.first s at0) (pos - 10 * 512)
        (by omega)
      refine ⟨store, ?_, stored'⟩
      rw [window_getD (by omega), show 10 + (pos - 10 * 512) / 512 = pos / 512 by omega] at run
      rw [getD_eq_getElem?_getD, at0, ← run]
      congr 1
      omega
  rw [if_neg (by omega)]
  by_cases inDoubly : pos < 10 * 512 + 128 * 512 + 128 * 128 * 512
  · rw [if_pos (by omega), maps.doubly]
    cases at1 : L.index[1]? with
    | none =>
      have none : L.index.length ≤ 1 := by simpa using at1
      refine ⟨fs.store, ?_, stored⟩
      rw [past (by have := oneIndex none; omega)]
      simp [FS.doublyIndirectLookup, getD_eq_getElem?_getD, at1]
    | some s =>
      obtain ⟨c, held, slots⟩ := maps.middle s at1
      obtain ⟨store, run, stored'⟩ := stored.readIndirect held
      obtain ⟨off, ofs⟩ : ∃ off : Nat, off = pos - (10 * 512 + 128 * 512) := ⟨_, rfl⟩
      have cast : (pos : Int) - (10 * 512 + 128 * 512) = off := by omega
      have idx : (off : Int).tdiv (512 * 128) = (off / (512 * 128) : Nat) := by
        rw [Int.tdiv_eq_ediv_of_nonneg (by omega)]
        omega
      have rem : (off : Int).tmod (512 * 128) = (off % (512 * 128) : Nat) := by
        rw [Int.tmod_eq_emod_of_nonneg (by omega)]
        omega
      have slot := slots.slot ⟨off / (512 * 128), by omega⟩
      simp only [FS.doublyIndirectLookup, getD_eq_getElem?_getD, at1, getD_some,
        stored.ne_none held, if_false, run, bind_eq_bind, bind_some, cast, idx]
      rw [dif_pos (by omega)]
      simp only [Int.toNat_natCast, slot, rem, getD_eq_getElem?_getD, List.getElem?_drop]
      cases atj : L.index[2 + off / (512 * 128)]? with
      | none =>
        have few : L.index.length ≤ 2 + off / (512 * 128) := by simpa using atj
        have two : 2 ≤ L.index.length := by
          have := (List.getElem?_eq_some_iff.mp at1).1
          omega
        refine ⟨store, ?_, stored'⟩
        rw [← getD_eq_getElem?_getD, past (by have := moreIndex two; omega)]
        simp [FS.indirectLookup]
      | some t =>
        obtain ⟨store', run', stored''⟩ := stored'.indirectLookup (maps.second _ t atj)
          (off % (512 * 128)) (by omega)
        refine ⟨store', ?_, stored''⟩
        rw [window_getD (by omega), show 138 + 128 * (off / (512 * 128)) + off % (512 * 128) / 512 =
          pos / 512 by omega, getD_eq_getElem?_getD] at run'
        exact run'
  · refine ⟨fs.store, ?_, stored⟩
    rw [if_neg (by omega), past (by omega)]

end Stored

end Pintos
