import Pintos.Filesys.Proofs.GrowFail

/-!
# An inode after a failed growth

The three parts of the failure path of `inode_grow_unlocked` each cut the layout
of the inode. Together they cut it to the data sectors it had before the call,
with the index blocks that those need, unless no data sector was allocated: then
the index blocks are released although the inode still refers to them.
-/

namespace Pintos

open List Option
open Function (update update_self)

variable {m k c n : Nat} {h h' : Heap} {d : InodeDisk} {fs fs' : FS} {L : Layout}
  {p : Option BlockSector} {F : List BlockSector} {data l2 : List BlockSector} {s t : BlockSector}
  {a : Nat}

/-! ## Cuts -/

/-- The first `m` data sectors with the index blocks they need. -/
def Layout.cut (L : Layout) (m : Nat) : Layout := ⟨L.data.take m, L.index.take (indexCount m)⟩

theorem Layout.cut_cut (L : Layout) (le : m ≤ k) : (L.cut k).cut m = L.cut m := by
  unfold cut
  rw [take_take, take_take, Nat.min_eq_left le, Nat.min_eq_left (indexCount_mono le)]

/-- The inode `d` with layout `L` kept its first `m` data sectors. -/
structure Cuts (F : List BlockSector) (h : Heap) (fs : FS) (d : InodeDisk) (L : Layout)
    (h' : Heap) (fs' : FS) (d' : InodeDisk) (m : Nat) : Prop where
  shed : Shed F h fs h' fs' (L.data.drop m ++ L.index.drop (indexCount m))
    (L.index.take (indexCount m))
  maps : Maps h' d' (L.cut m)
  attrs : SameAttrs d d'

namespace Cuts

variable {h h' h'' : Heap} {fs fs' fs'' : FS} {d d' d'' : InodeDisk} {L : Layout} {m k : Nat}

theorem owns (cuts : Cuts F h fs d L h' fs' d' m) (owns : Owns h L.sectors) :
    Owns h' (L.cut m).sectors := by
  have sublist : (L.cut m).sectors.Sublist L.sectors :=
    (take_sublist m L.data).append (take_sublist (indexCount m) L.index)
  refine ⟨owns.nodup.sublist sublist, ?_⟩
  intro x hx
  rcases mem_append.mp hx with inData | inIndex
  · have nodup := owns.nodup
    unfold Layout.sectors at nodup
    rw [nodup_append] at nodup
    have inAll := mem_of_mem_take inData
    have notIndex : ∀ y ∈ L.index, x ≠ y := fun y hy => nodup.2.2 x inAll y hy
    rw [cuts.shed.frame x]
    · exact owns.held x (sublist.subset hx)
    · intro gone
      rcases mem_append.mp gone with later | later
      · have split := nodup.1
        rw [← take_append_drop m L.data, nodup_append] at split
        exact split.2.2 x inData x later rfl
      · exact notIndex x (mem_of_mem_drop later) rfl
    · intro touched
      exact notIndex x (mem_of_mem_take touched) rfl
  obtain ⟨i, hi, rfl⟩ := getElem_of_mem inIndex
  have found : (L.cut m).index[i]? = some (L.cut m).index[i] := List.getElem?_eq_getElem hi
  match i with
  | 0 => exact (cuts.maps.first _ found).isSome
  | 1 => exact (cuts.maps.middle _ found).isSome
  | j + 2 => exact (cuts.maps.second j _ (by rw [Nat.add_comm 2 j]; exact found)).isSome

theorem trans (first : Cuts F h fs d L h' fs' d' k)
    (second : Cuts F h' fs' d' (L.cut k) h'' fs'' d'' m)
    (le : m ≤ k) (held : ∀ x ∈ L.index, (h x).isSome) : Cuts F h fs d L h'' fs'' d'' m := by
  have fewer := indexCount_mono le
  refine ⟨?_, L.cut_cut le ▸ second.maps, first.attrs.trans second.attrs⟩
  apply (first.shed.trans second.shed).congr
  · intro x
    rw [mem_append, mem_drop_iff le, mem_drop_iff fewer]
    simp only [mem_append, Layout.cut]
    tauto
  · intro x hx
    rcases mem_append.mp hx with early | late
    · have parts : x ∈ L.index := mem_of_mem_take early
      rw [← take_append_drop (indexCount m) L.index] at parts
      rcases mem_append.mp parts with kept | gone
      · exact Or.inl kept
      · exact Or.inr (mem_append_right _ gone)
    left
    have late : x ∈ (L.index.take (indexCount k)).take (indexCount m) := late
    rwa [take_take, Nat.min_eq_left fewer] at late
  · intro x hx
    exact held x (mem_of_mem_take hx)

theorem of_same (on : On F h fs') (same : Same fs fs') (maps : Maps h d L)
    (dataLe : L.data.length ≤ m) (indexLe : L.index.length ≤ indexCount m)
    (held : ∀ x ∈ L.index, (h x).isSome) : Cuts F h fs d L h fs' d m := by
  have whole : L.cut m = L := by
    unfold Layout.cut
    rw [take_of_length_le dataLe, take_of_length_le indexLe]
  refine ⟨?_, by rwa [whole], SameAttrs.refl d⟩
  rw [drop_of_length_le dataLe, drop_of_length_le indexLe, take_of_length_le indexLe]
  exact (Shed.of_same on same).congr (by simp) (by simp) held

end Cuts

/-! ## The doubly indirect pointer -/

section

variable (maps : Maps h d ⟨data, s :: t :: l2⟩)
include maps

theorem Maps.dropDoubly (same : h' s = h s) :
    Maps h' { d with doublyIndirect := blockSectorNone } ⟨data.take 138, [s]⟩ := by
  refine .of_indirect ?_ rfl maps.indirect ?_ (maps.real s (by simp)) (length_take_le _ _)
  · rw [window_take_of_le (by omega)]
    exact maps.direct
  · rw [window_take_of_le (by omega)]
    exact (maps.first s rfl).congr same

theorem Maps.cutDoubly (same : h' s = h s)
    (more : 138 < m) (le : m ≤ data.length) (count : c = (m - 138 + 127) / 128)
    (index : IndexAt h' t (l2.take c)) (second : Second h' (data.take m) (l2.take c)) :
    Maps h' d ⟨data.take m, s :: t :: l2.take c⟩ where
  direct := by
    rw [window_take_of_le (by omega)]
    exact maps.direct
  indirect := maps.indirect
  doubly := maps.doubly
  first x at0 := by
    obtain rfl : s = x := by simpa using at0
    show IndexAt h' s (window (data.take m) 10 128)
    rw [window_take_of_le (by omega)]
    exact (maps.first s rfl).congr same
  middle x at1 := by
    obtain rfl : t = x := by simpa using at1
    exact index
  second j x atj := second j x (by rwa [Nat.add_comm 2 j] at atj)
  real x hx := by
    apply maps.real
    rcases mem_cons.mp hx with rfl | hx
    · exact mem_cons_self
    rcases mem_cons.mp hx with rfl | hx
    · exact mem_cons_of_mem _ mem_cons_self
    · exact mem_cons_of_mem _ (mem_cons_of_mem _ (mem_of_mem_take hx))
  covered := by
    have few : indexCount data.length ≤ l2.length + 2 := maps.covered
    have enough := (le_of_indexCount_le few).2.2 (by omega)
    have length : (data.take m).length = m := length_take_of_le le
    have length2 : (s :: t :: l2.take c).length = c + 2 := by
      rw [length_cons, length_cons, length_take_of_le (by omega)]
    show indexCount (data.take m).length ≤ (s :: t :: l2.take c).length
    rw [length, length2]
    unfold indexCount
    rw [if_neg (by omega), if_neg (by omega)]
    omega
  small := by
    have small : data.length ≤ maxSectors := maps.small
    show (data.take m).length ≤ maxSectors
    rw [length_take]
    omega

/-- What a part of the failure path does for a level that starts after `base` data
    sectors, with `a` sectors to give up: it returns with the layout cut to what was
    there before, or it cuts the level off and leaves the rest to the levels before. -/
inductive LevelCut (F : List BlockSector) (h : Heap) (fs : FS) (d : InodeDisk) (L : Layout)
    (base a : Nat) (h' : Heap) (fs' : FS) (d' : InodeDisk) : Bool → Nat → Prop
  | returned (above : base ≤ L.data.length - a)
    (cuts : Cuts F h fs d L h' fs' d' (L.data.length - a)) :
      LevelCut F h fs d L base a h' fs' d' true 0
  | below (more : L.data.length < base + a)
      (cuts : Cuts F h fs d L h' fs' d' base) :
      LevelCut F h fs d L base a h' fs' d' false (a - (L.data.length - base))

theorem Cuts.of_shedDoubly (owns : Owns h (data ++ s :: t :: l2))
    (shed : Shed F h fs h' fs' (data.drop 138 ++ t :: l2) []) :
    Cuts F h fs d ⟨data, s :: t :: l2⟩ h' fs' { d with doublyIndirect := blockSectorNone } 138 := by
  have keep : h' s = h s := by
    apply shed.frame s _ not_mem_nil
    intro mem
    have nodup := owns.nodup
    rw [nodup_append] at nodup
    rcases mem_append.mp mem with inData | inIndex
    · exact nodup.2.2 s (mem_of_mem_drop inData) s mem_cons_self rfl
    · exact (nodup_cons.mp nodup.2.1).1 inIndex
  refine ⟨?_, maps.dropDoubly keep, ⟨rfl, rfl, rfl, rfl, rfl⟩⟩
  apply shed.congr
  · exact fun x => Iff.rfl
  · simp
  · intro x hx
    exact owns.held x (mem_append_right _ (mem_of_mem_take hx))

theorem Cuts.releaseDoubly (owns : Owns h (data ++ s :: t :: l2)) (opened : fs.freeMapFile = true)
    (shed : Shed F h fs h' fs' (data.drop 138 ++ l2) []) :
    ∃ fs'', fs'.releaseSector t = some fs'' ∧
      Cuts F h fs d ⟨data, s :: t :: l2⟩ (update h' t none) fs''
        { d with doublyIndirect := blockSectorNone } 138 := by
  have nodup := owns.nodup
  simp only [nodup_append, nodup_cons] at nodup
  have keep : h' t = h t := by
    apply shed.frame t _ not_mem_nil
    intro mem
    rcases mem_append.mp mem with inData | inIndex
    · exact nodup.2.2 t (mem_of_mem_drop inData) t (by simp) rfl
    · exact nodup.2.1.2.1 inIndex
  have used : (h' t).isSome := by
    rw [keep]
    exact owns.held t (by simp)
  obtain ⟨fs'', run, shed'⟩ := shed.on.releaseSector_shed (shed.open opened) used
  refine ⟨fs'', run, Cuts.of_shedDoubly maps owns ?_⟩
  apply (shed.trans shed').congr
  · intro x
    simp only [mem_append, mem_cons, not_mem_nil, or_false]
    tauto
  · simp
  · simp

end

theorem failDoubly_spec
    (on : On F h fs) (opened : fs.freeMapFile = true) (maps : Maps h d L) (owns : Owns h L.sectors)
    (pos : 0 < a) :
    ∃ returned d' a' h' fs', failDoubly d a fs = some (returned, d', ((a' : Nat) : Int), fs') ∧
      LevelCut F h fs d L 138 a h' fs' d' returned a' := by
  obtain ⟨data, index⟩ := L
  unfold failDoubly
  by_cases short : index.length ≤ 1
  · have noDoubly : d.doublyIndirect = blockSectorNone :=
      maps.doubly.trans (getD_eq_default _ _ short)
    have low : data.length ≤ 138 := (le_of_indexCount_le maps.covered).2.1 short
    rw [if_pos noDoubly]
    have rest : a = a - (data.length - 138) := by omega
    refine ⟨false, d, a, h, fs, rfl, ?_⟩
    have cuts := Cuts.of_same on (Same.refl fs) maps low short owns.index
    have level : LevelCut F h fs d ⟨data, index⟩ 138 a h fs d false (a - (data.length - 138)) :=
      .below (show data.length < 138 + a by omega) cuts
    rwa [← rest] at level
  obtain ⟨s, t, l2, rfl⟩ : ∃ s t l2, index = s :: t :: l2 := by
    match index, short with
    | [], short => exact absurd (Nat.zero_le 1) short
    | [_], short => exact absurd (Nat.le_refl 1) short
    | s :: t :: l2, _ => exact ⟨s, t, l2, rfl⟩
  have doubly : d.doublyIndirect = t := maps.doubly
  have real : t ≠ blockSectorNone := maps.real t (by simp)
  obtain ⟨c, content, slots⟩ := maps.middle t rfl
  have slots : Holds blockSectorNone (IndirectBlock.ofSector c) l2 := slots
  obtain ⟨fs1, run1, on1, same1⟩ := on.readIndirect content
  have opened1 := same1.freeMapFile.trans opened
  rw [doubly, if_neg real, run1]
  simp only [bind_eq_bind, bind_some]
  have nodup : (data ++ s :: t :: l2).Nodup := owns.nodup
  have few : indexCount data.length ≤ l2.length + 2 := maps.covered
  have covered := (le_of_indexCount_le few).2.2 (by omega)
  have second : Second h data l2 := fun j x atj =>
    maps.second j x (by rw [Nat.add_comm 2 j]; exact atj)
  have owns1 : Owns h (t :: (data ++ l2)) := by
    have sublist : (data ++ t :: l2).Sublist (data ++ s :: t :: l2) :=
      (List.Sublist.refl data).append (sublist_cons_self _ _)
    have perm : (t :: (data ++ l2)).Perm (data ++ t :: l2) := perm_middle.symm
    refine ⟨(perm.nodup_iff).mpr (nodup.sublist sublist), ?_⟩
    intro x hx
    exact owns.held x (sublist.subset (perm.subset hx))
  have chain : ∀ h' fs' gone {touched}, Shed F h fs1 h' fs' gone touched →
      Shed F h fs h' fs' gone touched := by
    intro h' fs' gone touched shed
    exact (Shed.of_same on1 same1).trans shed
  obtain ⟨stop, a', h', fs', run2, released⟩ := releaseDoubly_spec (t := t) 128 (Nat.le_refl _)
    slots.fits pos slots second covered owns1 on1 opened1
  rw [finRange_take_self] at run2
  rw [run2]
  simp only [bind_some]
  cases released with
  | all more shed =>
    obtain ⟨fs'', run3, cuts⟩ := Cuts.releaseDoubly maps owns opened (chain _ _ _ shed)
    dsimp only
    rw [run3]
    exact ⟨false, _, _, _, fs'', rfl,  LevelCut.below (show data.length < 138 + a by omega) cuts⟩
  | block exactly shed =>
    have cut : data.length - a = 138 := by omega
    refine ⟨true, _, 0, h', fs', rfl, LevelCut.returned (show 138 ≤ data.length - a by omega) ?_⟩
    show Cuts F h fs d ⟨data, s :: t :: l2⟩ h' fs' _ (data.length - a)
    rw [cut]
    exact Cuts.of_shedDoubly maps owns (chain _ _ _ shed)
  | part less count index' second' shed =>
    refine ⟨true, _, 0, h', fs', rfl, LevelCut.returned (show 138 ≤ data.length - a by omega) ?_⟩
    rename_i c'
    have sameInode : { d with doublyIndirect := t } = d := by rw [← doubly]
    have enough : c' ≤ l2.length := by omega
    have count2 : indexCount (data.length - a) = c' + 2 := by
      unfold indexCount
      rw [if_neg (by omega), if_neg (by omega)]
      omega
    have shed := chain _ _ _ shed
    have keep : h' s = h s := by
      simp only [nodup_append, nodup_cons, mem_cons, not_or] at nodup
      apply shed.frame s
      · intro mem
        rcases mem_append.mp mem with inData | inIndex
        · exact nodup.2.2 s (mem_of_mem_drop inData) s (Or.inl rfl) rfl
        · exact nodup.2.1.1.2 (mem_of_mem_drop inIndex)
      intro mem
      rcases mem_cons.mp mem with same | inIndex
      · exact nodup.2.1.1.1 same
      · exact nodup.2.1.1.2 (mem_of_mem_take inIndex)
    rw [sameInode]
    have maps' := maps.cutDoubly keep (by omega) (Nat.sub_le _ _) count index' second'
    refine ⟨?_, ?_, SameAttrs.refl d⟩
    · show Shed F h fs h' fs' (data.drop (data.length - a) ++
        (s :: t :: l2).drop (indexCount (data.length - a)))
        ((s :: t :: l2).take (indexCount (data.length - a)))
      rw [count2]
      apply shed.congr
      · exact fun x => Iff.rfl
      · intro x hx
        exact Or.inl (mem_cons_of_mem s hx)
      · intro x hx
        exact owns.index x (mem_of_mem_take hx)
    show Maps h' d ⟨data.take (data.length - a), (s :: t :: l2).take (indexCount (data.length - a))⟩
    rw [count2]
    exact maps'

/-! ## The indirect pointer -/

theorem Maps.dropIndirect (maps : Maps h d ⟨data, [s]⟩) :
    Maps h' { d with indirect := blockSectorNone } ⟨data.take 10, []⟩ := by
  refine .of_direct ?_ maps.doubly rfl (length_take_le _ _)
  rw [window_take_of_le (by omega)]
  exact maps.direct

theorem Maps.cutIndirect (maps : Maps h d ⟨data, [s]⟩) (more : 10 < m)
    (index : IndexAt h' s ((window data 10 128).take (m - 10))) :
    Maps h' d ⟨data.take m, [s]⟩ := by
  have low : data.length ≤ 138 := (le_of_indexCount_le maps.covered).2.1 (Nat.le_refl 1)
  refine .of_indirect ?_ maps.doubly maps.indirect ?_ (maps.real s (by simp)) ?_
  · rw [window_take_of_le (by omega)]
    exact maps.direct
  · rwa [window_take]
  · rw [length_take]
    omega

theorem failIndirect_spec
    (on : On F h fs) (opened : fs.freeMapFile = true) (maps : Maps h d L) (owns : Owns h L.sectors)
    (few : L.index.length ≤ 1) (pos : 0 < a) :
    ∃ returned d' a' h' fs', failIndirect d a fs = some (returned, d', ((a' : Nat) : Int), fs') ∧
      LevelCut F h fs d L 10 a h' fs' d' returned a' := by
  obtain ⟨data, index⟩ := L
  unfold failIndirect
  cases index with
  | nil =>
    have noIndirect : d.indirect = blockSectorNone := maps.indirect
    have low : data.length ≤ 10 := (le_of_indexCount_le maps.covered).1 rfl
    rw [if_pos noIndirect]
    have rest : a = a - (data.length - 10) := by omega
    refine ⟨false, d, a, h, fs, rfl, ?_⟩
    have cuts := Cuts.of_same on (Same.refl fs) maps low (Nat.zero_le _) owns.index
    have level : LevelCut F h fs d ⟨data, []⟩ 10 a h fs d false (a - (data.length - 10)) :=
      .below (show data.length < 10 + a by omega) cuts
    rwa [← rest] at level
  | cons s rest =>
    obtain rfl : rest = [] := eq_nil_of_length_eq_zero (by
      have : rest.length + 1 ≤ 1 := few
      omega)
    have indirect : d.indirect = s := maps.indirect
    have real : s ≠ blockSectorNone := maps.real s (by simp)
    have low : data.length ≤ 138 := (le_of_indexCount_le maps.covered).2.1 (Nat.le_refl 1)
    obtain ⟨c, content, slots⟩ := maps.first s rfl
    have whole : window data 10 128 = data.drop 10 := by
      apply take_of_length_le
      rw [length_drop]
      omega
    have slots : Holds blockSectorNone (IndirectBlock.ofSector c) (window data 10 128) := slots
    rw [whole] at slots
    obtain ⟨fs1, run1, on1, same1⟩ := on.readIndirect content
    have nodup : (data ++ [s]).Nodup := owns.nodup
    rw [nodup_append] at nodup
    have owns1 : Owns h (data.drop 10) := by
      refine ⟨nodup.1.sublist (drop_sublist 10 data), ?_⟩
      intro x hx
      exact owns.held x (mem_append_left _ (mem_of_mem_drop hx))
    obtain ⟨stop, ib, h2, fs2, run2, inner, shed2, stopped⟩ :=
      releaseSlots_spec 128 a (Nat.le_refl _) slots.fits slots owns1 on1
        (same1.freeMapFile.trans opened)
    have shed2 := (Shed.of_same on1 same1).trans shed2
    rw [finRange_take_self, length_drop] at run2
    rw [nil_append, nil_append, length_drop, drop_drop] at shed2
    rw [length_drop] at inner stopped
    have used : (h2 s).isSome := by
      rw [shed2.frame s (fun mem => nodup.2.2 s (mem_of_mem_drop mem) s (by simp) rfl) not_mem_nil]
      exact owns.held s (mem_append_right _ (by simp))
    rw [indirect, if_neg real, run1]
    simp only [bind_eq_bind, bind_some]
    rw [run2]
    simp only [bind_some]
    -- giving up the block, with all data from sector 10 on
    have dropped : data.drop (10 + (data.length - 10 - a)) = data.drop 10 →
        ∃ fs', fs2.releaseSector s = some fs' ∧ Cuts F h fs d ⟨data, [s]⟩ (update h2 s none) fs'
            { d with indirect := blockSectorNone } 10 := by
      intro all
      obtain ⟨fs', run3, shed3⟩ := shed2.on.releaseSector_shed (shed2.open opened) used
      refine ⟨fs', run3, ?_, maps.dropIndirect, ⟨rfl, rfl, rfl, rfl, rfl⟩⟩
      have both := shed2.trans shed3
      rwa [all] at both
    by_cases returns : a ≤ data.length - 10
    · rw [if_pos ⟨pos, returns⟩] at stopped
      obtain ⟨i, rfl, at_i⟩ := map_eq_some_iff.mp stopped
      rw [Nat.sub_eq_zero_of_le returns]
      dsimp only
      by_cases zeroth : i = 0
      · have atBase : data.length - a = 10 := by
          subst zeroth
          have : 0 = data.length - 10 - a := at_i
          omega
        obtain ⟨fs', run3, cuts⟩ := dropped (by congr 1; omega)
        rw [if_pos zeroth, run3]
        rw [← atBase] at cuts
        exact ⟨true, _, 0, _, fs', rfl, .returned (show 10 ≤ data.length - a by omega) cuts⟩
      have inside : 10 < data.length - a := by
        have : i.val ≠ 0 := fun equal => zeroth (Fin.ext equal)
        omega
      obtain ⟨fs', run3, shed3⟩ := shed2.on.writeIndirect_shed used ib
      rw [if_neg zeroth, run3]
      refine ⟨true, d, 0, update h2 s (some (IndirectBlock.toSector ib)), fs', rfl,
        .returned (show 10 ≤ data.length - a by omega) ?_⟩
      have count : indexCount (data.length - a) = 1 := indexCount_eq_one inside (by omega)
      refine ⟨?_, ?_, SameAttrs.refl d⟩
      · show Shed F h fs _ fs' (data.drop (data.length - a) ++ [s].drop (indexCount (data.length - a)))
          ([s].take (indexCount (data.length - a)))
        have both := shed2.trans shed3
        rw [show 10 + (data.length - 10 - a) = data.length - a by omega] at both
        rw [count]
        exact both
      show Maps _ d ⟨data.take (data.length - a), [s].take (indexCount (data.length - a))⟩
      rw [count]
      apply maps.cutIndirect inside
      refine ⟨_, update_self _ _ _, ?_⟩
      rw [IndirectBlock.ofSector_toSector, whole,
        show data.length - a - 10 = data.length - 10 - a by omega]
      exact inner
    rw [if_neg (fun both => returns both.2)] at stopped
    rw [map_eq_none_iff.mp stopped]
    obtain ⟨fs', run3, cuts⟩ := dropped (by congr 1; omega)
    dsimp only
    rw [run3]
    exact ⟨false, _, _, _, fs', rfl, .below (show data.length < 10 + a by omega) cuts⟩

/-! ## The direct pointers -/

theorem failDirect_spec
    (on : On F h fs) (opened : fs.freeMapFile = true) (maps : Maps h d L) (owns : Owns h L.sectors)
    (noIndex : L.index = []) :
    ∃ d' h' fs', failDirect d a fs = some (d', fs') ∧
      Cuts F h fs d L h' fs' d' (L.data.length - a) := by
  obtain ⟨data, index⟩ := L
  obtain rfl : index = [] := noIndex
  have low : data.length ≤ 10 := (le_of_indexCount_le maps.covered).1 rfl
  have whole : window data 0 10 = data := take_of_length_le low
  have direct : Holds blockSectorNone d.direct (window data 0 10) := maps.direct
  rw [whole] at direct
  have owns : Owns h (data ++ []) := owns
  rw [append_nil] at owns
  obtain ⟨stop, slots, h', fs', run, inner, shed, -⟩ :=
    releaseSlots_spec 10 a (Nat.le_refl _) direct.fits direct owns on opened
  rw [finRange_take_self] at run
  refine ⟨{ d with direct := slots }, h', fs', ?_, ?_, ?_, ⟨rfl, rfl, rfl, rfl, rfl⟩⟩
  · unfold failDirect
    rw [run]
    rfl
  · show Shed F h fs h' fs' (data.drop (data.length - a) ++ [].drop _) ([].take _)
    rwa [drop_nil, append_nil, take_nil]
  have length : (data.take (data.length - a)).length ≤ 10 := by
    rw [length_take]
    omega
  have short : window (data.take (data.length - a)) 0 10 = data.take (data.length - a) :=
    take_of_length_le length
  show Maps h' _ ⟨data.take (data.length - a), [].take _⟩
  rw [take_nil]
  exact .of_direct (short.symm ▸ inner) maps.doubly maps.indirect length

/-! ## The whole failure path -/

theorem growFail_spec
    (on : On F h fs) (opened : fs.freeMapFile = true) (maps : Maps h d L) (owns : Owns h L.sectors)
    (pos : 0 < a) :
    ∃ d' h' fs', growFail d a fs = some (d', fs') ∧
      Cuts F h fs d L h' fs' d' (L.data.length - a) := by
  unfold growFail
  obtain ⟨returned1, d1, a1, h1, fs1, run1, level1⟩ :=
    failDoubly_spec on opened maps owns pos
  rw [run1]
  simp only [bind_eq_bind, bind_some]
  cases level1 with
  | returned _ cuts1 => exact ⟨d1, h1, fs1, rfl, cuts1⟩
  | below more1 cuts1 =>
    have length1 : (L.cut 138).data.length = min 138 L.data.length := length_take
    have index1 : (L.cut 138).index.length ≤ 1 := length_take_le _ _
    obtain ⟨returned2, d2, a2, h2, fs2, run2, level2⟩ := failIndirect_spec cuts1.shed.on
      (cuts1.shed.open opened) cuts1.maps (cuts1.owns owns) index1
      (show 0 < a - (L.data.length - 138) by omega)
    rw [if_neg (by simp), run2]
    simp only [bind_some]
    cases level2 with
    | returned above cuts2 =>
      have cut : (L.cut 138).data.length - (a - (L.data.length - 138)) = L.data.length - a := by omega
      rw [cut] at cuts2
      exact ⟨d2, h2, fs2, rfl, cuts1.trans cuts2 (by omega) owns.index⟩
    | below more2 cuts2 =>
      have both := cuts1.trans cuts2 (by omega) owns.index
      have length2 : (L.cut 10).data.length = min 10 L.data.length := length_take
      rw [if_neg (by simp)]
      obtain ⟨d3, h3, fs3, run3, cuts3⟩ := failDirect_spec
        (a := a - (L.data.length - 138) - ((L.cut 138).data.length - 10)) both.shed.on
        (both.shed.open opened) both.maps (both.owns owns) (take_zero (l := L.index))
      have cut : (L.cut 10).data.length -
        (a - (L.data.length - 138) - ((L.cut 138).data.length - 10)) = L.data.length - a := by omega
      rw [cut] at cuts3
      exact ⟨d3, h3, fs3, run3, both.trans cuts3 (by omega) owns.index⟩

/-! ## The failure path without any data sector -/

theorem releaseSlots_zero (indices : List (Fin n)) (slots : Fin n → BlockSector) (fs : FS) :
    releaseSlots indices slots 0 fs = some (none, slots, 0, fs) := by
  cases indices with
  | nil => rfl
  | cons i rest => simp [releaseSlots]

theorem releaseDoubly_zero (t : BlockSector) (slots : List (Fin 128)) (dib : IndirectBlock) (fs : FS) :
    releaseDoubly t slots dib 0 fs = some (none, 0, fs) := by
  cases slots with
  | nil => rfl
  | cons i rest => simp [releaseDoubly]

variable (on : On F h fs) (opened : fs.freeMapFile = true)
include on opened

theorem failDoubly_zero
    (pointer : d.doublyIndirect = p.getD blockSectorNone) (held : ∀ t, p = some t → (h t).isSome) :
    ∃ h' fs', failDoubly d 0 fs =
        some (false, { d with doublyIndirect := blockSectorNone }, 0, fs') ∧
      Shed F h fs h' fs' p.toList [] := by
  unfold failDoubly
  cases p with
  | none =>
    have absent : d.doublyIndirect = blockSectorNone := pointer
    refine ⟨h, fs, ?_, Shed.refl on⟩
    rw [if_pos absent, ← absent]
  | some t =>
    have pointer : d.doublyIndirect = t := pointer
    obtain ⟨c, content⟩ := isSome_iff_exists.mp (held t rfl)
    obtain ⟨fs1, run1, on1, same1⟩ := on.readIndirect content
    obtain ⟨fs2, run2, shed⟩ := on1.releaseSector_shed (same1.freeMapFile.trans opened) (held t rfl)
    refine ⟨update h t none, fs2, ?_, (Shed.of_same on1 same1).trans shed⟩
    rw [pointer, if_neg (on.ne_none content), run1]
    simp only [bind_eq_bind, bind_some]
    rw [releaseDoubly_zero]
    simp only [bind_some]
    rw [run2]
    rfl

theorem failIndirect_zero
    (pointer : d.indirect = p.getD blockSectorNone) (held : ∀ s, p = some s → (h s).isSome) :
    ∃ h' fs', failIndirect d 0 fs = some (false, { d with indirect := blockSectorNone }, 0, fs') ∧
      Shed F h fs h' fs' p.toList [] := by
  unfold failIndirect
  cases p with
  | none =>
    have absent : d.indirect = blockSectorNone := pointer
    refine ⟨h, fs, ?_, Shed.refl on⟩
    rw [if_pos absent, ← absent]
  | some s =>
    have pointer : d.indirect = s := pointer
    obtain ⟨c, content⟩ := isSome_iff_exists.mp (held s rfl)
    obtain ⟨fs1, run1, on1, same1⟩ := on.readIndirect content
    obtain ⟨fs2, run2, shed⟩ := on1.releaseSector_shed (same1.freeMapFile.trans opened) (held s rfl)
    refine ⟨update h s none, fs2, ?_, (Shed.of_same on1 same1).trans shed⟩
    rw [pointer, if_neg (on.ne_none content), run1]
    simp only [bind_eq_bind, bind_some]
    rw [releaseSlots_zero]
    simp only [bind_some]
    rw [run2]
    rfl

/-- With no data sector to give up, the failure path releases the indirect and the
    doubly indirect block, whether or not the inode still needs them. -/
theorem growFail_zero (maps : Maps h d L) (owns : Owns h L.sectors) : ∃ h' fs', growFail d 0 fs =
        some ({ d with indirect := blockSectorNone, doublyIndirect := blockSectorNone }, fs') ∧
      Shed F h fs h' fs' (L.index.take 2) [] := by
  have held : ∀ {i s}, L.index[i]? = some s → (h s).isSome := fun found =>
    owns.index _ (mem_of_getElem? found)
  obtain ⟨h1, fs1, run1, shed1⟩ := failDoubly_zero (p := L.index[1]?) on opened
    (by rw [maps.doubly, getD_eq_getElem?_getD]) fun t found => held found
  have held1 : ∀ s, L.index[0]? = some s → (h1 s).isSome := by
    intro s found
    rw [shed1.frame s _ not_mem_nil]
    · exact held found
    intro mem
    have other : L.index[1]? = some s := by simpa using mem
    have nodup := (nodup_append.mp owns.nodup).2.1
    have inside := (List.getElem?_eq_some_iff.mp found).1
    have same : 0 = 1 := (List.getElem?_inj inside nodup).mp (found.trans other.symm)
    cases same
  obtain ⟨h2, fs2, run2, shed2⟩ := failIndirect_zero (p := L.index[0]?)
    (d := { d with doublyIndirect := blockSectorNone }) shed1.on (shed1.open opened)
    (by show d.indirect = _; rw [maps.indirect, getD_eq_getElem?_getD]) held1
  refine ⟨h2, fs2, ?_, ?_⟩
  · unfold growFail failDirect
    rw [run1]
    simp only [bind_eq_bind, bind_some, Bool.false_eq_true, if_false]
    rw [run2]
    simp only [bind_some, Bool.false_eq_true, if_false, releaseSlots_zero]
  apply (shed1.trans shed2).congr
  · intro x
    match L.index with
    | [] => simp
    | [s] => simp
    | s :: t :: l2 => simp [or_comm]
  · simp
  · simp

end Pintos
