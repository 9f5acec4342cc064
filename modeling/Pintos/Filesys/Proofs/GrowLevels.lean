import Pintos.Filesys.Proofs.Grow

/-!
# The levels of an inode's growth

The direct, the indirect and the doubly indirect level of `inode_grow_unlocked`,
each as an extension of the inode's layout, and their sequence `growSectors`.
-/

namespace Pintos

open List Option Layout
open Function (update update_of_ne)

variable {d d' d'' : InodeDisk} {h h' : Heap} {L : Layout} {m i : Nat}
  {xs rest ys zs : List BlockSector} {fs : FS} {F : List BlockSector} {n : Nat} {s t : BlockSector}
  {data l2 : List BlockSector} {allocated sectors : Int}

/-- The fields that growth does not touch. -/
structure SameAttrs (d d' : InodeDisk) : Prop where
  isDir : d'.isDir = d.isDir
  fileCnt : d'.fileCnt = d.fileCnt
  length : d'.length = d.length
  parent : d'.parent = d.parent
  magic : d'.magic = d.magic

theorem SameAttrs.refl (d : InodeDisk) : SameAttrs d d := ⟨rfl, rfl, rfl, rfl, rfl⟩

theorem SameAttrs.trans (first : SameAttrs d d') (second : SameAttrs d' d'') : SameAttrs d d'' :=
  ⟨second.isDir.trans first.isDir, second.fileCnt.trans first.fileCnt, second.length.trans
    first.length, second.parent.trans first.parent, second.magic.trans first.magic⟩

/-- The layout has no index block that its data does not need. -/
def Layout.Tight (L : Layout) : Prop := L.index.length = indexCount L.data.length

/-- The layout has no index block that one more data sector would not need. -/
def Layout.Ahead (L : Layout) : Prop := L.index.length ≤ indexCount (L.data.length + 1)

/-- The layout with data sectors and index blocks added at the end. -/
def Layout.extend (L : Layout) (ys zs : List BlockSector) : Layout := ⟨L.data ++ ys, L.index ++ zs⟩

@[simp] theorem Layout.extend_data (L : Layout) (ys zs : List BlockSector) :
    (L.extend ys zs).data = L.data ++ ys := rfl

@[simp] theorem Layout.extend_index (L : Layout) (ys zs : List BlockSector) :
    (L.extend ys zs).index = L.index ++ zs := rfl

theorem Layout.extend_extend (L : Layout) (ys zs ys' zs' : List BlockSector) :
    (L.extend ys zs).extend ys' zs' = L.extend (ys ++ ys') (zs ++ zs') := by
  simp [extend]

/-- The inode `d` with layout `L` got the data sectors `ys` and the index blocks `zs`. -/
structure Grows (F : List BlockSector) (h : Heap) (fs : FS) (d : InodeDisk) (L : Layout)
    (h' : Heap) (fs' : FS) (d' : InodeDisk) (ys zs : List BlockSector) : Prop where
  added : Added F h fs h' fs' ys zs L.index
  maps : Maps h' d' (L.extend ys zs)
  attrs : SameAttrs d d'

namespace Grows

variable {h h' h'' : Heap} {fs fs' fs'' : FS} {d d' d'' : InodeDisk} {L : Layout}
  {ys zs ys' zs' : List BlockSector}

theorem trans (first : Grows F h fs d L h' fs' d' ys zs)
    (second : Grows F h' fs' d' (L.extend ys zs) h'' fs'' d'' ys' zs') :
    Grows F h fs d L h'' fs'' d'' (ys ++ ys') (zs ++ zs') :=
  ⟨first.added.trans second.added, L.extend_extend .. ▸ second.maps, first.attrs.trans second.attrs⟩

theorem owns (grows : Grows F h fs d L h' fs' d' ys zs) (owns : Owns h L.sectors) :
    Owns h' (L.extend ys zs).sectors := by
  have reorder : (L.extend ys zs).sectors.Perm (L.sectors ++ (ys ++ zs)) := by
    simp only [Layout.sectors, Layout.extend, append_assoc]
    exact (perm_append_comm_assoc ys L.index zs).append_left L.data
  refine ⟨?_, ?_⟩
  · rw [reorder.nodup_iff, nodup_append]
    refine ⟨owns.nodup, grows.added.nodup, ?_⟩
    intro x hx y hy equal
    exact grows.added.notMem_of_held (owns.held x hx) (equal ▸ hy)
  intro x hx
  rcases mem_append.mp (reorder.mem_iff.mp hx) with old | new
  · exact grows.added.isSome (owns.held x old)
  · exact grows.added.added_isSome new

theorem fresh_or (grows : Grows F h fs d L h' fs' d' ys zs) {x : BlockSector}
    (mem : x ∈ (L.extend ys zs).sectors) : x ∈ L.sectors ∨ h x = none := by
  simp only [Layout.sectors, Layout.extend, mem_append] at mem ⊢
  rcases mem with (hx | hx) | (hx | hx)
  · exact .inl (.inl hx)
  · exact .inr (grows.added.fresh x (mem_append_left _ hx))
  · exact .inl (.inr hx)
  · exact .inr (grows.added.fresh x (mem_append_right _ hx))

end Grows

theorem Owns.index (owns : Owns h L.sectors) :
    ∀ x ∈ L.index, (h x).isSome := fun x hx => owns.held x (mem_append_right _ hx)

theorem indexCount_eq_one (low : 10 < n) (high : n ≤ 138) : indexCount n = 1 := by
  unfold indexCount
  rw [if_neg (by omega), if_pos high]

theorem indexCount_mono (le : m ≤ n) : indexCount m ≤ indexCount n := by
  unfold indexCount
  split
  · exact Nat.zero_le _
  · rw [if_neg (show ¬n ≤ 10 by omega)]
    split <;> split <;> omega

/-- Without new index blocks a tight layout gets no ahead of its data. -/
theorem Layout.Tight.ahead (tight : L.Tight) (ys : List BlockSector) : (L.extend ys []).Ahead := by
  unfold Layout.Tight at tight
  unfold Layout.Ahead
  rw [extend_index, extend_data, append_nil, tight]
  apply indexCount_mono
  rw [length_append]
  omega

theorem IndexAt.isSome (index : IndexAt h s xs) : (h s).isSome := by
  obtain ⟨c, held, -⟩ := index
  rw [held]
  rfl

theorem IndexAt.ne_none (index : IndexAt h s xs) (on : On F h fs) : s ≠ blockSectorNone := by
  obtain ⟨c, held, -⟩ := index
  exact on.ne_none held

/-! ## The direct pointers -/

theorem growDirect_spec (sectors allocated : Int)
    (on : On F h fs) (maps : Maps h d L) (owns : Owns h L.sectors) (tight : L.Tight) :
    ∃ ok d' ys h' fs',
      growDirect d sectors allocated fs = some (ok, d', allocated + ys.length, fs') ∧
      Grows F h fs d L h' fs' d' ys [] ∧ (L.extend ys []).Tight ∧
      Stops F h' fs' sectors allocated ys.length (10 ≤ (L.data ++ ys).length) ok := by
  obtain ⟨ok, slots, ys, h', fs', run, held, added, stops⟩ :=
    fillSlots_spec sectors 10 0 allocated (Nat.zero_add 10) (Nat.zero_le _) maps.direct on
  rw [drop_zero] at run
  have ends := eq_nil_or_length_le held.fits
  have heap : ∀ x ∈ L.index, h' x = h x := fun x hx => added.keep (owns.index x hx) not_mem_nil
  have tight' : (L.extend ys []).Tight := by
    unfold Layout.Tight at tight ⊢
    rw [show (L.extend ys []).index = L.index from append_nil _, tight]
    rcases ends with rfl | short
    · rw [show (L.extend [] []).data = L.data from append_nil _]
    have old : L.data.length ≤ 10 := by rw [length_append] at short; omega
    rw [indexCount_of_le old, show indexCount (L.extend ys []).data.length = 0 from
      indexCount_of_le short]
  have grown : Maps h' { d with direct := slots } (L.extend ys []) := by
    have index : (L.extend ys []).index = L.index := append_nil _
    have later : ∀ start len, 10 ≤ start → window (L.extend ys []).data start len =
        window L.data start len := by
      intro start len after
      apply window_append_of_before
      rcases ends with none | short
      · exact .inl none
      · exact .inr (by omega)
    refine ⟨?_, ?_, ?_, ?_, ?_, ?_, ?_, Nat.le_of_eq tight'.symm, ?_⟩
    · show Holds _ slots (window (L.data ++ ys) 0 10)
      rw [window_append (Nat.zero_le _) held.fits]
      exact held
    · rw [index]
      exact maps.indirect
    · rw [index]
      exact maps.doubly
    · intro s at0
      rw [index] at at0
      rw [later _ _ (Nat.le_refl _)]
      exact (maps.first s at0).congr (heap s (mem_of_getElem? at0))
    · intro s at1
      rw [index] at at1 ⊢
      exact (maps.middle s at1).congr (heap s (mem_of_getElem? at1))
    · intro j s atj
      rw [index] at atj
      rw [later _ _ (by omega)]
      exact (maps.second j s atj).congr (heap s (mem_of_getElem? atj))
    · rw [index]
      exact maps.real
    rcases ends with rfl | short
    · rw [show (L.extend [] []).data = L.data from append_nil _]
      exact maps.small
    · exact Nat.le_trans short (by decide)
  refine ⟨ok, { d with direct := slots }, ys, h', fs', ?_,
    ⟨added.mono (nil_subset _) owns.index, grown, ⟨rfl, rfl, rfl, rfl, rfl⟩⟩, tight',
    stops.imp fun full => ?_⟩
  · simp only [growDirect, run, bind_eq_bind, bind_some]
  rw [length_append, length_window] at full
  rw [length_append]
  omega

/-! ## The indirect pointer -/

theorem Maps.addIndirect
    (maps : Maps h d ⟨data, []⟩) (index : IndexAt h' t []) (real : t ≠ blockSectorNone) :
    Maps h' { d with indirect := t } ⟨data, [t]⟩ := by
  have low : data.length ≤ 10 := (le_of_indexCount_le maps.covered).1 rfl
  refine .of_indirect maps.direct maps.doubly rfl ?_ real (by omega)
  rwa [window_eq_nil low]

theorem Maps.fillFirst (maps : Maps h d ⟨data, s :: rest⟩) (full : 10 ≤ data.length)
    (ends : ys = [] ∨ (data ++ ys).length ≤ 138) (lean : rest ≠ [] → ys = [])
    (index : IndexAt h' s (window data 10 128 ++ ys))
    (fits : (window data 10 128 ++ ys).length ≤ 128) (others : ∀ x ∈ rest, h' x = h x) :
    Maps h' d ⟨data ++ ys, s :: rest⟩ := by
  refine ⟨?_, maps.indirect, maps.doubly, ?_, ?_, ?_, maps.real, ?_, ?_⟩
  · rw [window_append_of_full (by omega)]
    exact maps.direct
  · intro t at0
    obtain rfl : s = t := by simpa using at0
    rwa [window_append full fits]
  · intro t at1
    apply (maps.middle t at1).congr
    apply others
    exact mem_of_getElem? (show rest[0]? = some t by simpa using at1)
  · intro j t atj
    have mem : t ∈ rest := mem_of_getElem? (show rest[1 + j]? = some t by
      rwa [show 2 + j = 1 + j + 1 by omega, List.getElem?_cons_succ] at atj)
    rw [lean (ne_nil_of_mem mem), append_nil]
    exact (maps.second j t atj).congr (others t mem)
  · rcases ends with rfl | short
    · rw [append_nil]
      exact maps.covered
    · exact Nat.le_trans (indexCount_le_one short) (by simp)
  rcases ends with rfl | short
  · rw [append_nil]
    exact maps.small
  · exact Nat.le_trans short (by decide)

theorem growIndirect_spec (more : allocated < sectors) (on : On F h fs) (maps : Maps h d L)
    (owns : Owns h L.sectors) (tight : L.Tight) (full : 10 ≤ L.data.length) :
    ∃ ok d' ys zs h' fs',
      growIndirect d sectors allocated fs = some (ok, d', allocated + ys.length, fs') ∧
      Grows F h fs d L h' fs' d' ys zs ∧ (L.extend ys zs).Ahead ∧
      (ok = true → (L.extend ys zs).Tight) ∧
      Stops F h' fs' sectors allocated ys.length (138 ≤ (L.data ++ ys).length) ok := by
  obtain ⟨data, index⟩ := L
  have counted : index.length = indexCount data.length := tight
  have full : 10 ≤ data.length := full
  cases index with
  | nil =>
    have low : data.length ≤ 10 := (le_of_indexCount_le maps.covered).1 rfl
    have pointer : d.indirect = blockSectorNone := maps.indirect
    obtain ⟨r, fs1, run1, effect⟩ := on.inodeIndirectAllocate
    cases r with
    | none =>
      refine ⟨false, d, [], [], h, fs1, ?_, ⟨Added.of_refused effect, ?_, SameAttrs.refl d⟩,
        tight.ahead [], nofun, Stops.failed more effect.failed effect.exhausted⟩
      · simp [growIndirect, FS.ensureIndirect, pointer, run1]
      · simpa [extend] using maps
    | some t =>
      obtain ⟨h1, added1, index1⟩ := effect
      obtain ⟨ok, ys, h2, fs2, run2, index2, fits, added2, stops⟩ :=
        fillIndirect_spec sectors allocated added1.on index1
      rw [nil_append] at fits index2 stops
      have length : (data ++ ys).length = data.length + ys.length := length_append
      have short : (data ++ ys).length ≤ 138 := by omega
      have maps2 : Maps h2 { d with indirect := t } ⟨data ++ ys, [t]⟩ := by
        apply (maps.addIndirect index1 (index1.ne_none added1.on)).fillFirst full (.inr short)
        · exact absurd rfl
        · rwa [window_eq_nil low]
        · rwa [window_eq_nil low]
        · nofun
      refine ⟨ok, { d with indirect := t }, ys, [t], h2, fs2, ?_, ⟨added1.trans added2, maps2,
        ⟨rfl, rfl, rfl, rfl, rfl⟩⟩, ?_, ?_, stops.imp fun _ => ?_⟩
      · simp only [growIndirect, FS.ensureIndirect, pointer, if_true, run1, run2, bind_eq_bind,
          bind_some]
      · show 1 ≤ indexCount ((data ++ ys).length + 1)
        exact Nat.le_trans (by decide : 1 ≤ indexCount 11) (indexCount_mono (by omega))
      · intro success
        have nonempty := stops.positive more (by omega) success
        exact (indexCount_eq_one (by omega) short).symm
      · show 138 ≤ (data ++ ys).length
        omega
  | cons s rest =>
    have pointer : d.indirect = s := maps.indirect
    have real : s ≠ blockSectorNone := maps.real s mem_cons_self
    obtain ⟨ok, ys, h', fs', run, index', fits, added, stops⟩ :=
      fillIndirect_spec sectors allocated on (maps.first s rfl)
    have ends : ys = [] ∨ (data ++ ys).length ≤ 138 := eq_nil_or_length_le fits
    have length : (data ++ ys).length = data.length + ys.length := length_append
    have lean : rest ≠ [] → ys = [] := by
      intro nonempty
      refine ends.resolve_right fun short => ?_
      have := indexCount_le_one (n := data.length) (by omega)
      have := length_pos_iff.mpr nonempty
      rw [length_cons] at counted
      omega
    have others : ∀ x ∈ rest, h' x = h x := by
      intro x hx
      apply added.keep (owns.index x (mem_cons_of_mem _ hx))
      intro same
      have nodup : (s :: rest).Nodup := (nodup_append.mp owns.nodup).2.1
      exact (nodup_cons.mp nodup).1 (mem_singleton.mp same ▸ hx)
    have maps' : Maps h' d ⟨data ++ ys, s :: rest⟩ :=
      maps.fillFirst full ends lean index' fits others
    refine ⟨ok, { d with indirect := s }, ys, [], h', fs', ?_, ⟨?_, ?_, ⟨rfl, rfl, rfl, rfl, rfl⟩⟩,
      tight.ahead ys, ?_, stops.imp fun filled => ?_⟩
    · simp only [growIndirect, FS.ensureIndirect, pointer, real, if_false, run, bind_eq_bind,
        bind_some]
    · exact added.mono (by simp) owns.index
    · rw [Layout.extend, append_nil]
      exact maps'.of_pointers rfl pointer.symm rfl
    · intro _
      show (s :: rest ++ []).length = indexCount (data ++ ys).length
      rw [append_nil]
      cases ys with
      | nil =>
        rw [append_nil]
        exact counted
      | cons y ys =>
        have noRest : rest = [] := by
          by_contra nonempty
          cases lean nonempty
        rw [length_cons] at length
        rw [noRest, indexCount_eq_one (by omega) (ends.resolve_left nofun)]
        rfl
    have filled : (window data 10 128 ++ ys).length = 128 := filled
    rw [length_append, length_window] at filled
    show 138 ≤ (data ++ ys).length
    omega

/-! ## The doubly indirect pointer -/

/-- The blocks `l2` below the doubly indirect one hold the data from sector 138 on. -/
def Second (h : Heap) (data l2 : List BlockSector) : Prop :=
  ∀ j s, l2[j]? = some s → IndexAt h s (window data (138 + 128 * j) 128)

/-- The last of the blocks `l2` is not empty. -/
def Snug (data l2 : List BlockSector) : Prop :=
  l2 = [] ∨ 138 + 128 * (l2.length - 1) < data.length

/-- Only the last of the blocks `l2` may be empty. -/
def Close (data l2 : List BlockSector) : Prop :=
  l2 = [] ∨ 138 + 128 * (l2.length - 1) ≤ data.length

theorem Snug.close (snug : Snug data l2) : Close data l2 :=
  snug.imp id Nat.le_of_lt

theorem Close.append (close : Close data l2) (ys : List BlockSector) : Close (data ++ ys) l2 := by
  refine close.imp id ?_
  intro last
  rw [length_append]
  omega

theorem Maps.below (maps : Maps h d ⟨data, s :: t :: l2⟩) :
    Second h data l2 := by
  intro j x atj
  apply maps.second j x
  rw [show 2 + j = j + 1 + 1 by omega]
  exact atj

theorem Second.held (second : Second h data l2) : ∀ x ∈ l2, (h x).isSome := by
  intro x hx
  obtain ⟨j, hj, rfl⟩ := getElem_of_mem hx
  exact (second j _ (List.getElem?_eq_getElem hj)).isSome

/-- One block `s` below the doubly indirect one gets the data sectors `ys`; it is the
    one in which the data ends, or it is full and `ys` is empty. -/
theorem Second.fill (second : Second h data l2) (nodup : l2.Nodup) (found : l2[i]? = some s)
    (start : 138 + 128 * i ≤ data.length)
    (index : IndexAt h' s (window data (138 + 128 * i) 128 ++ ys))
    (fits : (window data (138 + 128 * i) 128 ++ ys).length ≤ 128)
    (others : ∀ x ∈ l2, x ≠ s → h' x = h x) : Second h' (data ++ ys) l2 := by
  intro j t atj
  by_cases here : j = i
  · subst here
    obtain rfl : s = t := some.inj (found.symm.trans atj)
    rwa [window_append start fits]
  have ne : t ≠ s := by
    intro same
    obtain ⟨hj, valj⟩ := List.getElem?_eq_some_iff.mp atj
    obtain ⟨hi, vali⟩ := List.getElem?_eq_some_iff.mp found
    exact here (nodup.getElem_inj_iff.mp (valj.trans (same.trans vali.symm)))
  have sameWindow : window (data ++ ys) (138 + 128 * j) 128 = window data (138 + 128 * j) 128 := by
    by_cases old : j < i
    · exact window_append_of_full (by omega)
    · exact window_append_of_before ((eq_nil_or_length_le fits).imp_right fun _ => by omega)
  rw [sameWindow]
  exact (second j t atj).congr (others t (mem_of_getElem? atj) ne)

theorem fillBlock_spec (inside : i < 128) {dib : IndirectBlock}
    (more : allocated < sectors) (behind : i ≤ l2.length) (slots : Holds blockSectorNone dib l2)
    (nodup : l2.Nodup) (second : Second h data l2) (covered : data.length ≤ 138 + 128 * l2.length)
    (start : 138 + 128 * i ≤ data.length) (on : On F h fs) :
    ∃ r fs1, fs.ensureIndirect (dib ⟨i, inside⟩) = some (r, fs1) ∧
      match r with
      | none => Refused F h fs fs1
      | some s => ∃ ok ys zs h' fs',
          fillIndirect sectors s allocated fs1 = some (ok, allocated + ys.length, fs') ∧
          Holds blockSectorNone (update dib ⟨i, inside⟩ s) (l2 ++ zs) ∧
          (l2 ++ zs).Nodup ∧ Second h' (data ++ ys) (l2 ++ zs) ∧ i + 1 ≤ (l2 ++ zs).length ∧
          (data ++ ys).length ≤ 138 + 128 * (l2 ++ zs).length ∧
          Added F h fs h' fs' ys zs l2 ∧
          Stops F h' fs' sectors allocated ys.length (138 + 128 * (i + 1) ≤ (data ++ ys).length) ok ∧
          (ok = true → Snug data l2 → Snug (data ++ ys) (l2 ++ zs)) ∧
          (Close data l2 → Close (data ++ ys) (l2 ++ zs)) := by
  by_cases existing : i < l2.length
  · -- the block is there; the loop fills it up or skips its slots
    have found : l2[i]? = some l2[i] := List.getElem?_eq_getElem existing
    have pointer : dib ⟨i, inside⟩ = l2[i] := by
      rw [slots.slot]
      exact getD_eq_getElem _ _ existing
    have real : l2[i] ≠ blockSectorNone := slots.real _ (getElem_mem existing)
    refine ⟨some l2[i], fs, by rw [FS.ensureIndirect, pointer, if_neg real], ?_⟩
    obtain ⟨ok, ys, h', fs', run, index', fits, added, stops⟩ :=
      fillIndirect_spec sectors allocated on (second i _ found)
    have ends := eq_nil_or_length_le fits
    have length : (data ++ ys).length = data.length + ys.length := length_append
    have same : update dib ⟨i, inside⟩ l2[i] = dib := by
      rw [← pointer, Function.update_eq_self]
    refine ⟨ok, ys, [], h', fs', run, ?_⟩
    rw [append_nil, same]
    refine ⟨slots, nodup, ?_, existing, ?_, added.mono (by simp) second.held,
      stops.imp fun filled => ?_, fun _ snug => ?_, fun close => close.append ys⟩
    · apply second.fill nodup found start index' fits
      intro x hx ne
      exact added.keep (second.held x hx) fun same => ne (mem_singleton.mp same)
    · rcases ends with rfl | short
      · rwa [append_nil]
      · omega
    · rw [length_append, length_window] at filled
      omega
    · exact snug.imp_right fun last => by omega
  -- all blocks are full: a new one is added
  have here : i = l2.length := by omega
  subst here
  have length : data.length = 138 + 128 * l2.length := by omega
  have pointer : dib ⟨l2.length, inside⟩ = blockSectorNone :=
    (slots.eq_mark_iff _).mpr (Nat.le_refl _)
  obtain ⟨r, fs1, run1, effect⟩ := on.inodeIndirectAllocate
  refine ⟨r, fs1, by rw [FS.ensureIndirect, if_pos pointer, run1], ?_⟩
  cases r with
  | none => exact effect
  | some t =>
    obtain ⟨h1, added1, index1⟩ := effect
    obtain ⟨ok, ys, h', fs', run, index', fits, added2, stops⟩ :=
      fillIndirect_spec sectors allocated added1.on index1
    have notMem : t ∉ l2 := fun mem =>
      added1.notMem_of_held (second.held t mem) (mem_singleton.mpr rfl)
    have nodup' : (l2 ++ [t]).Nodup := by
      rw [nodup_append]
      refine ⟨nodup, nodup_singleton t, ?_⟩
      intro x hx y hy same
      exact notMem (mem_singleton.mp hy ▸ same ▸ hx)
    have whole : Added F h fs h' fs' ys [t] l2 := by
      have first := added1.mono (nil_subset l2) second.held
      have next : Added F h1 fs1 h' fs' ys [] (l2 ++ [t]) := by
        apply added2.mono (subset_append_right l2 [t])
        exact forall_mem_append.mpr ⟨fun x old => added1.isSome (second.held x old),
          forall_mem_singleton.mpr index1.isSome⟩
      exact first.trans next
    have old : ∀ x ∈ l2, h' x = h x := by
      intro x hx
      rw [added2.keep (added1.isSome (second.held x hx)),
        added1.keep (second.held x hx) not_mem_nil]
      intro same
      exact notMem (mem_singleton.mp same ▸ hx)
    rw [nil_append] at fits index' stops
    have more2 : (l2 ++ [t]).length = l2.length + 1 := length_append
    have more' : (data ++ ys).length = data.length + ys.length := length_append
    refine ⟨ok, ys, [t], h', fs', run, slots.push inside (index1.ne_none added1.on), nodup', ?_,
      Nat.le_of_eq more2.symm, by omega, whole, stops.imp fun _ => by omega, ?_,
      fun _ => .inr (by omega)⟩
    · intro j x atj
      rw [List.getElem?_append] at atj
      split at atj
      · rename_i before
        rw [window_append_of_full (by omega)]
        exact (second j x atj).congr (old x (mem_of_getElem? atj))
      rename_i after
      have last : j = l2.length ∧ t = x := by
        have range := (List.getElem?_eq_some_iff.mp atj).1
        rw [length_singleton] at range
        have zero : j - l2.length = 0 := by omega
        rw [zero] at atj
        exact ⟨by omega, by simpa using atj⟩
      obtain ⟨rfl, rfl⟩ := last
      rw [window_append (by omega) (by rw [window_eq_nil (by omega)]; exact fits),
        window_eq_nil (by omega)]
      exact index'
    intro success _
    have nonempty := stops.positive more (by omega) success
    exact .inr (by omega)

theorem fillDoubly_spec (sectors : Int) (r : Nat) :
    ∀ (i : Nat) {dib : IndirectBlock} {l2 data : List BlockSector} (allocated : Int) {h : Heap}
      {fs : FS}, i + r = 128 → i ≤ l2.length → Holds blockSectorNone dib l2 → l2.Nodup →
      Second h data l2 → data.length ≤ 138 + 128 * l2.length →
      (allocated < sectors → 138 + 128 * i ≤ data.length) → On F h fs →
      ∃ ok dib' ys zs h' fs', fillDoubly sectors ((List.finRange 128).drop i) dib allocated fs =
          some (ok, dib', allocated + ys.length, fs') ∧
        Holds blockSectorNone dib' (l2 ++ zs) ∧ Second h' (data ++ ys) (l2 ++ zs) ∧
        (data ++ ys).length ≤ 138 + 128 * (l2 ++ zs).length ∧ Added F h fs h' fs' ys zs l2 ∧
        Stops F h' fs' sectors allocated ys.length (maxSectors ≤ (data ++ ys).length) ok ∧
        (ok = true → Snug data l2 → Snug (data ++ ys) (l2 ++ zs)) ∧
        (Close data l2 → Close (data ++ ys) (l2 ++ zs)) := by
  induction r with
  | zero =>
    intro i dib l2 data allocated h fs total behind slots nodup second covered reach on
    have done : sectors ≤ allocated ∨ maxSectors ≤ data.length := by
      by_cases more : allocated < sectors
      · right
        have := reach more
        unfold maxSectors
        omega
      · exact .inl (Int.not_lt.mp more)
    refine ⟨true, dib, [], [], h, fs, ?_, ?_⟩
    · rw [drop_eq_nil_of_le (by simp; omega)]
      simp [fillDoubly]
    rw [append_nil, append_nil]
    exact ⟨slots, second, covered, (Added.refl on).mono (nil_subset _) second.held,
      Stops.done done, fun _ => id, id⟩
  | succ r ih =>
    intro i dib l2 data allocated h fs total behind slots nodup second covered reach on
    have inside : i < 128 := by omega
    rw [finRange_drop inside, fillDoubly]
    by_cases more : allocated < sectors
    swap
    · refine ⟨true, dib, [], [], h, fs, ?_, ?_⟩
      · rw [if_neg more]
        simp
      rw [append_nil, append_nil]
      exact ⟨slots, second, covered, (Added.refl on).mono (nil_subset _) second.held,
        Stops.done (.inl (Int.not_lt.mp more)), fun _ => id, id⟩
    rw [if_pos more]
    obtain ⟨r', fs1, run1, effect⟩ := fillBlock_spec inside more behind slots nodup second covered
      (reach more) on
    rw [run1]
    cases r' with
    | none =>
      refine ⟨false, dib, [], [], h, fs1, ?_, ?_⟩
      · simp
      rw [append_nil, append_nil]
      exact ⟨slots, second, covered, (Added.of_refused effect).mono (nil_subset _) second.held,
        Stops.failed more effect.failed effect.exhausted, fun _ => id, id⟩
    | some s =>
      obtain ⟨ok, ys, zs, h1, fs2, run2, slots1, nodup1, second1, behind1, covered1, added1, stops1,
        snug1, close1⟩ := effect
      simp only [bind_eq_bind, bind_some, run2]
      cases ok with
      | false =>
        exact ⟨false, _, ys, zs, h1, fs2, by simp, slots1, second1, covered1, added1,
          ⟨stops1.bound, nofun, stops1.failure⟩, nofun, close1⟩
      | true =>
        have reached1 : allocated + ys.length < sectors →
            138 + 128 * (i + 1) ≤ (data ++ ys).length := by
          intro still
          rcases stops1.success rfl with enough | filled
          · omega
          · exact filled
        obtain ⟨ok2, dib2, ys2, zs2, h2, fs3, run3, slots2, second2, covered2, added2, stops2, snug2,
          close2⟩ := ih (i + 1) (allocated + ys.length) (by omega) behind1 slots1 nodup1 second1 covered1
            reached1 added1.on
        have count : allocated + ys.length + ys2.length =
            allocated + ((ys ++ ys2).length : Nat) := by
          rw [length_append]
          omega
        simp only [append_assoc] at slots2 second2 covered2 stops2 snug2 close2
        refine ⟨ok2, dib2, ys ++ ys2, zs ++ zs2, h2, fs3, ?_, slots2, second2, covered2,
          added1.trans added2, ?_, fun success snug => snug2 success (snug1 rfl snug),
          fun close => close2 (close1 close)⟩
        · simp only [if_true, run3, count]
        · rw [length_append]
          exact stops2.after stops1.bound

theorem Maps.addDoubly
    (maps : Maps h d ⟨data, [s]⟩) (index : IndexAt h' t []) (real : t ≠ blockSectorNone)
    (same : h' s = h s) : Maps h' { d with doublyIndirect := t } ⟨data, [s, t]⟩ := by
  refine ⟨maps.direct, maps.indirect, rfl, ?_, ?_, ?_, ?_, ?_, maps.small⟩
  · intro x at0
    obtain rfl : s = x := by simpa using at0
    exact (maps.first s rfl).congr same
  · intro x at1
    obtain rfl : t = x := by simpa using at1
    exact index
  · intro j x atj
    simp [Nat.add_comm 2 j] at atj
  · intro x hx
    rcases mem_cons.mp hx with rfl | hx
    · exact maps.real x mem_cons_self
    · rwa [mem_singleton.mp hx]
  · exact Nat.le_trans maps.covered (by simp)

theorem Maps.fillSecond (maps : Maps h d ⟨data, s :: t :: l2⟩) (full : 138 ≤ data.length)
    (same : h' s = h s) (index : IndexAt h' t (l2 ++ zs)) (second : Second h' (data ++ ys) (l2 ++ zs))
    (covered : (data ++ ys).length ≤ 138 + 128 * (l2 ++ zs).length) (fits : (l2 ++ zs).length ≤ 128)
    (real : ∀ z ∈ zs, z ≠ blockSectorNone) : Maps h' d ⟨data ++ ys, s :: t :: (l2 ++ zs)⟩ := by
  refine ⟨?_, maps.indirect, maps.doubly, ?_, ?_, ?_, ?_, ?_, ?_⟩
  · rw [window_append_of_full (by omega)]
    exact maps.direct
  · intro x at0
    obtain rfl : s = x := by simpa using at0
    rw [window_append_of_full (by omega)]
    exact (maps.first s rfl).congr same
  · intro x at1
    obtain rfl : t = x := by simpa using at1
    exact index
  · intro j x atj
    apply second j x
    rwa [show 2 + j = j + 1 + 1 by omega] at atj
  · intro x hx
    simp only [mem_cons, mem_append] at hx
    rcases hx with rfl | rfl | old | new
    · exact maps.real x (by simp)
    · exact maps.real x (by simp)
    · exact maps.real x (by simp [old])
    · exact real x new
  · show indexCount (data ++ ys).length ≤ (l2 ++ zs).length + 1 + 1
    unfold indexCount
    split
    · omega
    · split <;> omega
  show (data ++ ys).length ≤ maxSectors
  unfold maxSectors
  omega

/-- The doubly indirect block of an inode gets the data sectors `ys` in addition. -/
theorem fillDoublyIndirect_spec (sectors allocated : Int) (on : On F h fs)
    (maps : Maps h d ⟨data, s :: t :: l2⟩) (nodup : (s :: t :: l2).Nodup)
    (full : 138 ≤ data.length) :
    ∃ ok ys zs h' fs',
      fillDoublyIndirect sectors t allocated fs = some (ok, allocated + ys.length, fs') ∧
      Added F h fs h' fs' ys zs (t :: l2) ∧ Maps h' d ⟨data ++ ys, s :: t :: (l2 ++ zs)⟩ ∧
      Stops F h' fs' sectors allocated ys.length (maxSectors ≤ (data ++ ys).length) ok ∧
      (ok = true → Snug data l2 → Snug (data ++ ys) (l2 ++ zs)) ∧
      (Close data l2 → Close (data ++ ys) (l2 ++ zs)) := by
  obtain ⟨c, held, slots⟩ := maps.middle t rfl
  obtain ⟨fs1, run1, on1, same1⟩ := on.readIndirect held
  have second := maps.below
  have covered : data.length ≤ 138 + 128 * l2.length :=
    (le_of_indexCount_le maps.covered).2.2 (by simp)
  have nodupRest := (nodup_cons.mp nodup).2
  have nodup2 : l2.Nodup := (nodup_cons.mp nodupRest).2
  obtain ⟨ok, dib, ys, zs, h2, fs2, run2, slots', second', covered', added, stops, snug,
    close⟩ := fillDoubly_spec sectors 128 0 allocated (Nat.zero_add 128) (Nat.zero_le _) slots nodup2 second
      covered (fun _ => by omega) on1
  rw [drop_zero] at run2
  have usedT : (h t).isSome := (maps.middle t rfl).isSome
  have usedS : (h s).isSome := (maps.first s rfl).isSome
  obtain ⟨fs3, run3, written⟩ := added.on.writeIndirect_added (added.isSome usedT) dib
  have notT : ∀ x ∈ l2 ++ zs, x ≠ t := by
    intro x hx same
    rcases mem_append.mp hx with old | new
    · exact (nodup_cons.mp nodupRest).1 (same ▸ old)
    · exact added.notMem_of_held usedT (mem_append_right _ (same ▸ new))
  have first : Added F h fs h2 fs2 ys zs (t :: l2) := by
    have step : Added F h fs h2 fs2 ([] ++ ys) ([] ++ zs) l2 :=
      ((Added.of_same on1 same1).mono (nil_subset l2) second.held).trans
        (added.mono (by simp) (by simpa using second.held))
    exact step.mono (subset_cons_self t l2) (forall_mem_cons.mpr ⟨usedT, second.held⟩)
  have next : Added F h2 fs2 (update h2 t (some dib.toSector)) fs3 [] [] (t :: l2 ++ zs) :=
    written.mono (by simp) (forall_mem_append.mpr ⟨first.kept, first.held⟩)
  have whole := first.trans next
  rw [append_nil, append_nil] at whole
  refine ⟨ok, ys, zs, _, fs3, ?_, whole, ?_, stops.of_added written, snug, close⟩
  · simp only [fillDoublyIndirect, run1, run2, run3, bind_eq_bind, bind_some]
  apply maps.fillSecond full
  · rw [whole.keep usedS]
    intro mem
    exact (nodup_cons.mp nodup).1 mem
  · refine ⟨_, Function.update_self .., ?_⟩
    rwa [IndirectBlock.ofSector_toSector]
  · intro j x atj
    apply (second' j x atj).congr
    exact update_of_ne (notT x (mem_of_getElem? atj)) _ _
  · exact covered'
  · exact slots'.fits
  · exact fun z hz => slots'.real z (mem_append_right _ hz)

theorem Snug.indexCount (snug : Snug data l2) (nonempty : l2 ≠ [])
    (covered : data.length ≤ 138 + 128 * l2.length) : l2.length + 2 = indexCount data.length := by
  have := length_pos_iff.mpr nonempty
  rcases snug with none | last
  · exact absurd none nonempty
  unfold Pintos.indexCount
  rw [if_neg (by omega), if_neg (by omega)]
  omega

/-- With one index block more than the data fills, the next data sector needs it. -/
theorem Close.le_indexCount (close : Close data l2)
    (full : 138 ≤ data.length) : l2.length + 2 ≤ indexCount (data.length + 1) := by
  unfold indexCount
  rw [if_neg (by omega), if_neg (by omega)]
  rcases close with rfl | last
  · rw [length_nil]
    omega
  · omega

theorem snug_of_indexCount (counted : l2.length + 2 = indexCount data.length) : Snug data l2 := by
  right
  unfold indexCount at counted
  split at counted
  · omega
  · split at counted <;> omega

theorem growDoubly_spec (more : allocated < sectors) (on : On F h fs) (maps : Maps h d L)
    (owns : Owns h L.sectors) (tight : L.Tight) (full : 138 ≤ L.data.length) :
    ∃ ok d' ys zs h' fs',
      growDoubly d sectors allocated fs = some (ok, d', allocated + ys.length, fs') ∧
      Grows F h fs d L h' fs' d' ys zs ∧ (L.extend ys zs).Ahead ∧
      (ok = true → sectors ≤ allocated + ys.length → (L.extend ys zs).Tight) ∧
      Stops F h' fs' sectors allocated ys.length (maxSectors ≤ (L.data ++ ys).length) ok := by
  obtain ⟨data, index⟩ := L
  have counted : index.length = indexCount data.length := tight
  have full : 138 ≤ data.length := full
  have nodup : index.Nodup := (nodup_append.mp owns.nodup).2.1
  rcases index with _ | ⟨s, _ | ⟨t, l2⟩⟩
  · have := (le_of_indexCount_le maps.covered).1 rfl
    exact absurd full (by show ¬138 ≤ data.length; have : data.length ≤ 10 := this; omega)
  · -- the indirect block is full and there is no doubly indirect block yet
    have high : data.length ≤ 138 := (le_of_indexCount_le maps.covered).2.1 (Nat.le_refl 1)
    have pointer : d.doublyIndirect = blockSectorNone := maps.doubly
    obtain ⟨r, fs1, run1, effect⟩ := on.inodeIndirectAllocate
    cases r with
    | none =>
      refine ⟨false, d, [], [], h, fs1, ?_, ⟨?_, ?_, SameAttrs.refl d⟩, tight.ahead [], nofun,
        Stops.failed more effect.failed effect.exhausted⟩
      · simp [growDoubly, FS.ensureIndirect, pointer, run1]
      · exact (Added.of_refused effect).mono (nil_subset _) owns.index
      · simpa [extend] using maps
    | some t =>
      obtain ⟨h1, added1, index1⟩ := effect
      have usedS : (h s).isSome := (maps.first s rfl).isSome
      have ne : s ≠ t := fun same =>
        added1.notMem_of_held usedS (mem_singleton.mpr same)
      have maps1 := maps.addDoubly index1 (index1.ne_none added1.on) (added1.keep usedS not_mem_nil)
      obtain ⟨ok, ys, zs, h2, fs2, run2, added2, maps2, stops, snug, close⟩ :=
        fillDoublyIndirect_spec sectors allocated added1.on maps1 (by simpa using ne) full
      rw [nil_append] at maps2 snug close
      have first := added1.mono (nil_subset [s]) owns.index
      have next : Added F h1 fs1 h2 fs2 ys zs ([s] ++ [t]) :=
        added2.mono (by simp) (forall_mem_append.mpr
          ⟨fun x old => added1.isSome (owns.index x old), forall_mem_singleton.mpr index1.isSome⟩)
      refine ⟨ok, { d with doublyIndirect := t }, ys, t :: zs, h2, fs2, ?_,
        ⟨first.trans next, maps2, ⟨rfl, rfl, rfl, rfl, rfl⟩⟩, ?_, ?_, stops⟩
      · simp only [growDoubly, FS.ensureIndirect, pointer, if_true, run1, run2, bind_eq_bind,
          bind_some]
      · apply (close (.inl rfl)).le_indexCount
        rw [length_append]
        omega
      intro success enough
      have covered : (data ++ ys).length ≤ 138 + 128 * zs.length :=
        (le_of_indexCount_le maps2.covered).2.2 (by simp)
      have nonempty : zs ≠ [] := by
        rintro rfl
        rw [length_append, length_nil] at covered
        omega
      show zs.length + 1 + 1 = indexCount (data ++ ys).length
      exact (snug success (.inl rfl)).indexCount nonempty covered
  have pointer : d.doublyIndirect = t := maps.doubly
  have real : t ≠ blockSectorNone := maps.real t (by simp)
  obtain ⟨ok, ys, zs, h', fs', run, added, maps', stops, snug, close⟩ :=
    fillDoublyIndirect_spec sectors allocated on maps nodup full
  refine ⟨ok, { d with doublyIndirect := t }, ys, zs, h', fs', ?_, ⟨?_, ?_, ⟨rfl, rfl, rfl, rfl, rfl⟩⟩,
    ?_, ?_, stops⟩
  · simp only [growDoubly, FS.ensureIndirect, pointer, real, if_false, run, bind_eq_bind, bind_some]
  · exact added.mono (subset_cons_self s _) owns.index
  · exact maps'.of_pointers rfl rfl pointer.symm
  · apply (close (snug_of_indexCount counted).close).le_indexCount
    rw [length_append]
    omega
  intro success _
  have covered : (data ++ ys).length ≤ 138 + 128 * (l2 ++ zs).length :=
    (le_of_indexCount_le maps'.covered).2.2 (by simp)
  have before : Snug data l2 := snug_of_indexCount counted
  have nonempty : l2 ≠ [] := by
    rintro rfl
    have counted : 2 = indexCount data.length := counted
    unfold indexCount at counted
    split at counted
    · omega
    · split at counted <;> omega
  show (l2 ++ zs).length + 1 + 1 = indexCount (data ++ ys).length
  exact (snug success before).indexCount (by simp [nonempty]) covered

/-! ## All levels -/

/-- Before the label `fail` the inode has grown by the sectors counted in `allocated_sectors`: all
    that were asked for, or as many as there was room for in the inode or on the disk. -/
theorem growSectors_spec
    (pos : 0 < sectors) (on : On F h fs) (maps : Maps h d L) (owns : Owns h L.sectors)
    (tight : L.Tight) :
    ∃ ok d' ys zs h' fs', growSectors d sectors fs = some (ok, d', (ys.length : Int), fs') ∧
      Grows F h fs d L h' fs' d' ys zs ∧ (L.extend ys zs).Ahead ∧
      (ok = true → (ys.length : Int) = sectors ∧ (L.extend ys zs).Tight) ∧
      (ok = false → (ys.length : Int) < sectors ∧
        ((L.data ++ ys).length = maxSectors ∨ fs'.allocFailed = true ∧ Exhausted F h' fs')) := by
  obtain ⟨ok1, d1, ys1, h1, fs1, run1, grows1, tight1, stops1⟩ :=
    growDirect_spec sectors 0 on maps owns tight
  have bound1 := stops1.bound
  have owns1 := grows1.owns owns
  rw [Int.zero_add] at run1 bound1
  unfold growSectors
  simp only [run1, bind_eq_bind, bind_some]
  cases ok1 with
  | false =>
    obtain ⟨less, failed⟩ := stops1.failure rfl
    rw [Int.zero_add] at less
    exact ⟨false, d1, ys1, [], h1, fs1, by simp, grows1, tight.ahead ys1, by simp,
      fun _ => ⟨less, .inr failed⟩⟩
  | true =>
    by_cases enough1 : sectors ≤ (ys1.length : Nat)
    · refine ⟨true, d1, ys1, [], h1, fs1, ?_, grows1, tight.ahead ys1,
        fun _ => ⟨by omega, tight1⟩, by simp⟩
      simp [enough1]
    have full1 : 10 ≤ (L.extend ys1 []).data.length := by
      rcases stops1.success rfl with enough | full
      · omega
      · exact full
    obtain ⟨ok2, d2, ys2, zs2, h2, fs2, run2, grows2, ahead2, tight2, stops2⟩ :=
      growIndirect_spec (by omega : (ys1.length : Int) < sectors) grows1.added.on grows1.maps
        owns1 tight1 full1
    have bound2 := stops2.bound
    have owns2 := grows2.owns owns1
    have both := grows1.trans grows2
    have count2 : (ys1.length : Int) + ys2.length = ((ys1 ++ ys2).length : Nat) := by
      rw [length_append]
      omega
    simp only [Bool.not_true, Bool.false_or, decide_eq_true_eq, enough1, if_false, run2,
      bind_some, count2]
    have layout := L.extend_extend ys1 [] ys2 zs2
    rw [count2] at bound2
    cases ok2 with
    | false =>
      obtain ⟨less, failed⟩ := stops2.failure rfl
      rw [count2] at less
      exact ⟨false, d2, ys1 ++ ys2, [] ++ zs2, h2, fs2, by simp, both, layout ▸ ahead2, by simp,
        fun _ => ⟨less, .inr failed⟩⟩
    | true =>
      by_cases enough2 : sectors ≤ ((ys1 ++ ys2).length : Nat)
      · refine ⟨true, d2, ys1 ++ ys2, [] ++ zs2, h2, fs2, ?_, both, layout ▸ ahead2,
          fun _ => ⟨by omega, ?_⟩, by simp⟩
        · simp only [Bool.not_true, Bool.false_or, enough2, decide_true, if_true]
        · rw [← layout]
          exact tight2 rfl
      have full2 : 138 ≤ ((L.extend ys1 []).extend ys2 zs2).data.length := by
        rcases stops2.success rfl with enough | full
        · rw [count2] at enough
          omega
        · exact full
      obtain ⟨ok3, d3, ys3, zs3, h3, fs3, run3, grows3, ahead3, tight3, stops3⟩ :=
        growDoubly_spec (by omega : (((ys1 ++ ys2).length : Nat) : Int) < sectors) grows2.added.on
          grows2.maps owns2 (tight2 rfl) full2
      have bound3 := stops3.bound
      have all := both.trans (layout ▸ grows3)
      have count3 : (((ys1 ++ ys2).length : Nat) : Int) + ys3.length =
          ((ys1 ++ ys2 ++ ys3).length : Nat) := by
        have : (ys1 ++ ys2 ++ ys3).length = (ys1 ++ ys2).length + ys3.length := length_append
        omega
      rw [count3] at bound3
      have layout3 : ((L.extend ys1 []).extend ys2 zs2).extend ys3 zs3 =
          L.extend (ys1 ++ ys2 ++ ys3) ([] ++ zs2 ++ zs3) := by
        rw [layout, extend_extend]
      simp only [Bool.not_true, Bool.false_or, decide_eq_true_eq, enough2, if_false, run3,
        bind_some, count3]
      refine ⟨_, d3, ys1 ++ ys2 ++ ys3, [] ++ zs2 ++ zs3, h3, fs3, rfl, all, layout3 ▸ ahead3, ?_, ?_⟩
      · intro success
        rw [Bool.and_eq_true, decide_eq_true_eq] at success
        refine ⟨by omega, ?_⟩
        rw [← layout3]
        exact tight3 success.1 (by omega)
      intro failure
      cases ok3 with
      | false =>
        obtain ⟨less, failed⟩ := stops3.failure rfl
        rw [count3] at less
        exact ⟨less, .inr failed⟩
      | true =>
        rw [Bool.true_and, decide_eq_false_iff_not] at failure
        refine ⟨by omega, .inl ?_⟩
        have small := all.maps.small
        rcases stops3.success rfl with enough | full
        · rw [count3] at enough
          exact absurd enough failure
        have same : ((L.extend ys1 []).extend ys2 zs2).data ++ ys3 =
            L.data ++ (ys1 ++ ys2 ++ ys3) := by
          simp [extend]
        rw [same] at full
        exact Nat.le_antisymm small full

end Pintos
