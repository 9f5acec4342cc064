import Pintos.Filesys.Proofs.InodeLife

/-!
# Closing an inode

When a removed inode is closed for the last time, `inode_close` releases every
sector of its layout, and its own sector, exactly once.
-/

namespace Pintos

open List Option

variable {fs : FS} {x s : BlockSector} {l2 data : List BlockSector} {F : List BlockSector}
  {h h' : Heap} {xs ys : List BlockSector} {fs' : FS} {d : InodeDisk} {L : Layout}

/-! ## The loops -/

theorem Owns.sublist (owns : Owns h xs) (sub : ys.Sublist xs) :
    Owns h ys := ⟨owns.nodup.sublist sub, fun x hx => owns.held x (sub.subset hx)⟩

/-- The second part of a list of sectors stays when the first part goes. -/
theorem Owns.after_shed (owns : Owns h (xs ++ ys)) (shed : Shed F h fs h' fs' xs []) : Owns h' ys := by
  apply owns.of_shed shed (sublist_append_right xs ys)
  intro x hx mem
  exact (nodup_append.mp owns.nodup).2.2 x mem x hx rfl

theorem Owns.keep (owns : Owns h (xs ++ ys)) (shed : Shed F h fs h' fs' xs []) (mem : x ∈ ys) :
    h' x = h x :=
  shed.frame x (fun gone => (nodup_append.mp owns.nodup).2.2 x gone x mem rfl) not_mem_nil

/-- The slots from the `i`-th on are released. -/
theorem closeSlots_spec {n : Nat} {slots : Fin n → BlockSector}
    (held : Holds blockSectorNone slots xs) (r : Nat) :
    ∀ (i : Nat) {h : Heap} {fs : FS}, i + r = n → Owns h (xs.drop i) → On F h fs →
      fs.freeMapFile = true →
      ∃ h' fs', FS.closeSlots slots ((finRange n).drop i) fs = some fs' ∧
        Shed F h fs h' fs' (xs.drop i) [] := by
  induction r with
  | zero =>
    intro i h fs total _ on _
    have fits := held.fits
    refine ⟨h, fs, ?_, ?_⟩
    · rw [drop_of_length_le (by simp; omega)]
      rfl
    · rw [drop_of_length_le (by omega)]
      exact Shed.refl on
  | succ r ih =>
    intro i h fs total owns on opened
    have inside : i < n := by omega
    rw [finRange_drop inside, FS.closeSlots]
    by_cases taken : slots ⟨i, inside⟩ ≠ blockSectorNone
    swap
    · rw [if_neg taken]
      have after : xs.length ≤ i := (held.eq_mark_iff ⟨i, inside⟩).mp (not_not.mp taken)
      rw [drop_of_length_le after] at owns ⊢
      have rest := @ih (i + 1) h fs (by omega)
      rw [drop_of_length_le (show xs.length ≤ i + 1 by omega)] at rest
      exact rest owns on opened
    rw [if_pos taken]
    have here : i < xs.length := by
      by_contra after
      exact taken ((held.eq_mark_iff _).mpr (by show xs.length ≤ i; omega))
    have slot : slots ⟨i, inside⟩ = xs[i] := by
      rw [held.slot]
      exact getD_eq_getElem _ _ here
    rw [drop_eq_getElem_cons here] at owns ⊢
    obtain ⟨fs1, run1, shed1⟩ := on.releaseSector_shed opened (owns.held xs[i] mem_cons_self)
    have owns1 := Owns.after_shed (show Owns h ([xs[i]] ++ xs.drop (i + 1)) from owns) shed1
    obtain ⟨h', fs', run2, shed2⟩ := ih (i + 1) (by omega) owns1 shed1.on (shed1.open opened)
    refine ⟨h', fs', ?_, shed1.trans shed2⟩
    rw [slot, run1]
    exact run2

theorem inodeIndirectClose_spec
    (index : IndexAt h s xs) (owns : Owns h (xs ++ [s])) (on : On F h fs)
    (opened : fs.freeMapFile = true) :
    ∃ h' fs', fs.inodeIndirectClose s = some fs' ∧ Shed F h fs h' fs' (xs ++ [s]) [] := by
  obtain ⟨c, content, slots⟩ := index
  obtain ⟨fs1, run1, on1, same1⟩ := on.readIndirect content
  have opened1 := same1.freeMapFile.trans opened
  obtain ⟨h2, fs2, run2, shed2⟩ := closeSlots_spec slots 128 0 (Nat.zero_add _)
    (owns.sublist (sublist_append_left xs [s])) on1 opened1
  rw [drop_zero] at run2 shed2
  have used : (h2 s).isSome := (owns.after_shed shed2).held s (mem_singleton.mpr rfl)
  obtain ⟨fs3, run3, shed3⟩ := shed2.on.releaseSector_shed (shed2.open opened1) used
  refine ⟨_, fs3, ?_, ((Shed.of_same on1 same1).trans shed2).trans shed3⟩
  unfold FS.inodeIndirectClose
  rw [run1]
  simp only [bind_eq_bind, bind_some]
  rw [run2]
  exact run3

theorem Owns.perm (owns : Owns h xs) (perm : xs.Perm ys) :
    Owns h ys := ⟨perm.nodup_iff.mp owns.nodup, fun x hx => owns.held x (perm.symm.subset hx)⟩

theorem Shed.perm
    (shed : Shed F h fs h' fs' xs []) (perm : xs.Perm ys) : Shed F h fs h' fs' ys [] :=
  shed.congr (fun _ => perm.symm.mem_iff) (by simp) (by simp)

/-- The blocks of the doubly indirect block from the `i`-th on are released with their data. -/
theorem closeDoubly_spec {dib : IndirectBlock}
    (slots : Holds blockSectorNone dib l2) (covered : data.length ≤ 138 + 128 * l2.length) (r : Nat) :
    ∀ (i : Nat) {h : Heap} {fs : FS}, i + r = 128 →
      (∀ j s, i ≤ j → l2[j]? = some s → IndexAt h s (window data (138 + 128 * j) 128)) →
      Owns h (data.drop (138 + 128 * i) ++ l2.drop i) → On F h fs → fs.freeMapFile = true →
      ∃ h' fs', FS.closeDoubly dib ((finRange 128).drop i) fs = some fs' ∧
        Shed F h fs h' fs' (data.drop (138 + 128 * i) ++ l2.drop i) [] := by
  -- behind the last block there is nothing to release
  have past : ∀ i, l2.length ≤ i → data.drop (138 + 128 * i) ++ l2.drop i = [] := by
    intro i after
    rw [drop_of_length_le (by omega), drop_of_length_le after, append_nil]
  induction r with
  | zero =>
    intro i h fs total _ _ on _
    have fits := slots.fits
    refine ⟨h, fs, ?_, ?_⟩
    · rw [drop_of_length_le (by simp; omega)]
      rfl
    · rw [past i (by omega)]
      exact Shed.refl on
  | succ r ih =>
    intro i h fs total second owns on opened
    have inside : i < 128 := by omega
    rw [finRange_drop inside, FS.closeDoubly]
    by_cases taken : dib ⟨i, inside⟩ ≠ blockSectorNone
    swap
    · rw [if_neg taken]
      have after : l2.length ≤ i := (slots.eq_mark_iff ⟨i, inside⟩).mp (not_not.mp taken)
      rw [past i after] at owns ⊢
      have rest := @ih (i + 1) h fs (by omega) fun j s low => second j s (by omega)
      rw [past (i + 1) (by omega)] at rest
      exact rest owns on opened
    rw [if_pos taken]
    have here : i < l2.length := by
      by_contra after
      exact taken ((slots.eq_mark_iff _).mpr (by show l2.length ≤ i; omega))
    have slot : dib ⟨i, inside⟩ = l2[i] := by
      rw [slots.slot]
      exact getD_eq_getElem _ _ here
    have parts : data.drop (138 + 128 * i) =
        window data (138 + 128 * i) 128 ++ data.drop (138 + 128 * (i + 1)) := by
      rw [show 138 + 128 * (i + 1) = 138 + 128 * i + 128 by omega, window_append_drop]
    have perm : (data.drop (138 + 128 * i) ++ l2.drop i).Perm
        ((window data (138 + 128 * i) 128 ++ [l2[i]]) ++
          (data.drop (138 + 128 * (i + 1)) ++ l2.drop (i + 1))) := by
      rw [parts, drop_eq_getElem_cons here, append_assoc, append_assoc]
      apply List.Perm.append_left
      exact perm_middle
    have owns' := owns.perm perm
    obtain ⟨h1, fs1, run1, shed1⟩ := inodeIndirectClose_spec
      (second i l2[i] (Nat.le_refl _) (getElem?_eq_getElem here))
      (owns'.sublist (sublist_append_left _ _)) on opened
    have second1 : ∀ j s, i + 1 ≤ j → l2[j]? = some s →
        IndexAt h1 s (window data (138 + 128 * j) 128) := by
      intro j s low found
      apply (second j s (by omega) found).congr
      apply shed1.frame s _ not_mem_nil
      intro gone
      have later : s ∈ l2.drop (i + 1) := by
        apply mem_of_getElem? (i := j - (i + 1))
        rw [getElem?_drop, show i + 1 + (j - (i + 1)) = j by omega]
        exact found
      exact (nodup_append.mp owns'.nodup).2.2 s gone s (mem_append_right _ later) rfl
    obtain ⟨h', fs', run2, shed2⟩ := ih (i + 1) (by omega) second1 (owns'.after_shed shed1) shed1.on
      (shed1.open opened)
    refine ⟨h', fs', ?_, (shed1.trans shed2).perm perm.symm⟩
    rw [slot, run1]
    exact run2

/-! ## Deallocating an inode -/

/-- What hangs on the indirect pointer. -/
def Layout.firstPart (L : Layout) : List BlockSector :=
  L.index[0]?.toList.flatMap fun s => window L.data 10 128 ++ [s]

/-- What hangs on the doubly indirect pointer. -/
def Layout.secondPart (L : Layout) : List BlockSector :=
  L.index[1]?.toList.flatMap fun t => L.data.drop 138 ++ L.index.drop 2 ++ [t]

/-- The sectors of an inode in the order in which `inode_close` releases them. -/
theorem Maps.sectors_perm (maps : Maps h d L) :
    L.sectors.Perm (window L.data 0 10 ++ L.firstPart ++ L.secondPart) := by
  obtain ⟨noIndex, oneIndex, -⟩ := le_of_indexCount_le maps.covered
  obtain ⟨data, index⟩ := L
  unfold Layout.sectors Layout.firstPart Layout.secondPart
  have start : data = window data 0 10 ++ data.drop 10 := by
    have whole : window data 0 10 ++ data.drop 10 = data.drop 0 := window_append_drop
    rw [whole, drop_zero]
  have middle : data.drop 10 = window data 10 128 ++ data.drop 138 := window_append_drop.symm
  match index with
  | [] =>
    have low : data.length ≤ 10 := noIndex rfl
    rw [drop_of_length_le low, append_nil] at start
    simpa using List.Perm.of_eq start
  | [s] =>
    have low : data.length ≤ 138 := oneIndex (Nat.le_refl 1)
    rw [drop_of_length_le low, append_nil] at middle
    rw [middle] at start
    simpa using List.Perm.of_eq (congrArg (· ++ [s]) start)
  | s :: t :: l2 =>
    rw [middle] at start
    apply (List.Perm.of_eq (congrArg (· ++ s :: t :: l2) start)).trans
    rw [perm_iff_count]
    intro x
    simp only [getElem?_cons_zero, getElem?_cons_succ, toList_some,
      flatMap_cons, flatMap_nil, append_nil, drop_succ_cons, drop_zero,
      count_append, count_cons, count_nil]
    omega

theorem closeFirst_spec (pointer : d.indirect = L.index.getD 0 blockSectorNone)
    (index : ∀ s, L.index[0]? = some s → IndexAt h s (window L.data 10 128))
    (owns : Owns h L.firstPart) (on : On F h fs) (opened : fs.freeMapFile = true) :
    ∃ h' fs', fs.closeIndirect d.indirect = some fs' ∧ Shed F h fs h' fs' L.firstPart [] := by
  rw [getD_eq_getElem?_getD] at pointer
  unfold FS.closeIndirect
  unfold Layout.firstPart at owns ⊢
  cases found : L.index[0]? with
  | none =>
    rw [found] at pointer
    exact ⟨h, fs, if_neg (not_not.mpr pointer), Shed.refl on⟩
  | some s =>
    rw [found] at pointer owns
    have pointer : d.indirect = s := pointer
    obtain ⟨c, content, -⟩ := index s found
    simp only [toList_some, flatMap_cons, flatMap_nil, append_nil] at owns ⊢
    rw [pointer, if_pos (on.ne_none content)]
    exact inodeIndirectClose_spec (index s found) owns on opened

theorem closeSecond_spec (pointer : d.doublyIndirect = L.index.getD 1 blockSectorNone)
    (middle : ∀ t, L.index[1]? = some t → IndexAt h t (L.index.drop 2))
    (second : ∀ j s, L.index[2 + j]? = some s → IndexAt h s (window L.data (138 + 128 * j) 128))
    (covered : indexCount L.data.length ≤ L.index.length) (owns : Owns h L.secondPart)
    (on : On F h fs) (opened : fs.freeMapFile = true) :
    ∃ h' fs', fs.closeDoublyIndirect d.doublyIndirect = some fs' ∧
      Shed F h fs h' fs' L.secondPart [] := by
  rw [getD_eq_getElem?_getD] at pointer
  unfold FS.closeDoublyIndirect
  unfold Layout.secondPart at owns ⊢
  cases found : L.index[1]? with
  | none =>
    rw [found] at pointer
    exact ⟨h, fs, if_neg (not_not.mpr pointer), Shed.refl on⟩
  | some t =>
    rw [found] at pointer owns
    have pointer : d.doublyIndirect = t := pointer
    have two : 2 ≤ L.index.length := (List.getElem?_eq_some_iff.mp found).1
    have enough := (le_of_indexCount_le covered).2.2 two
    obtain ⟨c, content, slots⟩ := middle t found
    simp only [toList_some, flatMap_cons, flatMap_nil, append_nil] at owns ⊢
    obtain ⟨fs1, run1, on1, same1⟩ := on.readIndirect content
    have opened1 := same1.freeMapFile.trans opened
    obtain ⟨h2, fs2, run2, shed2⟩ := closeDoubly_spec slots
      (show L.data.length ≤ 138 + 128 * (L.index.drop 2).length by rw [length_drop]; exact enough)
      128 0 (Nat.zero_add _)
      (fun j s _ atj => second j s (by rwa [getElem?_drop] at atj))
      (owns.sublist (sublist_append_left _ _)) on1 opened1
    rw [drop_zero] at run2
    have used : (h2 t).isSome :=
      (owns.after_shed shed2).held t (mem_singleton.mpr rfl)
    obtain ⟨fs3, run3, shed3⟩ := shed2.on.releaseSector_shed (shed2.open opened1) used
    refine ⟨_, fs3, ?_, ((Shed.of_same on1 same1).trans shed2).trans shed3⟩
    rw [pointer, if_pos (on.ne_none content), run1]
    simp only [bind_eq_bind, bind_some]
    rw [run2]
    exact run3

theorem inodeDeallocate_spec (maps : Maps h d L) (owns : Owns h (s :: L.sectors)) (on : On F h fs)
    (opened : fs.freeMapFile = true) :
    ∃ h' fs', fs.inodeDeallocate s d = some fs' ∧ Shed F h fs h' fs' (s :: L.sectors) [] := by
  have perm : (s :: L.sectors).Perm
    (window L.data 0 10 ++ (L.firstPart ++ (L.secondPart ++ [s]))) := by
    have last : (s :: L.sectors).Perm (L.sectors ++ [s]) := (perm_append_singleton s _).symm
    apply last.trans
    rw [← append_assoc, ← append_assoc]
    exact maps.sectors_perm.append_right [s]
  have owns := owns.perm perm
  obtain ⟨h1, fs1, run1, shed1⟩ := closeSlots_spec maps.direct 10 0 (Nat.zero_add _)
    (owns.sublist (sublist_append_left _ _)) on opened
  rw [drop_zero] at run1 shed1
  have owns1 := owns.after_shed shed1
  have first1 : ∀ x, L.index[0]? = some x → IndexAt h1 x (window L.data 10 128) := by
    intro x at0
    apply (maps.first x at0).congr
    apply owns.keep shed1
    simp [Layout.firstPart, at0]
  obtain ⟨h2, fs2, run2, shed2⟩ := closeFirst_spec maps.indirect first1
    (owns1.sublist (sublist_append_left _ _)) shed1.on (shed1.open opened)
  have owns2 := owns1.after_shed shed2
  -- the index blocks of the second part survive both steps
  have keep2 : ∀ x ∈ L.secondPart, h2 x = h x := by
    intro x hx
    rw [owns1.keep shed2 (mem_append_left _ hx),
      owns.keep shed1 (mem_append_right _ (mem_append_left _ hx))]
  have middle2 : ∀ t, L.index[1]? = some t → IndexAt h2 t (L.index.drop 2) := by
    intro t at1
    apply (maps.middle t at1).congr
    apply keep2
    simp [Layout.secondPart, at1]
  have second2 : ∀ j x, L.index[2 + j]? = some x →
      IndexAt h2 x (window L.data (138 + 128 * j) 128) := by
    intro j x atj
    apply (maps.second j x atj).congr
    apply keep2
    have long : 1 < L.index.length := by
      have := (List.getElem?_eq_some_iff.mp atj).1
      omega
    have inRest : x ∈ L.index.drop 2 := by
      apply mem_of_getElem? (i := j)
      rw [List.getElem?_drop]
      exact atj
    simp [Layout.secondPart, getElem?_eq_getElem long, inRest]
  obtain ⟨h3, fs3, run3, shed3⟩ := closeSecond_spec maps.doubly middle2 second2 maps.covered
    (owns2.sublist (sublist_append_left _ _)) shed2.on (shed2.open (shed1.open opened))
  have owns3 := owns2.after_shed shed3
  obtain ⟨fs4, run4, shed4⟩ := shed3.on.releaseSector_shed
    (shed3.open (shed2.open (shed1.open opened))) (owns3.held s (mem_singleton.mpr rfl))
  have all := shed1.trans (shed2.trans (shed3.trans shed4))
  refine ⟨_, fs4, ?_, all.perm perm.symm⟩
  unfold FS.inodeDeallocate
  rw [run1]
  simp only [bind_eq_bind, bind_some]
  rw [run2]
  simp only [bind_some]
  rw [run3]
  exact run4

namespace Models

variable {R : List BlockSector} {fs : FS} {V : Volume} {s : BlockSector} {n : Node} {o : Handle}

/-- `inode_close` closes the inode, and deletes it if it was removed and nobody else has it open. -/
theorem inodeClose (models : Models fs V R) (found : V.node s = some n)
    (handle : V.handle s = some o) :
    ∃ fs', fs.inodeClose s = some fs' ∧ Steady 0 fs fs' ∧
      Models fs' (V.put s (n.close o) o.close) R := by
  obtain ⟨F, h, G, rep⟩ := models
  obtain ⟨inode, L, opened, rfl, layout, node⟩ := rep.open_data found handle
  unfold FS.inodeClose Node.close Handle.close
  rw [opened]
  simp only [bind_eq_bind, bind_some]
  have cnt : inode.handle.openCnt = inode.openCnt := rfl
  have removed : inode.handle.removed = inode.removed := rfl
  rw [cnt, removed]
  by_cases last : inode.openCnt - 1 = 0
  swap
  · rw [if_neg last, if_neg (fun both => last both.1), if_neg last]
    refine ⟨_, rfl, Steady.setInode _ _ _, F, h, G, ?_⟩
    apply rep.setInode found (some { inode with openCnt := inode.openCnt - 1 })
    intro inode' isInode
    obtain rfl := some.inj isInode
    exact node.disk
  rw [if_pos last, if_pos last]
  have rep1 := rep.setInode found none (by simp)
  obtain ⟨fs1, run1, on1, same1⟩ := rep1.on.cacheFlush
  have rep2 := rep1.of_same on1 same1
  have costs1 :=
    (Steady.setInode fs s none).trans (Steady.of_same rep1.on on1 same1 fun _ held => held)
  rw [run1]
  simp only [bind_some]
  by_cases isRemoved : inode.removed = true
  swap
  · rw [if_neg isRemoved, if_neg (fun both => isRemoved both.2)]
    exact ⟨fs1, rfl, costs1, F, h, G, rep2⟩
  rw [if_pos isRemoved, if_pos ⟨last, isRemoved⟩]
  obtain ⟨h', fs', run2, shed⟩ := inodeDeallocate_spec node.maps node.owns on1 rep2.opened
  refine ⟨fs', run2, costs1.trans (shed.steady on1), F, h', Function.update G s none, ?_⟩
  have closed : fs'.openInodes s = none := by
    rw [shed.same.openInodes, same1.openInodes, FS.setInode_self]
  have replaced := rep2.replace s none none (s :: L.sectors) shed.on (shed.open rep2.opened) ?_ ?_
    rep.nodup ?_ ?_ ?_ ?_ ?_
  · rwa [closed, map_none, Volume.put_put] at replaced
  · exact fun t M ne layoutT x hx => rep.apart t s M L layoutT layout ne x hx
  · exact fun r hr => ⟨hr, (rep.raw r hr).2 s L layout⟩
  · exact fun x _ notOld => shed.frame x notOld not_mem_nil
  · intro m impossible
    cases impossible
  · intro M impossible
    cases impossible
  · intro t _
    rw [shed.same.openInodes]
  intro inode' impossible
  rw [closed] at impossible
  cases impossible

end Models

end Pintos
