import Pintos.Filesys.Proofs.GrowLevels

/-!
# The failure path of an inode's growth

What `inode_grow_unlocked` does from its label `fail` on. It gives up the last
`allocated_sectors` data sectors and the index blocks that are no longer needed,
provided that at least one sector was allocated or the inode had no index block
to begin with.
-/

namespace Pintos

open List IndirectBlock
open Function (update update_of_ne update_self)

variable {h h' h1 h2 : Heap} {fs fs' fs1 fs2 : FS} {s t x : BlockSector}
  {gone touched xs ys data l2 more : List BlockSector} {n m a a' b : Nat} {F : List BlockSector}

/-! ## Removing sectors from the heap -/

/-- From `h` to `h'` the sectors `gone` were released; of the other sectors only
    those in `touched` may have a new content. -/
structure Shed (F : List BlockSector) (h : Heap) (fs : FS) (h' : Heap) (fs' : FS)
    (gone touched : List BlockSector) : Prop where
  on : On F h' fs'
  same : Same fs fs'
  used : ∀ x ∈ touched, (h x).isSome
  free : ∀ x ∈ gone, h' x = none
  frame : ∀ x, x ∉ gone → x ∉ touched → h' x = h x

namespace Shed

variable {h h' h'' : Heap} {fs fs' fs'' : FS} {gone touched gone' touched' : List BlockSector}

theorem refl (on : On F h fs) : Shed F h fs h fs [] [] := by
  refine ⟨on, Same.refl fs, ?_, ?_, ?_⟩ <;> simp

theorem of_same (on : On F h fs') (same : Same fs fs') : Shed F h fs h fs' [] [] := by
  refine ⟨on, same, ?_, ?_, ?_⟩ <;> simp

theorem trans (first : Shed F h fs h' fs' gone touched)
    (second : Shed F h' fs' h'' fs'' gone' touched') :
    Shed F h fs h'' fs'' (gone ++ gone') (touched ++ touched') := by
  refine ⟨second.on, first.same.trans second.same, ?_, ?_, ?_⟩
  · intro x hx
    rcases mem_append.mp hx with hx | hx
    · exact first.used x hx
    by_cases isTouched : x ∈ touched
    · exact first.used x isTouched
    have held := second.used x hx
    by_cases isGone : x ∈ gone
    · rw [first.free x isGone] at held
      cases held
    · rwa [first.frame x isGone isTouched] at held
  · intro x hx
    by_cases later : x ∈ gone'
    · exact second.free x later
    have earlier : x ∈ gone := (mem_append.mp hx).resolve_right later
    rw [second.frame x later, first.free x earlier]
    intro isTouched
    have held := second.used x isTouched
    rw [first.free x earlier] at held
    cases held
  intro x notGone notTouched
  simp only [mem_append, not_or] at notGone notTouched
  rw [second.frame x notGone.2 notTouched.2, first.frame x notGone.1 notTouched.1]

/-- The lists matter as sets, and it does not matter that a sector which is gone was
    touched before. -/
theorem congr (shed : Shed F h fs h' fs' gone touched) (sameGone : ∀ x, x ∈ gone' ↔ x ∈ gone)
    (subset : ∀ x ∈ touched, x ∈ touched' ∨ x ∈ gone') (used : ∀ x ∈ touched', (h x).isSome) :
    Shed F h fs h' fs' gone' touched' where
  on := shed.on
  same := shed.same
  used := used
  free x hx := shed.free x ((sameGone x).mp hx)
  frame x notGone notTouched := shed.frame x (fun isGone => notGone ((sameGone x).mpr isGone))
    fun isTouched => (subset x isTouched).elim notTouched notGone

end Shed

theorem On.releaseSector_shed (on : On F h fs)
    (opened : fs.freeMapFile = true) (held : (h s).isSome) :
    ∃ fs', fs.releaseSector s = some fs' ∧ Shed F h fs (update h s none) fs' [s] [] := by
  obtain ⟨c, content⟩ := Option.isSome_iff_exists.mp held
  obtain ⟨fs', run, on', same⟩ := on.releaseSector opened content
  refine ⟨fs', run, on', same, by simp, ?_, ?_⟩
  · intro x hx
    rw [mem_singleton.mp hx, update_self]
  · intro x notGone _
    exact update_of_ne (fun equal => notGone (mem_singleton.mpr equal)) _ _

theorem On.writeIndirect_shed (on : On F h fs) (held : (h s).isSome) (ib : IndirectBlock) :
    ∃ fs', fs.writeIndirect s ib = some fs' ∧
      Shed F h fs (update h s (some ib.toSector)) fs' [] [s] := by
  obtain ⟨c, content⟩ := Option.isSome_iff_exists.mp held
  obtain ⟨fs', run, on', same⟩ := on.writeIndirect content ib
  refine ⟨fs', run, on', same, ?_, by simp, ?_⟩
  · intro x hx
    rwa [mem_singleton.mp hx]
  · intro x _ notTouched
    exact update_of_ne (fun equal => notTouched (mem_singleton.mpr equal)) _ _

theorem Shed.open (shed : Shed F h fs h' fs' gone touched) (opened : fs.freeMapFile = true) :
    fs'.freeMapFile = true := shed.same.freeMapFile.trans opened

/-! ## The loop over the slots of one block -/

/-- The last `a` of the sectors in the slots are released. The loop stops at the
    slot of the last one if it reaches it. -/
theorem releaseSlots_spec (k : Nat) :
    ∀ {slots : Fin n → BlockSector} {xs : List BlockSector} (a : Nat) {h : Heap} {fs : FS},
      k ≤ n → xs.length ≤ k → Holds blockSectorNone slots xs → Owns h xs → On F h fs →
      fs.freeMapFile = true →
      ∃ stop slots' h' fs', releaseSlots ((finRange n).take k).reverse slots a fs =
          some (stop, slots', ((a - xs.length : Nat) : Int), fs') ∧
        Holds blockSectorNone slots' (xs.take (xs.length - a)) ∧
        Shed F h fs h' fs' (xs.drop (xs.length - a)) [] ∧
        stop.map Fin.val = if 0 < a ∧ a ≤ xs.length then some (xs.length - a) else none := by
  induction k with
  | zero =>
    intro slots xs a h fs _ short held _ on _
    obtain rfl : xs = [] := eq_nil_of_length_eq_zero (by omega)
    refine ⟨none, slots, h, fs, ?_, by simpa using held, by simpa using Shed.refl on, ?_⟩
    · simp [releaseSlots]
    · rw [if_neg (by simp; omega)]
      rfl
  | succ k ih =>
    intro slots xs a h fs below short held owns on opened
    have inside : k < n := by omega
    rw [finRange_take_reverse inside, releaseSlots]
    by_cases pos : 0 < a
    swap
    · obtain rfl : a = 0 := by omega
      refine ⟨none, slots, h, fs, by simp, by simpa using held, by simpa using Shed.refl on, by simp⟩
    rw [if_pos (by omega)]
    by_cases taken : slots ⟨k, inside⟩ ≠ blockSectorNone
    swap
    · rw [if_neg taken]
      have after : xs.length ≤ k := (held.eq_mark_iff ⟨k, inside⟩).mp (not_not.mp taken)
      exact ih a (by omega) after held owns on opened
    rw [if_pos taken]
    have last : xs.length = k + 1 := by
      by_contra other
      exact taken ((held.eq_mark_iff _).mpr (by show xs.length ≤ k; omega))
    obtain ⟨ys, x, rfl⟩ : ∃ ys x, xs = ys ++ [x] := by
      rcases eq_nil_or_concat xs with rfl | ⟨ys, x, rfl⟩
      · simp at last
      · exact ⟨ys, x, by simp⟩
    have here : k = ys.length := by simpa using last.symm
    subst here
    rw [held.slot_last inside]
    obtain ⟨fs1, run1, shed1⟩ := on.releaseSector_shed opened (owns.held x (by simp))
    have held1 := held.pop inside
    have nodup := nodup_append.mp owns.nodup
    have owns1 : Owns (update h x none) ys := by
      refine ⟨nodup.1, ?_⟩
      intro y hy
      rw [update_of_ne (fun same : y = x => nodup.2.2 y hy x (by simp) same)]
      exact owns.held y (mem_append_left _ hy)
    rw [run1]
    simp only [Option.bind_eq_bind, Option.bind_some]
    by_cases final : a = 1
    · subst final
      refine ⟨some ⟨ys.length, inside⟩, update slots ⟨ys.length, inside⟩ blockSectorNone,
        update h x none, fs1, ?_, ?_, ?_, ?_⟩
      · simp
      · simpa using held1
      · simpa using shed1
      · simp
    rw [if_neg (by omega)]
    obtain ⟨stop, slots', h', fs', run2, held2, shed2, stop2⟩ :=
      ih (a - 1) (by omega) (Nat.le_refl _) held1 owns1 shed1.on (shed1.open opened)
    have cut : (ys ++ [x]).length - a = ys.length - (a - 1) := by
      rw [length_append, length_singleton]
      omega
    refine ⟨stop, slots', h', fs', ?_, ?_, ?_, ?_⟩
    · rw [show (a : Int) - 1 = (a - 1 : Nat) by omega, run2,
        show a - 1 - ys.length = a - (ys ++ [x]).length by
          rw [length_append, length_singleton]; omega]
    · rw [cut, take_append_of_le_length (by omega)]
      exact held2
    · apply (shed1.trans shed2).congr
      · intro y
        rw [cut, drop_append_of_le_length (by omega)]
        simp [or_comm]
      · simp
      · simp
    rw [stop2, cut]
    have : (ys ++ [x]).length = ys.length + 1 := by simp
    split <;> split <;> first | rfl | omega

/-! ## The loop over the doubly indirect block -/

/-- The outcome of the loop over the blocks `l2` of the doubly indirect block `t` when `a` sectors
    are to be given up: the loop gives up everything below the block and ends, or it returns after
    the last sector, without the block if that was the first sector below it. -/
inductive Released (F : List BlockSector) (h : Heap) (fs : FS) (t : BlockSector)
    (data l2 : List BlockSector) (a : Nat) (h' : Heap) (fs' : FS) : Option BlockSector → Nat → Prop
  | all (more : data.length - 138 < a) (shed : Shed F h fs h' fs' (data.drop 138 ++ l2) []) :
      Released F h fs t data l2 a h' fs' none (a - (data.length - 138))
  | block (exactly : data.length = 138 + a)
      (shed : Shed F h fs h' fs' (data.drop 138 ++ t :: l2) []) :
      Released F h fs t data l2 a h' fs' (some blockSectorNone) 0
  | part (less : 138 + a < data.length) {c : Nat} (count : c = (data.length - a - 138 + 127) / 128)
      (index : IndexAt h' t (l2.take c))
      (second : Second h' (data.take (data.length - a)) (l2.take c))
      (shed : Shed F h fs h' fs' (data.drop (data.length - a) ++ l2.drop c) (t :: l2.take c)) :
      Released F h fs t data l2 a h' fs' (some t) 0

theorem Owns.of_shed
    (owns : Owns h xs) (shed : Shed F h fs h' fs' gone []) (sublist : ys.Sublist xs)
    (apart : ∀ x ∈ ys, x ∉ gone) : Owns h' ys := by
  refine ⟨owns.nodup.sublist sublist, ?_⟩
  intro x hx
  rw [shed.frame x (apart x hx) not_mem_nil]
  exact owns.held x (sublist.subset hx)

theorem Second.take (second : Second h data (l2 ++ more)) (behind : 138 + 128 * l2.length ≤ m)
    (same : ∀ x ∈ l2, h' x = h x) : Second h' (data.take m) l2 := by
  intro j x atj
  have hj : j < l2.length := (List.getElem?_eq_some_iff.mp atj).1
  have index := second j x (by rwa [List.getElem?_append_left hj])
  rw [window_take, List.take_of_length_le]
  · exact index.congr (same x (List.mem_of_getElem? atj))
  · rw [length_window]
    omega

/-- The last block `s` with the data from sector `b` on is given up before the rest. -/
theorem Released.snoc {stop : Option BlockSector}
    (released : Released F h1 fs1 t (data.take b) l2 (a - (data.length - b)) h' fs' stop a')
    (shed : Shed F h fs h1 fs1 (data.drop b ++ [s]) []) (bdef : b = 138 + 128 * l2.length)
    (more : data.length - b < a) (used : ∀ x ∈ t :: (data ++ (l2 ++ [s])), (h x).isSome) :
    Released F h fs t data (l2 ++ [s]) a h' fs' stop a' := by
  have length : (data.take b).length = min b data.length := length_take
  have inDrop : ∀ m ≤ b, ∀ x, x ∈ data.drop m ↔ x ∈ (data.take b).drop m ∨ x ∈ data.drop b :=
    fun m hm x => mem_drop_iff hm
  cases released with
  | all more' shed' =>
    have count : a - (data.length - b) - ((data.take b).length - 138) = a - (data.length - 138) := by
      omega
    rw [count]
    apply Released.all (by omega)
    apply (shed.trans shed').congr
    · intro x
      simp only [mem_append, inDrop 138 (by omega), or_assoc, or_comm, or_left_comm]
    · simp
    · simp
  | block exactly shed' =>
    apply Released.block (by omega)
    apply (shed.trans shed').congr
    · intro x
      simp only [mem_append, mem_cons, inDrop 138 (by omega)]
      tauto
    · simp
    · simp
  | part less count index second shed' =>
    rename_i c
    have cut : (data.take b).length - (a - (data.length - b)) = data.length - a := by omega
    have few : c ≤ l2.length := by omega
    rw [cut] at count second shed'
    rw [take_take, Nat.min_eq_left (by omega)] at second
    have taken : (l2 ++ [s]).take c = l2.take c := take_append_of_le_length few
    apply Released.part (by omega) count
    · rwa [taken]
    · rwa [taken]
    rw [taken]
    apply (shed.trans shed').congr
    · intro x
      rw [drop_append_of_le_length few]
      simp only [mem_append, inDrop (data.length - a) (by omega)]
      tauto
    · exact fun x hx => .inl hx
    intro x hx
    apply used
    rcases mem_cons.mp hx with rfl | hx
    · simp
    · simp [mem_of_mem_take hx]

/-- The doubly indirect block `t` while its last block `s` is being given up; `dib` is
    the copy of `t` in memory. -/
structure AtBlock (h : Heap) (t s : BlockSector) (data l2 : List BlockSector)
    (dib : IndirectBlock) : Prop where
  inside : l2.length < 128
  slots : Holds blockSectorNone dib (l2 ++ [s])
  second : Second h data (l2 ++ [s])
  covered : data.length ≤ 138 + 128 * (l2.length + 1)
  owns : Owns h (t :: (data ++ (l2 ++ [s])))

namespace AtBlock

variable {h h' : Heap} {fs fs' : FS} {t s : BlockSector} {data l2 : List BlockSector}
  {dib : IndirectBlock} {a b : Nat}

section

variable (block : AtBlock h t s data l2 dib)
include block

theorem nodup_data : data.Nodup := by
  have nodup := block.owns.nodup
  simp only [nodup_cons, nodup_append] at nodup
  exact nodup.2.1

theorem notMem_data (index : x = t ∨ x ∈ l2 ∨ x = s) : x ∉ data := by
  intro inData
  have nodup := block.owns.nodup
  simp only [nodup_cons, nodup_append, mem_append, mem_singleton, not_or] at nodup
  rcases index with rfl | hx | rfl
  · exact nodup.1.1 inData
  · exact nodup.2.2.2 x inData x (.inl hx) rfl
  · exact nodup.2.2.2 x inData x (.inr rfl) rfl

theorem last_notMem : s ∉ l2 := by
  have nodup := block.owns.nodup
  simp only [nodup_cons, nodup_append] at nodup
  exact fun mem => nodup.2.2.1.2.2 s mem s (by simp) rfl

theorem top_notMem : t ∉ l2 ∧ t ≠ s := by
  have nodup := block.owns.nodup
  simp only [nodup_cons, mem_append, mem_singleton, not_or] at nodup
  exact nodup.1.2

theorem keep (shed : Shed F h fs h' fs' (data.drop m) [])
    (index : x = t ∨ x ∈ l2 ∨ x = s) : h' x = h x :=
  shed.frame x (fun mem => block.notMem_data index (mem_of_mem_drop mem)) not_mem_nil

theorem used_top (shed : Shed F h fs h' fs' (data.drop m) []) : (h' t).isSome := by
  rw [block.keep shed (.inl rfl)]
  exact block.owns.held t (by simp)

theorem used_last (shed : Shed F h fs h' fs' (data.drop m) []) : (h' s).isSome := by
  rw [block.keep shed (.inr (.inr rfl))]
  exact block.owns.held s (by simp)

theorem second_take
    (shed : Shed F h fs h2 fs2 (data.drop m) []) (same : ∀ x, x ≠ t → x ≠ s → h' x = h2 x)
    (behind : 138 + 128 * l2.length ≤ n) : Second h' (data.take n) l2 := by
  apply block.second.take behind
  intro x hx
  rw [same x (fun equal => block.top_notMem.1 (equal ▸ hx))
    (fun equal => block.last_notMem (equal ▸ hx)), block.keep shed (.inr (.inl hx))]

/-- Reading the last block and giving up its data sectors, at most `a` of them. -/
theorem release (on : On F h fs)
    (opened : fs.freeMapFile = true) (bdef : b = 138 + 128 * l2.length) (a : Nat) :
    ∃ c fs1 stop slots h' fs', fs.readIndirect s = some (.ofSector c, fs1) ∧
      releaseSlots (finRange 128).reverse (ofSector c) a fs1 =
        some (stop, slots, ((a - (data.length - b) : Nat) : Int), fs') ∧
      Holds blockSectorNone slots ((data.drop b).take (data.length - b - a)) ∧
      Shed F h fs h' fs' (data.drop (b + (data.length - b - a))) [] ∧
      stop.map Fin.val =
        if 0 < a ∧ a ≤ data.length - b then some (data.length - b - a) else none := by
  obtain ⟨c, content, inner⟩ := block.second l2.length s (by simp)
  have covered := block.covered
  have whole : window data b 128 = data.drop b := by
    apply take_of_length_le
    rw [length_drop]
    omega
  rw [← bdef, whole] at inner
  obtain ⟨fs1, run1, on1, same1⟩ := on.readIndirect content
  have owns1 : Owns h (data.drop b) := by
    refine ⟨block.nodup_data.sublist (drop_sublist b data), ?_⟩
    intro x hx
    exact block.owns.held x (by simp [mem_of_mem_drop hx])
  obtain ⟨stop, slots, h', fs', run2, inner2, shed2, stopped⟩ :=
    releaseSlots_spec 128 a (Nat.le_refl _) inner.fits inner owns1 on1
      (same1.freeMapFile.trans opened)
  rw [finRange_take_self, length_drop] at run2
  rw [length_drop] at inner2 shed2 stopped
  have shed := (Shed.of_same on1 same1).trans shed2
  rw [nil_append, nil_append, drop_drop] at shed
  exact ⟨c, fs1, stop, slots, h', fs', run1, run2, inner2, shed, stopped⟩

theorem release_last (opened : fs.freeMapFile = true)
    (bdef : b = 138 + 128 * l2.length) (shed : Shed F h fs h' fs' (data.drop b) []) :
    ∃ fs'', fs'.releaseSector s = some fs'' ∧
      Shed F h fs (update h' s none) fs'' (data.drop b ++ [s]) [] ∧
      Owns (update h' s none) (t :: (data.take b ++ l2)) ∧
      Second (update h' s none) (data.take b) l2 := by
  obtain ⟨fs'', run, shed'⟩ := shed.on.releaseSector_shed (shed.open opened) (block.used_last shed)
  have both := shed.trans shed'
  rw [nil_append] at both
  refine ⟨fs'', run, both, ?_, ?_⟩
  · apply block.owns.of_shed both
    · apply List.Sublist.cons_cons
      exact (take_sublist b data).append (sublist_append_left l2 [s])
    intro x hx mem
    rcases mem_append.mp mem with inDrop | isLast
    · rcases mem_cons.mp hx with rfl | hx
      · exact block.notMem_data (.inl rfl) (mem_of_mem_drop inDrop)
      rcases mem_append.mp hx with inTake | inL2
      · have nodup := block.nodup_data
        rw [← take_append_drop b data, nodup_append] at nodup
        exact nodup.2.2 x inTake x inDrop rfl
      · exact block.notMem_data (.inr (.inl inL2)) (mem_of_mem_drop inDrop)
    obtain rfl := mem_singleton.mp isLast
    rcases mem_cons.mp hx with same | hx
    · exact block.top_notMem.2 same.symm
    rcases mem_append.mp hx with inTake | inL2
    · exact block.notMem_data (.inr (.inr rfl)) (mem_of_mem_take inTake)
    · exact block.last_notMem inL2
  apply block.second_take shed _ (Nat.le_of_eq bdef.symm)
  intro x _ ne
  exact update_of_ne ne _ _

end

theorem return_block (opened : fs.freeMapFile = true) (exactly : data.length = 138 + a)
    (shed : Shed F h fs h' fs' (data.drop 138 ++ [s]) [])
    (owns : Owns h' (t :: (data.take 138 ++ []))) :
    ∃ fs'', fs'.releaseSector t = some fs'' ∧
      Released F h fs t data [s] a (update h' t none) fs'' (some blockSectorNone) 0 := by
  obtain ⟨fs'', run, shed'⟩ := shed.on.releaseSector_shed (shed.open opened)
    (owns.held t mem_cons_self)
  refine ⟨fs'', run, Released.block exactly ?_⟩
  apply (shed.trans shed').congr
  · intro x
    simp only [mem_append, mem_cons, not_mem_nil, or_false]
    rw [or_assoc, or_comm (a := x = t)]
  · simp
  · simp

theorem return_without (block : AtBlock h t s data l2 dib) (nonempty : l2 ≠ [])
    (bdef : b = 138 + 128 * l2.length) (exactly : data.length = b + a)
    (shed : Shed F h fs h' fs' (data.drop b ++ [s]) [])
    (owns : Owns h' (t :: (data.take b ++ l2))) (second : Second h' (data.take b) l2) :
    ∃ fs'', fs'.writeIndirect t (update dib ⟨l2.length, block.inside⟩ blockSectorNone) = some fs'' ∧
      Released F h fs t data (l2 ++ [s]) a (update h' t (some (toSector
          (update dib ⟨l2.length, block.inside⟩ blockSectorNone)))) fs'' (some t) 0 := by
  obtain ⟨fs'', run, shed'⟩ := shed.on.writeIndirect_shed (owns.held t mem_cons_self)
    (update dib ⟨l2.length, block.inside⟩ blockSectorNone)
  have pos := length_pos_iff.mpr nonempty
  have cut : data.length - a = b := by omega
  have taken : (l2 ++ [s]).take l2.length = l2 := by simp
  refine ⟨fs'', run, Released.part (c := l2.length) (by omega) (by omega) ?_ ?_ ?_⟩
  · rw [taken]
    refine ⟨_, update_self _ _ _, ?_⟩
    rw [ofSector_toSector]
    exact block.slots.pop block.inside
  · rw [taken, cut]
    intro j x atj
    have ne : x ≠ t :=
      fun equal => block.top_notMem.1 (equal ▸ mem_of_getElem? atj)
    exact (second j x atj).congr (update_of_ne ne _ _)
  rw [taken, cut]
  apply (shed.trans shed').congr
  · intro x
    simp
  · simp
  intro x hx
  apply block.owns.held
  rcases mem_cons.mp hx with rfl | hx
  · simp
  · simp [hx]

theorem return_inside (block : AtBlock h t s data l2 dib) (bdef : b = 138 + 128 * l2.length)
    (less : b + a < data.length) {ib : IndirectBlock}
    (inner : Holds blockSectorNone ib ((data.drop b).take (data.length - b - a)))
    (shed : Shed F h fs h' fs' (data.drop (data.length - a)) []) :
    ∃ fs1 h'' fs'', fs'.writeIndirect s ib = some fs1 ∧ fs1.writeIndirect t dib = some fs'' ∧
      Released F h fs t data (l2 ++ [s]) a h'' fs'' (some t) 0 := by
  obtain ⟨fs1, run1, shed1⟩ := shed.on.writeIndirect_shed (block.used_last shed) ib
  have usedTop : (update h' s (some (toSector ib)) t).isSome := by
    rw [update_of_ne block.top_notMem.2]
    exact block.used_top shed
  obtain ⟨fs'', run2, shed2⟩ := shed1.on.writeIndirect_shed usedTop dib
  have covered := block.covered
  have all : (l2 ++ [s]).length = l2.length + 1 := by simp
  have taken : (l2 ++ [s]).take (l2.length + 1) = l2 ++ [s] := take_of_length_le (by omega)
  refine ⟨fs1, update (update h' s (some (toSector ib))) t (some (toSector dib)), fs'', run1, run2,
    Released.part (c := l2.length + 1) (by omega) (by omega) ?_ ?_ ?_⟩
  · rw [taken]
    refine ⟨_, update_self _ _ _, ?_⟩
    rw [ofSector_toSector]
    exact block.slots
  · rw [taken]
    have old : Second (update (update h' s (some (toSector ib)))
        t (some (toSector dib))) (data.take (data.length - a)) l2 := by
      apply block.second_take shed _ (by omega)
      intro x notTop notLast
      rw [update_of_ne notTop, update_of_ne notLast]
    intro j x atj
    by_cases last : j = l2.length
    · subst last
      obtain rfl : s = x := by simpa using atj
      refine ⟨toSector ib, ?_, ?_⟩
      · rw [update_of_ne block.top_notMem.2.symm, update_self]
      rw [ofSector_toSector, window_take, ← bdef,
        show data.length - a - b = data.length - b - a by omega]
      have whole : window data b 128 = data.drop b := by
        apply take_of_length_le
        rw [List.length_drop]
        omega
      rwa [whole]
    · have hj := (List.getElem?_eq_some_iff.mp atj).1
      exact old j x (by rwa [List.getElem?_append_left (by omega)] at atj)
  rw [taken]
  apply ((shed.trans shed1).trans shed2).congr
  · intro x
    have dropped : (l2 ++ [s]).drop (l2.length + 1) = [] := drop_of_length_le (by omega)
    rw [dropped]
    simp
  · intro x hx
    rcases mem_append.mp hx with hx | hx
    · simp_all
    · simp_all
  intro x hx
  apply block.owns.held
  rcases mem_cons.mp hx with rfl | hx
  · exact mem_cons_self
  · exact mem_cons_of_mem _ (mem_append_right _ hx)

end AtBlock

/-- The loop over the blocks of the doubly indirect block, with at least one sector to give up. -/
theorem releaseDoubly_spec (k : Nat) :
    ∀ {dib : IndirectBlock} {l2 data : List BlockSector} {a : Nat} {h : Heap} {fs : FS},
      k ≤ 128 → l2.length ≤ k → 0 < a → Holds blockSectorNone dib l2 →
      Second h data l2 → data.length ≤ 138 + 128 * l2.length → Owns h (t :: (data ++ l2)) →
      On F h fs → fs.freeMapFile = true →
      ∃ stop a' h' fs', releaseDoubly t ((finRange 128).take k).reverse dib a fs =
          some (stop, ((a' : Nat) : Int), fs') ∧
        Released F h fs t data l2 a h' fs' stop a' := by
  induction k with
  | zero =>
    intro dib l2 data a h fs _ short pos _ _ covered _ on _
    obtain rfl : l2 = [] := eq_nil_of_length_eq_zero (by omega)
    have low : data.length ≤ 138 := covered
    refine ⟨none, a - (data.length - 138), h, fs, ?_, Released.all (by omega) ?_⟩
    · simp [releaseDoubly, Nat.sub_eq_zero_of_le low]
    · rw [drop_of_length_le low]
      exact Shed.refl on
  | succ k ih =>
    intro dib l2 data a h fs below short pos slots second covered owns on opened
    have inside : k < 128 := by omega
    rw [finRange_take_reverse inside, releaseDoubly, if_pos (by omega)]
    by_cases taken : dib ⟨k, inside⟩ = blockSectorNone
    · rw [if_pos taken]
      have after : l2.length ≤ k := (slots.eq_mark_iff ⟨k, inside⟩).mp taken
      exact ih (by omega) after pos slots second covered owns on opened
    rw [if_neg taken]
    have last : l2.length = k + 1 := by
      by_contra other
      exact taken ((slots.eq_mark_iff _).mpr (by show l2.length ≤ k; omega))
    obtain ⟨l2, s, rfl⟩ : ∃ ys x, l2 = ys ++ [x] := by
      rcases eq_nil_or_concat l2 with rfl | ⟨ys, x, rfl⟩
      · simp at last
      · exact ⟨ys, x, by simp⟩
    have here : k = l2.length := by simpa using last.symm
    subst here
    have covered' : data.length ≤ 138 + 128 * (l2.length + 1) := by
      rwa [length_append, length_singleton] at covered
    have block : AtBlock h t s data l2 dib := ⟨inside, slots, second, covered', owns⟩
    obtain ⟨b, bdef⟩ : ∃ b, b = 138 + 128 * l2.length := ⟨_, rfl⟩
    obtain ⟨c, fs1, stop, ib, h2, fs2, run1, run2, inner, shed2, stopped⟩ :=
      block.release on opened bdef a
    rw [slots.slot_last inside, run1]
    simp only [Option.bind_eq_bind, Option.bind_some]
    rw [run2]
    simp only [Option.bind_some]
    by_cases returns : a ≤ data.length - b
    · rw [if_pos ⟨pos, returns⟩] at stopped
      obtain ⟨j, rfl, at_j⟩ := Option.map_eq_some_iff.mp stopped
      rw [show b + (data.length - b - a) = data.length - a by omega] at shed2
      rw [Nat.sub_eq_zero_of_le returns]
      dsimp only
      by_cases first : a = data.length - b
      · rw [if_pos (Fin.ext (by rw [at_j]; exact Nat.sub_eq_zero_of_le (by omega)))]
        rw [show data.length - a = b by omega] at shed2
        obtain ⟨fs3, run3, shed3, owns3, second3⟩ := block.release_last opened bdef shed2
        rw [run3]
        simp only [Option.bind_some]
        by_cases only : l2 = []
        · subst only
          obtain rfl : b = 138 := bdef
          obtain ⟨fs4, run4, released⟩ :=
            AtBlock.return_block opened (show data.length = 138 + a by omega) shed3 owns3
          have zeroth : (⟨([] : List BlockSector).length, inside⟩ : Fin 128) = 0 := rfl
          rw [if_pos zeroth, run4]
          exact ⟨_, 0, _, fs4, rfl, released⟩
        obtain ⟨fs4, run4, released⟩ := block.return_without only bdef
          (show data.length = b + a by omega) shed3 owns3 second3
        have later : (⟨l2.length, inside⟩ : Fin 128) ≠ 0 := by
          intro equal
          exact only (eq_nil_of_length_eq_zero (congrArg Fin.val equal))
        rw [if_neg later, run4]
        exact ⟨_, 0, _, fs4, rfl, released⟩
      have later : j ≠ 0 := by
        intro equal
        subst equal
        have : 0 = data.length - b - a := at_j
        omega
      rw [if_neg later]
      obtain ⟨fs3, h4, fs4, run3, run4, released⟩ :=
        block.return_inside bdef (by omega) inner shed2
      rw [run3]
      simp only [Option.bind_some]
      rw [run4]
      exact ⟨_, 0, h4, fs4, rfl, released⟩
    rw [if_neg (fun both => returns both.2)] at stopped
    rw [Option.map_eq_none_iff.mp stopped]
    rw [show b + (data.length - b - a) = b by omega] at shed2
    obtain ⟨fs3, run3, shed3, owns3, second3⟩ := block.release_last opened bdef shed2
    dsimp only
    rw [run3]
    simp only [Option.bind_some]
    have length : (data.take b).length = min b data.length := length_take
    obtain ⟨stop, a', h', fs', run4, released⟩ := ih (by omega) (Nat.le_refl _)
      (show 0 < a - (data.length - b) by omega) (slots.pop inside) second3 (by omega) owns3 shed3.on
        (shed3.open opened)
    exact ⟨stop, a', h', fs', run4, released.snoc shed3 bdef (by omega) owns.held⟩

end Pintos
