import Pintos.Filesys.Inode
import Pintos.Filesys.Proofs.FreeMap

/-!
# Growing an inode

What `inode_grow_unlocked` does before its label `fail`. Each of the three levels
of pointers appends data sectors to the layout, filled with zeros, and the index
blocks that they need. The heap changes at these new sectors and at the index
blocks of the inode, and nowhere else.
-/

namespace Pintos

open List Option

open Function (update update_idem update_of_ne update_self)

variable {more ys zs olds xs : List BlockSector} {h : Heap} {fs : FS} {s : BlockSector} {k n : Nat}
  {F : List BlockSector}

/-! ## Adding sectors to the heap -/

/-- From `h` to `h'` the sectors `ys` were added with zeros and the index blocks `zs` with some
    content; of the other sectors only those in `olds` may have a new content. -/
structure Added (F : List BlockSector) (h : Heap) (fs : FS) (h' : Heap) (fs' : FS)
    (ys zs olds : List BlockSector) : Prop where
  on : On F h' fs'
  same : Later fs fs'
  quiet : fs'.allocFailed = true → fs.allocFailed = true ∨ Exhausted F h' fs'
  old : ∀ x ∈ olds, (h x).isSome
  kept : ∀ x ∈ olds, (h' x).isSome
  nodup : (ys ++ zs).Nodup
  fresh : ∀ x ∈ ys ++ zs, h x = none
  zero : ∀ y ∈ ys, h' y = some zeroSector
  held : ∀ z ∈ zs, (h' z).isSome
  frame : ∀ x, x ∉ ys ++ zs → x ∉ olds → h' x = h x

namespace Added

variable {h h' h'' : Heap} {fs fs' fs'' : FS} {ys zs ys' zs' olds : List BlockSector}
  {x : BlockSector}

theorem of_same (on : On F h fs') (same : Same fs fs') : Added F h fs h fs' [] [] [] := by
  refine ⟨on, same.toLater, fun failed => .inl (same.quiet ▸ failed), ?_, ?_, ?_, ?_, ?_, ?_, ?_⟩ <;>
    simp

theorem refl (on : On F h fs) : Added F h fs h fs [] [] [] := of_same on (Same.refl fs)

/-- One free sector is added, as a data sector or as an index block. -/
theorem one {c : SectorData} (same : Same fs fs') (free : h x = none)
    (on : On F (update h x (some c)) fs') (sort : ys ++ zs = [x])
    (zero : x ∈ ys → c = zeroSector) : Added F h fs (update h x (some c)) fs' ys zs [] where
  on := on
  same := same.toLater
  quiet failed := .inl (same.quiet ▸ failed)
  old := by simp
  kept := by simp
  nodup := sort ▸ nodup_singleton x
  fresh := by simpa [sort] using free
  zero y hy := by
    obtain rfl : y = x := by simpa [sort] using mem_append_left zs hy
    rw [update_self, zero hy]
  held z hz := by
    obtain rfl : z = x := by simpa [sort] using mem_append_right ys hz
    rw [update_self]
    rfl
  frame y notNew _ := update_of_ne (by simpa [sort] using notNew) _ _

theorem of_refused (refused : Refused F h fs fs') : Added F h fs h fs' [] [] [] := by
  refine ⟨refused.on, refused.later, fun _ => .inr refused.exhausted, ?_, ?_, ?_, ?_, ?_, ?_, ?_⟩ <;>
    simp

section

variable (added : Added F h fs h' fs' ys zs olds)
include added

theorem notMem_of_held (used : (h x).isSome) : x ∉ ys ++ zs := by
  intro mem
  rw [added.fresh x mem] at used
  cases used

theorem keep (used : (h x).isSome) (notOld : x ∉ olds) : h' x = h x :=
  added.frame x (added.notMem_of_held used) notOld

theorem isSome (used : (h x).isSome) : (h' x).isSome := by
  by_cases isOld : x ∈ olds
  · exact added.kept x isOld
  · rwa [added.keep used isOld]

theorem added_isSome (mem : x ∈ ys ++ zs) : (h' x).isSome := by
  rcases mem_append.mp mem with hy | hz
  · rw [added.zero x hy]
    rfl
  · exact added.held x hz

theorem exhausted (exhausted : Exhausted F h fs) : Exhausted F h' fs' := by
  intro t range
  rcases exhausted t (added.same.bitCnt ▸ range) with inFile | used
  · exact .inl inFile
  · exact .inr (added.isSome used)

theorem mono (subset : olds ⊆ more) (held : ∀ x ∈ more, (h x).isSome) :
    Added F h fs h' fs' ys zs more where
  on := added.on
  same := added.same
  quiet := added.quiet
  old := held
  kept x hx := added.isSome (held x hx)
  nodup := added.nodup
  fresh := added.fresh
  zero := added.zero
  held := added.held
  frame x notNew notOld := added.frame x notNew fun isOld => notOld (subset isOld)

end

/-- Two steps; the second may rewrite what the first added as an index block. -/
theorem trans (first : Added F h fs h' fs' ys zs olds)
    (second : Added F h' fs' h'' fs'' ys' zs' (olds ++ zs)) :
    Added F h fs h'' fs'' (ys ++ ys') (zs ++ zs') olds := by
  have unused : ∀ x ∈ ys' ++ zs', h x = none := by
    intro x hx
    by_contra used
    have used : (h x).isSome := isSome_iff_ne_none.mpr used
    have := first.isSome used
    rw [second.fresh x hx] at this
    cases this
  have apart : ∀ x ∈ ys ++ zs, x ∉ ys' ++ zs' := fun x hx =>
    second.notMem_of_held (first.added_isSome hx)
  have notOld : ∀ x ∈ ys, x ∉ olds ++ zs := by
    intro x hx mem
    rcases mem_append.mp mem with isOld | isIndex
    · have := first.old x isOld
      rw [first.fresh x (mem_append_left _ hx)] at this
      cases this
    · exact (nodup_append.mp first.nodup).2.2 x hx x isIndex rfl
  refine ⟨second.on, first.same.trans second.same, ?_, first.old, ?_, ?_, ?_, ?_, ?_, ?_⟩
  · intro failed
    rcases second.quiet failed with earlier | full
    · exact (first.quiet earlier).imp_right second.exhausted
    · exact .inr full
  · exact fun x hx => second.kept x (mem_append_left _ hx)
  · have reorder : (ys ++ ys' ++ (zs ++ zs')).Perm (ys ++ zs ++ (ys' ++ zs')) := by
      simp only [append_assoc]
      exact (perm_append_comm_assoc ys' zs zs').append_left ys
    rw [reorder.nodup_iff, nodup_append]
    exact ⟨first.nodup, second.nodup, fun x hx y hy equal => apart x hx (equal ▸ hy)⟩
  · intro x hx
    simp only [mem_append] at hx
    rcases hx with (hx | hx) | (hx | hx)
    · exact first.fresh x (mem_append_left _ hx)
    · exact unused x (mem_append_left _ hx)
    · exact first.fresh x (mem_append_right _ hx)
    · exact unused x (mem_append_right _ hx)
  · intro y hy
    rcases mem_append.mp hy with hy | hy
    · rw [second.frame y (apart y (mem_append_left _ hy)) (notOld y hy)]
      exact first.zero y hy
    · exact second.zero y hy
  · intro z hz
    rcases mem_append.mp hz with hz | hz
    · exact second.kept z (mem_append_right _ hz)
    · exact second.held z hz
  intro x notNew notOlds
  simp only [mem_append, not_or] at notNew
  rw [second.frame x, first.frame x _ notOlds]
  · simp only [mem_append, not_or]
    exact ⟨notNew.1.1, notNew.2.1⟩
  · simp only [mem_append, not_or]
    exact ⟨notNew.1.2, notNew.2.2⟩
  · simp only [mem_append, not_or]
    exact ⟨notOlds, notNew.2.1⟩

end Added

theorem On.writeIndirect_added (on : On F h fs) (held : (h s).isSome) (ib : IndirectBlock) :
    ∃ fs', fs.writeIndirect s ib = some fs' ∧
      Added F h fs (update h s (some ib.toSector)) fs' [] [] [s] := by
  obtain ⟨c, content⟩ := isSome_iff_exists.mp held
  obtain ⟨fs', run, on', same⟩ := on.writeIndirect content ib
  refine ⟨fs', run, on', same.toLater, fun failed => .inl (same.quiet ▸ failed), ?_, ?_,
    nodup_nil, ?_, ?_, ?_, ?_⟩
  · intro x hx
    rwa [mem_singleton.mp hx]
  · intro x hx
    rw [mem_singleton.mp hx, update_self]
    rfl
  · simp
  · simp
  · simp
  · intro x _ notOld
    exact update_of_ne (fun equal => notOld (mem_singleton.mpr equal)) _ _

/-- `inode_indirect_allocate` adds an index block without entries. -/
theorem On.inodeIndirectAllocate (on : On F h fs) :
    ∃ r fs', fs.inodeIndirectAllocate = some (r, fs') ∧
      match r with
      | none => Refused F h fs fs'
      | some t => ∃ h', Added F h fs h' fs' [] [t] [] ∧ IndexAt h' t [] := by
  obtain ⟨r, fs', run, effect⟩ := on.allocate
  cases r with
  | none => exact ⟨none, fs', by simp [FS.inodeIndirectAllocate, run], effect⟩
  | some t =>
    obtain ⟨same, free, c, on'⟩ := effect
    obtain ⟨fs'', run', on'', same'⟩ := on'.writeIndirect (update_self ..) fun _ => blockSectorNone
    rw [update_idem] at on''
    refine ⟨some t, fs'', by simp [FS.inodeIndirectAllocate, run, run'], _,
      .one (same.trans same') free on'' rfl nofun, _, update_self .., ?_⟩
    rw [IndirectBlock.ofSector_toSector]
    exact Holds.empty

/-! ## The loop over the slots of one block -/

/-- Where an allocating loop or level stops: it has added `count` sectors to the
    `allocated` ones, unless the request was met or the block is full; a failed
    allocation means that the disk is full. -/
structure Stops (F : List BlockSector) (h' : Heap) (fs' : FS) (sectors allocated : Int) (count : Nat)
    (full : Prop) (ok : Bool) : Prop where
  bound : allocated + count ≤ max sectors allocated
  success : ok = true → sectors ≤ allocated + count ∨ full
  failure : ok = false → allocated + count < sectors ∧ fs'.allocFailed = true ∧ Exhausted F h' fs'

namespace Stops

variable {h h' : Heap} {fs fs' : FS} {sectors allocated : Int} {count : Nat} {full : Prop} {ok : Bool}

theorem of_added
    (stops : Stops F h fs sectors allocated count full ok) (added : Added F h fs h' fs' ys zs olds) :
    Stops F h' fs' sectors allocated count full ok := by
  refine ⟨stops.bound, stops.success, ?_⟩
  intro failure
  obtain ⟨less, failed, exhausted⟩ := stops.failure failure
  exact ⟨less, added.same.allocFailed failed, added.exhausted exhausted⟩

theorem done (done : sectors ≤ allocated ∨ full) : Stops F h fs sectors allocated 0 full true :=
  ⟨by simp, fun _ => by simpa using done, nofun⟩

theorem failed (more : allocated < sectors) (failed : fs.allocFailed = true)
    (exhausted : Exhausted F h fs) : Stops F h fs sectors allocated 0 full false :=
  ⟨by simp, nofun, fun _ => ⟨by simpa using more, failed, exhausted⟩⟩

theorem imp {full' : Prop} (stops : Stops F h fs sectors allocated count full ok)
    (imp : full → full') : Stops F h fs sectors allocated count full' ok :=
  ⟨stops.bound, fun success => (stops.success success).imp_right imp, stops.failure⟩

/-- The sectors were added after `k` others. -/
theorem after (stops : Stops F h fs sectors (allocated + k) count full ok)
    (old : allocated + k ≤ max sectors allocated) :
    Stops F h fs sectors allocated (k + count) full ok := by
  have bound := stops.bound
  have success := stops.success
  have failure := stops.failure
  have count : allocated + (k + count : Nat) = allocated + k + count := by omega
  constructor <;> rw [count]
  · omega
  · exact success
  · exact failure

theorem positive (stops : Stops F h fs sectors allocated count full ok) (more : allocated < sectors)
    (room : full → 0 < count) (success : ok = true) : 0 < count := by
  rcases stops.success success with enough | filled
  · omega
  · exact room filled

end Stops

theorem fillSlots_spec (sectors : Int) (r : Nat) :
    ∀ (i : Nat) {slots : Fin n → BlockSector} {xs : List BlockSector} (allocated : Int) {h : Heap}
      {fs : FS}, i + r = n → i ≤ xs.length → Holds blockSectorNone slots xs → On F h fs →
      ∃ ok slots' ys h' fs', fillSlots sectors ((List.finRange n).drop i) slots allocated fs =
          some (ok, slots', allocated + ys.length, fs') ∧
        Holds blockSectorNone slots' (xs ++ ys) ∧ Added F h fs h' fs' ys [] [] ∧
        Stops F h' fs' sectors allocated ys.length ((xs ++ ys).length = n) ok := by
  induction r with
  | zero =>
    intro i slots xs allocated h fs total behind held on
    have fits := held.fits
    refine ⟨true, slots, [], h, fs, ?_, ?_, Added.refl on, Stops.done (.inr ?_)⟩
    · rw [drop_eq_nil_of_le (by simp; omega)]
      simp [fillSlots]
    · rwa [append_nil]
    · rw [append_nil]
      omega
  | succ r ih =>
    intro i slots xs allocated h fs total behind held on
    have inside : i < n := by omega
    rw [finRange_drop inside, fillSlots]
    by_cases more : allocated < sectors
    swap
    · refine ⟨true, slots, [], h, fs, ?_, ?_, Added.refl on, Stops.done (.inl (Int.not_lt.mp more))⟩
      · rw [if_neg more]
        simp
      · rwa [append_nil]
    rw [if_pos more]
    by_cases taken : slots ⟨i, inside⟩ ≠ blockSectorNone
    · rw [if_pos taken]
      apply ih _ _ (by omega) _ held on
      by_contra old
      exact taken ((held.eq_mark_iff _).mpr (by show xs.length ≤ i; omega))
    -- the loop has reach the first empty slot
    rw [if_neg taken]
    have empty := (held.eq_mark_iff ⟨i, inside⟩).mp (not_not.mp taken)
    have here : i = xs.length := Nat.le_antisymm behind empty
    subst here
    obtain ⟨r', fs1, run, effect⟩ := on.allocate
    cases r' with
    | none =>
      refine ⟨false, slots, [], h, fs1, ?_, ?_, Added.of_refused effect,
        Stops.failed more effect.failed effect.exhausted⟩
      · simp [run]
      · rwa [append_nil]
    | some t =>
      obtain ⟨same, free, c, on1⟩ := effect
      obtain ⟨fs2, run2, on2, same2⟩ := on1.cacheWrite (update_self ..) (fun _ => 0)
        blockSectorSize 0
      rw [update_idem, SectorData.copyIn_all] at on2
      have real : t ≠ blockSectorNone := on2.ne_none (update_self ..)
      have step : Added F h fs (update h t (some zeroSector)) fs2 [t] [] [] :=
        .one (same.trans same2) free on2 rfl fun _ => rfl
      obtain ⟨ok, slots', ys, h', fs', run', held', added, stops⟩ :=
        ih (xs.length + 1) (allocated + 1) (by omega)
          (by rw [length_append, length_singleton]) (held.push inside real) on2
      rw [append_assoc] at held' stops
      refine ⟨ok, slots', t :: ys, h', fs', ?_, held', step.trans added, ?_⟩
      · have count : allocated + 1 + ys.length = allocated + (ys.length + 1 : Nat) := by omega
        simp only [run, run2, bind_eq_bind, bind_some, run', length_cons, count]
      · rw [length_cons, Nat.add_comm]
        exact stops.after (k := 1) (by omega)

/-- An index block with the entries `xs` gets the data sectors `ys` in addition. -/
theorem fillIndirect_spec (sectors allocated : Int) (on : On F h fs) (index : IndexAt h s xs) :
    ∃ ok ys h' fs', fillIndirect sectors s allocated fs = some (ok, allocated + ys.length, fs') ∧
      IndexAt h' s (xs ++ ys) ∧ (xs ++ ys).length ≤ 128 ∧ Added F h fs h' fs' ys [] [s] ∧
      Stops F h' fs' sectors allocated ys.length ((xs ++ ys).length = 128) ok := by
  obtain ⟨c, held, slots⟩ := index
  obtain ⟨fs1, run1, on1, same1⟩ := on.readIndirect held
  obtain ⟨ok, ib, ys, h2, fs2, run2, slots', added, stops⟩ :=
    fillSlots_spec sectors 128 0 allocated (Nat.zero_add 128) (Nat.zero_le _) slots on1
  rw [drop_zero] at run2
  have used : (h2 s).isSome := added.isSome (by rw [held]; rfl)
  obtain ⟨fs3, run3, written⟩ := added.on.writeIndirect_added used ib
  have first : Added F h fs h2 fs2 ys [] [s] := by
    have step := (Added.of_same on1 same1).trans added
    exact step.mono (nil_subset _) fun x hx => by
      rw [mem_singleton.mp hx, held]
      rfl
  have whole := first.trans written
  rw [append_nil] at whole
  refine ⟨ok, ys, _, fs3, ?_, ⟨_, update_self .., ?_⟩, slots'.fits, whole, ?_⟩
  · simp only [fillIndirect, run1, run2, run3, bind_eq_bind, bind_some]
  · rwa [IndirectBlock.ofSector_toSector]
  · exact stops.of_added written

end Pintos
