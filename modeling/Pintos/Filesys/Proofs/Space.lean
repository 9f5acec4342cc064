import Pintos.Filesys.Proofs.FreeMap

/-!
# Free space

How many sectors are free, and what an operation costs. An operation with cost `k`
takes at most `k` free sectors, and an allocation can fail in it only if there
were no more than that.
-/

namespace Pintos

open List

variable {h h' : Heap} {fs fs' : FS} {F : List BlockSector}

/-- A count over a list without duplicates grows only by what is added. -/
theorem countP_le_add_of_subset {α : Type} {l w : List α} (nodup : l.Nodup) {p q : α → Bool}
    (covered : ∀ x ∈ l, p x = true → q x = true ∨ x ∈ w) :
    l.countP p ≤ l.countP q + w.length := by
  rw [countP_eq_length_filter, countP_eq_length_filter, ← length_append]
  apply List.Subperm.length_le
  apply subperm_of_subset (nodup.filter p)
  intro x hx
  obtain ⟨mem, holds⟩ := mem_filter.mp hx
  rcases covered x mem holds with still | added
  · exact mem_append_left _ (mem_filter.mpr ⟨mem, still⟩)
  · exact mem_append_right _ added

/-- A count over a list without duplicates shrinks at least by what is taken away. -/
theorem countP_add_length_le {α : Type} {l w : List α} (nodup : l.Nodup) (distinct : w.Nodup)
    {p q : α → Bool} (fewer : ∀ x ∈ l, q x = true → p x = true)
    (gone : ∀ x ∈ w, x ∈ l ∧ p x = true ∧ q x = false) : l.countP q + w.length ≤ l.countP p := by
  rw [countP_eq_length_filter, countP_eq_length_filter, ← length_append]
  apply List.Subperm.length_le
  apply subperm_of_subset
  · rw [nodup_append]
    refine ⟨nodup.filter q, distinct, ?_⟩
    rintro x left y right rfl
    have holds := (mem_filter.mp left).2
    rw [(gone x right).2.2] at holds
    cases holds
  intro x mem
  rcases mem_append.mp mem with left | right
  · obtain ⟨inside, holds⟩ := mem_filter.mp left
    exact mem_filter.mpr ⟨inside, fewer x inside holds⟩
  · obtain ⟨inside, holds, -⟩ := gone x right
    exact mem_filter.mpr ⟨inside, holds⟩

/-- The number of sectors that are not marked in the free map. -/
def FS.freeCount (fs : FS) : Nat :=
  (List.range fs.freeMap.bitCnt).countP fun i => !fs.freeMap.bits i

/-- The sectors in use are those of the free map's file and those of the heap. -/
theorem On.used_or (on : On F h fs) {s : BlockSector} : fs.Used s ↔ s ∈ F ∨ (h s).isSome := by
  constructor
  · intro used
    by_cases mem : s ∈ F
    · exact .inl mem
    · exact .inr (on.used_iff.mpr ⟨mem, used⟩)
  intro either
  rcases either with mem | held
  · obtain ⟨g, on⟩ := on
    exact on.stored.used_iff.mpr (on.used mem)
  · exact (on.used_iff.mp held).2

theorem On.toNat_ofNat (on : On F h fs) {i : Nat} (range : i < fs.freeMap.bitCnt) :
    (BitVec.ofNat 32 i).toNat = i := by
  obtain ⟨g, on⟩ := on
  have bound := on.stored.bound
  rw [BitVec.toNat_ofNat]
  omega

theorem On.used_ofNat (on : On F h fs) {i : Nat} (range : i < fs.freeMap.bitCnt) :
    fs.Used (BitVec.ofNat 32 i) ↔ fs.freeMap.bits i = true := by
  rw [FS.Used, on.toNat_ofNat range]
  exact and_iff_right range

/-- If only the sectors `w` came into use, at most so many free ones were taken. -/
theorem On.freeCount_le (on : On F h fs) (on' : On F h' fs')
    (bitCnt : fs'.freeMap.bitCnt = fs.freeMap.bitCnt) {w : List BlockSector}
    (taken : ∀ x, (h' x).isSome → (h x).isSome ∨ x ∈ w) :
    fs.freeCount ≤ fs'.freeCount + w.length := by
  unfold FS.freeCount
  rw [bitCnt, ← length_map (f := BitVec.toNat)]
  apply countP_le_add_of_subset nodup_range
  intro i hi free
  have range : i < fs.freeMap.bitCnt := mem_range.mp hi
  by_cases still : fs'.freeMap.bits i = false
  · left
    simp [still]
  right
  have used' := (on'.used_ofNat (bitCnt ▸ range)).mpr (by simpa using still)
  have unused : ¬fs.Used (BitVec.ofNat 32 i) := by
    rw [on.used_ofNat range]
    simpa using free
  apply mem_map.mpr
  refine ⟨BitVec.ofNat 32 i, ?_, on.toNat_ofNat range⟩
  rcases on'.used_or.mp used' with mem | held
  · exact absurd (on.used_or.mpr (.inl mem)) unused
  rcases taken _ held with old | new
  · exact absurd (on.used_or.mpr (.inr old)) unused
  · exact new

/-- The sectors `w` that came into use were free. -/
theorem On.freeCount_add_le (on : On F h fs) (on' : On F h' fs')
    (bitCnt : fs'.freeMap.bitCnt = fs.freeMap.bitCnt) {w : List BlockSector} (distinct : w.Nodup)
    (fresh : ∀ x ∈ w, h x = none) (taken : ∀ x ∈ w, (h' x).isSome)
    (kept : ∀ x, (h x).isSome → (h' x).isSome) : fs'.freeCount + w.length ≤ fs.freeCount := by
  unfold FS.freeCount
  rw [bitCnt, ← length_map (f := BitVec.toNat)]
  apply countP_add_length_le nodup_range
  · exact distinct.map fun _ _ => BitVec.eq_of_toNat_eq
  · intro i hi free
    have range : i < fs.freeMap.bitCnt := mem_range.mp hi
    by_contra used
    have old := (on.used_ofNat range).mpr (by simpa using used)
    have after := on'.used_or.mpr ((on.used_or.mp old).imp_right (kept _))
    rw [on'.used_ofNat (bitCnt ▸ range)] at after
    simp [after] at free
  intro i mem
  obtain ⟨x, isNew, rfl⟩ := mem_map.mp mem
  obtain ⟨outside, used⟩ := on'.used_iff.mp (taken x isNew)
  have unused : ¬fs.Used x := by
    intro old
    rcases on.used_or.mp old with file | held
    · exact outside file
    · rw [fresh x isNew] at held
      cases held
  have range : x.toNat < fs.freeMap.bitCnt := bitCnt ▸ used.1
  refine ⟨mem_range.mpr range, ?_, by simp [used.2]⟩
  simpa [FS.Used, range] using unused

theorem Exhausted.freeCount (exhausted : Exhausted F h fs) (on : On F h fs) : fs.freeCount = 0 := by
  unfold FS.freeCount
  rw [countP_eq_zero]
  intro i hi free
  have range : i < fs.freeMap.bitCnt := mem_range.mp hi
  have used := on.used_or.mpr (exhausted (BitVec.ofNat 32 i) (by rwa [on.toNat_ofNat range]))
  rw [on.used_ofNat range] at used
  simp [used] at free

/-- From `fs` to `fs'` at most `k` free sectors were taken. -/
structure Costs (k : Nat) (fs fs' : FS) : Prop where
  free : fs.freeCount ≤ fs'.freeCount + k
  quiet : fs'.allocFailed = true → fs.allocFailed = true ∨ fs.freeCount ≤ k
  allocFailed : fs.allocFailed = true → fs'.allocFailed = true
  growFailed : fs.growFailed = true → fs'.growFailed = true
  bitCnt : fs'.freeMap.bitCnt = fs.freeMap.bitCnt

namespace Costs

variable {fs fs' fs'' : FS} {j k : Nat}

theorem refl (fs : FS) : Costs 0 fs fs := ⟨Nat.le_refl _, .inl, id, id, rfl⟩

theorem trans (first : Costs j fs fs') (second : Costs k fs' fs'') : Costs (j + k) fs fs'' where
  free := by
    have := first.free
    have := second.free
    omega
  quiet failed := by
    have := first.free
    rcases second.quiet failed with earlier | few
    · exact (first.quiet earlier).imp_right fun few => by omega
    · exact .inr (by omega)
  allocFailed := second.allocFailed ∘ first.allocFailed
  growFailed := second.growFailed ∘ first.growFailed
  bitCnt := second.bitCnt.trans first.bitCnt

theorem mono (costs : Costs j fs fs') (le : j ≤ k) : Costs k fs fs' where
  free := by
    have := costs.free
    omega
  quiet failed := (costs.quiet failed).imp_right fun few => by omega
  allocFailed := costs.allocFailed
  growFailed := costs.growFailed
  bitCnt := costs.bitCnt

end Costs

/-- Moreover no `inode_grow_unlocked` failed. -/
structure Steady (k : Nat) (fs fs' : FS) : Prop extends Costs k fs fs' where
  steady : fs'.growFailed = fs.growFailed

namespace Steady

variable {fs fs' fs'' : FS} {j k : Nat}

theorem refl (fs : FS) : Steady 0 fs fs := ⟨Costs.refl fs, rfl⟩

theorem trans (first : Steady j fs fs') (second : Steady k fs' fs'') : Steady (j + k) fs fs'' :=
  ⟨first.toCosts.trans second.toCosts, second.steady.trans first.steady⟩

theorem mono (steady : Steady j fs fs') (le : j ≤ k) : Steady k fs fs' :=
  ⟨steady.toCosts.mono le, steady.steady⟩

theorem of_same (on : On F h fs) (on' : On F h' fs') (same : Same fs fs')
    (kept : ∀ x, (h' x).isSome → (h x).isSome) : Steady 0 fs fs' where
  free := on.freeCount_le on' same.bitCnt (w := []) fun x held => .inl (kept x held)
  quiet failed := .inl (same.quiet ▸ failed)
  allocFailed := same.allocFailed
  growFailed failed := same.growFailed ▸ failed
  bitCnt := same.bitCnt
  steady := same.growFailed

end Steady

/-- `free_map_allocate` takes one free sector. -/
theorem On.allocate_costs (on : On F h fs) :
    ∃ r fs', fs.freeMapAllocate = some (r, fs') ∧ Steady 1 fs fs' ∧
      match r with
      | none => Refused F h fs fs'
      | some t => Same fs fs' ∧ h t = none ∧ ∃ c, On F (Function.update h t (some c)) fs' := by
  obtain ⟨r, fs', run, effect⟩ := on.allocate
  refine ⟨r, fs', run, ?_, effect⟩
  cases r with
  | none =>
    have refused : Refused F h fs fs' := effect
    have less := on.freeCount_le refused.on refused.later.bitCnt (w := []) fun x held => .inl held
    have zero := refused.exhausted.freeCount refused.on
    rw [length_nil] at less
    exact ⟨⟨by omega, fun _ => .inr (by omega), refused.later.allocFailed,
      fun failed => refused.later.growFailed ▸ failed, refused.later.bitCnt⟩, refused.later.growFailed⟩
  | some t =>
    obtain ⟨same, free, c, on'⟩ := effect
    refine ⟨⟨?_, fun failed => .inl (same.quiet ▸ failed), same.allocFailed,
      fun failed => same.growFailed ▸ failed, same.bitCnt⟩, same.growFailed⟩
    apply on.freeCount_le on' same.bitCnt (w := [t])
    intro x held
    by_cases new : x = t
    · exact .inr (mem_singleton.mpr new)
    · left
      rwa [Function.update_of_ne new] at held

end Pintos
