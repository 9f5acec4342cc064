import Pintos.Userprog.Load
import Pintos.Userprog.Proofs.MmapRuns

/-!
# The owners of pages and mappings

A page of type `PAGE_FILE` is one of a mapping of its process: only `mmap_` makes such pages, and
they go with their mapping. Pages and mappings keep their owners, and the steps of running
processes give new ones to running processes only.
-/

namespace Pintos

open Option

variable {upage addr esp mapping : Nat} {victim : Option FrameId} {success user notPresent : Bool}
  {gone : PageId → Prop} {mmapTable : List MmapData} {step : MmapStep}

namespace Vm

variable {vm vm' : Vm} {t : ThreadId} {p : PageId} {pg' : Page}

/-- A page after `page_full_load_stack` was there, or it is the new one. -/
theorem pageFullLoadStack_back (good : vm.Good)
    (run : vm.pageFullLoadStack t upage victim = .ok (success, vm'))
    (isPg : vm'.page p = some pg') :
    (∃ pg, vm.page p = some pg ∧ pg.Kin pg') ∨ pg'.owner = t ∧ pg'.type ≠ .file := by
  have added := good.lazyStack t upage
  obtain ⟨-, evicted, evicts, loaded⟩ := added.pageFullLoadStack run
  have kin := (evicts.kinPages added).trans
    (loaded.kinPages (added.evicts evicts) (stackPage_of_evicts added evicts) rfl)
  obtain ⟨pg, wasPage, kin⟩ := kin.back isPg
  rcases addPage_eq_some wasPage with ⟨-, rfl⟩ | wasPage
  · exact .inr ⟨kin.owner, fun isFile => nomatch kin.file.mp isFile⟩
  · exact .inl ⟨pg, wasPage, kin⟩

/-- `page_full_load` makes and frees no page. -/
theorem pageFullLoad_back (good : vm.Good)
    (run : vm.pageFullLoad t addr victim = .ok (success, vm')) (isPg : vm'.page p = some pg') :
    ∃ pg, vm.page p = some pg ∧ pg.Kin pg' := by
  rcases good.pageFullLoad run with ⟨-, rfl⟩ | ⟨-, q, pg, evicted, -, isQ, unseated, evicts, loaded⟩
  · exact ⟨pg', isPg, .refl pg'⟩
  have isQ := evicts.page_of_unseated good isQ unseated
  exact ((evicts.kinPages good).trans (loaded.kinPages (good.evicts evicts) isQ unseated)).back isPg

theorem pageFault_back (good : vm.Good)
    (run : vm.pageFault t addr esp user notPresent victim = .ok (success, vm'))
    (isPg : vm'.page p = some pg') :
    (∃ pg, vm.page p = some pg ∧ pg.Kin pg') ∨ pg'.owner = t ∧ pg'.type ≠ .file := by
  unfold pageFault at run
  split at run
  · exact pageFullLoadStack_back good run isPg
  left
  split at run
  · split at run
    · exact pageFullLoad_back good run isPg
    · cases run
      exact ⟨pg', isPg, .refl pg'⟩
  split at run
  · exact pageFullLoad_back good run isPg
  · cases run
    exact ⟨pg', isPg, .refl pg'⟩

end Vm

namespace Mmaps

variable {s s' : Mmaps} {vm' : Vm} {t : ThreadId} {new : ThreadId → Prop}

/-- The pages of type `PAGE_FILE` belong to mappings. -/
def Backed (s : Mmaps) : Prop :=
  ∀ {p pg}, s.vm.page p = some pg → pg.type = .file →
    ∃ d ∈ s.mmapTable, d.owner = pg.owner ∧ d.HasPage p

/-- Pages and mappings have the owners they had, or they are new and belong to one of the
    threads in `new`. -/
structure Grows (s : Mmaps) (new : ThreadId → Prop) (s' : Mmaps) : Prop where
  stage : s'.stage = s.stage
  page : ∀ {p pg'}, s'.vm.page p = some pg' →
    (∃ pg, s.vm.page p = some pg ∧ pg.owner = pg'.owner) ∨ new pg'.owner
  table : ∀ {d}, d ∈ s'.mmapTable → d ∈ s.mmapTable ∨ new d.owner
  backed : s.Backed → s'.Backed

theorem Backed.drops (backed : s.Backed) (drops : s.vm.Drops vm' gone)
    (stays : ∀ {d p}, d ∈ s.mmapTable → d.HasPage p → ¬ gone p → d ∈ mmapTable) :
    Backed { s with vm := vm', mmapTable } := by
  intro p pg' isPg isFile
  obtain ⟨survives, pg, wasPg, kin⟩ := drops.back isPg
  obtain ⟨d, mem, isOwner, hasPage⟩ := backed wasPg (kin.file.mp isFile)
  exact ⟨d, stays mem hasPage survives, isOwner.trans kin.owner.symm, hasPage⟩

theorem grows_of_drops (drops : s.vm.Drops vm' gone) (subset : mmapTable ⊆ s.mmapTable)
    (stays : ∀ {d p}, d ∈ s.mmapTable → d.HasPage p → ¬ gone p → d ∈ mmapTable) :
    s.Grows new { s with vm := vm', mmapTable } where
  stage := rfl
  page isPage := by
    obtain ⟨-, pg, wasPg, kin⟩ := drops.back isPage
    exact .inl ⟨pg, wasPg, kin.owner.symm⟩
  table member := .inl (subset member)
  backed backed := backed.drops drops stays

theorem grows_of_stays (drops : s.vm.Drops vm' fun _ => False) : s.Grows new { s with vm := vm' } :=
  grows_of_drops drops (List.Subset.refl _) fun mem _ _ => mem

theorem grows_of_page (same : vm'.page = s.vm.page) : s.Grows new { s with vm := vm' } where
  stage := rfl
  page isPage := .inl ⟨_, same ▸ isPage, rfl⟩
  table := .inl
  backed backed _ _ isPage isFile := backed (same ▸ isPage) isFile

/-! ## Steps of running processes -/

theorem grows_of_back (isNew : new t) (back : ∀ {p pg'}, vm'.page p = some pg' →
      (∃ pg, s.vm.page p = some pg ∧ pg.Kin pg') ∨ pg'.owner = t ∧ pg'.type ≠ .file) :
    s.Grows new { s with vm := vm' } where
  stage := rfl
  page isPage := by
    rcases back isPage with ⟨pg, wasPg, kin⟩ | ⟨isOwner, -⟩
    · exact .inl ⟨pg, wasPg, kin.owner.symm⟩
    · exact .inr (isOwner ▸ isNew)
  table := .inl
  backed backed p pg' isPage isFile := by
    rcases back isPage with ⟨pg, wasPg, kin⟩ | ⟨-, notFile⟩
    · obtain ⟨d, mem, isOwner, hasPage⟩ := backed wasPg (kin.file.mp isFile)
      exact ⟨d, mem, isOwner.trans kin.owner.symm, hasPage⟩
    · exact absurd isFile notFile

section

variable (sound : s.Sound)
include sound

theorem Sound.mmap_grows (runs : s.stage t = .running) {fd : Option FileId}
    (user : addr + 4 ≤ physBasePage * pgSize) :
    s.Grows (fun t => s.stage t = .running) (s.mmap t fd addr).2 := by
  rcases mmap_cases runs user with isMmap | ⟨file, -, accepts, isMmap⟩
  · rw [isMmap]
    exact grows_of_page rfl
  rw [isMmap]
  have adds := register_adds sound accepts
  have isTable : (s.register t file addr).2.mmapTable = s.entered t file addr :: s.mmapTable :=
    register_mmapTable sound
  refine ⟨rfl, ?_, ?_, ?_⟩
  · intro p pg' isPg
    rcases adds.back isPg with wasPg | ⟨k, -, -, pageAt, -⟩
    · exact .inl ⟨pg', wasPg, rfl⟩
    · exact .inr (by rwa [pageAt.owner])
  · intro d member
    rw [isTable] at member
    rcases List.mem_cons.mp member with rfl | member
    · exact .inr runs
    · exact .inl member
  intro backed p pg' isPg isFile
  rw [isTable]
  rcases adds.back isPg with wasPg | ⟨k, small, rfl, pageAt, -⟩
  · obtain ⟨d, member, both⟩ := backed wasPg isFile
    exact ⟨d, List.mem_cons_of_mem _ member, both⟩
  · exact ⟨_, List.mem_cons_self, pageAt.owner.symm, MmapData.hasPage_offset small⟩

theorem Sound.munmap_grows {victims : Nat → Option FrameId}
    (run : s.munmap t mapping victims = .ok s') : s.Grows new s' := by
  have settles := sound.munmap t mapping victims
  rw [run] at settles
  obtain ⟨-, unmaps⟩ := settles
  have isAfter : s' = { s with vm := s'.vm, mmapTable := s'.mmapTable } := by
    cases s'
    simp only [Mmaps.mk.injEq, true_and]
    exact ⟨unmaps.mapidNext, unmaps.stage⟩
  rw [isAfter]
  apply grows_of_drops unmaps.drops
  · exact fun d mem => (unmaps.table.mp mem).1
  · intro d p mem hasPage survives
    exact unmaps.table.mpr ⟨mem, fun isKey => survives ⟨d, mem, isKey, hasPage⟩⟩

theorem Sound.next_grows (ordinary : step.Ordinary)
    (taken : s.next step = some s') : s.Grows (fun t => s.stage t = .running) s' := by
  cases step with
  | loadSegment t args => cases ordinary
  | setupStack t victim => cases ordinary
  | processExit t victims => cases ordinary
  | pageFault t addr esp user notPresent victim =>
    obtain ⟨runs, isAfter⟩ := ite_none_right_eq_some.mp taken
    obtain ⟨vm', step, rfl⟩ := map_eq_some_iff.mp isAfter
    obtain ⟨⟨success, _⟩, run, rfl⟩ := map_eq_some_iff.mp step
    exact grows_of_back runs (Vm.pageFault_back sound.good (Except.toOption_eq_some.mp run))
  | frameEvict victim =>
    obtain ⟨vm', step, rfl⟩ := map_eq_some_iff.mp taken
    exact grows_of_stays (sound.frameEvict_drops step)
  | userWrite t addr b =>
    obtain ⟨vm', step, rfl⟩ := map_eq_some_iff.mp taken
    exact grows_of_stays (sound.userWrite_drops step)
  | rehash order =>
    obtain ⟨vm', step, rfl⟩ := map_eq_some_iff.mp taken
    exact grows_of_stays (sound.rehash_drops step)
  | fileWrite file buffer size ofs =>
    cases taken
    apply grows_of_page
    unfold Vm.fileWrite
    split <;> rfl
  | fileWriteFails file =>
    cases taken
    apply grows_of_page
    unfold Vm.fileWriteFails
    split <;> rfl
  | setDenyWrite file denyWrite =>
    cases taken
    exact grows_of_page rfl
  | mmap t fd addr =>
    obtain ⟨⟨runs, user⟩, rfl⟩ := ite_some_none_eq_some.mp taken
    exact sound.mmap_grows runs user
  | munmap t mapping victims =>
    obtain ⟨-, isAfter⟩ := ite_none_right_eq_some.mp taken
    exact sound.munmap_grows (Except.toOption_eq_some.mp isAfter)

/-- What `process_exit` leaves. -/
theorem Sound.processExit_leaves (backed : s.Backed)
    {victims : Nat → Nat → Option FrameId} (run : s.processExit t victims = .ok s') :
    s'.Sound ∧ s'.Backed ∧ s'.stage = Function.update s.stage t .exited ∧
      (∀ {p pg'}, s'.vm.page p = some pg' → pg'.owner ≠ t ∧
        ∃ pg, s.vm.page p = some pg ∧ pg.owner = pg'.owner) ∧
      ∀ {d}, d ∈ s'.mmapTable → d ∈ s.mmapTable ∧ d.owner ≠ t := by
  have sound' := sound.processExit t victims
  have settles := sound.processExit_exiting t victims
  rw [run] at sound' settles
  obtain ⟨vm, after, isPg, exiting, isAfter⟩ := settles
  obtain ⟨sound', exits⟩ := sound'
  -- a page that is left was not in `page_list`, and no mapping of the process had it
  have back : ∀ {p pg'}, s'.vm.page p = some pg' → ∃ pg, s.vm.page p = some pg ∧ pg.Kin pg' ∧
      pg.owner ≠ t := by
    intro p pg' isPg'
    obtain ⟨-, notListed, notMapped⟩ := exits.page.mp (isSome_iff_exists.mpr ⟨pg', isPg'⟩)
    rw [isAfter] at isPg'
    obtain ⟨-, pg, wasPg, kin⟩ := exiting.drops.back isPg'
    rw [isPg, if_neg notListed] at wasPg
    refine ⟨pg, wasPg, kin, fun isOwner => ?_⟩
    by_cases isFile : pg.type = .file
    · obtain ⟨d, mem, sameOwner, hasPage⟩ := backed wasPg isFile
      exact notMapped d mem (sameOwner.trans isOwner) hasPage
    · exact notListed (sound.good.registry.listed.mpr ⟨pg, wasPg, isOwner, isFile⟩)
  refine ⟨sound', ?_, ?_, ?_, fun mem => exits.table.mp mem⟩
  · intro p pg' isPg' isFile
    obtain ⟨pg, wasPg, kin, other⟩ := back isPg'
    obtain ⟨d, mem, sameOwner, hasPage⟩ := backed wasPg (kin.file.mp isFile)
    exact ⟨d, exits.table.mpr ⟨mem, fun isOwner => other (sameOwner.symm.trans isOwner)⟩,
      sameOwner.trans kin.owner.symm, hasPage⟩
  · rw [isAfter]
    exact exiting.stage
  intro p pg' isPg'
  obtain ⟨pg, wasPg, kin, other⟩ := back isPg'
  exact ⟨kin.owner ▸ other, pg, wasPg, kin.owner.symm⟩

/-! ## Runs -/

/-- Every operation leaves the pages of type `PAGE_FILE` to mappings. -/
theorem Sound.next_backed (backed : s.Backed) (taken : s.next step = some s') : s'.Backed := by
  by_cases ordinary : step.Ordinary
  · exact (sound.next_grows ordinary taken).backed backed
  cases step with
  | loadSegment t args =>
    obtain ⟨-, isAfter⟩ := ite_none_right_eq_some.mp taken
    obtain ⟨vm', step, rfl⟩ := map_eq_some_iff.mp isAfter
    obtain ⟨-, rfl⟩ := ite_some_none_eq_some.mp step
    have grows : s.Grows (· = t) { s with vm := s.vm.pageLazyLoad t args .unalloc } := by
      refine grows_of_back (t := t) rfl ?_
      intro p pg isPg
      rcases Vm.addPage_eq_some isPg with ⟨-, rfl⟩ | wasPage
      · exact .inr ⟨rfl, nofun⟩
      · exact .inl ⟨pg, wasPage, .refl pg⟩
    exact grows.backed backed
  | setupStack t victim =>
    obtain ⟨-, isAfter⟩ := ite_none_right_eq_some.mp taken
    obtain ⟨_, isMid, rfl⟩ := map_eq_some_iff.mp isAfter
    obtain ⟨vm', step, rfl⟩ := map_eq_some_iff.mp isMid
    obtain ⟨⟨success, loaded⟩, run, rfl⟩ := map_eq_some_iff.mp step
    have grows : s.Grows (· = t) { s with vm := loaded } := by
      refine grows_of_back (t := t) rfl ?_
      exact Vm.pageFullLoadStack_back sound.good (Except.toOption_eq_some.mp run)
    exact grows.backed backed
  | processExit t victims =>
    obtain ⟨-, isAfter⟩ := ite_none_right_eq_some.mp taken
    exact (sound.processExit_leaves backed (Except.toOption_eq_some.mp isAfter)).2.1
  | _ => exact absurd trivial ordinary

end

theorem Initial.backed (init : s.Initial) : s.Backed := by
  intro p pg isPg
  rw [init.vm.page p] at isPg
  cases isPg

end Mmaps

end Pintos
