import Pintos.Userprog.Proofs.MmapOwners

/-!
# The records of a process go with it

Every page belongs to a live thread: `process_exit` frees the pages of `page_list` and those of
the mappings, and a page of type `PAGE_FILE` is one of a mapping. A process whose `load` fails
frees nothing, so this holds as long as it has nothing to free. Frames, swap slots and entries of
`mmap_table` follow the pages.
-/

namespace Pintos

open Function List Option

variable {file : FileId} {place : LoadPlace} {fileOfs : Int} {victim : Option FrameId}

namespace Mmaps

variable {s : Mmaps} {t : ThreadId}

theorem Sound.exited (sound : s.Sound) (noMapping : ∀ d ∈ s.mmapTable, d.owner ≠ t) :
    Sound { s with stage := update s.stage t .exited } := by
  have others : ∀ {t'}, t' ≠ t → update s.stage t .exited t' = s.stage t' :=
    fun other => update_of_ne other ..
  constructor
  case good => exact sound.good
  case within => exact sound.within
  case covered =>
    intro p pg isPg alive
    have other : pg.owner ≠ t := fun same => alive (same ▸ update_self ..)
    exact sound.covered isPg fun exited => alive ((others other).trans exited)
  case stack =>
    intro t' runs
    have other : t' ≠ t := by
      rintro rfl
      cases (update_self ..).symm.trans runs
    exact sound.stack ((others other).symm.trans runs)
  case mapped => exact sound.mapped
  case counted => exact sound.counted
  case numbered => exact sound.numbered
  case started =>
    exact fun {d} mem loading =>
      sound.started mem ((others (noMapping d mem)).symm.trans loading)
  case keys => exact sound.keys
  case apart => exact sound.apart

theorem Sound.not_owner_of_loading (sound : s.Sound) (loading : s.stage t = .loading) :
    ∀ d ∈ s.mmapTable, d.owner ≠ t := by
  rintro d mem rfl
  exact sound.started mem loading

/-- `load_segment` adds anonymous pages. -/
theorem Sound.segmentPages {writable : Bool} (turns ofs upage readBytes : Nat)
    (sound : s.Sound) (loading : s.stage t = .loading) :
    Sound { s with vm := Vm.segmentPages t file writable turns ofs upage readBytes s.vm } ∧
      s.Grows (· = t) { s with
        vm := Vm.segmentPages t file writable turns ofs upage readBytes s.vm } := by
  induction turns generalizing s ofs upage readBytes with
  | zero => exact ⟨sound, grows_of_page rfl⟩
  | succ turns ih =>
    have added : Sound { s with
        vm := s.vm.pageLazyLoad t (segmentArgs file ofs upage readBytes writable) .unalloc } :=
      sound.addPage rfl rfl rfl fun mem isOwner =>
        absurd isOwner (sound.not_owner_of_loading loading _ mem)
    obtain ⟨sound', grows⟩ := ih (ofs + pgSize) (upage + 1) (readBytes - min readBytes pgSize)
      added loading
    have first : s.Grows (· = t) { s with
        vm := s.vm.pageLazyLoad t (segmentArgs file ofs upage readBytes writable) .unalloc } := by
      refine grows_of_back (t := t) rfl ?_
      intro p pg' isPg
      rcases Vm.addPage_eq_some isPg with ⟨-, rfl⟩ | wasPage
      · exact .inr ⟨rfl, nofun⟩
      · exact .inl ⟨pg', wasPage, .refl pg'⟩
    refine ⟨sound', rfl, ?_, fun mem => .inl mem, fun backed => grows.backed (first.backed backed)⟩
    intro p pg' isPg
    rcases grows.page isPg with ⟨pg, wasPage, isOwner⟩ | isNew
    · rcases first.page wasPage with ⟨pg'', wasPage, isOwner'⟩ | isNew
      · exact .inl ⟨pg'', wasPage, isOwner'.trans isOwner⟩
      · exact .inr (isOwner.symm.trans isNew)
    · exact .inr isNew

end Mmaps

namespace Processes

variable {s s' : Processes} {t : ThreadId} {new : ThreadId → Prop}

/-- The invariant. -/
structure Owned (s : Processes) : Prop where
  sound : s.mmaps.Sound
  backed : s.mmaps.Backed
  nodup : s.allList.Nodup
  old : ∀ t ∈ s.allList, t < s.nextTid
  page : ∀ {p pg}, s.mmaps.vm.page p = some pg → pg.owner ∈ s.allList
  table : ∀ {d}, d ∈ s.mmaps.mmapTable → d.owner ∈ s.allList
  running : ∀ {t}, s.mmaps.stage t = .running → t ∈ s.allList
  loading : ∀ {t place}, s.load t = some place → t ∈ s.allList ∧ s.mmaps.stage t = .loading
  opening : ∀ {t file}, s.load t = some (.opening file) →
    ∀ {p pg}, s.mmaps.vm.page p = some pg → pg.owner ≠ t
  unborn : ∀ {t}, s.nextTid ≤ t → s.mmaps.stage t = .loading

theorem Initial.owned (init : s.Initial) : s.Owned where
  sound := init.mmaps.sound
  backed {p pg} isPage := by simp [init.mmaps.vm.page] at isPage
  nodup := init.nodup
  old := init.old
  page {p pg} isPage := by simp [init.mmaps.vm.page] at isPage
  table member := by simp [init.mmaps.mmapTable] at member
  running isRunning := by simp [init.mmaps.stage] at isRunning
  loading isLoad := by simp [init.load] at isLoad
  opening isLoad := by simp [init.load] at isLoad
  unborn _ := init.mmaps.stage _

section

variable (owned : s.Owned)
include owned

/-- Live threads that are not before `filesys_open` get pages and mappings. -/
theorem Owned.grows {mmaps : Mmaps} (sound : mmaps.Sound) (grows : s.mmaps.Grows new mmaps)
    (live : ∀ t, new t → t ∈ s.allList ∧ ∀ file, s.load t ≠ some (.opening file)) :
    Owned { s with mmaps } where
  sound := sound
  backed := grows.backed owned.backed
  nodup := owned.nodup
  old := owned.old
  page isPage := by
    rcases grows.page isPage with ⟨pg, wasPg, isOwner⟩ | isNew
    · exact isOwner ▸ owned.page wasPg
    · exact (live _ isNew).1
  table member := by
    rcases grows.table member with wasMember | isNew
    · exact owned.table wasMember
    · exact (live _ isNew).1
  running isRunning := owned.running (grows.stage ▸ isRunning)
  loading isLoad := by
    obtain ⟨member, isLoading⟩ := owned.loading isLoad
    exact ⟨member, grows.stage ▸ isLoading⟩
  opening {t file} isLoad {p pg'} isPage := by
    rcases grows.page isPage with ⟨pg, wasPg, isOwner⟩ | isNew
    · exact isOwner ▸ owned.opening isLoad wasPg
    · rintro rfl
      exact (live _ isNew).2 file isLoad
  unborn later := by
    rw [grows.stage]
    exact owned.unborn later

/-- A thread that goes on in `load`. -/
theorem Owned.setLoad (mem : t ∈ s.allList) (isLoading : s.mmaps.stage t = .loading)
    (opening : ∀ file, place = .opening file → ∀ {p pg}, s.mmaps.vm.page p = some pg →
      pg.owner ≠ t) : (s.setLoad t place).Owned where
  sound := owned.sound
  backed := owned.backed
  nodup := owned.nodup
  old := owned.old
  page := owned.page
  table := owned.table
  running := owned.running
  loading {t' place'} isLoad := by
    by_cases same : t' = t
    · rw [same]
      exact ⟨mem, isLoading⟩
    · exact owned.loading ((update_of_ne same ..).symm.trans isLoad)
  opening {t' file} isLoad {p pg} isPage := by
    by_cases same : t' = t
    · subst same
      have isAt : (s.setLoad t' place).load t' = some place := update_self ..
      exact opening file (some.inj (isAt.symm.trans isLoad)) isPage
    · exact owned.opening ((update_of_ne same ..).symm.trans isLoad) isPage
  unborn := owned.unborn

theorem Owned.threadExit (mem : t ∈ s.allList)
    (noPage : ∀ {p pg}, s.mmaps.vm.page p = some pg → pg.owner ≠ t)
    (noMapping : ∀ d ∈ s.mmaps.mmapTable, d.owner ≠ t) : (s.threadExit t).Owned := by
  have stays : ∀ {t'}, t' ≠ t → t' ∈ s.allList → t' ∈ s.allList.erase t :=
    fun other mem => (mem_erase_of_ne other).mpr mem
  have others : ∀ {t'}, t' ≠ t → update s.mmaps.stage t .exited t' = s.mmaps.stage t' :=
    fun other => update_of_ne other ..
  constructor
  case sound => exact owned.sound.exited noMapping
  case backed => exact owned.backed
  case nodup => exact owned.nodup.erase t
  case old => exact fun t' mem => owned.old t' (mem_of_mem_erase mem)
  case page => exact fun isPg => stays (noPage isPg) (owned.page isPg)
  case table => exact fun mem => stays (noMapping _ mem) (owned.table mem)
  case running =>
    intro t' isRunning
    by_cases same : t' = t
    · rw [same] at isRunning
      cases (update_self ..).symm.trans isRunning
    · exact stays same (owned.running ((others same).symm.trans isRunning))
  case loading =>
    intro t' place isLoad
    by_cases same : t' = t
    · rw [same] at isLoad
      cases (update_self ..).symm.trans isLoad
    · obtain ⟨mem, isLoading⟩ := owned.loading ((update_of_ne same ..).symm.trans isLoad)
      exact ⟨stays same mem, (others same).trans isLoading⟩
  case opening =>
    intro t' file isLoad
    by_cases same : t' = t
    · rw [same] at isLoad
      cases (update_self ..).symm.trans isLoad
    · exact owned.opening ((update_of_ne same ..).symm.trans isLoad)
  case unborn =>
    intro t' later
    have other : t' ≠ t := by
      rintro rfl
      exact Nat.not_lt.mpr later (owned.old t' mem)
    exact (others other).trans (owned.unborn later)

/-! ## `load` -/

/-- A process in `load` without pages in `page_list` has no pages at all. -/
theorem Owned.noPage_of_loading (isLoading : s.mmaps.stage t = .loading)
    (empty : s.mmaps.vm.pageList t = []) {p : PageId} {pg : Page}
    (isPg : s.mmaps.vm.page p = some pg) : pg.owner ≠ t := by
  intro isOwner
  by_cases isFile : pg.type = .file
  · obtain ⟨d, mem, sameOwner, -⟩ := owned.backed isPg isFile
    exact owned.sound.not_owner_of_loading isLoading d mem (sameOwner.trans isOwner)
  have listed := owned.sound.good.registry.listed.mpr ⟨pg, isPg, isOwner, isFile⟩
  rw [empty] at listed
  cases listed

/-- `load` fails before it has registered a page. -/
theorem Owned.loadFails (isLoad : s.load t = some place)
    (noPage : ∀ {p pg}, s.mmaps.vm.page p = some pg → pg.owner ≠ t) : (s.threadExit t).Owned := by
  obtain ⟨mem, isLoading⟩ := owned.loading isLoad
  exact owned.threadExit mem noPage (owned.sound.not_owner_of_loading isLoading)

theorem Owned.loadHeader {left : Nat} (isLoad : s.load t = some (.headers file (left + 1) fileOfs))
    (early : (s.bytes file).RejectsHeader fileOfs → s.mmaps.vm.pageList t = [])
    (run : s.loadHeader t file left fileOfs = .ok s') : s'.Owned := by
  obtain ⟨mem, isLoading⟩ := owned.loading isLoad
  have fails : (s.bytes file).RejectsHeader fileOfs → (s.threadExit t).Owned := fun rejects =>
    owned.loadFails isLoad (owned.noPage_of_loading isLoading (early rejects))
  have notOpening : ∀ t', t' = t → t' ∈ s.allList ∧ ∀ f, s.load t' ≠ some (.opening f) := by
    rintro t' rfl
    refine ⟨mem, fun f => ?_⟩
    rw [isLoad]
    exact nofun
  unfold Processes.loadHeader at run
  split at run
  · rename_i unreadable
    cases run
    apply fails
    intro phdr found
    rw [unreadable] at found
    cases found
  rename_i phdr found
  split at run
  · rename_i rejected
    cases run
    apply fails
    intro phdr' found'
    cases found.symm.trans found'
    exact rejected
  split at run
  · obtain ⟨vm, segment, after⟩ := Except.bind_eq_ok.mp run
    cases after
    unfold Vm.loadSegment at segment
    dsimp only at segment
    split at segment
    · cases segment
      obtain ⟨sound, grows⟩ := owned.sound.segmentPages _ _ _ _ isLoading
      exact (owned.grows sound grows notOpening).setLoad mem isLoading nofun
    · cases segment
  · cases run
    exact owned.setLoad mem isLoading nofun

/-- `load` has succeeded. -/
theorem Owned.startRunning (isLoad : s.load t = some place)
    (stack : s.mmaps.vm.getPage t (physBasePage - 1) ≠ none) : (s.startRunning t file).Owned := by
  obtain ⟨mem, isLoading⟩ := owned.loading isLoad
  have others : ∀ {t'}, t' ≠ t → update s.mmaps.stage t .running t' = s.mmaps.stage t' :=
    fun other => update_of_ne other ..
  have otherLoad : ∀ {t' place}, (s.startRunning t file).load t' = some place →
      t' ≠ t ∧ s.load t' = some place := by
    intro t' place isLoad
    have other : t' ≠ t := by
      rintro rfl
      cases (update_self ..).symm.trans isLoad
    exact ⟨other, (update_of_ne other ..).symm.trans isLoad⟩
  constructor
  case sound => exact (owned.sound.start isLoading stack).setDenyWrite file true
  case backed => exact owned.backed
  case nodup => exact owned.nodup
  case old => exact owned.old
  case page => exact owned.page
  case table => exact owned.table
  case running =>
    intro t' isRunning
    by_cases same : t' = t
    · rw [same]
      exact mem
    · exact owned.running ((others same).symm.trans isRunning)
  case loading =>
    intro t' place isLoad
    obtain ⟨other, isLoad⟩ := otherLoad isLoad
    obtain ⟨mem, isLoading⟩ := owned.loading isLoad
    exact ⟨mem, (others other).trans isLoading⟩
  case opening => exact fun isLoad => owned.opening (otherLoad isLoad).2
  case unborn =>
    intro t' later
    have other : t' ≠ t := by
      rintro rfl
      exact Nat.not_lt.mpr later (owned.old t' mem)
    exact (others other).trans (owned.unborn later)

theorem Owned.setupStack (isLoad : s.load t = some (.headers file 0 fileOfs))
    (run : s.setupStack t file victim = .ok s') : s'.Owned := by
  obtain ⟨mem, isLoading⟩ := owned.loading isLoad
  obtain ⟨⟨success, vm⟩, stackRun, after⟩ := Except.bind_eq_ok.mp run
  have added : (s.mmaps.vm.pageLazyLoad t (Vm.stackArgs (physBasePage - 1)) .unalloc).Good :=
    owned.sound.good.pageLazyLoad nofun nofun
  have isSuccess := (added.pageFullLoadStack stackRun).1
  obtain ⟨sound, stack⟩ := owned.sound.pageFullLoadStack stackRun fun mem isOwner =>
    absurd isOwner (owned.sound.not_owner_of_loading isLoading _ mem)
  have grows : s.mmaps.Grows (· = t) { s.mmaps with vm } := by
    refine Mmaps.grows_of_back (t := t) rfl ?_
    exact Vm.pageFullLoadStack_back owned.sound.good stackRun
  have loaded : Owned { s with mmaps := { s.mmaps with vm } } := by
    apply owned.grows sound grows
    rintro t' rfl
    refine ⟨mem, fun f => ?_⟩
    rw [isLoad]
    exact nofun
  subst isSuccess
  cases after
  exact loaded.startRunning isLoad stack

theorem Owned.load (early : s.Early (.load t victim))
    (run : s.next (.load t victim) = some s') : s'.Owned := by
  obtain ⟨place, isLoad, run⟩ := bind_eq_some_iff.mp run
  have run := Except.toOption_eq_some.mp run
  obtain ⟨mem, isLoading⟩ := owned.loading isLoad
  unfold Processes.loadPart at run
  split at run
  · cases run
    exact owned.loadFails isLoad (owned.opening isLoad)
  · split at run
    · cases run
      exact owned.loadFails isLoad (owned.opening isLoad)
    · cases run
      exact owned.setLoad mem isLoading nofun
  · exact owned.setupStack isLoad run
  · exact owned.loadHeader isLoad (early _ isLoad) run

/-! ## Runs -/

theorem Owned.execute (file : Option FileId)
    (run : s.next (.execute file) = some s') : s'.Owned := by
  cases run
  have notMember : s.nextTid ∉ s.allList := fun mem =>
    Nat.lt_irrefl _ (owned.old _ mem)
  have created : Owned { s with
      allList := s.allList ++ [s.nextTid], nextTid := s.nextTid + 1 } := by
    have stays : ∀ {t}, t ∈ s.allList → t ∈ s.allList ++ [s.nextTid] :=
      fun mem => mem_append_left _ mem
    refine ⟨owned.sound, owned.backed, ?_, ?_, fun isPg => stays (owned.page isPg),
      fun mem => stays (owned.table mem), fun runs => stays (owned.running runs),
      fun isLoad => ?_, owned.opening, fun later => owned.unborn (Nat.le_of_succ_le later)⟩
    · exact nodup_append.mpr ⟨owned.nodup, nodup_singleton _, by
        rintro t mem t' isNew rfl
        exact notMember (mem_singleton.mp isNew ▸ mem)⟩
    · intro t mem
      rcases mem_append.mp mem with mem | isNew
      · exact Nat.lt_succ_of_lt (owned.old t mem)
      · rw [mem_singleton.mp isNew]
        exact Nat.lt_succ_self _
    · obtain ⟨mem, isLoading⟩ := owned.loading isLoad
      exact ⟨stays mem, isLoading⟩
  apply created.setLoad
  · exact mem_append_right _ (mem_singleton.mpr rfl)
  · exact owned.unborn (Nat.le_refl _)
  · intro _ _ p pg isPg isOwner
    exact notMember (isOwner ▸ owned.page isPg)

theorem Owned.processExit {victims : Nat → Nat → Option FrameId}
    (run : s.next (.processExit t victims) = some s') : s'.Owned := by
  obtain ⟨running, run⟩ := ite_none_right_eq_some.mp run
  obtain ⟨mmaps, exits, after⟩ := Except.bind_eq_ok.mp (Except.toOption_eq_some.mp run)
  cases after
  obtain ⟨sound, backed, stage, pages, table⟩ :=
    owned.sound.processExit_leaves owned.backed exits
  have mem := owned.running running
  have others : ∀ {t'}, t' ≠ t → mmaps.stage t' = s.mmaps.stage t' := by
    intro t' other
    rw [stage, update_of_ne other]
  have freed : Owned { s with mmaps } := by
    constructor
    case sound => exact sound
    case backed => exact backed
    case nodup => exact owned.nodup
    case old => exact owned.old
    case page =>
      intro p pg' isPg
      obtain ⟨-, pg, wasPg, isOwner⟩ := pages isPg
      exact isOwner ▸ owned.page wasPg
    case table => exact fun mem => owned.table (table mem).1
    case running =>
      intro t' isRunning
      by_cases same : t' = t
      · rw [same]
        exact mem
      · exact owned.running ((others same).symm.trans isRunning)
    case loading =>
      intro t' place isLoad
      obtain ⟨mem, isLoading⟩ := owned.loading isLoad
      have other : t' ≠ t := by
        rintro rfl
        cases running.symm.trans isLoading
      exact ⟨mem, (others other).trans isLoading⟩
    case opening =>
      intro t' file isLoad p pg' isPg
      obtain ⟨-, pg, wasPg, isOwner⟩ := pages isPg
      exact isOwner ▸ owned.opening isLoad wasPg
    case unborn =>
      intro t' later
      have other : t' ≠ t := by
        rintro rfl
        exact Nat.not_lt.mpr later (owned.old t' mem)
      exact (others other).trans (owned.unborn later)
  exact freed.threadExit mem (fun isPg => (pages isPg).1) fun d mem => (table mem).2

theorem Owned.next {step : ProcessStep} (early : s.Early step)
    (run : s.next step = some s') : s'.Owned := by
  cases step with
  | execute file => exact owned.execute file run
  | load t victim => exact owned.load early run
  | processExit t victims => exact owned.processExit run
  | mmaps step =>
    obtain ⟨ordinary, isAfter⟩ := ite_none_right_eq_some.mp run
    obtain ⟨mmaps, taken, rfl⟩ := map_eq_some_iff.mp isAfter
    apply owned.grows (owned.sound.next early taken) (owned.sound.next_grows ordinary taken)
    intro t runs
    refine ⟨owned.running runs, fun file isLoad => ?_⟩
    cases runs.symm.trans (owned.loading isLoad).2

end

theorem owned_of_reachable (reach : Reachable Initial next Early s) : s.Owned :=
  reach.invariant (fun _ init => init.owned) fun _ _ _ owned early run =>
    owned.next early run

/-- In every run in which `load` gives up only before it has registered a page, every page in
    `sup_page_table` belongs to a live thread, and a process that has terminated, whether in
    `process_exit` or in `start_process`, has left no page, no record among the owners of a frame,
    no swap slot and no mapping. -/
theorem records_of_live_threads (reached : Reachable Initial next Early s) :
    (∀ p ∈ s.mmaps.vm.supPageTable, ∃ pg, s.mmaps.vm.page p = some pg ∧ pg.owner ∈ s.allList) ∧
    ∀ t, t ∉ s.allList → (∀ p pg, s.mmaps.vm.page p = some pg → pg.owner ≠ t) ∧
      (∀ f ∈ s.mmaps.vm.table.frameList, ∀ o ∈ (s.mmaps.vm.table.frame f).ownerList, o.thread ≠ t) ∧
      (∀ slot, s.mmaps.vm.swap.Used slot → ∃ p pg, s.mmaps.vm.page p = some pg ∧
        pg.Swapped slot ∧ pg.owner ≠ t) ∧
      ∀ d ∈ s.mmaps.mmapTable, d.owner ≠ t := by
  have owned := owned_of_reachable reached
  have good := owned.sound.good
  have notOwner : ∀ {t}, t ∉ s.allList → ∀ {p pg}, s.mmaps.vm.page p = some pg → pg.owner ≠ t := by
    rintro t dead p pg isPage rfl
    exact dead (owned.page isPage)
  constructor
  · intro p member
    obtain ⟨pg, isPage⟩ := good.registry.live member
    exact ⟨pg, isPage, owned.page isPage⟩
  intro t dead
  refine ⟨fun p pg isPage => notOwner dead isPage, ?_, ?_, ?_⟩
  · intro f member o owns
    obtain ⟨pg, isPage, -, isRecord⟩ := (good.owner_iff member).mp owns
    rw [isRecord]
    exact notOwner dead isPage
  · intro slot used
    obtain ⟨p, pg, isPage, swapped⟩ := good.contents.slots used
    exact ⟨p, pg, isPage, swapped, notOwner dead isPage⟩
  · rintro d member rfl
    exact dead (owned.table member)

/-- A file of these 32-bit numbers. -/
def imageOf (words : List (BitVec 32)) : FileBytes where
  length := 4 * words.length
  byte := bytesOf fun i => words.getD i 0
  zero k outside := by
    have after : words.length ≤ k / 4 := by omega
    simp [bytesOf, List.getElem?_eq_none after]

/-- An executable header, for this many program headers. -/
def ehdrWords (phnum : BitVec 32) : List (BitVec 32) :=
  [0x464c457f, 0x00010101, 0, 0, 0x00030002, 1, 0, 52, 0, 0, 0x00200034, phnum, 0]

/-- A segment of one page at user page 8. -/
def loadWords : List (BitVec 32) := [1, 0, 0x8000, 0, 100, 4096, 0, 0]

def interpWords : List (BitVec 32) := [3, 0, 0, 0, 0, 0, 0, 0]

/-- A machine with the main thread of the kernel, a good executable and two at which `load` gives
    up: at the first header, and after a segment. -/
def booted : Processes where
  mmaps := { Mmaps.start with vm := { Mmaps.start.vm with file := fun f =>
    match f with
    | 0 => ⟨imageOf (ehdrWords 1 ++ loadWords), false, none⟩
    | 1 => ⟨imageOf (ehdrWords 2 ++ interpWords ++ loadWords), false, none⟩
    | _ => ⟨imageOf (ehdrWords 2 ++ loadWords ++ interpWords), false, none⟩ } }
  allList := [1]
  nextTid := 2
  load _ := none

theorem booted_initial : booted.Initial where
  mmaps :=
    have init := Mmaps.start_initial
    have vm := init.vm
    ⟨⟨vm.table, vm.userPool, vm.page, vm.supPageTable, vm.pageList, vm.pte, vm.swap⟩,
      init.mmapTable, init.mapidNext, init.stage⟩
  nodup := by decide
  old := by decide
  load _ := rfl

/-- Process 2 runs and has a page in `sup_page_table` and a frame; nothing is left of process 3,
    whose `load` gave up at the first header. -/
theorem records_of_live_threads_loaded :
    ∃ s, Reachable Initial next Early s ∧ s.allList = [1, 2] ∧ 0 ∈ s.mmaps.vm.supPageTable ∧
      (∃ pg, s.mmaps.vm.page 0 = some pg ∧ pg.owner ∈ s.allList) ∧
      ∀ p pg, s.mmaps.vm.page p = some pg → pg.owner ≠ 3 := by
  obtain ⟨s, reached, threads, member⟩ := reachable_of_run next Early booted_initial
    [.execute (some 0), .load 2 none, .load 2 none, .load 2 none, .execute (some 1), .load 3 none,
      .load 3 none]
    (fun s => s.allList = [1, 2] ∧ 0 ∈ s.mmaps.vm.supPageTable) (by decide +kernel)
  obtain ⟨live, gone⟩ := records_of_live_threads reached
  exact ⟨s, reached, threads, member, live 0 member, (gone 3 (by rw [threads]; decide)).1⟩

/-- `load` registers a page and gives up at the next header. The thread exits, and its page stays
    in `sup_page_table`. -/
theorem failed_load_leaves_page : ¬∀ s, Reachable Initial next AnyStep s →
      ∀ p ∈ s.mmaps.vm.supPageTable, ∃ pg, s.mmaps.vm.page p = some pg ∧ pg.owner ∈ s.allList := by
  intro always
  obtain ⟨s, reached, threads, member, pg, isPage, isOwner⟩ :=
      reachable_of_run next AnyStep booted_initial
    [.execute (some 2), .load 2 none, .load 2 none, .load 2 none]
    (fun s => s.allList = [1] ∧ 0 ∈ s.mmaps.vm.supPageTable ∧
      ∃ pg ∈ s.mmaps.vm.page 0, pg.owner = 2) (by decide +kernel)
  obtain ⟨pg', isPage', live⟩ := always s reached 0 member
  cases isPage.symm.trans isPage'
  rw [isOwner, threads] at live
  cases mem_singleton.mp live

end Processes

end Pintos
