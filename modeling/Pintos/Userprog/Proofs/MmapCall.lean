import Pintos.Userprog.MmapCall
import Pintos.Userprog.Proofs.MmapRuns

/-!
# What a refused `mmap_` leaves behind

A mapping that is granted is new, and its pages are new and below the stack. A call that is refused
for its address or its descriptor changes nothing. One that is refused later leaves the inode open,
and one that runs out of memory after it has registered a page stops the kernel: `page_free` wants
a page of a mapped file without a frame to be in a swap slot.
-/

namespace Pintos.MmapCounts

variable {s : MmapCounts} {t : ThreadId} {file : FileId} {addr mallocs : Nat}

@[simp] theorem reopen_mmaps (s : MmapCounts) (file : FileId) : (s.reopen file).mmaps = s.mmaps :=
  rfl

/-- `mmap_` refuses the file or registers the mapping, when no allocation fails. -/
theorem enter_mmaps (room : pageCnt (s.mmaps.vm.fileLength file) < mallocs) :
    s.enter t file addr mallocs =
      if s.mmaps.vm.fileLength file = 0 ∨ ∃ k < pageCnt (s.mmaps.vm.fileLength file),
          s.mmaps.vm.getPage t ((addr + k * pgSize) / pgSize) ≠ none then
        .ok (none, s)
      else .ok ((s.mmaps.register t file addr).1,
        { s with mmaps := (s.mmaps.register t file addr).2 }) := by
  unfold enter
  by_cases empty : s.mmaps.vm.fileLength file = 0
  · rw [if_pos empty, if_pos (.inl empty)]
  rw [if_neg empty]
  by_cases taken : ∃ k < pageCnt (s.mmaps.vm.fileLength file),
      s.mmaps.vm.getPage t ((addr + k * pgSize) / pgSize) ≠ none
  · rw [if_pos taken, if_pos (.inr taken)]
  · rw [if_neg taken, if_neg (Nat.not_le.mpr room), if_neg fun either => either.elim empty taken]

theorem mmap_of_invalid (fd : Option FileId) (mallocs : Nat)
    (invalid : fd = none ∨ addr = 0 ∨ addr % pgSize ≠ 0) :
    s.mmap t fd addr mallocs = .ok (none, s) := by
  unfold MmapCounts.mmap
  by_cases bad : addr = 0 ∨ addr % pgSize ≠ 0
  · rw [if_pos bad]
  · rw [if_neg bad, invalid.resolve_right bad]

theorem mmap_of_valid (nonzero : addr ≠ 0) (aligned : addr % pgSize = 0) (mallocs : Nat) :
    s.mmap t (some file) addr (mallocs + 1) = (s.reopen file).enter t file addr mallocs := by
  unfold MmapCounts.mmap
  exact if_neg fun bad => bad.elim nonzero fun odd => odd aligned

/-! ## Mappings that are granted -/

theorem mmap_eq_some {fd : Option FileId} {mapping : Nat} {s' : MmapCounts}
    (runs : s.mmaps.stage t = .running) (user : addr + 4 ≤ physBasePage * pgSize)
    (run : s.mmap t fd addr mallocs = .ok (some mapping, s')) :
    ∃ file, fd = some file ∧ s.mmaps.Accepts t file addr ∧ mapping = s.mmaps.mapidNext t ∧
      s'.mmaps = (s.mmaps.register t file addr).2 := by
  by_cases invalid : fd = none ∨ addr = 0 ∨ addr % pgSize ≠ 0
  · rw [mmap_of_invalid fd mallocs invalid] at run
    cases run
  cases fd with
  | none => exact absurd (.inl rfl) invalid
  | some file =>
    obtain ⟨nonzero, aligned⟩ : addr ≠ 0 ∧ addr % pgSize = 0 := by
      simpa only [reduceCtorEq, false_or, not_or, not_not] using invalid
    cases mallocs with
    | zero =>
      unfold MmapCounts.mmap at run
      rw [if_neg (by simpa only [reduceCtorEq, false_or] using invalid)] at run
      cases run
    | succ rest =>
      rw [mmap_of_valid nonzero aligned] at run
      by_cases room : pageCnt (s.mmaps.vm.fileLength file) < rest
      · rw [enter_mmaps (by rwa [reopen_mmaps])] at run
        obtain ⟨-, refused⟩ | ⟨passes, run⟩ := ite_eq_iff.mp run
        · cases refused
        cases run
        refine ⟨file, rfl, ⟨runs, user, nonzero, aligned, fun k small => ?_⟩, rfl, rfl⟩
        rw [← show (addr + k * pgSize) / pgSize = addr / pgSize + k from
          Nat.add_mul_div_right _ _ (by decide)]
        by_contra taken
        exact passes (.inr ⟨k, small, taken⟩)
      -- the label `fail` returns -1
      exfalso
      unfold enter at run
      obtain ⟨-, refused⟩ | ⟨-, run⟩ := ite_eq_iff.mp run
      · cases refused
      obtain ⟨-, refused⟩ | ⟨-, run⟩ := ite_eq_iff.mp run
      · cases refused
      rw [reopen_mmaps, if_pos (Nat.not_lt.mp room)] at run
      obtain ⟨vm, -, run⟩ := Except.bind_eq_ok.mp run
      cases run

/-! ## Calls that run out of memory -/

theorem close_reopen (s : MmapCounts) (file : FileId) : (s.reopen file).close file = s := by
  simp [close, reopen]

/-- A page that was registered for the mapping and not loaded. -/
structure Registered (t : ThreadId) (addr k : Nat) (vm : Vm) (p : PageId) (pg : Page) : Prop where
  good : vm.Good
  mem : p ∈ vm.supPageTable
  isPage : vm.page p = some pg
  isFile : pg.type = .file
  unseated : pg.kpage = none
  isOwner : pg.owner = t
  isUpage : pg.upage = (addr + k * pgSize) / pgSize

theorem Registered.undoPage_stops {vm : Vm} {p : PageId} {pg : Page} {k : Nat}
    (registered : Registered t addr k vm p pg) : undoPage t addr vm k = .error .assertion := by
  have found := Vm.getPage_of_mem registered.good.registry registered.mem registered.isPage
  rw [registered.isOwner, registered.isUpage] at found
  have outcome := registered.good.pageFree registered.isPage
  rw [if_pos ⟨registered.isFile, registered.unseated⟩] at outcome
  unfold undoPage
  rw [found]
  exact outcome

theorem Registered.undoPage {vm vm' : Vm} {p : PageId} {pg : Page} {j k : Nat}
    (registered : Registered t addr k vm p pg) (other : j ≠ k)
    (run : undoPage t addr vm j = .ok vm') : Registered t addr k vm' p pg := by
  unfold MmapCounts.undoPage at run
  split at run
  · cases run
    exact registered
  next q found =>
  obtain ⟨mem, pgQ, isQ, -, upageQ⟩ := Vm.getPage_eq_some found
  have isQ : vm.page q = some pgQ := isQ
  have outcome := registered.good.pageFree isQ
  split at outcome
  · cases run.symm.trans outcome
  obtain ⟨mid, freed, isFree⟩ := outcome
  cases run.symm.trans isFree
  have ne : p ≠ q := by
    rintro rfl
    cases registered.isPage.symm.trans isQ
    have same := upageQ.symm.trans registered.isUpage
    have shift i : (addr + i * pgSize) / pgSize = addr / pgSize + i :=
      Nat.add_mul_div_right _ _ (by decide)
    rw [shift, shift] at same
    exact other (Nat.add_left_cancel same)
  exact ⟨registered.good.freed isQ freed,
    (freed.drops registered.good isQ mem).table.mpr ⟨registered.mem, ne⟩,
    freed.page_eq_some.mpr ⟨ne, registered.isPage⟩, registered.isFile, registered.unseated,
    registered.isOwner, registered.isUpage⟩

/-- Once a page is registered, the label `fail` stops the kernel. -/
theorem fail_stops (good : s.mmaps.vm.Good) {n : Nat}
    (small : n < pageCnt (s.mmaps.vm.fileLength file))
    (free : ∀ k < n + 1, s.mmaps.vm.getPage t (addr / pgSize + k) = none) :
    ∃ e, s.fail t file addr (n + 1) = .error e := by
  have adds := Vm.Adds.loop (d := s.mmaps.entered t file addr) good rfl
    (Nat.le_of_lt small) fun k early => free k (Nat.lt_succ_of_lt early)
  have added := adds.step good small (free n (Nat.lt_succ_self n))
  have registered : Registered t addr n (lazyLoads t file addr (n + 1) s.mmaps.vm)
      (s.mmaps.vm.nextPage + n)
      (Vm.mmapPage (s.mmaps.entered t file addr) (s.mmaps.vm.fileLength file) n) := by
    unfold lazyLoads
    rw [List.range_succ, List.foldl_append]
    refine ⟨added.good, added.table.mpr (.inr ⟨n, Nat.lt_succ_self n, rfl⟩), ?_, rfl, rfl, rfl, rfl⟩
    rw [← show _ = s.mmaps.vm.nextPage + n from adds.nextPage]
    exact Function.update_self ..
  unfold MmapCounts.fail undo
  rw [List.range_succ, List.range_succ]
  simp only [List.reverse_append, List.reverse_singleton, List.singleton_append, List.foldlM_cons]
  cases run : MmapCounts.undoPage t addr (lazyLoads t file addr (n + 1) s.mmaps.vm) (n + 1) with
  | error e => exact ⟨e, rfl⟩
  | ok vm' =>
    have stops := (registered.undoPage (Nat.succ_ne_self n) run).undoPage_stops
    refine ⟨.assertion, ?_⟩
    simp only [bind, Except.bind, stops]

/-- If memory runs out before the first page is registered, everything is as it was. -/
theorem fail_first (free : s.mmaps.vm.getPage t (addr / pgSize) = none) :
    (s.reopen file).fail t file addr 0 = .ok (none, s) := by
  unfold MmapCounts.fail undo
  have turn : MmapCounts.undoPage t addr s.mmaps.vm 0 = .ok s.mmaps.vm := by
    unfold MmapCounts.undoPage
    rw [Nat.zero_mul, Nat.add_zero, free]
  rw [show (List.range (0 + 1)).reverse = [0] from rfl, List.foldlM_cons, reopen_mmaps,
    show lazyLoads t file addr 0 s.mmaps.vm = s.mmaps.vm from rfl, turn]
  exact congrArg (fun s => Except.ok (none, s)) (close_reopen s file)

theorem reopen_ne (s : MmapCounts) (file : FileId) : s.reopen file ≠ s := by
  intro same
  have counts := congrFun (congrArg openCnt same) file
  simp [reopen] at counts

/-- A valid call returns a mapping, or -1 and changes nothing, exactly if it is clear. -/
theorem mmap_clear_iff (good : s.mmaps.vm.Good) (nonzero : addr ≠ 0) (aligned : addr % pgSize = 0) :
    (∃ mapping s', s.mmap t (some file) addr mallocs = .ok (some mapping, s')) ∨
      s.mmap t (some file) addr mallocs = .ok (none, s) ↔ s.Clear t (some file) addr mallocs := by
  have shift k : (addr + k * pgSize) / pgSize = addr / pgSize + k :=
    Nat.add_mul_div_right _ _ (by decide)
  simp only [Clear, Option.mem_some_iff, forall_eq', nonzero, aligned, ne_eq, not_false_eq_true,
    true_imp_iff, shift]
  cases mallocs with
  | zero =>
    have stops : s.mmap t (some file) addr 0 = .error .assertion := by
      unfold MmapCounts.mmap
      exact if_neg fun bad => bad.elim nonzero fun odd => odd aligned
    simp [stops]
  | succ rest =>
    have enters : (s.reopen file).enter t file addr rest =
        if s.mmaps.vm.fileLength file = 0 then .ok (none, s.reopen file)
        else if ∃ k < pageCnt (s.mmaps.vm.fileLength file),
            s.mmaps.vm.getPage t ((addr + k * pgSize) / pgSize) ≠ none then
          .ok (none, s.reopen file)
        else if rest ≤ pageCnt (s.mmaps.vm.fileLength file) then (s.reopen file).fail t file addr rest
        else .ok ((s.mmaps.register t file addr).1,
          { s.reopen file with mmaps := (s.mmaps.register t file addr).2 }) := rfl
    rw [mmap_of_valid nonzero aligned, enters]
    simp only [shift]
    by_cases empty : s.mmaps.vm.fileLength file = 0
    · simp [empty, reopen_ne]
    rw [if_neg empty]
    by_cases taken : ∃ k < pageCnt (s.mmaps.vm.fileLength file),
        s.mmaps.vm.getPage t (addr / pgSize + k) ≠ none
    · rw [if_pos taken]
      obtain ⟨k, small, notFree⟩ := taken
      refine iff_of_false ?_ fun clear => notFree (clear.2.1 k small)
      simp [reopen_ne]
    rw [if_neg taken]
    have free : ∀ k < pageCnt (s.mmaps.vm.fileLength file),
        s.mmaps.vm.getPage t (addr / pgSize + k) = none := by
      simpa using taken
    have some : 0 < pageCnt (s.mmaps.vm.fileLength file) :=
      Nat.div_pos (by show 4096 ≤ _ + 4095; omega) (by decide)
    by_cases short : rest ≤ pageCnt (s.mmaps.vm.fileLength file)
    swap
    · rw [if_neg short]
      exact iff_of_true (.inl ⟨_, _, rfl⟩) ⟨empty, free, .inr (by omega)⟩
    rw [if_pos short]
    cases rest with
    | zero => exact iff_of_true (.inr (fail_first (free 0 some))) ⟨empty, free, .inl rfl⟩
    | succ n =>
      obtain ⟨e, stops⟩ := fail_stops (s := s.reopen file) good short fun k early =>
        free k (Nat.lt_of_lt_of_le early short)
      rw [stops]
      exact iff_of_false (by simp) (by omega)

/-- In every run in which no write makes a mapped file longer than its last page, a mapping that
    `mmap_` returns is new, the `ceil (length / PGSIZE)` pages of its range were not registered
    before and are now, and they are below `PHYS_BASE`. `mmap_` returns such a mapping, or -1 with
    everything as it was, exactly if the call meets `Clear`. -/
theorem mmap_refuses_or_maps_iff {mmaps : Mmaps}
    (reached : Reachable Mmaps.Initial Mmaps.next Mmaps.Contained mmaps)
    (running : mmaps.stage t = .running) (fd : Option FileId)
    (user : addr + 4 ≤ physBasePage * pgSize) (openCnt : FileId → Nat) (mallocs : Nat) :
    (∀ mapping s', mmap ⟨mmaps, openCnt⟩ t fd addr mallocs = .ok (some mapping, s') →
      mmaps.hashQuery mapping t = none ∧ ∃ file ∈ fd, ∃ d, s'.mmaps.hashQuery mapping t = some d ∧
        d.file = file ∧ d.uaddr = addr ∧
        ∀ k < pageCnt (mmaps.vm.fileLength file), mmaps.vm.getPage t (addr / pgSize + k) = none ∧
          s'.mmaps.vm.getPage t (addr / pgSize + k) ≠ none ∧ addr / pgSize + k < physBasePage) ∧
    ((∃ mapping s', mmap ⟨mmaps, openCnt⟩ t fd addr mallocs = .ok (some mapping, s')) ∨
      mmap ⟨mmaps, openCnt⟩ t fd addr mallocs = .ok (none, ⟨mmaps, openCnt⟩) ↔
        Clear ⟨mmaps, openCnt⟩ t fd addr mallocs) := by
  have sound := Mmaps.sound_of_reachable reached
  constructor
  · intro mapping s' run
    obtain ⟨file, isFile, accepts, rfl, isAfter⟩ := mmap_eq_some running user run
    have accepts : mmaps.Accepts t file addr := accepts
    have isTable : s'.mmaps.mmapTable = mmaps.entered t file addr :: mmaps.mmapTable := by
      rw [isAfter]
      exact Mmaps.register_mmapTable sound
    refine ⟨?_, file, isFile, mmaps.entered t file addr, ?_, rfl, rfl, fun k small => ?_⟩
    · unfold Mmaps.hashQuery
      rw [List.find?_eq_none]
      intro d member isKey
      have isKey := of_decide_eq_true isKey
      have numbered := sound.numbered member
      rw [isKey.2] at numbered
      exact absurd (isKey.1 ▸ numbered) (Nat.lt_irrefl _)
    · unfold Mmaps.hashQuery
      rw [isTable]
      exact List.find?_cons_of_pos (decide_eq_true ⟨rfl, rfl⟩)
    refine ⟨accepts.free k small, ?_, ?_⟩
    · rw [isAfter]
      obtain ⟨listed, pg, isPage, pageAt⟩ :=
        (Mmaps.register_adds sound accepts).new sound.good small
      exact Vm.getPage_ne_none.mpr ⟨_, pg, listed, isPage, pageAt.owner, pageAt.upage⟩
    · have below := Mmaps.below_stack sound accepts
      exact Nat.lt_trans (Nat.add_lt_add_left small _) below
  by_cases invalid : fd = none ∨ addr = 0 ∨ addr % pgSize ≠ 0
  · refine iff_of_true (.inr (mmap_of_invalid fd mallocs invalid)) ?_
    rintro file rfl nonzero aligned
    simp [nonzero, aligned] at invalid
  cases fd with
  | none => exact absurd (.inl rfl) invalid
  | some file =>
    obtain ⟨nonzero, aligned⟩ : addr ≠ 0 ∧ addr % pgSize = 0 := by
      simpa only [reduceCtorEq, false_or, not_or, not_not] using invalid
    exact mmap_clear_iff sound.good nonzero aligned

/-- Process 1 runs. -/
def startSteps : List MmapStep := [.setupStack 1 none]

/-- A file of one page is mapped right below the stack. -/
theorem mmap_refuses_or_maps_iff_below_stack :
    ∃ mmaps mapping s', Reachable Mmaps.Initial Mmaps.next Mmaps.Contained mmaps ∧
      mmap ⟨mmaps, fun _ => 1⟩ 1 (some 0) ((physBasePage - 2) * pgSize) 3 = .ok (some mapping, s') ∧
      mmaps.vm.getPage 1 (physBasePage - 2) = none ∧
      s'.mmaps.vm.getPage 1 (physBasePage - 2) ≠ none := by
  obtain ⟨mmaps, reached, running, length, free, isMapped⟩ :=
      reachable_of_run Mmaps.next Mmaps.Contained
    Mmaps.start_initial startSteps (fun s => s.stage 1 = .running ∧ s.vm.fileLength 0 = pgSize ∧
      s.vm.getPage 1 (((physBasePage - 2) * pgSize + 0 * pgSize) / pgSize) = none ∧
      (mmap ⟨s, fun _ => 1⟩ 1 (some 0) ((physBasePage - 2) * pgSize) 3).toOption.bind Prod.fst =
        some 1) (by decide +kernel)
  obtain ⟨maps, grants⟩ := mmap_refuses_or_maps_iff reached running (some 0)
    (show (physBasePage - 2) * pgSize + 4 ≤ physBasePage * pgSize by decide) (fun _ => 1) 3
  have clear : Clear ⟨mmaps, fun _ => 1⟩ 1 (some 0) ((physBasePage - 2) * pgSize) 3 := by
    rintro file ⟨⟩ - -
    dsimp only
    rw [length]
    refine ⟨by decide, fun k small => ?_, .inr (by decide)⟩
    rw [Nat.lt_one_iff.mp small]
    exact free
  rcases grants.mpr clear with ⟨mapping, s', run⟩ | refused
  · obtain ⟨-, file, isFile, d, -, -, -, pages⟩ := maps mapping s' run
    cases isFile
    rw [length] at pages
    obtain ⟨wasFree, isTaken, -⟩ := pages 0 (by decide)
    exact ⟨mmaps, mapping, s', reached, run, wasFree, isTaken⟩
  · rw [refused] at isMapped
    cases isMapped

/-- A machine on which all files are empty. -/
theorem emptyFiles_initial : (Mmaps.startWith ⟨.zeros 0, false, none⟩).Initial :=
  Mmaps.startWith_initial _

/-- `mmap_` of an empty file is refused, and the inode stays open. With memory for the file and one
    of two pages, `mmap_` stops the kernel. And where `munmap_` of a file that has grown has taken
    the stack with it, a mapping goes past `PHYS_BASE`. -/
theorem mmap_leaves_inode_open :
    (∃ mmaps s', Reachable Mmaps.Initial Mmaps.next AnyStep mmaps ∧ mmaps.stage 1 = .running ∧
      mmap ⟨mmaps, fun _ => 1⟩ 1 (some 0) (8 * pgSize) 9 = .ok (none, s') ∧ s'.openCnt 0 = 2) ∧
    (∃ mmaps, Reachable Mmaps.Initial Mmaps.next AnyStep mmaps ∧ mmaps.stage 1 = .running ∧
      mmap ⟨mmaps, fun _ => 1⟩ 1 (some 0) (8 * pgSize) 2 = .error .assertion) ∧
    ∃ mmaps s', Reachable Mmaps.Initial Mmaps.next AnyStep mmaps ∧ mmaps.stage 1 = .running ∧
      mmap ⟨mmaps, fun _ => 1⟩ 1 (some 0) ((physBasePage - 1) * pgSize) 9 = .ok (some 2, s') ∧
      s'.mmaps.vm.getPage 1 physBasePage ≠ none := by
  refine ⟨?_, ?_, ?_⟩
  · obtain ⟨mmaps, reached, running, result⟩ := reachable_of_run Mmaps.next AnyStep emptyFiles_initial
      startSteps (fun s => s.stage 1 = .running ∧
        (mmap ⟨s, fun _ => 1⟩ 1 (some 0) (8 * pgSize) 9).toOption.map
          (fun r => (r.1, r.2.openCnt 0)) = some (none, 2)) (by decide +kernel)
    obtain ⟨⟨mapping, s'⟩, run, fields⟩ := Option.map_eq_some_iff.mp result
    obtain ⟨rfl, isOpen⟩ := Prod.mk.inj fields
    exact ⟨mmaps, s', reached, running, Except.toOption_eq_some.mp run, isOpen⟩
  · obtain ⟨mmaps, reached, running, stops⟩ := reachable_of_run Mmaps.next AnyStep emptyFiles_initial
      (startSteps ++ [.fileWrite 0 (fun _ => 7) 5 4092]) (fun s => s.stage 1 = .running ∧
        Mmaps.stopsWith (mmap ⟨s, fun _ => 1⟩ 1 (some 0) (8 * pgSize) 2) = some .assertion)
      (by decide +kernel)
    exact ⟨mmaps, reached, running, Mmaps.eq_error_of_stopsWith stops⟩
  obtain ⟨mmaps, reached, running, result⟩ := reachable_of_run Mmaps.next AnyStep emptyFiles_initial
    (startSteps ++ [.fileWrite 0 (fun _ => 7) 5 0, .mmap 1 (some 0) ((physBasePage - 2) * pgSize),
      .fileWrite 0 (fun _ => 7) 5 4092, .munmap 1 1 fun _ => none])
    (fun s => s.stage 1 = .running ∧
      (mmap ⟨s, fun _ => 1⟩ 1 (some 0) ((physBasePage - 1) * pgSize) 9).toOption.map
        (fun r => (r.1, decide (r.2.mmaps.vm.getPage 1 physBasePage ≠ none))) =
          some (some 2, true)) (by decide +kernel)
  obtain ⟨⟨mapping, s'⟩, run, fields⟩ := Option.map_eq_some_iff.mp result
  obtain ⟨rfl, above⟩ := Prod.mk.inj fields
  exact ⟨mmaps, s', reached, running, Except.toOption_eq_some.mp run, of_decide_eq_true above⟩

end Pintos.MmapCounts
