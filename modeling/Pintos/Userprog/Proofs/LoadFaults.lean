import Pintos.Userprog.LoadFaults
import Pintos.Userprog.Proofs.MmapRuns
import Pintos.Userprog.Proofs.SharedText

/-!
# Which loads succeed

A load that fails after it has a frame stops the kernel: `frame_free` wants a frame without owners,
and `frame_alloc` and `frame_share` have recorded the page as one. In the states that can be
reached the swap slot of a page is always in use, so what remains are the file and the page table.
-/

namespace Pintos.Vm

open Function

variable {vm vm' : Vm} {p : PageId} {pg : Page} {k : KPage} {tablePage : Bool}

/-! ## The two models -/

/-- With page tables the two models of `page_full_load` agree. -/
theorem pageFullLoadIn_eq (vm : Vm) : vm.pageFullLoadIn true = vm.pageFullLoad := by
  have finish (vm : Vm) : vm.finishLoadIn true = vm.finishLoad := by
    funext p page kpage
    exact if_pos rfl
  funext t addr victim
  unfold pageFullLoadIn loadPageIn loadSharedIn loadFileIn loadSlotIn
  simp only [finish]
  rfl

/-! ## Read-only pages and swap slots -/

/-- A read-only page never had a swap slot. -/
def Slotless (vm : Vm) : Prop :=
  ∀ p pg, vm.page p = some pg → pg.writable = false → pg.slotIdx = none

section

variable (slotless : vm.Slotless)
include slotless

theorem Slotless.saved {saved : Vm} (saves : vm.Saved k saved) :
    saved.Slotless := by
  intro q other isQ readOnly
  cases saves with
  | @swapped p pg slot swap isPage sits only isAlloc writable run =>
    obtain ⟨old, wasQ, ⟨sitsQ, rfl⟩ | ⟨-, rfl⟩⟩ := changeAt_eq_some isQ
    · rw [only wasQ sitsQ, isPage, Option.some.injEq] at wasQ
      rw [← wasQ, writable] at readOnly
      cases readOnly
    · exact slotless q _ wasQ readOnly
  | clean unwritten =>
    obtain ⟨old, wasQ, ⟨-, rfl⟩ | ⟨-, rfl⟩⟩ := changeAt_eq_some isQ
    · rfl
    · exact slotless q _ wasQ readOnly
  | kept isFile unwritten => exact slotless q other isQ readOnly
  | writtenBack isPage sits isFile dirty hasFile =>
    rw [fileWriteAt_eq] at isQ
    exact slotless q other isQ readOnly

theorem Slotless.evicts (evicts : vm.Evicts vm') : vm'.Slotless := by
  cases evicts with
  | nothing => exact slotless
  | @victim f saved mem unpinned saves =>
    intro q other isQ readOnly
    obtain ⟨mid, isMid, ⟨-, rfl⟩ | ⟨-, rfl⟩⟩ := changeAt_eq_some isQ
    · exact slotless.saved saves q mid isMid readOnly
    · exact slotless.saved saves q other isMid readOnly

theorem Slotless.update {new : Option Page}
    (fresh : ∀ pg ∈ new, pg.writable = false → pg.slotIdx = none)
    (page : vm'.page = update vm.page p new) : vm'.Slotless := by
  intro q other isQ readOnly
  rw [page] at isQ
  by_cases same : q = p
  · rw [same, update_self] at isQ
    exact fresh other isQ readOnly
  · rw [update_of_ne same] at isQ
    exact slotless q other isQ readOnly

theorem Slotless.loaded (isPage : vm.page p = some pg)
    (loaded : vm.Loaded p pg vm') : vm'.Slotless := by
  have same : ∃ k, vm'.page = Function.update vm.page p (some { pg with
      kpage := some k, type := if pg.type = .unalloc then .alloc else pg.type }) := by
    cases loaded <;> exact ⟨_, rfl⟩
  obtain ⟨k, page⟩ := same
  refine slotless.update ?_ page
  rintro new ⟨⟩ readOnly
  exact slotless p pg isPage readOnly

theorem Slotless.next (good : vm.Good) {step : VmStep}
    (taken : vm.next step = some vm') : vm'.Slotless := by
  cases good.moves taken with
  | pageLazyLoad notAlloc hasFile =>
    refine slotless.update ?_ rfl
    rintro new ⟨⟩ _
    rfl
  | notFound => exact slotless
  | pageFullLoad found isPage unseated evicts loaded =>
    exact (slotless.evicts evicts).loaded (evicts.page_of_unseated good isPage unseated) loaded
  | @pageFullLoadStack t upage victim evicted vm' evicts loaded =>
    have goodBefore := good.lazyStack t upage
    have old : (vm.pageLazyLoad t (stackArgs upage) .unalloc).Slotless := by
      refine slotless.update ?_ rfl
      rintro new ⟨⟩ _
      rfl
    exact (old.evicts evicts).loaded (stackPage_of_evicts goodBefore evicts) loaded
  | pageFree isPage freed =>
    exact slotless.update (by simp) freed.dropPage_page
  | frameEvict evicts => exact slotless.evicts evicts
  | userWrite present writable => exact slotless
  | rehash perm => exact slotless

theorem Slotless.nextText (good : vm.Good) {step : TextStep}
    (taken : vm.nextText step = some vm') : vm'.Slotless := by
  cases step with
  | vm step => exact slotless.next good taken
  | fileWrite file buffer size ofs =>
    cases taken
    unfold Vm.fileWrite
    split <;> exact slotless
  | setDenyWrite file denyWrite =>
    cases taken
    exact slotless

end

theorem slotless_of_reachable (reach : Reachable Initial nextText AnyStep vm) :
    vm.Good ∧ vm.Slotless := by
  refine reach.invariant (P := fun vm => vm.Good ∧ vm.Slotless) (fun s init => ?_)
    fun s step s' holds _ taken => ⟨holds.1.nextText taken, holds.2.nextText holds.1 taken⟩
  refine ⟨init.good, fun p pg isPage => ?_⟩
  rw [init.page p] at isPage
  cases isPage

/-! ## Loads that can be done -/

theorem Evicts.absent (evicts : vm.Evicts vm') {t : ThreadId} {upage : Nat}
    (absent : (vm.pte t upage).present = false) : (vm'.pte t upage).present = false := by
  cases evicts with
  | nothing => exact absent
  | @victim f saved mem unpinned saves =>
    have old := (saves.keeps.entry t upage).1.trans absent
    show (clearAt saved.pte _ t upage).present = false
    unfold clearAt
    split
    · rfl
    · exact old

theorem Good.unseated_of_absent (good : vm.Good) (isPage : vm.page p = some pg)
    (absent : (vm.pte pg.owner pg.upage).present = false) : pg.kpage = none := by
  cases sits : pg.kpage with
  | none => rfl
  | some k =>
    have present := (good.mapping.maps (seat_of_page isPage sits)).1
    exact absurd (absent.symm.trans present) nofun

/-- The load stops for want of a frame or a swap slot, or the page is loaded after at most one
    eviction. -/
def Done (vm : Vm) (p : PageId) (pg : Page) (outcome : Except Panic (Bool × Vm)) : Prop :=
  (∃ e, outcome = .error e ∧ e.Scarce) ∨
    ∃ evicted vm', vm.Evicts evicted ∧ evicted.Loaded p pg vm' ∧ outcome = .ok (true, vm')

/-- The load is done if the condition holds, and stops the kernel if not. -/
def DoneIff (vm : Vm) (p : PageId) (pg : Page) (cond : Prop)
    (outcome : Except Panic (Bool × Vm)) : Prop :=
  cond ∧ vm.Done p pg outcome ∨ ¬cond ∧ outcome = .error .assertion

section Load

variable (good : vm.Good) (isPage : vm.page p = some pg)
  (absent : (vm.pte pg.owner pg.upage).present = false) (victim : Option FrameId)
include good isPage absent

/-- The page whose frame is shared is in memory, and was never in a slot. -/
theorem Good.loadSharedIn_cases (slotless : vm.Slotless) (inUser : pg.upage < physBasePage)
    {cur : Page} (found : vm.sharedPage pg = some cur) :
    vm.DoneIff p pg (tablePage = true) (vm.loadSharedIn tablePage p pg cur) := by
  obtain ⟨isUnalloc, readOnly, q, listed, isCur, sharable⟩ := sharedPage_sharable found
  obtain ⟨curAlloc, curReadOnly⟩ := sharable.2.2
  have noSlot := slotless q cur isCur curReadOnly
  cases sits : cur.kpage with
  | none =>
    have writable := ((good.contents.fits isCur).alloc curAlloc sits).1
    rw [curReadOnly] at writable
    cases writable
  | some k =>
    obtain ⟨f, mem, rfl, table, share, finish⟩ := good.finishLoad_share isPage isCur sits
    rw [if_neg (show ¬ (vm.pte pg.owner pg.upage).present = true by rw [absent]; exact nofun)]
      at finish
    have run : vm.loadSharedIn tablePage p pg cur = Vm.finishLoadIn { vm with table } tablePage p pg
        (vm.table.frame f).kpage := by
      unfold Vm.loadSharedIn
      rw [sits, noSlot]
      dsimp only
      rw [if_pos inUser, share]
    rw [run]
    by_cases hasTable : tablePage = true
    · exact .inl ⟨hasTable, .inr ⟨vm, _, .nothing, .shared isCur curAlloc curReadOnly sits mem absent
        isUnalloc readOnly, (if_pos hasTable).trans finish⟩⟩
    · obtain ⟨f', hashed, rfl⟩ := FrameTable.frameShare_eq_some.mp share
      refine .inr ⟨hasTable, (if_neg hasTable).trans (failLoad_of_owned hashed ?_)⟩
      rw [FrameTable.setFrame_frame_self]
      exact List.append_ne_nil_of_right_ne_nil _ (List.cons_ne_nil _ _)

variable (inUser : pg.upage < physBasePage) (tablePage)
include inUser

theorem Good.loadFileIn_cases (notAlloc : pg.type ≠ .alloc) :
    vm.DoneIff p pg (∀ granted ∈ (vm.frameAlloc false (ownerRecord p pg) true victim).toOption,
        tablePage = true ∧ granted.2.ReadsAll pg)
      (vm.loadFileIn tablePage p pg victim) := by
  unfold Vm.loadFileIn
  rcases good.frameAlloc false (o := ownerRecord p pg) true victim inUser with
    ⟨e, run, scarce⟩ | ⟨evicted, k, evicts, free, run⟩
  · rw [run]
    exact .inl ⟨by simp [Except.toOption_eq_some], .inl ⟨e, rfl, scarce⟩⟩
  have goodAfter := good.evicts evicts
  have isPageAfter := evicts.page_of_unseated good isPage (good.unseated_of_absent isPage absent)
  obtain ⟨found, owned⟩ := goodAfter.owned_of_free free false true (ownerRecord p pg)
  have finish := goodAfter.finishLoad_grant isPageAfter free
    (update evicted.memory k (evicted.initialData pg)) evicted.swap
  rw [evicts.absent absent, if_neg nofun] at finish
  simp only [run, Option.mem_def, Except.toOption_eq_some, Except.ok.injEq, forall_eq']
  by_cases reads : (evicted.grant false k (ownerRecord p pg) true).ReadsAll pg
  swap
  · exact .inr ⟨fun both => reads both.2, (if_neg reads).trans (failLoad_of_owned found owned)⟩
  by_cases table : tablePage = true
  · exact .inl ⟨⟨table, reads⟩, .inr ⟨evicted, _, evicts,
      .read free (evicts.absent absent) notAlloc, (if_pos reads).trans ((if_pos table).trans finish)⟩⟩
  · exact .inr ⟨fun both => table both.1,
      (if_pos reads).trans ((if_neg table).trans (failLoad_of_owned found owned))⟩

theorem Good.loadSlotIn_cases {slot : SlotId} (swapped : pg.Swapped slot) :
    vm.DoneIff p pg (∀ granted ∈ (vm.frameAlloc false (ownerRecord p pg) true victim).toOption,
        tablePage = true)
      (vm.loadSlotIn tablePage p pg slot victim) := by
  unfold Vm.loadSlotIn
  rcases good.frameAlloc false (o := ownerRecord p pg) true victim inUser with
    ⟨e, run, scarce⟩ | ⟨evicted, k, evicts, free, run⟩
  · rw [run]
    exact .inl ⟨by simp [Except.toOption_eq_some], .inl ⟨e, rfl, scarce⟩⟩
  have goodAfter := good.evicts evicts
  have isPageAfter := evicts.page_of_unseated good isPage swapped.2.1
  obtain ⟨found, owned⟩ := goodAfter.owned_of_free free false true (ownerRecord p pg)
  have finish := goodAfter.finishLoad_grant isPageAfter free
    (update evicted.memory k (evicted.swap.slotData slot))
    { evicted.swap with bitmap := bitmapSetMultiple evicted.swap.bitmap slot 1 false }
  rw [evicts.absent absent, if_neg nofun] at finish
  have read : (evicted.grant false k (ownerRecord p pg) true).swap.swapIn slot = _ :=
    Swap.swapIn_of_used (goodAfter.contents.used isPageAfter swapped)
  simp only [run, Option.mem_def, Except.toOption_eq_some, Except.ok.injEq, forall_eq', bind,
    Except.bind, read]
  by_cases table : tablePage = true
  · exact .inl ⟨table, .inr ⟨evicted, _, evicts, .swappedIn free (evicts.absent absent) swapped,
      (if_pos table).trans finish⟩⟩
  · exact .inr ⟨table, (if_neg table).trans (failLoad_of_owned found owned)⟩

end Load

/-- A page that can be loaded is, up to scarce memory, and any other page stops the kernel. -/
theorem Good.loadPageIn_cases (good : vm.Good) (tablePage : Bool) (slotless : vm.Slotless)
    (isPage : vm.page p = some pg) (absent : (vm.pte pg.owner pg.upage).present = false)
    (victim : Option FrameId) :
    vm.DoneIff p pg (vm.Loadable tablePage p pg victim) (vm.loadPageIn tablePage p pg victim) := by
  have unseated := good.unseated_of_absent isPage absent
  have fits := good.contents.fits isPage
  unfold Loadable
  by_cases inUser : pg.upage < physBasePage
  swap
  · refine .inr ⟨fun both => inUser both.1, ?_⟩
    have alloc : vm.frameAlloc false (ownerRecord p pg) true victim = .error .assertion :=
      if_neg inUser
    unfold Vm.loadPageIn loadSlotIn loadSharedIn loadFileIn
    rw [alloc]
    simp only [if_neg inUser]
    split <;> first | rfl | split <;> first | rfl | split <;> rfl
  simp only [inUser, true_and]
  have unread (notAlloc : pg.type ≠ .alloc) (unswapped : pg.slotIdx = none) :
      vm.DoneIff p pg (if vm.sharedPage pg = none then
          ∀ granted ∈ (vm.frameAlloc false (ownerRecord p pg) true victim).toOption,
            tablePage = true ∧ (pg.type ≠ .alloc → granted.2.ReadsAll pg)
        else tablePage = true) (vm.loadPageIn tablePage p pg victim) := by
    cases shared : vm.sharedPage pg with
    | some cur =>
      have run : vm.loadPageIn tablePage p pg victim = vm.loadSharedIn tablePage p pg cur := by
        unfold Vm.loadPageIn
        rw [unseated, unswapped, shared]
        cases isType : pg.type <;> first | rfl | exact absurd isType notAlloc
      simpa [run] using good.loadSharedIn_cases isPage absent slotless inUser shared
    | none =>
      have run : vm.loadPageIn tablePage p pg victim = vm.loadFileIn tablePage p pg victim := by
        unfold Vm.loadPageIn
        rw [unseated, unswapped, shared]
        cases isType : pg.type <;> first | rfl | exact absurd isType notAlloc
      simpa [run, notAlloc] using
        good.loadFileIn_cases tablePage isPage absent victim inUser notAlloc
  cases isType : pg.type with
  | unalloc => exact isType ▸ unread (by simp [isType]) (fits.unalloc isType).2
  | file => exact isType ▸ unread (by simp [isType]) (fits.file isType).1
  | alloc =>
    obtain ⟨-, slot, isSlot, -⟩ := fits.alloc isType unseated
    have unshared : vm.sharedPage pg = none := by simp [sharedPage, isType]
    unfold Vm.loadPageIn
    rw [isType, unseated, isSlot]
    simpa [unshared] using good.loadSlotIn_cases tablePage isPage absent victim inUser
      ⟨isType, unseated, isSlot⟩

/-- In every state that can be reached, for an address that is not mapped, `page_full_load` returns
    false and changes nothing, has the page in a frame afterwards, or stops because there is neither
    a free frame nor one to evict or no free swap slot, exactly if there is no page or it can be
    loaded. -/
theorem page_full_load_installs_iff (reached : Reachable Initial nextText AnyStep vm) {t : ThreadId}
    {addr : Nat} (absent : (vm.pte t (addr / pgSize)).present = false) (victim : Option FrameId) :
    (vm.pageFullLoadIn tablePage t addr victim = .ok (false, vm) ∨
      (∃ e, vm.pageFullLoadIn tablePage t addr victim = .error e ∧ e.Scarce) ∨
      ∃ p pg k vm', vm.getPage t (addr / pgSize) = some p ∧
        vm.pageFullLoadIn tablePage t addr victim = .ok (true, vm') ∧ vm'.page p = some pg ∧
        pg.owner = t ∧ pg.upage = addr / pgSize ∧ vm'.InFrame p pg k) ↔
      (addr ≠ 0 → ∀ p ∈ vm.getPage t (addr / pgSize), ∀ pg ∈ vm.page p,
        vm.Loadable tablePage p pg victim) := by
  obtain ⟨good, slotless⟩ := slotless_of_reachable reached
  unfold Vm.pageFullLoadIn
  by_cases null : addr = 0
  · simp [null]
  rw [if_neg null]
  cases found : vm.getPage t (addr / pgSize) with
  | none => simp
  | some p =>
    obtain ⟨member, pg, isPage, isOwner, isUpage⟩ := getPage_eq_some found
    have isPage : vm.page p = some pg := isPage
    rw [← isOwner, ← isUpage] at absent
    have cases := good.loadPageIn_cases tablePage slotless isPage absent victim
    simp only [isPage, Option.mem_some_iff, forall_eq', ne_eq, null, not_false_eq_true, true_imp_iff]
    rcases cases with ⟨loadable, done⟩ | ⟨notLoadable, stops⟩
    · refine iff_of_true (.inr (done.imp_right ?_)) loadable
      rintro ⟨evicted, vm', evicts, loaded, run⟩
      have unseated := good.unseated_of_absent isPage absent
      have isPageAfter := evicts.page_of_unseated good isPage unseated
      have goodAfter := (good.evicts evicts).loaded isPageAfter unseated loaded
      obtain ⟨k, spec⟩ := (good.evicts evicts).loadedAt unseated loaded
      have isNew := (congrFun spec.page p).trans (update_self ..)
      exact ⟨p, _, k, vm', rfl, run, isNew, isOwner, isUpage, (goodAfter.inFrame_iff isNew).mp rfl⟩
    · refine iff_of_false ?_ notLoadable
      rw [stops]
      rintro (run | ⟨e, run, scarce⟩ | ⟨_, _, _, _, _, run, -⟩)
      · cases run
      · cases run
        rcases scarce with same | same <;> cases same
      · cases run

/-- A page of a program is loaded. -/
theorem page_full_load_installs_iff_program :
    ∃ vm p pg k vm', Reachable Initial nextText AnyStep vm ∧ vm.getPage 1 8 = some p ∧
      vm.pageFullLoadIn true 1 (8 * pgSize) none = .ok (true, vm') ∧
      vm'.page p = some pg ∧ vm'.InFrame p pg k := by
  obtain ⟨vm, reached, absent, loadable, success⟩ :=
      reachable_of_run nextText AnyStep (start_initial 2 0)
    [.vm (.pageLazyLoad 1 (textArgs 0) .unalloc)]
    (fun vm => (vm.pte 1 8).present = false ∧
      (∀ p ∈ vm.getPage 1 8, ∀ pg ∈ vm.page p, vm.Loadable true p pg none) ∧
      (vm.pageFullLoadIn true 1 (8 * pgSize) none).toOption.map Prod.fst =
        some true) (by decide +kernel)
  have absent : (vm.pte 1 (8 * pgSize / pgSize)).present = false := absent
  rcases (page_full_load_installs_iff reached absent none).mpr fun _ => loadable with
    fails | ⟨e, stops, -⟩ | ⟨p, pg, k, vm', found, run, isPage, -, -, inFrame⟩
  · rw [fails] at success
    cases success
  · rw [stops] at success
    cases success
  · exact ⟨vm, p, pg, k, vm', reached, found, run, isPage, inFrame⟩

/-- The header of a segment of two pages at user page 8. -/
def longSegment : ElfPhdr := ⟨ElfPhdr.ptLoad, 0, 0x8000, 0x2000, 0x2000, 5⟩

/-- A segment is longer than its file of one page, and `validate_segment` lets it pass: the load of
    its second page stops the kernel. So does the load of a page of a directory that is mapped. -/
theorem failed_read_stops_kernel : (∃ vm vm', Reachable Initial nextText AnyStep vm ∧
      longSegment.ValidateSegment (vm.fileLength 0) ∧ vm.loadSegment 1 0 longSegment = .ok vm' ∧
      vm'.pageFullLoadIn true 1 (9 * pgSize) none = .error .assertion) ∧
    ∃ s : Mmaps, Reachable Mmaps.Initial Mmaps.next AnyStep s ∧
      (s.hashQuery 1 1).map (fun d => (d.file, d.uaddr)) = some (0, 8 * pgSize) ∧
      s.vm.pageFullLoadIn true 1 (8 * pgSize) none = .error .assertion := by
  constructor
  · have test : ((start 2 0).loadSegment 1 0 longSegment).toOption.map (fun vm' =>
        Mmaps.stopsWith (vm'.pageFullLoadIn true 1 (9 * pgSize) none)) =
          some (some .assertion) := by decide +kernel
    obtain ⟨vm', loads, stops⟩ := Option.map_eq_some_iff.mp test
    exact ⟨start 2 0, vm', .start (start_initial 2 0), by decide, Except.toOption_eq_some.mp loads,
      Mmaps.eq_error_of_stopsWith stops⟩
  obtain ⟨s, reached, isMapped, stops⟩ := reachable_of_run Mmaps.next AnyStep
    (Mmaps.startWith_initial ⟨.zeros 720, false, some 0⟩) Mmaps.mapSteps
    (fun s => (s.hashQuery 1 1).map (fun d => (d.file, d.uaddr)) = some (0, 8 * pgSize) ∧
      Mmaps.stopsWith (s.vm.pageFullLoadIn true 1 (8 * pgSize) none) =
        some .assertion) (by decide +kernel)
  exact ⟨s, reached, isMapped, Mmaps.eq_error_of_stopsWith stops⟩

end Pintos.Vm
