import Pintos.Misc.Transition
import Pintos.Vm.Proofs.Free

/-!
# Runs of virtual memory

Every operation is made of a few moves: a page is added, a frame is evicted, a page is
loaded, a page is freed, a byte is written. The invariant holds after each of them, and
with it the frame table, the page directories and the swap slots agree with the pages in
every state that can be reached.

A frame can stay pinned: `page_free` pins the frame of its page and unpins it only if
the page still has it, which is never the case when other pages share the frame.
-/

namespace Pintos.Vm

open Function List Option FrameTable

variable {vm vm' : Vm} {p : PageId} {pg : Page} {k : KPage} {t : ThreadId} {upage : Nat}
  {step : VmStep}

/-! ## One step -/

theorem Good.pageLazyLoad (good : vm.Good) {args : PageArgs} {type : PageType}
    (notAlloc : type ≠ .alloc) (hasFile : type = .file → args.file ≠ none) :
    (vm.pageLazyLoad t args type).Good := good.addPage rfl rfl notAlloc hasFile

theorem Good.lazyStack (good : vm.Good) (t : ThreadId) (upage : Nat) :
    (vm.pageLazyLoad t (stackArgs upage) .unalloc).Good := good.pageLazyLoad nofun nofun

/-- The state after a store. -/
def store (vm : Vm) (t : ThreadId) (addr : Nat) (b : Byte) : Vm :=
  { vm with
    memory := update vm.memory (vm.pte t (addr / pgSize)).kpage fun i =>
      if i = addr % pgSize then b else vm.memory (vm.pte t (addr / pgSize)).kpage i
    pte := setEntry vm.pte t (addr / pgSize) { vm.pte t (addr / pgSize) with dirty := true } }

/-- The moves that an operation is made of. -/
inductive Moves (vm : Vm) : VmStep → Vm → Prop where
  | pageLazyLoad {t : ThreadId} {args : PageArgs} {type : PageType} (notAlloc : type ≠ .alloc)
      (hasFile : args.file ≠ none) :
      Moves vm (.pageLazyLoad t args type) (vm.pageLazyLoad t args type)
  | notFound {t : ThreadId} {addr : Nat} {victim : Option FrameId} :
      Moves vm (.pageFullLoad t addr victim) vm
  | pageFullLoad {t : ThreadId} {addr : Nat} {victim : Option FrameId} {p : PageId} {pg : Page}
      {evicted vm' : Vm} (found : vm.getPage t (addr / pgSize) = some p)
      (isPage : vm.page p = some pg) (unseated : pg.kpage = none) (evicts : vm.Evicts evicted)
      (loaded : evicted.Loaded p pg vm') : Moves vm (.pageFullLoad t addr victim) vm'
  | pageFullLoadStack {t : ThreadId} {upage : Nat} {victim : Option FrameId} {evicted vm' : Vm}
      (evicts : (vm.pageLazyLoad t (stackArgs upage) .unalloc).Evicts evicted)
      (loaded : evicted.Loaded vm.nextPage (stackPage t upage) vm') :
      Moves vm (.pageFullLoadStack t upage victim) vm'
  | pageFree {p : PageId} {pg : Page} {mid : Vm} (isPage : vm.page p = some pg)
      (freed : vm.Freed p pg mid) : Moves vm (.pageFree p) (mid.dropPage p pg)
  | frameEvict {victim : Option FrameId} {vm' : Vm} (evicts : vm.Evicts vm') :
      Moves vm (.frameEvict victim) vm'
  | userWrite {t : ThreadId} {addr : Nat} {b : Byte}
      (present : (vm.pte t (addr / pgSize)).present = true)
      (writable : (vm.pte t (addr / pgSize)).writable = true) :
      Moves vm (.userWrite t addr b) (vm.store t addr b)
  | rehash {order : List PageId} (perm : order.Perm vm.supPageTable) :
      Moves vm (.rehash order) { vm with supPageTable := order }

/-- The new page of `page_full_load_stack` in the state in which it is loaded. -/
theorem stackPage_of_evicts {evicted : Vm}
    (good : (vm.pageLazyLoad t (stackArgs upage) .unalloc).Good)
    (evicts : (vm.pageLazyLoad t (stackArgs upage) .unalloc).Evicts evicted) :
    evicted.page vm.nextPage = some (stackPage t upage) :=
  evicts.page_of_unseated good (update_self ..) rfl

theorem Good.moves (good : vm.Good) (taken : vm.next step = some vm') : vm.Moves step vm' := by
  cases step with
  | pageLazyLoad t args type =>
    obtain ⟨allowed, rfl⟩ := ite_some_none_eq_some.mp taken
    exact .pageLazyLoad allowed.1 allowed.2
  | pageFullLoad t addr victim =>
    obtain ⟨⟨success, after⟩, run, rfl⟩ := map_eq_some_iff.mp taken
    rcases good.pageFullLoad (Except.toOption_eq_some.mp run) with ⟨-, rfl⟩ |
      ⟨-, p, pg, evicted, found, isPg, unseated, evicts, loaded⟩
    · exact .notFound
    · exact .pageFullLoad found isPg unseated evicts loaded
  | pageFullLoadStack t upage victim =>
    obtain ⟨⟨success, after⟩, run, rfl⟩ := map_eq_some_iff.mp taken
    have goodBefore := good.lazyStack t upage
    obtain ⟨-, evicted, evicts, loaded⟩ :=
      goodBefore.pageFullLoadStack (Except.toOption_eq_some.mp run)
    exact .pageFullLoadStack evicts loaded
  | pageFree p =>
    obtain ⟨pg, mid, isPg, freed, rfl⟩ := good.pageFree_ok (Except.toOption_eq_some.mp taken)
    exact .pageFree isPg freed
  | frameEvict victim =>
    have run := Except.toOption_eq_some.mp taken
    rcases good.frameEvict victim with full | ⟨evicted, run', evicts⟩
    · rw [full] at run
      cases run
    rw [run'] at run
    cases run
    exact .frameEvict evicts
  | userWrite t addr b =>
    obtain ⟨⟨present, writable⟩, rfl⟩ := ite_some_none_eq_some.mp taken
    exact .userWrite present writable
  | rehash order =>
    obtain ⟨perm, rfl⟩ := ite_some_none_eq_some.mp taken
    exact .rehash perm

theorem Good.userWrite (good : vm.Good)
    (writable : (vm.pte t upage).writable = true) (memory : KPage → PageData) :
    Good { vm with
      memory, pte := setEntry vm.pte t upage { vm.pte t upage with dirty := true } } where
  seating := good.seating
  mapping := good.mapping.congr (setEntry_dirty vm.pte t upage true)
  contents := by
    apply good.contents.congr_pte
    intro q pg isPg seated
    dsimp only
    by_cases here : pg.owner = t ∧ pg.upage = upage
    · rw [here.1, here.2, setEntry_self]
      refine ⟨rfl, ?_⟩
      -- the page is not read-only, because its entry is not
      intro readOnly
      rw [← here.1, ← here.2, ((good.contents.fits isPg).entry seated).1, readOnly] at writable
      cases writable
    · rw [setEntry_of_ne _ here]
      exact ⟨rfl, fun _ => rfl⟩
  registry := good.registry

theorem Good.next (good : vm.Good) (taken : vm.next step = some vm') : vm'.Good := by
  cases good.moves taken with
  | pageLazyLoad notAlloc hasFile => exact good.pageLazyLoad notAlloc fun _ => hasFile
  | notFound => exact good
  | pageFullLoad found isPg unseated evicts loaded =>
    exact (good.evicts evicts).loaded (evicts.page_of_unseated good isPg unseated) unseated loaded
  | @pageFullLoadStack t upage victim evicted vm' evicts loaded =>
    have goodBefore := good.lazyStack t upage
    exact (goodBefore.evicts evicts).loaded (stackPage_of_evicts goodBefore evicts) rfl loaded
  | pageFree isPg freed => exact good.freed isPg freed
  | frameEvict evicts => exact good.evicts evicts
  | userWrite present writable => exact good.userWrite writable _
  | rehash perm =>
    exact ⟨good.seating, good.mapping, good.contents,
      good.registry.subtable (perm.nodup_iff.mpr good.registry.tableNodup) perm.subset⟩

theorem good_of_reachable (reach : Reachable Initial next AnyStep vm) : vm.Good :=
  reach.invariant (fun _ init => init.good) fun _ _ _ good _ taken => good.next taken

/-! ## Frames, owners and page directories -/

/-- The page is in the frame of a kernel page: the frame exists, has one record of the
    page among its owners, and the page directory of the owner maps it. -/
structure InFrame (vm : Vm) (p : PageId) (pg : Page) (k : KPage) : Prop where
  frame : ∃ f, vm.table.frameHash k = some f ∧
    (vm.table.frame f).ownerList.filter (fun o => o.supPage = p) = [⟨pg.upage, pg.owner, p⟩]
  entry : (vm.pte pg.owner pg.upage).present = true ∧ (vm.pte pg.owner pg.upage).kpage = k

theorem Good.inFrame_iff (good : vm.Good) (isPg : vm.page p = some pg) :
    pg.kpage = some k ↔ vm.InFrame p pg k := by
  constructor
  · intro sits
    obtain ⟨f, mem, rfl, owns⟩ := good.frame_of_page isPg sits
    refine ⟨⟨f, good.seating.listed.hashed_of_mem mem, ?_⟩,
      good.mapping.maps (seat_of_page isPg sits)⟩
    rw [← perm_singleton, perm_ext_iff_of_nodup ((good.seating.nodup mem).filter _)
      (nodup_singleton _)]
    intro o
    rw [mem_filter, mem_singleton]
    constructor
    · exact fun both => good.seating.owner_unique mem both.1 owns (of_decide_eq_true both.2)
    · rintro rfl
      exact ⟨owns, decide_eq_true rfl⟩
  rintro ⟨⟨f, found, single⟩, -⟩
  obtain ⟨mem, rfl⟩ := good.seating.listed.hashed.mp found
  have owns : ownerRecord p pg ∈ (vm.table.frame f).ownerList := by
    have inFilter : ownerRecord p pg ∈
        (vm.table.frame f).ownerList.filter (fun o => o.supPage = p) := by
      rw [single]
      exact mem_cons_self ..
    exact (mem_filter.mp inFilter).1
  obtain ⟨pg', isPg', sits, -⟩ := (good.owner_iff mem).mp owns
  rw [show vm.page (ownerRecord p pg).supPage = some pg from isPg, some.injEq] at isPg'
  rwa [isPg']

theorem Good.inFrame_of_present (good : vm.Good) (present : (vm.pte t upage).present = true) :
    ∃ p pg, vm.page p = some pg ∧ pg.owner = t ∧ pg.upage = upage ∧
      vm.InFrame p pg (vm.pte t upage).kpage := by
  obtain ⟨p, o, sits, rfl, rfl⟩ := good.mapping.backed present
  obtain ⟨pg, isPg, isKpage, rfl⟩ := seat_eq_some.mp sits
  exact ⟨p, pg, isPg, rfl, rfl, (good.inFrame_iff isPg).mp isKpage⟩

/-- A machine after start, with this many frames and swap slots, on which all processes
    have the same name and all files are one page of zeros. -/
def start (frames slots : Nat) : Vm where
  table := .frameInit
  userPool := ⟨frames, fun _ => false⟩
  memory := fun _ _ => 0
  page := fun _ => none
  nextPage := 0
  supPageTable := []
  pageList := fun _ => []
  pte := fun _ _ => ⟨false, 0, false, false⟩
  swap := ⟨⟨slots, fun _ => false⟩, fun _ _ => 0, fun _ _ => 0⟩
  file := fun _ => ⟨.zeros pgSize, true, none⟩
  name := fun _ => []

theorem start_initial (frames slots : Nat) : (start frames slots).Initial :=
  ⟨rfl, fun _ => rfl, fun _ => rfl, rfl, fun _ => rfl, fun _ _ => rfl, fun _ => rfl⟩

/-- A page of the program at user page 8. -/
def programArgs (writable : Bool) : PageArgs := ⟨some 0, 0, 8, pgSize, 0, rfl, writable⟩

/-- Processes 1 and 2 load the same read-only page. -/
def shareSteps : List VmStep :=
  [.pageLazyLoad 1 (programArgs false) .unalloc, .pageLazyLoad 2 (programArgs false) .unalloc,
    .pageFullLoad 1 (8 * pgSize) none, .pageFullLoad 2 (8 * pgSize) none]

/-- In every state that can be reached, the hash table and the list hold the same frames
    with distinct pages; a page has a frame exactly if the frame, its owners and the page
    directory say so; present entries belong to such pages, so nothing is left for
    `pagedir_destroy` once the pages of a process are freed. -/
theorem frames_agree_with_pages (reached : Reachable Initial next AnyStep vm) :
    (vm.table.frameList.Nodup ∧ (∀ f, f ∈ vm.table.frameList ↔ ∃ k, vm.table.frameHash k = some f) ∧
      ∀ f ∈ vm.table.frameList, ∀ g ∈ vm.table.frameList,
        (vm.table.frame f).kpage = (vm.table.frame g).kpage → f = g) ∧
    (∀ p pg k, vm.page p = some pg → (pg.kpage = some k ↔ vm.InFrame p pg k)) ∧
    (∀ t upage, (vm.pte t upage).present = true → ∃ p pg, vm.page p = some pg ∧ pg.owner = t ∧
      pg.upage = upage ∧ vm.InFrame p pg (vm.pte t upage).kpage) ∧
    ∀ t, (∀ p pg, vm.page p = some pg → pg.owner ≠ t) → ∀ k, ¬ vm.PagedirDestroyFrees t k := by
  have good := good_of_reachable reached
  have listed := good.seating.listed
  refine ⟨⟨listed.nodup, ?_, ?_⟩, ?_, ?_, ?_⟩
  · intro f
    constructor
    · exact fun member => ⟨_, listed.hashed_of_mem member⟩
    · exact fun ⟨k, found⟩ => (listed.hashed.mp found).1
  · exact fun f memberF g memberG same => listed.kpage_inj memberF memberG same
  · exact fun p pg k isPage => good.inFrame_iff isPage
  · exact fun t upage present => good.inFrame_of_present present
  rintro t ownsNothing k ⟨upage, present, -⟩
  obtain ⟨p, pg, isPage, isOwner, -⟩ := good.inFrame_of_present present
  exact ownsNothing p pg isPage isOwner

/-- Two processes share a frame, and each has its own record in it. -/
theorem frames_agree_with_pages_shared :
    ∃ vm, Reachable Initial next AnyStep vm ∧ ∃ pg pg' k, vm.page 0 = some pg ∧
      vm.page 1 = some pg' ∧ vm.InFrame 0 pg k ∧ vm.InFrame 1 pg' k := by
  obtain ⟨vm, reached, first, second⟩ := reachable_of_run next AnyStep (start_initial 2 2) shareSteps
    (fun vm => ((vm.page 0).bind Page.kpage) = some 0 ∧ ((vm.page 1).bind Page.kpage) = some 0)
    (by decide)
  obtain ⟨pg, isPage, sits⟩ := bind_eq_some_iff.mp first
  obtain ⟨pg', isPage', sits'⟩ := bind_eq_some_iff.mp second
  have agree := (frames_agree_with_pages reached).2.1
  exact ⟨vm, reached, pg, pg', 0, isPage, isPage', (agree 0 pg 0 isPage).mp sits,
    (agree 1 pg' 0 isPage').mp sits'⟩

/-! ## Pinned frames -/

/-- No frame in the table is pinned. -/
def Unpinned (vm : Vm) : Prop := ∀ f ∈ vm.table.frameList, (vm.table.frame f).pinned = false

/-- `page_free` is for a page that shares its frame with no other page. -/
def FreesAlone (vm : Vm) : VmStep → Prop
  | .pageFree p => ∀ f ∈ vm.table.frameList, ∀ o ∈ (vm.table.frame f).ownerList,
      o.supPage = p → (vm.table.frame f).ownerList = [o]
  | _ => True

instance (vm : Vm) (step : VmStep) : Decidable (vm.FreesAlone step) := by
  unfold FreesAlone
  apply @VmStep.casesOn _ step <;> intros <;> infer_instance

section

variable (unpinned : vm.Unpinned)
include unpinned

theorem Unpinned.evicts (evicts : vm.Evicts vm') : vm'.Unpinned := by
  cases evicts with
  | nothing => exact unpinned
  | @victim f saved mem _ saves =>
    intro g memberG
    have isTable : (saved.vacate f (vm.table.frame f).kpage).table =
        (vm.table.dropOwners f).drop f := by
      unfold vacate
      rw [saves.keeps.table]
    rw [isTable] at memberG ⊢
    have still : g ∈ vm.table.frameList := mem_of_mem_erase memberG
    show ((vm.table.dropOwners f).frame g).pinned = false
    by_cases isF : g = f
    · rw [isF, dropOwners, setFrame_frame_self]
      exact unpinned f mem
    · rw [dropOwners, setFrame_frame_of_ne _ isF]
      exact unpinned g still

theorem Unpinned.loaded (good : vm.Good) (loaded : vm.Loaded p pg vm') : vm'.Unpinned := by
  -- the frame of the page is unpinned at the end, the others are as before
  have granted : ∀ k o, ∀ g ∈ (vm.table.frameAlloc none k o true).frameList,
      (((vm.table.frameAlloc none k o true).unpin vm.table.nextFrame).frame g).pinned = false := by
    intro k o g memberG
    by_cases new : g = vm.table.nextFrame
    · rw [new, unpin, setFrame_frame_self]
    have old := (mem_listInsert.mp memberG).resolve_left new
    rw [unpin, setFrame_frame_of_ne _ new, good.seating.listed.frameAlloc_frame old]
    exact unpinned g old
  cases loaded with
  | read free absent notAlloc => exact granted _ _
  | swappedIn free absent swapped => exact granted _ _
  | @shared q cur f isCur curAlloc curReadOnly sits mem absent isUnalloc readOnly =>
    intro g memberG
    show ((unpin _ f).frame g).pinned = false
    by_cases isF : g = f
    · rw [isF, unpin, setFrame_frame_self]
    rw [unpin, setFrame_frame_of_ne _ isF, setFrame_frame_of_ne _ isF]
    exact unpinned g memberG

/-- `page_free` of a page that is alone in its frame. -/
theorem Unpinned.freed (good : vm.Good) (isPg : vm.page p = some pg)
    {mid : Vm} (freed : vm.Freed p pg mid) (alone : vm.FreesAlone (.pageFree p)) :
    (mid.dropPage p pg).Unpinned := by
  cases freed with
  | unread isUnalloc => exact unpinned
  | swapped swapped => exact unpinned
  | @resident k pinned table freed sits pins removes =>
    obtain ⟨f, mem, rfl, owns⟩ := good.frame_of_page isPg sits
    intro g still
    obtain ⟨old, same⟩ :=
      good.seating.listed.frameRemove_alone mem (alone f mem _ owns rfl) pins removes still
    exact (congrArg Frame.pinned same).trans (unpinned g old)

theorem Unpinned.next (good : vm.Good)
    (alone : vm.FreesAlone step) (taken : vm.next step = some vm') : vm'.Unpinned := by
  cases good.moves taken with
  | pageLazyLoad notAlloc hasFile => exact unpinned
  | notFound => exact unpinned
  | pageFullLoad found isPg unseated evicts loaded =>
    exact (unpinned.evicts evicts).loaded (good.evicts evicts) loaded
  | @pageFullLoadStack t upage victim evicted vm' evicts loaded =>
    have goodBefore := good.lazyStack t upage
    have unpinnedBefore : (vm.pageLazyLoad t (stackArgs upage) .unalloc).Unpinned := unpinned
    exact (unpinnedBefore.evicts evicts).loaded (goodBefore.evicts evicts) loaded
  | pageFree isPg freed => exact unpinned.freed good isPg freed alone
  | frameEvict evicts => exact unpinned.evicts evicts
  | userWrite present writable => exact unpinned
  | rehash perm => exact unpinned

end

/-- If no page is freed while others share its frame, no frame is pinned between the operations. -/
theorem unpinned_of_freesAlone (reached : Reachable Initial next FreesAlone vm) :
    vm.Unpinned := by
  have both : vm.Good ∧ vm.Unpinned := by
    apply reached.invariant (P := fun vm => vm.Good ∧ vm.Unpinned)
    · intro vm initial
      refine ⟨initial.good, ?_⟩
      intro f member
      rw [initial.table] at member
      cases member
    · exact fun vm step vm' both alone taken =>
        ⟨both.1.next taken, both.2.next both.1 alone taken⟩
  exact both.2

/-- A frame that was shared is not pinned after the sharers have loaded it. -/
theorem unpinned_of_freesAlone_shared :
    ∃ vm, Reachable Initial next FreesAlone vm ∧ vm.table.frameList = [0] ∧ vm.Unpinned := by
  obtain ⟨vm, reached, test⟩ := reachable_of_run next FreesAlone (start_initial 2 2)
    shareSteps (fun vm => vm.table.frameList = [0]) (by decide)
  exact ⟨vm, reached, test, unpinned_of_freesAlone reached⟩

/-- Two processes share a frame. When one of them frees its page the frame stays in the
    table, pinned. -/
theorem pageFree_leaves_frame_pinned : ∃ vm, Reachable Initial next AnyStep vm ∧
      ∃ f ∈ vm.table.frameList, (vm.table.frame f).pinned = true := by
  obtain ⟨vm, reached, isList, isPinned⟩ := reachable_of_run next AnyStep (start_initial 2 2)
    (shareSteps ++ [.pageFree 0])
    (fun vm => vm.table.frameList = [0] ∧ (vm.table.frame 0).pinned = true) (by decide)
  refine ⟨vm, reached, 0, ?_, isPinned⟩
  rw [isList]
  exact mem_cons_self ..

/-! ## Swap slots -/

/-- The loop of `process_exit` frees the pages of the list and no others. -/
theorem Good.freePages (good : vm.Good) {pages : List PageId}
    (run : pages.foldlM Vm.pageFree vm = .ok vm') :
    vm'.Good ∧ ∀ p, vm'.page p = if p ∈ pages then none else vm.page p := by
  induction pages generalizing vm with
  | nil =>
    cases run
    exact ⟨good, fun p => rfl⟩
  | cons q rest ih =>
    rw [foldlM_cons] at run
    obtain ⟨after, first, run⟩ := Except.bind_eq_ok.mp run
    obtain ⟨pg, mid, isPg, freed, rfl⟩ := good.pageFree_ok first
    obtain ⟨goodAfter, others⟩ := ih (good.freed isPg freed) run
    refine ⟨goodAfter, fun p => ?_⟩
    rw [others, freed.dropPage_page]
    by_cases isQ : p = q
    · rw [isQ, update_self, if_pos (mem_cons_self ..), ite_self]
    · simp only [update_of_ne isQ, mem_cons, isQ, false_or]

/-- No page in a slot is left of a process that has freed the pages of its list. -/
theorem Good.freePageList (good : vm.Good) (run : vm.freePageList t = .ok vm')
    {slot : SlotId} (isPg : vm'.page p = some pg) (swapped : pg.Swapped slot) : pg.owner ≠ t := by
  rintro rfl
  rw [(good.freePages run).2] at isPg
  split at isPg
  · cases isPg
  rename_i unlisted
  apply unlisted
  apply good.registry.listed.mpr ⟨pg, isPg, rfl, ?_⟩
  rw [swapped.1]
  exact nofun

/-- In every state that can be reached, the swap slots in use are in bijection with the
    pages of type `PAGE_ALLOC` without a frame, and each slot gives back the bytes that
    `swap_out` was given. A process that has freed the pages of its list has no slot. -/
theorem swap_slots_are_swapped_pages (reached : Reachable Initial next AnyStep vm) :
    (∀ p pg, vm.page p = some pg → pg.type = .alloc → pg.kpage = none →
      ∃ slot, pg.slotIdx = some slot ∧ vm.swap.Used slot) ∧
    (∀ slot, vm.swap.Used slot → ∃! p, ∃ pg, vm.page p = some pg ∧ pg.Swapped slot) ∧
    (∀ slot, vm.swap.Used slot → ∃ swap, vm.swap.swapIn slot = .ok (some (vm.swap.given slot, swap))
      ∧ ∀ slot', swap.Used slot' ↔ vm.swap.Used slot' ∧ slot' ≠ slot) ∧
    ∀ t vm', vm.freePageList t = .ok vm' → ∀ slot, vm'.swap.Used slot →
      ∃ p pg, vm'.page p = some pg ∧ pg.Swapped slot ∧ pg.owner ≠ t := by
  have good := good_of_reachable reached
  refine ⟨?_, ?_, ?_, ?_⟩
  · exact fun p pg isPage isAlloc unseated => ((good.contents.fits isPage).alloc isAlloc unseated).2
  · intro slot used
    obtain ⟨p, pg, isPage, swapped⟩ := good.contents.slots used
    refine ⟨p, ⟨pg, isPage, swapped⟩, ?_⟩
    rintro q ⟨pg', isQ, swappedQ⟩
    exact good.contents.slotInj isQ isPage swappedQ swapped
  · intro slot used
    rw [Swap.swapIn_of_used used, good.contents.data used]
    exact ⟨_, rfl, fun slot' => Swap.used_clear⟩
  intro t vm' run slot used
  obtain ⟨p, pg, isPage, swapped⟩ := (good.freePages run).1.contents.slots used
  exact ⟨p, pg, isPage, swapped, good.freePageList run isPage swapped⟩

/-- A process writes to a page and the page is evicted: its slot is in use. -/
theorem swap_slots_are_swapped_pages_evict :
    ∃ vm, Reachable Initial next AnyStep vm ∧ vm.swap.Used 0 ∧
      ∃ p pg, vm.page p = some pg ∧ pg.Swapped 0 := by
  obtain ⟨vm, reached, used⟩ := reachable_of_run next AnyStep (start_initial 2 2)
    [.pageLazyLoad 1 (programArgs true) .unalloc, .pageFullLoad 1 (8 * pgSize) none, .userWrite 1
      (8 * pgSize) 7, .frameEvict (some 0)]
    (fun vm => vm.swap.Used 0) (by decide)
  obtain ⟨p, ⟨pg, isPage, swapped⟩, -⟩ := (swap_slots_are_swapped_pages reached).2.1 0 used
  exact ⟨vm, reached, used, p, pg, isPage, swapped⟩

end Pintos.Vm
