import Pintos.Misc.Outcome
import Pintos.Userprog.Mmap
import Pintos.Vm.Proofs.Memory

/-!
# The pages of a mapping

A turn of the loop of `munmap_` frees the page that `mmap_` registered for the offset and
no other one, as long as the file has not become longer by a page. What it relies on is
that the page is registered, that no other page of the process has its address, and that
the file still has the bytes that are loaded from it.
-/

namespace Pintos

open Function List Nat

variable {pg pg' : Page} {size ofs done done' len n : Nat} {saved mid : Vm} {d : MmapData} {k : Nat}

/-- The page for the offset `k * PGSIZE` of a mapping. -/
structure MmapData.PageAt (d : MmapData) (k : Nat) (pg : Page) : Prop where
  owner : pg.owner = d.owner
  upage : pg.upage = d.uaddr / pgSize + k
  type : pg.type = .file
  file : pg.file = some d.file
  ofs : pg.ofs = k * pgSize

theorem MmapData.PageAt.kin (pageAt : d.PageAt k pg) (kin : pg.Kin pg') : d.PageAt k pg' where
  owner := kin.owner.trans pageAt.owner
  upage := kin.upage.trans pageAt.upage
  type := kin.file.mpr pageAt.type
  file := (congrArg PageArgs.file kin.args).trans pageAt.file
  ofs := (congrArg PageArgs.ofs kin.args).trans pageAt.ofs

theorem MmapData.HasPage.offset {p : PageId} (hasPage : d.HasPage p) :
    ∃ k < d.count, p = d.firstPage + k :=
  ⟨p - d.firstPage, Nat.sub_lt_left_of_lt_add hasPage.1 hasPage.2,
    (Nat.add_sub_cancel' hasPage.1).symm⟩

theorem MmapData.hasPage_offset (small : k < d.count) : d.HasPage (d.firstPage + k) :=
  ⟨Nat.le_add_right .., Nat.add_lt_add_left small _⟩

namespace Vm

variable {vm vm' vm'' : Vm} {p : PageId} {pg : Page} {gone gone' : PageId → Prop}

/-! ## Pages that go and pages that stay -/

/-- How far a file goes, and how far it can be read. -/
def extent (vm : Vm) (file : FileId) : Nat × Option Nat :=
  (vm.fileLength file, (vm.file file).readEnd)

/-- The pages in `gone` are freed, and the other pages are what they were. -/
structure Drops (vm vm' : Vm) (gone : PageId → Prop) : Prop where
  forth : ∀ {p pg}, vm.page p = some pg → ¬ gone p → ∃ pg', vm'.page p = some pg' ∧ pg.Kin pg'
  back : ∀ {p pg'}, vm'.page p = some pg' → ¬ gone p ∧ ∃ pg, vm.page p = some pg ∧ pg.Kin pg'
  table : ∀ {p}, p ∈ vm'.supPageTable ↔ p ∈ vm.supPageTable ∧ ¬ gone p
  extent : ∀ file, vm'.extent file = vm.extent file

theorem Drops.length (drops : vm.Drops vm' gone) (file : FileId) :
    vm'.fileLength file = vm.fileLength file := congrArg Prod.fst (drops.extent file)

theorem drops_of_kin (kin : KinPages vm.page vm'.page)
    (table : ∀ {p}, p ∈ vm'.supPageTable ↔ p ∈ vm.supPageTable)
    (extent : ∀ file, vm'.extent file = vm.extent file) :
    vm.Drops vm' fun _ => False where
  forth isPage _ := kin.forth isPage
  back isPage := ⟨id, kin.back isPage⟩
  table := table.trans (and_iff_left id).symm
  extent := extent

theorem Drops.refl (vm : Vm) : vm.Drops vm fun _ => False :=
  drops_of_kin (.refl _) Iff.rfl fun _ => rfl

theorem Drops.trans (first : vm.Drops vm' gone) (second : vm'.Drops vm'' gone') :
    vm.Drops vm'' fun p => gone p ∨ gone' p where
  forth {p pg} isPage stays := by
    obtain ⟨pg', isPage', kin⟩ := first.forth isPage fun isGone => stays (.inl isGone)
    obtain ⟨pg'', isPage'', kin'⟩ := second.forth isPage' fun isGone => stays (.inr isGone)
    exact ⟨pg'', isPage'', kin.trans kin'⟩
  back {p pg''} isPage := by
    obtain ⟨stays', pg', isPage', kin'⟩ := second.back isPage
    obtain ⟨stays, pg, wasPg, kin⟩ := first.back isPage'
    exact ⟨not_or.mpr ⟨stays, stays'⟩, pg, wasPg, kin.trans kin'⟩
  table {p} := by
    rw [second.table, first.table, and_assoc, not_or]
  extent file := (second.extent file).trans (first.extent file)

theorem Drops.congr (drops : vm.Drops vm' gone) (same : ∀ p, gone p ↔ gone' p) :
    vm.Drops vm' gone' := by
  rwa [← show gone = gone' from funext fun p => propext (same p)]

theorem Drops.isSome (drops : vm.Drops vm' gone) (p : PageId) :
    (vm'.page p).isSome ↔ (vm.page p).isSome ∧ ¬ gone p := by
  rw [Option.isSome_iff_exists, Option.isSome_iff_exists]
  constructor
  · rintro ⟨pg', isPg⟩
    obtain ⟨stays, pg, wasPg, -⟩ := drops.back isPg
    exact ⟨⟨pg, wasPg⟩, stays⟩
  rintro ⟨⟨pg, isPg⟩, stays⟩
  obtain ⟨pg', isPg', -⟩ := drops.forth isPg stays
  exact ⟨pg', isPg'⟩

/-! ## Pages within their files -/

/-- The files have the bytes of the pages that are mapped to them. -/
structure Within (vm : Vm) : Prop where
  inside : ∀ {p pg file}, vm.page p = some pg → pg.type = .file → pg.file = some file →
    pg.ofs + pg.readBytes ≤ vm.fileLength file

theorem Within.drops (within : vm.Within) (drops : vm.Drops vm' gone) : vm'.Within where
  inside {p pg' file} isPg isFile hasFile := by
    obtain ⟨-, pg, wasPg, kin⟩ := drops.back isPg
    have old := within.inside wasPg (kin.file.mp isFile)
      ((congrArg PageArgs.file kin.args).symm.trans hasFile)
    rw [drops.length, congrArg PageArgs.ofs kin.args, congrArg PageArgs.readBytes kin.args]
    exact old

theorem fileWriteAt_extent {file : FileId}
    (inside : ofs + size ≤ vm.fileLength file) (data : PageData) (file' : FileId) :
    (vm.fileWriteAt file data size ofs).extent file' = vm.extent file' := by
  unfold fileWriteAt extent fileLength
  split
  · rfl
  by_cases same : file' = file
  · subst same
    dsimp only
    rw [update_self]
    exact congrArg (·, _) (max_eq_left inside)
  · dsimp only
    rw [update_of_ne same]

theorem Saved.extent {k : KPage} (saves : vm.Saved k saved) (within : vm.Within)
    (file : FileId) : saved.extent file = vm.extent file := by
  cases saves with
  | swapped isPg sits only isAlloc writable run => rfl
  | clean unwritten => rfl
  | kept isFile unwritten => rfl
  | writtenBack isPg sits isFile dirty hasFile =>
    exact fileWriteAt_extent (within.inside isPg (isFile isPg sits) hasFile) _ file

theorem Evicts.kinPages (evicts : vm.Evicts vm') (good : vm.Good) : KinPages vm.page vm'.page := by
  cases evicts with
  | nothing => exact .refl _
  | @victim f saved mem unpinned saves =>
    obtain ⟨change, departs⟩ := good.departs saves
    show KinPages vm.page (changeAt saved.page _ _)
    rw [departs.page]
    exact changeAt_kin departs.kin

theorem Evicts.drops (evicts : vm.Evicts vm') (good : vm.Good) (within : vm.Within) :
    vm.Drops vm' fun _ => False := by
  apply drops_of_kin (evicts.kinPages good)
  · rw [evicts.supPageTable]
  intro file
  cases evicts with
  | nothing => rfl
  | victim mem unpinned saves => exact saves.extent within file

theorem Loaded.kinPages (loaded : vm.Loaded p pg vm') (good : vm.Good)
    (isPg : vm.page p = some pg) (unseated : pg.kpage = none) : KinPages vm.page vm'.page := by
  obtain ⟨k, spec⟩ := good.loadedAt unseated loaded
  rw [spec.page]
  apply KinPages.update isPg
  refine ⟨rfl, rfl, ?_⟩
  cases isType : pg.type <;> simp

theorem Loaded.drops (loaded : vm.Loaded p pg vm') (good : vm.Good) (isPg : vm.page p = some pg)
    (unseated : pg.kpage = none) : vm.Drops vm' fun _ => False := by
  obtain ⟨k, spec⟩ := good.loadedAt unseated loaded
  apply drops_of_kin (loaded.kinPages good isPg unseated)
  · rw [spec.supPageTable]
  intro file
  unfold extent fileLength
  rw [spec.file]

theorem Freed.extent (freed : vm.Freed p pg mid) (file : FileId) :
    (mid.dropPage p pg).extent file = vm.extent file := by
  cases freed with
  | unread isUnalloc => rfl
  | resident sits pins removes => rfl
  | swapped swapped => rfl

/-- `page_free` of a registered page frees this page. -/
theorem Freed.drops (freed : vm.Freed p pg mid) (good : vm.Good)
    (isPg : vm.page p = some pg) (mem : p ∈ vm.supPageTable) :
    vm.Drops (mid.dropPage p pg) (· = p) where
  forth {q pg'} isQ stays := by
    exact ⟨pg', freed.page_eq_some.mpr ⟨stays, isQ⟩, .refl pg'⟩
  back {q pg'} isQ := by
    obtain ⟨ne, wasQ⟩ := freed.page_eq_some.mp isQ
    exact ⟨ne, pg', wasQ, .refl pg'⟩
  table {q} := by
    rw [freed.supPageTable isPg, getPage_of_mem good.registry mem isPg]
    rw [good.registry.tableNodup.mem_erase_iff, and_comm]
  extent := freed.extent

/-! ## The pages of a mapping -/

/-- The pages of a mapping from the offset `done * PGSIZE` on are there. -/
structure Mapped (vm : Vm) (d : MmapData) (done : Nat) : Prop where
  aligned : d.uaddr % pgSize = 0
  nonzero : d.uaddr ≠ 0
  user : d.uaddr / pgSize + d.count < physBasePage
  pages : ∀ {k}, done ≤ k → k < d.count → d.firstPage + k ∈ vm.supPageTable ∧
    ∃ pg, vm.page (d.firstPage + k) = some pg ∧ d.PageAt k pg
  only : ∀ {k q pg}, done ≤ k → k < d.count → vm.page q = some pg → pg.owner = d.owner →
    pg.upage = d.uaddr / pgSize + k → q = d.firstPage + k
  whole : (vm.file d.file).readEnd = none

theorem Mapped.drops (mapped : vm.Mapped d done) (drops : vm.Drops vm' gone) (later : done ≤ done')
    (stays : ∀ {k}, done' ≤ k → k < d.count → ¬ gone (d.firstPage + k)) :
    vm'.Mapped d done' where
  aligned := mapped.aligned
  nonzero := mapped.nonzero
  user := mapped.user
  pages {k} left small := by
    obtain ⟨mem, pg, isPg, pageAt⟩ := mapped.pages (le_trans later left) small
    obtain ⟨pg', isPg', kin⟩ := drops.forth isPg (stays left small)
    exact ⟨drops.table.mpr ⟨mem, stays left small⟩, pg', isPg', pageAt.kin kin⟩
  only {k q pg'} left small isPg isOwner isUpage := by
    obtain ⟨-, pg, wasPg, kin⟩ := drops.back isPg
    exact mapped.only (le_trans later left) small wasPg (kin.owner.symm.trans isOwner)
      (kin.upage.symm.trans isUpage)
  whole := (congrArg Prod.snd (drops.extent d.file)).trans mapped.whole

theorem upage_of_offset (d : MmapData) (k : Nat) :
    (d.uaddr + k * pgSize) / pgSize = d.uaddr / pgSize + k :=
  add_mul_div_right _ _ (by decide)

section Turn

variable (good : vm.Good) (within : vm.Within) (mapped : vm.Mapped d k) (small : k < d.count)
  (victim : Option FrameId)
include good mapped small

theorem getPage_of_mapped :
    vm.getPage d.owner ((d.uaddr + k * pgSize) / pgSize) = some (d.firstPage + k) := by
  obtain ⟨mem, pg, isPg, pageAt⟩ := mapped.pages (le_refl k) small
  rw [upage_of_offset, ← pageAt.owner, ← pageAt.upage]
  exact getPage_of_mem good.registry mem isPg

/-- The entry of a page of a mapping that has no frame is not present: no other page of
    the process could be there. -/
theorem absent_of_mapped (isPg : vm.page (d.firstPage + k) = some pg) (unseated : pg.kpage = none)
    (pageAt : d.PageAt k pg) : (vm.pte pg.owner pg.upage).present = false := by
  rw [← Bool.not_eq_true]
  intro present
  obtain ⟨q, pg', isQ, sameOwner, sameUpage, inFrame⟩ := good.inFrame_of_present present
  have isFirst := mapped.only (le_refl k) small isQ (sameOwner.trans pageAt.owner)
    (sameUpage.trans pageAt.upage)
  rw [isFirst, isPg, Option.some.injEq] at isQ
  subst isFirst isQ
  have sits := (good.inFrame_iff isPg).mpr inFrame
  rw [unseated] at sits
  cases sits

include within

/-- `page_full_load` of a page of a mapping. -/
theorem loadPage_of_mapped (isPg : vm.page (d.firstPage + k) = some pg)
    (unseated : pg.kpage = none) (pageAt : d.PageAt k pg) :
    Settles Panic.Scarce (fun result => ∃ evicted, vm.Evicts evicted ∧
        evicted.Loaded (d.firstPage + k) pg result.2)
      (vm.loadPage (d.firstPage + k) pg victim) := by
  have noSlot := ((good.contents.fits isPg).file pageAt.type).1
  have notShared : vm.sharedPage pg = none := by
    unfold sharedPage
    rw [if_neg]
    rintro ⟨isUnalloc, -⟩
    rw [pageAt.type] at isUnalloc
    cases isUnalloc
  have isLoad : vm.loadPage (d.firstPage + k) pg victim =
      vm.loadFile (d.firstPage + k) pg victim := by
    unfold loadPage
    rw [pageAt.type, unseated, noSlot]
    dsimp only
    rw [notShared]
  have inUser : pg.upage < physBasePage := by
    have user := mapped.user
    rw [pageAt.upage]
    omega
  have notAlloc : pg.type ≠ .alloc := by
    rw [pageAt.type]
    exact nofun
  rw [isLoad]
  rcases good.loadFile isPg unseated inUser victim notAlloc with ⟨e, run, scarce⟩ |
    ⟨evicted, evicts, outcome⟩
  · rw [run]
    exact scarce
  have drops := evicts.drops good within
  have isPageAfter := evicts.page_of_unseated good isPg unseated
  have mappedAfter := mapped.drops drops (le_refl k) fun _ _ => id
  have reads : evicted.ReadsAll pg := by
    refine .inr ⟨d.file, pageAt.file, ?_⟩
    unfold VmFile.readable
    rw [mappedAfter.whole, Option.getD_none, min_self]
    exact (within.drops drops).inside isPageAfter pageAt.type pageAt.file
  have absent := absent_of_mapped (good.evicts evicts) mappedAfter small isPageAfter unseated pageAt
  rw [if_pos ⟨reads, absent⟩] at outcome
  obtain ⟨after, loaded, run⟩ := outcome
  rw [run]
  exact ⟨evicted, evicts, loaded⟩

theorem munmapLoad_settles :
    Settles Panic.Scarce (fun vm' => vm'.Good ∧ (vm.Drops vm' fun _ => False) ∧
        ∃ pg, vm'.page (d.firstPage + k) = some pg ∧ pg.kpage ≠ none)
      (vm.munmapLoad d.owner (d.uaddr + k * pgSize) (d.firstPage + k) victim) := by
  obtain ⟨mem, pg, isPg, pageAt⟩ := mapped.pages (le_refl k) small
  unfold munmapLoad
  rw [isPg, Option.bind_some]
  by_cases unseated : pg.kpage = none
  · rw [if_pos unseated]
    have isLoad : vm.pageFullLoad d.owner (d.uaddr + k * pgSize) victim =
        vm.loadPage (d.firstPage + k) pg victim := by
      have nonzero := mapped.nonzero
      unfold pageFullLoad
      rw [if_neg (by omega), getPage_of_mapped good mapped small]
      dsimp only
      rw [isPg]
    rw [isLoad]
    apply (loadPage_of_mapped good within mapped small victim isPg unseated pageAt).bind
    rintro ⟨success, after⟩ ⟨evicted, evicts, loaded⟩
    have goodAfter := good.evicts evicts
    have isPageAfter := evicts.page_of_unseated good isPg unseated
    obtain ⟨k', spec⟩ := goodAfter.loadedAt unseated loaded
    refine ⟨goodAfter.loaded isPageAfter unseated loaded, ?_, ?_⟩
    · apply ((evicts.drops good within).trans (loaded.drops goodAfter isPageAfter unseated)).congr
      exact fun _ => or_self_iff
    · rw [spec.page, update_self]
      exact ⟨_, rfl, nofun⟩
  · rw [if_neg unseated]
    exact ⟨good, .refl vm, pg, isPg, unseated⟩

theorem munmapWrite_settles (isPg : vm.page (d.firstPage + k) = some pg)
    (seated : pg.kpage ≠ none) :
    Settles Panic.Scarce (fun vm' => vm'.Good ∧ (vm.Drops vm' fun _ => False) ∧ vm'.page = vm.page)
      (vm.munmapWrite d (k * pgSize) (d.firstPage + k)) := by
  obtain ⟨mem, pg', isPg', pageAt⟩ := mapped.pages (le_refl k) small
  rw [isPg, Option.some.injEq] at isPg'
  subst isPg'
  obtain ⟨kpage, sits⟩ := Option.ne_none_iff_exists'.mp seated
  unfold munmapWrite
  split
  · rw [isPg]
    dsimp only
    rw [sits]
    have inside := within.inside isPg pageAt.type pageAt.file
    rw [pageAt.ofs] at inside
    have extent := fileWriteAt_extent inside (vm.memory kpage)
    show Vm.Good _ ∧ Vm.Drops _ _ _ ∧ _
    rw [fileWriteAt_eq] at extent ⊢
    exact ⟨⟨good.seating, good.mapping, good.contents, good.registry⟩,
      drops_of_kin (.refl _) Iff.rfl extent, rfl⟩
  · exact ⟨good, .refl vm, rfl⟩

/-- A turn of the loop of `munmap_` frees the page of its offset. -/
theorem munmapPage_settles :
    Settles Panic.Scarce (fun vm' => vm'.Good ∧ vm.Drops vm' (· = d.firstPage + k))
      (vm.munmapPage d (k * pgSize) victim) := by
  unfold munmapPage
  rw [getPage_of_mapped good mapped small]
  dsimp only
  apply (munmapLoad_settles good within mapped small victim).bind
  rintro loaded ⟨goodLoaded, dropsLoaded, pg, isPg, seated⟩
  have mappedLoaded := mapped.drops dropsLoaded (le_refl k) fun _ _ => id
  apply (munmapWrite_settles goodLoaded (within.drops dropsLoaded) mappedLoaded small isPg
    seated).bind
  rintro written ⟨goodWritten, dropsWritten, samePage⟩
  have mappedWritten := mappedLoaded.drops dropsWritten (le_refl k) fun _ _ => id
  rw [← samePage] at isPg
  have outcome := goodWritten.pageFree isPg
  rw [if_neg fun both => seated both.2] at outcome
  obtain ⟨mid, freed, run⟩ := outcome
  rw [run]
  refine ⟨goodWritten.freed isPg freed, ?_⟩
  apply ((dropsLoaded.trans dropsWritten).trans
    (freed.drops goodWritten isPg (mappedWritten.pages (le_refl k) small).1)).congr
  intro p
  rw [or_self, false_or]

end Turn

/-- The first `k` pages from `first` on. -/
theorem mem_turns_succ {first p : Nat} :
    (first ≤ p ∧ p < first + k) ∨ p = first + k ↔ first ≤ p ∧ p < first + (k + 1) := by
  omega

/-- The loop of `munmap_` frees the pages of the mapping, and keeps what each turn keeps. -/
theorem munmapPages_keeps {K : Vm → Prop} (good : vm.Good) (within : vm.Within)
    (mapped : vm.Mapped d 0) (victims : Nat → Option FrameId)
    (keeps : ∀ {k vm vm'}, vm.Good → vm.Within → vm.Mapped d k → k < d.count → K vm →
      vm.munmapPage d (k * pgSize) (victims k) = .ok vm' → K vm') (start : K vm) :
    Settles Panic.Scarce (fun vm' => (vm'.Good ∧ vm.Drops vm' d.HasPage) ∧ K vm')
      ((range d.count).foldlM (fun vm k => vm.munmapPage d (k * pgSize) (victims k)) vm) := by
  apply Settles.foldlM_range
    (I := fun k vm' => (vm'.Good ∧ vm.Drops vm' fun p => d.firstPage ≤ p ∧ p < d.firstPage + k) ∧
      K vm')
  · rintro k small vm' ⟨⟨good', drops⟩, kept⟩
    have mapped' : vm'.Mapped d k := by
      apply mapped.drops drops (Nat.zero_le k)
      exact fun left _ turned => Nat.not_lt.mpr left (Nat.lt_of_add_lt_add_left turned.2)
    have within' := within.drops drops
    have turn := (munmapPage_settles good' within' mapped' small (victims k)).and_of_ok
      fun _ run => keeps good' within' mapped' small kept run
    apply turn.mono
    rintro vm'' ⟨⟨good'', drops'⟩, kept'⟩
    exact ⟨⟨good'', (drops.trans drops').congr fun p => mem_turns_succ⟩, kept'⟩
  · refine ⟨⟨good, (Drops.refl vm).congr fun p => ?_⟩, start⟩
    exact ⟨False.elim, fun turned => not_lt.mpr turned.1 turned.2⟩

/-- The loop of `munmap_` frees the pages of the mapping. -/
theorem munmapPages_settles (good : vm.Good) (within : vm.Within) (mapped : vm.Mapped d 0)
    (victims : Nat → Option FrameId) :
    Settles Panic.Scarce (fun vm' => vm'.Good ∧ vm.Drops vm' d.HasPage)
      ((range d.count).foldlM (fun vm k => vm.munmapPage d (k * pgSize) (victims k)) vm) :=
  (munmapPages_keeps (K := fun _ => True) good within mapped victims (fun _ _ _ _ _ _ => trivial)
    trivial).mono fun _ both => both.1

variable {t : ThreadId} {upage : Nat}

/-! ## Registered addresses -/

theorem getPage_ne_none :
    vm.getPage t upage ≠ none ↔ ∃ q pg, q ∈ vm.supPageTable ∧ vm.page q = some pg ∧
      pg.owner = t ∧ pg.upage = upage := by
  constructor
  · intro found
    obtain ⟨q, isQ⟩ := Option.ne_none_iff_exists'.mp found
    obtain ⟨mem, pg, isPg, isOwner, isUpage⟩ := getPage_eq_some isQ
    exact ⟨q, pg, mem, isPg, isOwner, isUpage⟩
  · rintro ⟨q, pg, mem, isPg, isKey⟩ absent
    exact getPage_eq_none absent mem ((hasKey_iff isPg).mpr isKey)

theorem Drops.getPage (drops : vm.Drops vm' gone) (found : vm.getPage t upage ≠ none)
    (stays : ∀ {q pg}, vm.page q = some pg → pg.owner = t → pg.upage = upage → ¬ gone q) :
    vm'.getPage t upage ≠ none := by
  obtain ⟨q, pg, mem, isPg, isOwner, isUpage⟩ := getPage_ne_none.mp found
  have stays' := stays isPg isOwner isUpage
  obtain ⟨pg', isPg', kin⟩ := drops.forth isPg stays'
  exact getPage_ne_none.mpr ⟨q, pg', drops.table.mpr ⟨mem, stays'⟩, isPg',
    kin.owner.trans isOwner, kin.upage.trans isUpage⟩

/-! ## New pages -/

section AddPage

variable (good : vm.Good)
include good

theorem addPage_page (isPg : vm.page p = some pg) (new : Page) :
    (vm.addPage new).page p = some pg := by
  have ne : p ≠ vm.nextPage := Nat.ne_of_lt (good.registry.old isPg)
  exact (update_of_ne ne ..).trans isPg

theorem addPage_mem (mem : p ∈ vm.supPageTable) (new : Page) :
    p ∈ (vm.addPage new).supPageTable := by
  obtain ⟨pg, isPg⟩ := good.registry.live mem
  exact (mem_addPage_of_ne (Nat.ne_of_lt (good.registry.old isPg))).mpr mem

theorem addPage_getPage (found : vm.getPage t upage ≠ none) (new : Page) :
    (vm.addPage new).getPage t upage ≠ none := by
  obtain ⟨q, pg, mem, isPg, isKey⟩ := getPage_ne_none.mp found
  exact getPage_ne_none.mpr ⟨q, pg, addPage_mem good mem new, addPage_page good isPg new, isKey⟩

theorem addPage_getPage_self (new : Page) :
    (vm.addPage new).getPage new.owner new.upage ≠ none := by
  by_cases found : vm.getPage new.owner new.upage = none
  · exact getPage_ne_none.mpr
      ⟨vm.nextPage, new, (mem_addPage good).mpr found, update_self .., rfl, rfl⟩
  · exact addPage_getPage good found new

end AddPage

/-! ## The loop of `process_exit` over `page_list` -/

/-- `page_free` of anonymous pages succeeds, and the pages at other addresses stay registered. -/
theorem Good.freePages_anonymous (good : vm.Good) {pages : List PageId} (nodup : pages.Nodup)
    (anonymous : ∀ p ∈ pages, ∃ pg, vm.page p = some pg ∧ pg.type ≠ .file) :
    ∃ vm', pages.foldlM Vm.pageFree vm = .ok vm' ∧
      (∀ file, vm'.extent file = vm.extent file) ∧
      ∀ {q pg}, q ∈ vm.supPageTable → vm.page q = some pg →
        (∀ p ∈ pages, ∀ pg' ∈ vm.page p, pg'.owner = pg.owner → pg'.upage ≠ pg.upage) →
          q ∈ vm'.supPageTable := by
  induction pages generalizing vm with
  | nil => exact ⟨vm, rfl, fun _ => rfl, fun mem _ _ => mem⟩
  | cons p rest ih =>
    obtain ⟨notMember, nodupRest⟩ := nodup_cons.mp nodup
    obtain ⟨pgP, isP, notFile⟩ := anonymous p (mem_cons_self ..)
    have outcome := good.pageFree isP
    rw [if_neg fun both => notFile both.1] at outcome
    obtain ⟨mid, freed, run⟩ := outcome
    have others : ∀ {q}, q ≠ p → (mid.dropPage p pgP).page q = vm.page q := by
      intro q ne
      rw [freed.dropPage_page, update_of_ne ne]
    have inRest : ∀ {q}, q ∈ rest → q ≠ p := by
      rintro q mem rfl
      exact notMember mem
    have anonymousRest : ∀ q ∈ rest, ∃ pg, (mid.dropPage p pgP).page q = some pg ∧
        pg.type ≠ .file := by
      intro q mem
      rw [others (inRest mem)]
      exact anonymous q (mem_cons_of_mem _ mem)
    obtain ⟨after, runRest, extent, stays⟩ := ih (good.freed isP freed) nodupRest anonymousRest
    refine ⟨after, ?_, ?_, ?_⟩
    · rw [foldlM_cons, run]
      exact runRest
    · exact fun file => (extent file).trans (freed.extent file)
    intro q pg mem isPg elsewhere
    have apartP := elsewhere p (mem_cons_self ..) pgP isP
    have ne : q ≠ p := by
      rintro rfl
      rw [isP, Option.some.injEq] at isPg
      exact apartP (congrArg Page.owner isPg) (congrArg (fun pg => pg.upage) isPg)
    apply stays
    · rw [freed.supPageTable isP]
      split
      · exact mem
      rename_i r found
      -- the page that goes has the address of `p`
      obtain ⟨-, pgR, isR, sameOwner, sameUpage⟩ := getPage_eq_some found
      apply (mem_erase_of_ne ?_).mpr mem
      rintro rfl
      rw [show vm.page q = some pgR from isR, Option.some.injEq] at isPg
      subst isPg
      exact apartP sameOwner.symm sameUpage.symm
    · rw [others ne]
      exact isPg
    intro r memberR pgR isR
    rw [others (inRest memberR)] at isR
    exact elsewhere r (mem_cons_of_mem _ memberR) pgR isR

/-! ## The loop of `mmap_` -/

/-- The pages of the first `turns` offsets of a mapping are added. -/
structure Adds (vm vm' : Vm) (d : MmapData) (turns : Nat) : Prop where
  first : d.firstPage = vm.nextPage
  good : vm'.Good
  nextPage : vm'.nextPage = d.firstPage + turns
  file : vm'.file = vm.file
  old : ∀ {p pg}, vm.page p = some pg → vm'.page p = some pg
  back : ∀ {p pg}, vm'.page p = some pg → vm.page p = some pg ∨ ∃ k < turns,
    p = d.firstPage + k ∧ d.PageAt k pg ∧ pg.ofs + pg.readBytes ≤ vm.fileLength d.file
  table : ∀ {p}, p ∈ vm'.supPageTable ↔ p ∈ vm.supPageTable ∨ ∃ k < turns, p = d.firstPage + k

/-- The page that `mmap_` registers in a turn. -/
def mmapPage (d : MmapData) (len k : Nat) : Page :=
  { mmapArgs d.file d.uaddr len (k * pgSize) with
    type := .file, kpage := none, slotIdx := none, owner := d.owner }

theorem mmapPage_pageAt (d : MmapData) (len k : Nat) : d.PageAt k (mmapPage d len k) :=
  ⟨rfl, upage_of_offset d k, rfl, rfl, rfl⟩

theorem offset_lt (small : k < pageCnt len) : k * pgSize < len := by
  have small : k < (len + 4095) / 4096 := small
  show k * 4096 < len
  omega

theorem mmapPage_inside (d : MmapData) (small : k < pageCnt len) :
    (mmapPage d len k).ofs + (mmapPage d len k).readBytes ≤ len := by
  have inside := offset_lt small
  show k * pgSize + mmapReadBytes len (k * pgSize) ≤ len
  unfold mmapReadBytes
  split <;> omega

variable {turns : Nat}

namespace Adds

section

variable (adds : vm.Adds vm' d turns) (good : vm.Good)
include adds good

theorem page_first (k : Nat) : vm.page (d.firstPage + k) = none := by
  cases isPg : vm.page (d.firstPage + k) with
  | none => rfl
  | some pg =>
    have old := good.registry.old isPg
    rw [adds.first] at old
    exact absurd old (not_lt.mpr (Nat.le_add_right ..))

theorem new (early : k < turns) : d.firstPage + k ∈ vm'.supPageTable ∧
      ∃ pg, vm'.page (d.firstPage + k) = some pg ∧ d.PageAt k pg := by
  have mem := adds.table.mpr (.inr ⟨k, early, rfl⟩)
  obtain ⟨pg, isPg⟩ := adds.good.registry.live mem
  rcases adds.back isPg with wasPg | ⟨j, -, same, pageAt, -⟩
  · rw [adds.page_first good] at wasPg
    cases wasPg
  · rw [Nat.add_left_cancel same]
    exact ⟨Nat.add_left_cancel same ▸ mem, pg, Nat.add_left_cancel same ▸ isPg, pageAt⟩

theorem mem_back (mem : p ∈ vm'.supPageTable)
    (isPg : vm'.page p = some pg) : (p ∈ vm.supPageTable ∧ vm.page p = some pg) ∨
      ∃ k < turns, p = d.firstPage + k ∧ d.PageAt k pg := by
  rcases adds.back isPg with wasPg | ⟨k, early, same, pageAt, -⟩
  · rcases adds.table.mp mem with wasMember | ⟨k, -, rfl⟩
    · exact .inl ⟨wasMember, wasPg⟩
    · rw [adds.page_first good] at wasPg
      cases wasPg
  · exact .inr ⟨k, early, same, pageAt⟩

theorem getPage_eq_none (free : vm.getPage d.owner (d.uaddr / pgSize + turns) = none) :
    vm'.getPage d.owner (d.uaddr / pgSize + turns) = none := by
  by_contra found
  obtain ⟨q, pg, mem, isPg, isOwner, isUpage⟩ := getPage_ne_none.mp found
  rcases adds.mem_back good mem isPg with ⟨wasMember, wasPg⟩ | ⟨k, early, -, pageAt⟩
  · exact getPage_ne_none.mpr ⟨q, pg, wasMember, wasPg, isOwner, isUpage⟩ free
  · exact Nat.ne_of_lt early (Nat.add_left_cancel (pageAt.upage.symm.trans isUpage))

theorem step (small : turns < pageCnt (vm.fileLength d.file))
    (free : vm.getPage d.owner (d.uaddr / pgSize + turns) = none) :
    vm.Adds (vm'.addPage (mmapPage d (vm.fileLength d.file) turns)) d (turns + 1) := by
  have pageAt := mmapPage_pageAt d (vm.fileLength d.file) turns
  have inside := mmapPage_inside d small
  generalize isNew : mmapPage d (vm.fileLength d.file) turns = new at pageAt inside ⊢
  have absent := adds.getPage_eq_none good free
  rw [← pageAt.owner, ← pageAt.upage] at absent
  have isTable : (vm'.addPage new).supPageTable = vm'.nextPage :: vm'.supPageTable := if_pos absent
  refine ⟨adds.first, ?_, ?_, adds.file, ?_, ?_, ?_⟩
  · subst isNew
    exact adds.good.addPage rfl rfl nofun nofun
  · show vm'.nextPage + 1 = _
    rw [adds.nextPage, Nat.add_assoc]
  · exact fun isPg => addPage_page adds.good (adds.old isPg) new
  · intro p pg isPg
    rcases addPage_eq_some isPg with ⟨rfl, rfl⟩ | wasPage
    · exact .inr ⟨turns, Nat.lt_succ_self turns, adds.nextPage, pageAt, inside⟩
    rcases adds.back wasPage with old | ⟨k, early, rest⟩
    · exact .inl old
    · exact .inr ⟨k, lt_succ_of_lt early, rest⟩
  intro p
  rw [isTable, mem_cons, adds.table, adds.nextPage]
  constructor
  · rintro (rfl | member | ⟨k, early, rfl⟩)
    · exact .inr ⟨turns, lt_succ_self turns, rfl⟩
    · exact .inl member
    · exact .inr ⟨k, Nat.lt_succ_of_lt early, rfl⟩
  rintro (member | ⟨k, early, rfl⟩)
  · exact .inr (.inl member)
  rcases Nat.lt_succ_iff_lt_or_eq.mp early with old | rfl
  · exact .inr (.inr ⟨k, old, rfl⟩)
  · exact .inl rfl

end

theorem loop (good : vm.Good) (first : d.firstPage = vm.nextPage)
    (small : n ≤ pageCnt (vm.fileLength d.file))
    (free : ∀ k < n, vm.getPage d.owner (d.uaddr / pgSize + k) = none) :
    vm.Adds ((range n).foldl (fun vm' k =>
      vm'.addPage (mmapPage d (vm.fileLength d.file) k)) vm) d n := by
  induction n with
  | zero =>
    refine ⟨first, good, first.symm, rfl, id, .inl, ?_⟩
    exact fun {p} => ⟨.inl, fun mem => mem.resolve_right fun ⟨k, early, _⟩ =>
      not_lt_zero k early⟩
  | succ n ih =>
    rw [range_succ, foldl_append]
    apply (ih (le_of_lt small) fun k early => free k (lt_succ_of_lt early)).step good small
    exact free n (lt_succ_self n)

end Adds

end Vm

end Pintos
