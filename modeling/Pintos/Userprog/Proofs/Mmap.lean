import Pintos.Userprog.Proofs.MmapPages

/-!
# Mappings and their pages

The mappings agree with the pages: each page of a mapping is registered and is the only
page of the process at its address, and different mappings have different pages. `mmap_`,
`munmap_` and `process_exit` keep this, and the last two free exactly the pages of the
mappings.
-/

namespace Pintos

open Function List Option Vm

variable {p q : PageId} {j k : Nat} {ids rest : List Nat} {K : Mmaps → Prop}
  {victims : Nat → Nat → Option FrameId}

namespace Mmaps

variable {s s' : Mmaps} {vm' : Vm} {t : ThreadId} {gone : PageId → Prop} {pg : Page} {mapping : Nat}
  {d : MmapData}

/-! ## The invariant -/

/-- The mappings agree with the pages. -/
structure Sound (s : Mmaps) : Prop where
  good : s.vm.Good
  within : s.vm.Within
  covered : ∀ {p pg}, s.vm.page p = some pg → s.stage pg.owner ≠ .exited →
    s.vm.getPage pg.owner pg.upage ≠ none
  stack : ∀ {t}, s.stage t = .running → s.vm.getPage t (physBasePage - 1) ≠ none
  mapped : ∀ {d}, d ∈ s.mmapTable → s.vm.Mapped d 0
  counted : ∀ {d}, d ∈ s.mmapTable → pageCnt (s.vm.fileLength d.file) = d.count
  numbered : ∀ {d}, d ∈ s.mmapTable → d.mapping < s.mapidNext d.owner
  started : ∀ {d}, d ∈ s.mmapTable → s.stage d.owner ≠ .loading
  keys : ∀ {d e}, d ∈ s.mmapTable → e ∈ s.mmapTable → d.mapping = e.mapping →
    d.owner = e.owner → d = e
  apart : ∀ {d e p}, d ∈ s.mmapTable → e ∈ s.mmapTable → d.HasPage p → e.HasPage p → d = e

theorem Initial.sound (init : s.Initial) : s.Sound := by
  have noPage : ∀ {p pg}, s.vm.page p ≠ some pg := by
    intro p pg
    rw [init.vm.page p]
    exact nofun
  have noMapping : ∀ {d}, d ∉ s.mmapTable := by
    intro d
    rw [init.mmapTable]
    exact not_mem_nil
  constructor
  · exact init.vm.good
  · exact ⟨fun isPg => absurd isPg noPage⟩
  · exact fun isPg => absurd isPg noPage
  · intro t runs
    rw [init.stage t] at runs
    cases runs
  all_goals exact fun mem => absurd mem noMapping

/-- Pages are freed, and with them the mappings that they belong to. -/
theorem Sound.drops (sound : s.Sound) (good' : vm'.Good) (drops : s.vm.Drops vm' gone)
    {mmapTable : List MmapData} (subset : mmapTable ⊆ s.mmapTable)
    (stays : ∀ {d p}, d ∈ mmapTable → d.HasPage p → ¬ gone p)
    (alone : ∀ {p q pg pg'}, s.vm.page p = some pg → s.vm.page q = some pg' →
      pg'.owner = pg.owner → pg'.upage = pg.upage → gone q → gone p)
    (notStack : ∀ {p pg}, s.vm.page p = some pg → gone p → pg.upage ≠ physBasePage - 1) :
    Sound { s with vm := vm', mmapTable } where
  good := good'
  within := sound.within.drops drops
  covered {p pg'} isPg alive := by
    obtain ⟨survives, pg, wasPg, kin⟩ := drops.back isPg
    dsimp only at alive ⊢
    rw [kin.owner] at alive ⊢
    rw [kin.upage]
    apply drops.getPage (sound.covered wasPg alive)
    exact fun isQ sameOwner sameUpage isGone =>
      survives (alone wasPg isQ sameOwner sameUpage isGone)
  stack {t} running := by
    apply drops.getPage (sound.stack running)
    exact fun isQ _ isUpage isGone => notStack isQ isGone isUpage
  mapped {d} member := by
    apply (sound.mapped (subset member)).drops drops (Nat.le_refl 0)
    exact fun _ small => stays member (d.hasPage_offset small)
  counted {d} member := by
    rw [drops.length]
    exact sound.counted (subset member)
  numbered member := sound.numbered (subset member)
  started member := sound.started (subset member)
  keys member member' := sound.keys (subset member) (subset member')
  apart member member' := sound.apart (subset member) (subset member')

theorem Sound.stays (sound : s.Sound) (good' : vm'.Good)
    (drops : s.vm.Drops vm' fun _ => False) : Sound { s with vm := vm' } :=
  sound.drops good' drops (List.Subset.refl _) (fun _ _ => id) (fun _ _ _ _ => id) fun _ => nofun

theorem Sound.addPage (sound : s.Sound) (unseated : pg.kpage = none)
    (noSlot : pg.slotIdx = none) (isUnalloc : pg.type = .unalloc)
    (elsewhere : ∀ {d k}, d ∈ s.mmapTable → d.owner = pg.owner → k < d.count →
      pg.upage ≠ d.uaddr / pgSize + k) : Sound { s with vm := s.vm.addPage pg } where
  good := by
    apply sound.good.addPage unseated noSlot
    · rw [isUnalloc]
      exact nofun
    · rw [isUnalloc]
      exact nofun
  within := by
    constructor
    intro p pg' file isPg isFile hasFile
    obtain ⟨-, rfl⟩ | wasPage := addPage_eq_some isPg
    · rw [isUnalloc] at isFile
      cases isFile
    · exact sound.within.inside wasPage isFile hasFile
  covered {p pg'} isPg alive := by
    obtain ⟨-, rfl⟩ | wasPage := addPage_eq_some isPg
    · exact addPage_getPage_self sound.good pg'
    · exact addPage_getPage sound.good (sound.covered wasPage alive) pg
  stack running := addPage_getPage sound.good (sound.stack running) pg
  mapped {d} member := by
    have old := sound.mapped member
    refine ⟨old.aligned, old.nonzero, old.user, ?_, ?_, old.whole⟩
    · intro k left small
      obtain ⟨listed, pg', isPg, pageAt⟩ := old.pages left small
      exact ⟨addPage_mem sound.good listed pg, pg', addPage_page sound.good isPg pg, pageAt⟩
    intro k q pg' left small isPg isOwner isUpage
    obtain ⟨-, rfl⟩ | wasPage := addPage_eq_some isPg
    · exact absurd isUpage (elsewhere member isOwner.symm small)
    · exact old.only left small wasPage isOwner isUpage
  counted := sound.counted
  numbered := sound.numbered
  started := sound.started
  keys := sound.keys
  apart := sound.apart

/-! ## `munmap_` -/

/-- What `munmap_` does. -/
structure Unmaps (s : Mmaps) (t : ThreadId) (mapping : Nat) (s' : Mmaps) : Prop where
  table : ∀ {d}, d ∈ s'.mmapTable ↔ d ∈ s.mmapTable ∧ ¬ (d.mapping = mapping ∧ d.owner = t)
  drops : s.vm.Drops s'.vm fun p =>
    ∃ d ∈ s.mmapTable, (d.mapping = mapping ∧ d.owner = t) ∧ d.HasPage p
  mapidNext : s'.mapidNext = s.mapidNext
  stage : s'.stage = s.stage

theorem hashQuery_eq_some (found : s.hashQuery mapping t = some d) :
    d ∈ s.mmapTable ∧ d.mapping = mapping ∧ d.owner = t := by
  have holds := List.find?_some found
  exact ⟨mem_of_find?_eq_some found, of_decide_eq_true holds⟩

theorem hashQuery_eq_none (absent : s.hashQuery mapping t = none)
    (mem : d ∈ s.mmapTable) : ¬ (d.mapping = mapping ∧ d.owner = t) := by
  have all := List.find?_eq_none.mp absent d mem
  exact fun both => all (decide_eq_true both)

/-- The pages of a mapping are the only ones of the process at their addresses. -/
theorem Sound.alone (sound : s.Sound) (mem : d ∈ s.mmapTable)
    {pg' : Page} (isPg : s.vm.page p = some pg) (isQ : s.vm.page q = some pg')
    (sameOwner : pg'.owner = pg.owner) (sameUpage : pg'.upage = pg.upage) (hasPage : d.HasPage q) :
    d.HasPage p := by
  obtain ⟨k, small, rfl⟩ := hasPage.offset
  obtain ⟨-, pg'', isQ', pageAt⟩ := (sound.mapped mem).pages (Nat.zero_le k) small
  rw [isQ, some.injEq] at isQ'
  subst isQ'
  rw [(sound.mapped mem).only (Nat.zero_le k) small isPg (sameOwner.symm.trans pageAt.owner)
    (sameUpage.symm.trans pageAt.upage)]
  exact hasPage

theorem Sound.notStack (sound : s.Sound) (mem : d ∈ s.mmapTable) (isPg : s.vm.page p = some pg)
    (hasPage : d.HasPage p) :
    pg.upage ≠ physBasePage - 1 := by
  obtain ⟨k, small, rfl⟩ := hasPage.offset
  obtain ⟨-, pg', isPg', pageAt⟩ := (sound.mapped mem).pages (Nat.zero_le k) small
  rw [isPg, some.injEq] at isPg'
  subst isPg'
  have user := (sound.mapped mem).user
  rw [pageAt.upage]
  omega

/-- `munmap_` frees the pages of its mapping, and no assertion fails in it. -/
theorem Sound.munmap (sound : s.Sound) (t : ThreadId) (mapping : Nat)
    (victims : Nat → Option FrameId) :
    Settles Panic.Scarce (fun s' => s'.Sound ∧ s.Unmaps t mapping s')
      (s.munmap t mapping victims) := by
  unfold Mmaps.munmap
  cases found : s.hashQuery mapping t with
  | none =>
    refine ⟨sound, ⟨?_, ?_, rfl, rfl⟩⟩
    · exact fun {d} => (and_iff_left_of_imp (hashQuery_eq_none found)).symm
    · apply (Vm.Drops.refl s.vm).congr
      exact fun p => ⟨False.elim, fun ⟨d, mem, isKey, _⟩ => hashQuery_eq_none found mem isKey⟩
  | some d =>
    obtain ⟨mem, isKey⟩ := hashQuery_eq_some found
    have isOnly : ∀ {e}, e ∈ s.mmapTable → e.mapping = mapping ∧ e.owner = t → e = d :=
      fun memberE isKeyE => sound.keys memberE mem (isKeyE.1.trans isKey.1.symm)
        (isKeyE.2.trans isKey.2.symm)
    dsimp only
    rw [sound.counted mem]
    apply (munmapPages_settles sound.good sound.within (sound.mapped mem) victims).bind
    rintro vm ⟨good', drops⟩
    have inTable : ∀ {e}, e ∈ s.mmapTable.filter (fun e => ¬ (e.mapping = mapping ∧ e.owner = t)) ↔
        e ∈ s.mmapTable ∧ ¬ (e.mapping = mapping ∧ e.owner = t) := by
      intro e
      rw [mem_filter, decide_eq_true_iff]
    constructor
    · apply sound.drops good' drops
      · exact filter_sublist.subset
      · intro e p memberE hasPageE hasPage
        obtain ⟨wasMember, notKey⟩ := inTable.mp memberE
        exact notKey (sound.apart wasMember mem hasPageE hasPage ▸ isKey)
      · exact sound.alone mem
      · exact sound.notStack mem
    refine ⟨inTable, drops.congr ?_, rfl, rfl⟩
    intro p
    constructor
    · exact fun hasPage => ⟨d, mem, isKey, hasPage⟩
    · rintro ⟨e, memberE, isKeyE, hasPage⟩
      exact isOnly memberE isKeyE ▸ hasPage

/-! ## `mmap_` -/

section Register

variable {file : FileId} {addr : Nat} {d : MmapData}

/-- The mapping that `mmap_` enters. -/
def entered (s : Mmaps) (t : ThreadId) (file : FileId) (addr : Nat) : MmapData :=
  ⟨s.mapidNext t, file, t, addr, s.vm.nextPage, pageCnt (s.vm.fileLength file)⟩

/-- What `mmap_` checks before it registers pages. -/
structure Accepts (s : Mmaps) (t : ThreadId) (file : FileId) (addr : Nat) : Prop where
  running : s.stage t = .running
  user : addr + 4 ≤ physBasePage * pgSize
  nonzero : addr ≠ 0
  aligned : addr % pgSize = 0
  free : ∀ k < pageCnt (s.vm.fileLength file), s.vm.getPage t (addr / pgSize + k) = none

variable (sound : s.Sound) (accepts : s.Accepts t file addr)
include sound

theorem register_mmapTable :
    (s.register t file addr).2.mmapTable = s.entered t file addr :: s.mmapTable := by
  apply if_pos
  unfold hashQuery
  rw [List.find?_eq_none]
  intro d mem isKey
  have numbered := sound.numbered mem
  have isKey := of_decide_eq_true isKey
  rw [isKey.1, isKey.2] at numbered
  exact Nat.lt_irrefl _ numbered

theorem not_hasPage_entered (mem : d ∈ s.mmapTable)
    (hasPage : d.HasPage p) : ¬ (s.entered t file addr).HasPage p := by
  intro new
  obtain ⟨k, small, rfl⟩ := hasPage.offset
  obtain ⟨-, pg, isPg, -⟩ := (sound.mapped mem).pages (Nat.zero_le k) small
  exact Nat.not_lt.mpr new.1 (sound.good.registry.old isPg)

include accepts

theorem register_adds : s.vm.Adds (s.register t file addr).2.vm (s.entered t file addr)
      (pageCnt (s.vm.fileLength file)) :=
  Vm.Adds.loop (d := s.entered t file addr) sound.good rfl (Nat.le_refl _) accepts.free

/-- The mapping ends below the stack, because the first page of the stack is registered. -/
theorem below_stack : addr / pgSize + pageCnt (s.vm.fileLength file) < physBasePage := by
  by_contra above
  have above : ¬ addr / pgSize + pageCnt (s.vm.fileLength file) < 0xc0000 := above
  have user : addr + 4 ≤ 0xc0000 * 4096 := accepts.user
  have starts : addr / pgSize ≤ physBasePage - 1 := by
    show addr / 4096 ≤ 0xc0000 - 1
    omega
  apply sound.stack accepts.running
  rw [← Nat.add_sub_cancel' starts]
  apply accepts.free
  show 0xc0000 - 1 - addr / pgSize < _
  omega

/-- The pages of a mapping of the process are not at addresses of the new mapping. -/
theorem upage_ne_entered (mem : d ∈ s.mmapTable) (isOwner : d.owner = t)
    (small : j < d.count) (new : k < pageCnt (s.vm.fileLength file)) :
    addr / pgSize + k ≠ d.uaddr / pgSize + j := by
  intro same
  obtain ⟨listed, pg, isPg, pageAt⟩ := (sound.mapped mem).pages (Nat.zero_le j) small
  apply getPage_ne_none.mpr ⟨_, pg, listed, isPg, pageAt.owner.trans isOwner,
    pageAt.upage.trans same.symm⟩
  exact accepts.free k new

theorem mapped_entered (whole : (s.vm.file file).readEnd = none) :
    (s.register t file addr).2.vm.Mapped (s.entered t file addr) 0 := by
  have adds := register_adds sound accepts
  refine ⟨accepts.aligned, accepts.nonzero, below_stack sound accepts, ?_, ?_,
    (congrArg (fun files => VmFile.readEnd (files file)) adds.file).trans whole⟩
  · exact fun _ small => adds.new sound.good small
  intro k q pg _ small isPg isOwner isUpage
  rcases adds.back isPg with wasPg | ⟨j, -, rfl, pageAt, -⟩
  · have alive : s.stage pg.owner ≠ .exited := by
      rw [isOwner, show s.stage (s.entered t file addr).owner = _ from accepts.running]
      exact nofun
    apply absurd (accepts.free k small)
    rw [← show pg.owner = t from isOwner, ← show pg.upage = addr / pgSize + k from isUpage]
    exact sound.covered wasPg alive
  · rw [Nat.add_left_cancel (pageAt.upage.symm.trans isUpage)]

theorem mapped_before (mem : d ∈ s.mmapTable) : (s.register t file addr).2.vm.Mapped d 0 := by
  have adds := register_adds sound accepts
  have old := sound.mapped mem
  refine ⟨old.aligned, old.nonzero, old.user, ?_, ?_,
    (congrArg (fun files => VmFile.readEnd (files d.file)) adds.file).trans old.whole⟩
  · intro k left small
    obtain ⟨listed, pg, isPg, pageAt⟩ := old.pages left small
    exact ⟨adds.table.mpr (.inl listed), pg, adds.old isPg, pageAt⟩
  intro k q pg left small isPg isOwner isUpage
  rcases adds.back isPg with wasPg | ⟨j, new, -, pageAt, -⟩
  · exact old.only left small wasPg isOwner isUpage
  · exact absurd (pageAt.upage.symm.trans isUpage)
      (upage_ne_entered sound accepts mem (isOwner.symm.trans pageAt.owner) small new)

theorem Sound.register (whole : (s.vm.file file).readEnd = none) :
    (s.register t file addr).2.Sound := by
  have adds := register_adds sound accepts
  have isTable : (s.register t file addr).2.mmapTable = s.entered t file addr :: s.mmapTable :=
    register_mmapTable sound
  have keeps : ∀ {t' upage}, s.vm.getPage t' upage ≠ none →
      (s.register t file addr).2.vm.getPage t' upage ≠ none := by
    intro t' upage found
    obtain ⟨q, pg, listed, isPg, isKey⟩ := getPage_ne_none.mp found
    exact getPage_ne_none.mpr ⟨q, pg, adds.table.mpr (.inl listed), adds.old isPg, isKey⟩
  have length : ∀ file', (s.register t file addr).2.vm.fileLength file' = s.vm.fileLength file' := by
    intro file'
    unfold fileLength
    rw [adds.file]
  have numbers : ∀ t', s.mapidNext t' ≤ (s.register t file addr).2.mapidNext t' := by
    intro t'
    show _ ≤ update s.mapidNext t (s.mapidNext t + 1) t'
    by_cases same : t' = t
    · rw [same, update_self]
      exact Nat.le_succ _
    · rw [update_of_ne same]
  have older : ∀ {d}, d ∈ s.mmapTable →
      ¬ (d.mapping = (s.entered t file addr).mapping ∧ d.owner = (s.entered t file addr).owner) := by
    rintro d member ⟨sameMapping, sameOwner⟩
    have numbered := sound.numbered member
    rw [sameMapping, sameOwner] at numbered
    exact Nat.lt_irrefl _ numbered
  constructor
  case good => exact adds.good
  case within =>
    constructor
    intro p pg file' isPg isFile hasFile
    rw [length]
    rcases adds.back isPg with wasPg | ⟨k, -, -, pageAt, inside⟩
    · exact sound.within.inside wasPg isFile hasFile
    rw [pageAt.file, some.injEq] at hasFile
    rw [← hasFile]
    exact inside
  case covered =>
    intro p pg isPg alive
    rcases adds.back isPg with wasPg | ⟨k, small, rfl, -, -⟩
    · exact keeps (sound.covered wasPg alive)
    · exact getPage_ne_none.mpr ⟨_, pg, (adds.new sound.good small).1, isPg, rfl, rfl⟩
  case stack => exact fun runs => keeps (sound.stack runs)
  all_goals rw [isTable]
  case mapped =>
    intro d member
    rcases mem_cons.mp member with rfl | member
    · exact mapped_entered sound accepts whole
    · exact mapped_before sound accepts member
  case counted =>
    intro d member
    rw [length]
    rcases mem_cons.mp member with rfl | member
    · rfl
    · exact sound.counted member
  case numbered =>
    intro d member
    rcases mem_cons.mp member with rfl | member
    · show s.mapidNext t < update s.mapidNext t (s.mapidNext t + 1) t
      rw [update_self]
      exact Nat.lt_succ_self _
    · exact Nat.lt_of_lt_of_le (sound.numbered member) (numbers d.owner)
  case started =>
    intro d member
    rcases mem_cons.mp member with rfl | member
    · rw [show (s.register t file addr).2.stage (s.entered t file addr).owner = _ from
        accepts.running]
      exact nofun
    · exact sound.started member
  case keys =>
    intro d e memberD memberE sameMapping sameOwner
    rcases mem_cons.mp memberD with rfl | memberD
    · rcases mem_cons.mp memberE with rfl | memberE
      · rfl
      · exact absurd ⟨sameMapping.symm, sameOwner.symm⟩ (older memberE)
    rcases mem_cons.mp memberE with rfl | memberE
    · exact absurd ⟨sameMapping, sameOwner⟩ (older memberD)
    · exact sound.keys memberD memberE sameMapping sameOwner
  case apart =>
    intro d e p memberD memberE hasPageD hasPageE
    rcases mem_cons.mp memberD with rfl | memberD
    · rcases mem_cons.mp memberE with rfl | memberE
      · rfl
      · exact absurd hasPageD (not_hasPage_entered sound memberE hasPageE)
    rcases mem_cons.mp memberE with rfl | memberE
    · exact absurd hasPageE (not_hasPage_entered sound memberD hasPageD)
    · exact sound.apart memberD memberE hasPageD hasPageE

end Register

/-! ## `process_exit` -/

/-- The pages of `page_list` are freed and the mappings of the process remain. -/
theorem Sound.freePageList (sound : s.Sound) (t : ThreadId) : ∃ vm', s.vm.freePageList t = .ok vm' ∧
      (∀ p, vm'.page p = if p ∈ s.vm.pageList t then none else s.vm.page p) ∧
      Sound { s with vm := vm', stage := update s.stage t .exited } := by
  have registry := sound.good.registry
  have anonymous : ∀ p ∈ s.vm.pageList t, ∃ pg, s.vm.page p = some pg ∧ pg.type ≠ .file := by
    intro p mem
    obtain ⟨pg, isPg, -, notFile⟩ := registry.listed.mp mem
    exact ⟨pg, isPg, notFile⟩
  obtain ⟨vm', run, extent, stays⟩ :=
    sound.good.freePages_anonymous (registry.listNodup t) anonymous
  obtain ⟨good', isPg'⟩ := sound.good.freePages run
  refine ⟨vm', run, isPg', ?_⟩
  have length file : vm'.fileLength file = s.vm.fileLength file := congrArg Prod.fst (extent file)
  have back : ∀ {p pg}, vm'.page p = some pg → s.vm.page p = some pg := by
    intro p pg isPg
    rw [isPg' p] at isPg
    exact (ite_none_left_eq_some.mp isPg).2
  have forth : ∀ {p pg}, s.vm.page p = some pg → (pg.owner ≠ t ∨ pg.type = .file) →
      vm'.page p = some pg := by
    intro p pg isPg other
    rw [isPg' p, if_neg, isPg]
    intro listed
    obtain ⟨pg', wasPg, isOwner, notFile⟩ := registry.listed.mp listed
    rw [isPg, some.injEq] at wasPg
    subst wasPg
    exact other.elim (fun notOwner => notOwner isOwner) notFile
  have keeps : ∀ {t' upage}, t' ≠ t → s.vm.getPage t' upage ≠ none →
      vm'.getPage t' upage ≠ none := by
    intro t' upage other found
    obtain ⟨q, pg, listed, isPg, isOwner, isUpage⟩ := getPage_ne_none.mp found
    have notOwner : pg.owner ≠ t := isOwner ▸ other
    refine getPage_ne_none.mpr
      ⟨q, pg, stays listed isPg ?_, forth isPg (.inl notOwner), isOwner, isUpage⟩
    intro p mem pg' wasPg sameOwner
    obtain ⟨_, isP, isOwnerP, -⟩ := registry.listed.mp mem
    cases wasPg.symm.trans isP
    exact absurd (sameOwner.symm.trans isOwnerP) notOwner
  have living : ∀ {t' stage}, update s.stage t .exited t' = stage → stage ≠ .exited →
      t' ≠ t ∧ s.stage t' = stage := by
    intro t' stage isStage alive
    by_cases same : t' = t
    · rw [same, update_self] at isStage
      exact absurd isStage.symm alive
    · rw [update_of_ne same] at isStage
      exact ⟨same, isStage⟩
  constructor
  case good => exact good'
  case within =>
    constructor
    intro p pg file isPg isFile hasFile
    rw [length]
    exact sound.within.inside (back isPg) isFile hasFile
  case covered =>
    intro p pg isPg alive
    obtain ⟨other, isStage⟩ := living rfl alive
    exact keeps other (sound.covered (back isPg) (isStage ▸ alive))
  case stack =>
    intro t' runs
    obtain ⟨other, isStage⟩ := living runs nofun
    exact keeps other (sound.stack isStage)
  case mapped =>
    intro d mem
    have old := sound.mapped mem
    refine ⟨old.aligned, old.nonzero, old.user, ?_, ?_,
      (congrArg Prod.snd (extent d.file)).trans old.whole⟩
    · intro k left small
      obtain ⟨listed, pg, isPg, pageAt⟩ := old.pages left small
      refine ⟨stays listed isPg ?_, pg, forth isPg (.inr pageAt.type), pageAt⟩
      intro p memberP pg' isP sameOwner sameUpage
      -- no anonymous page is at an address of the mapping
      have isFirst := old.only left small isP (sameOwner.trans pageAt.owner)
        (sameUpage.trans pageAt.upage)
      obtain ⟨_, wasPg, -, notFile⟩ := registry.listed.mp memberP
      rw [isFirst] at wasPg
      cases isPg.symm.trans wasPg
      exact notFile pageAt.type
    · exact fun left small isPg => old.only left small (back isPg)
  case counted =>
    intro d mem
    rw [length]
    exact sound.counted mem
  case numbered => exact sound.numbered
  case started =>
    intro d mem isLoading
    exact sound.started mem (living isLoading nofun).2
  case keys => exact sound.keys
  case apart => exact sound.apart

/-- What `process_exit` does to the pages. -/
structure Exits (s : Mmaps) (t : ThreadId) (s' : Mmaps) : Prop where
  table : ∀ {d}, d ∈ s'.mmapTable ↔ d ∈ s.mmapTable ∧ d.owner ≠ t
  page : ∀ {p}, (s'.vm.page p).isSome ↔ (s.vm.page p).isSome ∧ p ∉ s.vm.pageList t ∧
    ∀ d ∈ s.mmapTable, d.owner = t → ¬ d.HasPage p

/-- The loop of `process_exit` over the mappings when the mappings `rest` are left. -/
structure Exiting (s : Mmaps) (t : ThreadId) (rest : List Nat) (s' : Mmaps) : Prop where
  sound : s'.Sound
  mapidNext : s'.mapidNext = s.mapidNext
  stage : s'.stage = s.stage
  table : ∀ {d}, d ∈ s'.mmapTable ↔ d ∈ s.mmapTable ∧ ¬ (d.owner = t ∧ d.mapping ∉ rest)
  drops : s.vm.Drops s'.vm fun p =>
    ∃ d ∈ s.mmapTable, (d.owner = t ∧ d.mapping ∉ rest) ∧ d.HasPage p

theorem Exiting.start (sound : s.Sound)
    (all : ∀ {d}, d ∈ s.mmapTable → d.owner = t → d.mapping ∈ ids) : s.Exiting t ids s := by
  refine ⟨sound, rfl, rfl, ?_, ?_⟩
  · intro d
    exact ⟨fun mem => ⟨mem, fun both => both.2 (all mem both.1)⟩, fun both => both.1⟩
  · apply (Vm.Drops.refl s.vm).congr
    exact fun p => ⟨False.elim, fun ⟨d, mem, both, _⟩ => both.2 (all mem both.1)⟩

theorem Exiting.step {mid : Mmaps}
    (exiting : s.Exiting t (mapping :: rest) mid) (notLeft : mapping ∉ rest) (sound' : s'.Sound)
    (unmaps : mid.Unmaps t mapping s') : s.Exiting t rest s' := by
  have left : ∀ {id : Nat}, id ∉ rest ↔ id ∉ mapping :: rest ∨ id = mapping := by
    intro id
    rw [mem_cons, not_or]
    constructor
    · intro notMember
      by_cases same : id = mapping
      · exact .inr same
      · exact .inl ⟨same, notMember⟩
    rintro (both | rfl)
    · exact both.2
    · exact notLeft
  refine ⟨sound', unmaps.mapidNext.trans exiting.mapidNext, unmaps.stage.trans exiting.stage, ?_,
    (exiting.drops.trans unmaps.drops).congr ?_⟩
  · intro d
    rw [unmaps.table, exiting.table, and_assoc, left]
    tauto
  intro p
  constructor
  · rintro (⟨d, mem, both, hasPage⟩ | ⟨d, mem, both, hasPage⟩)
    · exact ⟨d, mem, ⟨both.1, left.mpr (.inl both.2)⟩, hasPage⟩
    · exact ⟨d, (exiting.table.mp mem).1, ⟨both.2, left.mpr (.inr both.1)⟩, hasPage⟩
  rintro ⟨d, mem, ⟨isOwner, gone⟩, hasPage⟩
  rcases left.mp gone with old | isMapping
  · exact .inl ⟨d, mem, ⟨isOwner, old⟩, hasPage⟩
  refine .inr ⟨d, exiting.table.mpr ⟨mem, ?_⟩, ⟨isMapping, isOwner⟩, hasPage⟩
  rw [isMapping]
  exact fun both => both.2 (mem_cons_self ..)

/-- `munmap_` of all mappings of a process keeps what each of them keeps. -/
theorem Sound.munmapAll (sound : s.Sound) (nodup : ids.Nodup)
    (all : ∀ {d}, d ∈ s.mmapTable → d.owner = t → d.mapping ∈ ids)
    (keeps : ∀ {s : Mmaps} {mapping}, s.Sound → K s →
      Settles Panic.Scarce K (s.munmap t mapping (victims mapping))) (start : K s) :
    Settles Panic.Scarce (fun s' => s.Exiting t [] s' ∧ K s')
      (ids.foldlM (fun s mapping => s.munmap t mapping (victims mapping)) s) := by
  refine Settles.mono (Settles.foldlM (I := fun rest s' => rest.Nodup ∧ s.Exiting t rest s' ∧ K s')
    ?_ ids s ⟨nodup, .start sound all, start⟩) ?_
  · rintro mapping rest mid ⟨nodupRest, exiting, kept⟩
    obtain ⟨notLeft, nodupRest⟩ := nodup_cons.mp nodupRest
    apply ((exiting.sound.munmap t mapping (victims mapping)).and (keeps exiting.sound kept)).mono
    exact fun s' ⟨⟨sound', unmaps⟩, kept'⟩ =>
      ⟨nodupRest, exiting.step notLeft sound' unmaps, kept'⟩
  · exact fun s' both => both.2

/-- `process_exit` goes through `page_list` and then through the mappings, and no assertion fails
    in it. It keeps what both loops keep. -/
theorem Sound.processExit_keeps (sound : s.Sound) (t : ThreadId)
    (frees : ∀ {vm}, s.vm.freePageList t = .ok vm →
      K { s with vm, stage := update s.stage t .exited })
    (keeps : ∀ {s : Mmaps} {mapping}, s.Sound → K s →
      Settles Panic.Scarce K (s.munmap t mapping (victims mapping))) :
    Settles Panic.Scarce (fun s' => ∃ vm after,
        (∀ p, vm.page p = if p ∈ s.vm.pageList t then none else s.vm.page p) ∧
        Exiting { s with vm, stage := update s.stage t .exited } t [] after ∧ K after ∧
        s' = { after with mapidNext := update after.mapidNext t 0 })
      (s.processExit t victims) := by
  obtain ⟨vm, run, isPg, soundMid⟩ := sound.freePageList t
  unfold Mmaps.processExit
  rw [run]
  apply Settles.bind (soundMid.munmapAll (t := t) ?_ ?_ keeps (frees run))
  · exact fun after ⟨exiting, kept⟩ => ⟨vm, after, isPg, exiting, kept, rfl⟩
  · exact nodup_reverse.mpr nodup_range
  intro d mem isOwner
  rw [mem_reverse, mem_range, ← isOwner]
  exact sound.numbered mem

theorem Sound.processExit_exiting (sound : s.Sound) (t : ThreadId)
    (victims : Nat → Nat → Option FrameId) :
    Settles Panic.Scarce (fun s' => ∃ vm after,
        (∀ p, vm.page p = if p ∈ s.vm.pageList t then none else s.vm.page p) ∧
        Exiting { s with vm, stage := update s.stage t .exited } t [] after ∧
        s' = { after with mapidNext := update after.mapidNext t 0 })
      (s.processExit t victims) := by
  apply (sound.processExit_keeps (K := fun _ => True) t (fun _ => trivial) ?_).mono
  · exact fun s' ⟨vm, after, isPg, exiting, _, isAfter⟩ => ⟨vm, after, isPg, exiting, isAfter⟩
  · exact fun {s mapping} sound _ =>
      (sound.munmap t mapping (victims mapping)).mono fun _ _ => trivial

/-- `process_exit` frees the pages of the process, and no assertion fails in it. -/
theorem Sound.processExit (sound : s.Sound) (t : ThreadId) (victims : Nat → Nat → Option FrameId) :
    Settles Panic.Scarce (fun s' => s'.Sound ∧ s.Exits t s') (s.processExit t victims) := by
  apply (sound.processExit_exiting t victims).mono
  rintro s' ⟨vm, after, isPg, exiting, rfl⟩
  have noneLeft : ∀ {d}, d ∈ after.mmapTable ↔ d ∈ s.mmapTable ∧ d.owner ≠ t := by
    intro d
    rw [exiting.table]
    simp
  refine ⟨?_, noneLeft, ?_⟩
  · have old := exiting.sound
    refine ⟨old.good, old.within, old.covered, old.stack, old.mapped,
      old.counted, ?_, old.started, old.keys, old.apart⟩
    intro d mem
    show d.mapping < update after.mapidNext t 0 d.owner
    rw [update_of_ne (noneLeft.mp mem).2]
    exact old.numbered mem
  intro p
  rw [show (after.vm.page p).isSome ↔ _ from exiting.drops.isSome p]
  dsimp only
  rw [isPg p]
  by_cases listed : p ∈ s.vm.pageList t
  · simp [listed]
  · rw [if_neg listed]
    simp [listed]

end Mmaps

end Pintos
