import Pintos.Vm.Memory
import Pintos.Vm.Proofs.Residency

/-!
# A process finds the bytes it wrote

Wherever a writable anonymous page is (in a frame, in a swap slot, or nowhere because it
was never loaded or was evicted clean), its contents are the bytes that its process is
promised. What makes a clean eviction right is that a page whose entry is not dirty still
holds the bytes it was loaded with. A stack page for an address that is registered already
is not found again once it was evicted.
-/

namespace Pintos.Vm

open Function Option

variable {slot : SlotId} {saved mid : Vm} {upage upage' addr : Nat} {q : PageId} {vm vm' : Vm}
  {p : PageId} {pg pg' : Page} {k : KPage} {t : ThreadId}

/-- The contents of a page, wherever they are. -/
def data (vm : Vm) (pg : Page) : PageData :=
  match pg.kpage with
  | some k => vm.memory k
  | none =>
      match pg.type, pg.slotIdx with
      | .alloc, some slot => vm.swap.slotData slot
      | _, _ => vm.initialData pg

theorem data_of_seated (sits : pg.kpage = some k) : vm.data pg = vm.memory k := by
  unfold data
  rw [sits]

theorem data_of_swapped (swapped : pg.Swapped slot) : vm.data pg = vm.swap.slotData slot := by
  unfold data
  rw [swapped.2.1, swapped.1, swapped.2.2]

theorem data_of_unread (unseated : pg.kpage = none) (notAlloc : pg.type ≠ .alloc) :
    vm.data pg = vm.initialData pg := by
  unfold data
  rw [unseated]
  dsimp only
  split
  · contradiction
  · rfl

theorem initialData_congr (args : pg'.toPageArgs = pg.toPageArgs)
    (sameFile : ∀ file ∈ pg.file, (vm'.file file).bytes = (vm.file file).bytes) :
    vm'.initialData pg' = vm.initialData pg := by
  unfold initialData
  rw [args]
  funext i
  cases isFile : pg.file with
  | none => rfl
  | some file =>
    dsimp only
    rw [sameFile file isFile]

/-- A page without a frame keeps its contents if the slots and its file stay. -/
theorem data_congr (good : vm.Good) (isPage : vm.page p = some pg)
    (memory : ∀ k, pg.kpage = some k → vm'.memory k = vm.memory k)
    (slots : ∀ slot, vm.swap.Used slot → vm'.swap.slotData slot = vm.swap.slotData slot)
    (sameFile : ∀ file ∈ pg.file, (vm'.file file).bytes = (vm.file file).bytes) :
    vm'.data pg = vm.data pg := by
  cases sits : pg.kpage with
  | some k => rw [data_of_seated sits, data_of_seated sits, memory k sits]
  | none =>
    by_cases isAlloc : pg.type = .alloc
    · obtain ⟨-, slot, isSlot, used⟩ := (good.contents.fits isPage).alloc isAlloc sits
      have swapped : pg.Swapped slot := ⟨isAlloc, sits, isSlot⟩
      rw [data_of_swapped swapped, data_of_swapped swapped, slots slot used]
    · rw [data_of_unread sits isAlloc, data_of_unread sits isAlloc, initialData_congr rfl sameFile]

/-- The bytes of a page. -/
def pageOf (bytes : Nat → Byte) (upage : Nat) : PageData := fun i => bytes (upage * pgSize + i)

/-- The pages of the process `t` hold the bytes that it is promised. -/
structure Faithful (t : ThreadId) (vm : Vm) (bytes : Nat → Byte) : Prop where
  /-- Pages that were loaded or mapped are in `sup_page_table`. -/
  registered : ∀ {p pg}, vm.page p = some pg → pg.owner = t → pg.type ≠ .unalloc →
    p ∈ vm.supPageTable
  content : ∀ {p pg}, p ∈ vm.supPageTable → vm.page p = some pg → pg.owner = t →
    pg.type ≠ .file → pg.writable = true → vm.data pg = pageOf bytes pg.upage
  clean : ∀ {p pg k}, vm.page p = some pg → pg.owner = t → pg.type = .alloc →
    pg.writable = true → pg.kpage = some k → (vm.pte pg.owner pg.upage).dirty = false →
    vm.memory k = vm.initialData pg

variable {bytes : Nat → Byte}

/-- What a move that does not change the bytes of the process does to one of its pages. -/
structure Carries (vm vm' : Vm) (p : PageId) (pg pg' : Page) : Prop where
  kin : pg.Kin pg'
  registered : pg'.type ≠ .unalloc → pg.type ≠ .unalloc ∨ p ∈ vm.supPageTable
  data : pg.type ≠ .file → pg.writable = true → vm'.data pg' = vm.data pg
  clean : pg'.type = .alloc → pg.writable = true → ∀ k, pg'.kpage = some k →
    (vm'.pte pg.owner pg.upage).dirty = false → vm'.memory k = vm'.initialData pg'

/-- The pages hold the promised bytes as long as every page of the process is carried. -/
theorem Faithful.of_carries (faithful : vm.Faithful t bytes)
    (carries : ∀ {p pg'}, vm'.page p = some pg' → pg'.owner = t →
      ∃ pg, vm.page p = some pg ∧ Carries vm vm' p pg pg')
    (table : ∀ {p pg'}, vm'.page p = some pg' → pg'.owner = t →
      (p ∈ vm'.supPageTable ↔ p ∈ vm.supPageTable)) : vm'.Faithful t bytes where
  registered {p pg'} isNew mine notUnalloc := by
    obtain ⟨pg, wasPg, carried⟩ := carries isNew mine
    rw [table isNew mine]
    rcases carried.registered notUnalloc with loaded | member
    · exact faithful.registered wasPg (carried.kin.owner.symm.trans mine) loaded
    · exact member
  content {p pg'} member isNew mine notFile writable := by
    obtain ⟨pg, wasPg, carried⟩ := carries isNew mine
    have notFile : pg.type ≠ .file := fun isFile => notFile (carried.kin.file.mpr isFile)
    rw [carried.kin.writable] at writable
    rw [carried.data notFile writable, carried.kin.upage]
    exact faithful.content ((table isNew mine).mp member) wasPg
      (carried.kin.owner.symm.trans mine) notFile writable
  clean {p pg' k} isNew mine isAlloc writable sits clean := by
    obtain ⟨pg, wasPg, carried⟩ := carries isNew mine
    rw [carried.kin.writable] at writable
    rw [carried.kin.owner, carried.kin.upage] at clean
    exact carried.clean isAlloc writable k sits clean

theorem Faithful.carries_same (faithful : vm.Faithful t bytes) (good : vm.Good)
    (isPage : vm.page p = some pg) (mine : pg.owner = t)
    (memory : ∀ k, pg.kpage = some k → vm'.memory k = vm.memory k)
    (slots : ∀ slot, vm.swap.Used slot → vm'.swap.slotData slot = vm.swap.slotData slot)
    (sameFile : pg.type ≠ .file → ∀ file ∈ pg.file, (vm'.file file).bytes = (vm.file file).bytes)
    (entry : pg.kpage ≠ none → vm'.pte pg.owner pg.upage = vm.pte pg.owner pg.upage) :
    Carries vm vm' p pg pg where
  kin := .refl pg
  registered := Or.inl
  data notFile _ := data_congr good isPage memory slots (sameFile notFile)
  clean isAlloc writable k sits clean := by
    have notFile : pg.type ≠ .file := by
      rw [isAlloc]
      exact nofun
    rw [entry (sits.trans_ne (some_ne_none k))] at clean
    rw [memory k sits, initialData_congr rfl (sameFile notFile)]
    exact faithful.clean isPage mine isAlloc writable sits clean

/-! ## Eviction -/

theorem fileWriteAt_denyWrite (vm : Vm) (target : FileId) (d : PageData) (size ofs : Nat)
    (file : FileId) :
    ((vm.fileWriteAt target d size ofs).file file).denyWrite = (vm.file file).denyWrite := by
  unfold fileWriteAt
  split
  · rfl
  dsimp only
  by_cases same : file = target
  · rw [same, update_self]
  · rw [update_of_ne same]

section

variable (saves : vm.Saved k saved)
include saves

theorem Saved.denyWrite (file : FileId) :
    (saved.file file).denyWrite = (vm.file file).denyWrite := by
  cases saves with
  | swapped isPage sits only isAlloc writable run => rfl
  | clean unwritten => rfl
  | kept isFile unwritten => rfl
  | writtenBack isPage sits isFile dirty hasFile => exact fileWriteAt_denyWrite ..

theorem Saved.file_of_denied {file : FileId}
    (denied : (vm.file file).denyWrite = true) : saved.file file = vm.file file := by
  cases saves with
  | swapped isPage sits only isAlloc writable run => rfl
  | clean unwritten => rfl
  | kept isFile unwritten => rfl
  | @writtenBack p pg target isPage sits isFile dirty hasFile =>
    show (vm.fileWriteAt target _ _ _).file file = _
    unfold fileWriteAt
    split
    · rfl
    rename_i allowed
    apply update_of_ne
    rintro rfl
    exact allowed denied

theorem Saved.slotData_of_used
    (used : vm.swap.Used slot) : saved.swap.slotData slot = vm.swap.slotData slot := by
  cases saves with
  | swapped isPage sits only isAlloc writable run =>
    obtain ⟨unused, -, slotData, -⟩ := Swap.swapOut_spec run
    rw [slotData, if_neg]
    rintro rfl
    exact unused used
  | clean unwritten => rfl
  | kept isFile unwritten => rfl
  | writtenBack isPage sits isFile dirty hasFile =>
    rw [fileWriteAt_eq]
    rfl

/-- The contents of a page of the victim, which is written or as it was loaded. -/
theorem Saved.vacate_data (f : FrameId)
    (isPage : vm.page p = some pg) (sits : pg.kpage = some k) (notFile : pg.type ≠ .file)
    (clean : (vm.pte pg.owner pg.upage).dirty = false → vm.memory k = vm.initialData pg) :
    ∃ pg', (saved.vacate f k).page p = some pg' ∧ (saved.vacate f k).data pg' = vm.memory k := by
  cases saves with
  | @swapped q pg' slot swap isQ sitsQ only isAlloc writable run =>
    have isAlloc : pg.type = .alloc := by
      rw [only isPage sits, isQ, some.injEq] at isPage
      rwa [← isPage]
    refine ⟨_, changeAt_of_seated (changeAt_of_seated isPage sits) sits, ?_⟩
    have swapped : Page.Swapped { pg with slotIdx := some slot, kpage := none } slot :=
      ⟨isAlloc, rfl, rfl⟩
    exact (data_of_swapped swapped).trans (((Swap.swapOut_spec run).2.2.1 slot).trans (if_pos rfl))
  | clean unwritten =>
    refine ⟨_, changeAt_of_seated (changeAt_of_seated isPage sits) sits, ?_⟩
    have unread : PageType.unalloc ≠ .alloc := nofun
    exact (data_of_unread rfl unread).trans (clean (unwritten isPage sits).2).symm
  | kept isFile unwritten | writtenBack isQ sitsQ isFile dirty hasFile =>
    exact absurd (isFile isPage sits) notFile

end

/-- The files of the private pages of `t` are the same, or no write can change them. -/
def SameFiles (t : ThreadId) (vm vm' : Vm) : Prop :=
  ∀ p pg, vm.page p = some pg → pg.owner = t → pg.type ≠ .file → ∀ file ∈ pg.file,
    (vm.file file).denyWrite = true ∨ (vm'.file file).bytes = (vm.file file).bytes

theorem SameFiles.of_file (files : SameFiles t vm vm') (same : vm'.file = mid.file) :
    SameFiles t vm mid := by
  intro p pg isPage mine notFile file hasFile
  rw [← same]
  exact files p pg isPage mine notFile file hasFile

theorem Faithful.evicts (faithful : vm.Faithful t bytes) (good : vm.Good)
    (files : SameFiles t vm vm') (evicts : vm.Evicts vm') : vm'.Faithful t bytes := by
  cases evicts with
  | nothing => exact faithful
  | @victim f saved mem unpinned saves =>
    generalize (vm.table.frame f).kpage = k at saves
    obtain ⟨change, departs⟩ := good.departs saves
    have keeps := saves.keeps
    apply faithful.of_carries
    · intro p pg' isNew mine
      have isChange : changeAt vm.page k change p = some pg' := departs.page ▸ isNew
      obtain ⟨pg, wasPg, ⟨sits, rfl⟩ | ⟨elsewhere, rfl⟩⟩ := changeAt_eq_some isChange
      · -- the page was in the victim
        have kin := departs.kin wasPg sits
        have mineBefore : pg.owner = t := kin.owner.symm.trans mine
        refine ⟨pg, wasPg, kin, ?_, ?_, ?_⟩
        · intro _
          left
          intro isUnalloc
          rw [((good.contents.fits wasPg).unalloc isUnalloc).1] at sits
          cases sits
        · intro notFile writable
          have isAlloc : pg.type = .alloc := by
            cases isType : pg.type with
            | unalloc =>
              rw [((good.contents.fits wasPg).unalloc isType).1] at sits
              cases sits
            | alloc => rfl
            | file => exact absurd isType notFile
          obtain ⟨new, isNew', sameData⟩ := saves.vacate_data f wasPg sits notFile
            (faithful.clean wasPg mineBefore isAlloc writable sits)
          rw [isNew, some.injEq] at isNew'
          rw [isNew', sameData, data_of_seated sits]
        intro _ _ k' sits'
        rw [departs.leaves] at sits'
        cases sits'
      refine ⟨pg', wasPg, faithful.carries_same good wasPg mine ?_ ?_ ?_ ?_⟩
      · intro k' sits
        show update saved.memory k _ k' = _
        rw [update_of_ne, keeps.memory]
        rintro rfl
        exact elsewhere sits
      · intro slot used
        exact saves.slotData_of_used used
      · intro notFile file hasFile
        rcases files p pg' wasPg mine notFile file hasFile with denied | same
        · exact congrArg VmFile.bytes (saves.file_of_denied denied)
        · exact same
      · exact fun seated => good.entry_of_elsewhere saves wasPg seated elsewhere
    intro p pg' _ _
    show p ∈ saved.supPageTable ↔ _
    rw [keeps.supPageTable]

/-! ## Loads -/

/-- What a load of the page `p`, which was `pg`, does to the contents of pages. -/
structure LoadedAt (vm : Vm) (p : PageId) (pg : Page) (k : KPage) (vm' : Vm) : Prop where
  page : vm'.page = update vm.page p
    (some { pg with kpage := some k, type := if pg.type = .unalloc then .alloc else pg.type })
  pte : vm'.pte = setEntry vm.pte pg.owner pg.upage ⟨true, k, pg.writable, pg.type = .alloc⟩
  absent : (vm.pte pg.owner pg.upage).present = false
  file : vm'.file = vm.file
  supPageTable : vm'.supPageTable = vm.supPageTable
  slotData : ∀ slot, vm'.swap.slotData slot = vm.swap.slotData slot
  others : ∀ {q pg' k'}, vm.page q = some pg' → pg'.kpage = some k' → vm'.memory k' = vm.memory k'
  loads : pg.writable = true → vm'.memory k = vm.data pg

theorem Good.loadedAt (good : vm.Good) (unseated : pg.kpage = none)
    (loaded : vm.Loaded p pg vm') : ∃ k, LoadedAt vm p pg k vm' := by
  -- no page is in a frame that was free
  have elsewhere : ∀ {k}, vm.Free k → ∀ (d : PageData) {q pg' k'}, vm.page q = some pg' →
      pg'.kpage = some k' → update vm.memory k d k' = vm.memory k' := by
    intro k free d q pg' k' isQ sits
    apply update_of_ne
    rintro rfl
    exact good.kpage_ne_of_free free isQ sits
  cases loaded with
  | @read k free absent notAlloc =>
    refine ⟨k, rfl, rfl, absent, rfl, rfl, fun _ => rfl, elsewhere free _, fun _ => ?_⟩
    rw [data_of_unread unseated notAlloc]
    exact update_self ..
  | @swappedIn k slot free absent swapped =>
    refine ⟨k, rfl, rfl, absent, rfl, rfl, fun _ => rfl, elsewhere free _, fun _ => ?_⟩
    rw [data_of_swapped swapped]
    exact update_self ..
  | shared isCur curAlloc curReadOnly sits mem absent isUnalloc readOnly =>
    refine ⟨_, rfl, rfl, absent, rfl, rfl, fun _ => rfl, fun _ _ => rfl, ?_⟩
    intro writable
    rw [readOnly] at writable
    cases writable

theorem Faithful.loaded (faithful : vm.Faithful t bytes) (good : vm.Good)
    (isPage : vm.page p = some pg) (unseated : pg.kpage = none)
    (mem : pg.owner = t → p ∈ vm.supPageTable) (loaded : vm.Loaded p pg vm') :
    vm'.Faithful t bytes := by
  obtain ⟨k, spec⟩ := good.loadedAt unseated loaded
  apply faithful.of_carries
  · intro q pg' isNew mine
    rw [spec.page] at isNew
    by_cases same : q = p
    · rw [same, update_self, some.injEq] at isNew
      subst same isNew
      refine ⟨pg, isPage, ⟨rfl, rfl, ?_⟩, fun _ => Or.inr (mem mine), ?_, ?_⟩
      · dsimp only
        split
        · rename_i isUnalloc
          rw [isUnalloc]
          exact ⟨nofun, nofun⟩
        · exact Iff.rfl
      · intro _ writable
        exact (data_of_seated rfl).trans (spec.loads writable)
      intro _ writable k' sits clean
      cases sits
      -- a page that comes from a slot is dirty
      rw [spec.pte, setEntry_self] at clean
      have notAlloc : pg.type ≠ .alloc := of_decide_eq_false clean
      rw [spec.loads writable, data_of_unread unseated notAlloc]
      exact (initialData_congr rfl fun file _ => by rw [spec.file]).symm
    rw [update_of_ne same] at isNew
    refine ⟨pg', isNew, faithful.carries_same good isNew mine ?_ ?_ ?_ ?_⟩
    · exact fun k' sits => spec.others isNew sits
    · exact fun slot _ => spec.slotData slot
    · intro _ file _
      rw [spec.file]
    intro seated
    rw [spec.pte]
    exact good.entry_of_ne spec.absent isNew seated _
  · intro q pg' _ _
    rw [spec.supPageTable]

/-! ## New pages -/

theorem upage_of_addr (upage : Nat) (i : Fin pgSize) : (upage * pgSize + i) / pgSize = upage := by
  rw [Nat.mul_comm, Nat.mul_add_div (by decide), Nat.div_eq_of_lt i.2, Nat.add_zero]

theorem pageOf_setPage (bytes : Nat → Byte) (upage : Nat) (d : PageData) :
    pageOf (setPage bytes upage d) upage = d := by
  funext i
  have offset : (upage * pgSize + i) % pgSize = i := by
    rw [Nat.mul_comm, Nat.mul_add_mod, Nat.mod_eq_of_lt i.2]
  unfold pageOf setPage
  rw [if_pos (upage_of_addr upage i), offset, PageData.byte_coe]

theorem pageOf_setPage_of_ne (bytes : Nat → Byte) (d : PageData) (ne : upage' ≠ upage) :
    pageOf (setPage bytes upage d) upage' = pageOf bytes upage' := by
  funext i
  unfold pageOf setPage
  rw [if_neg (by rwa [upage_of_addr])]

/-- The bytes that the process is promised when a page is added. -/
def promise (t : ThreadId) (vm : Vm) (bytes : Nat → Byte) (pg : Page) : Nat → Byte :=
  if pg.owner = t ∧ pg.type = .unalloc ∧ vm.getPage t pg.upage = none then
    setPage bytes pg.upage (vm.initialData pg)
  else bytes

theorem pageOf_promise_of_mem (mem : p ∈ vm.supPageTable) (isPage : vm.page p = some pg)
    (mine : pg.owner = t) (new : Page) :
    pageOf (promise t vm bytes new) pg.upage = pageOf bytes pg.upage := by
  unfold promise
  split
  · rename_i added
    apply pageOf_setPage_of_ne
    intro same
    apply getPage_eq_none added.2.2 mem
    exact (hasKey_iff isPage).mpr ⟨mine, same⟩
  · rfl

theorem mem_addPage (good : vm.Good) :
    vm.nextPage ∈ (vm.addPage pg).supPageTable ↔ vm.getPage pg.owner pg.upage = none := by
  have fresh := good.registry.not_mem_of_absent good.registry.page_next
  unfold addPage
  dsimp only
  split
  · rename_i absent
    exact ⟨fun _ => absent, fun _ => List.mem_cons_self ..⟩
  · rename_i present
    exact ⟨fun mem => absurd mem fresh, fun absent => absurd absent present⟩

theorem mem_addPage_of_ne (ne : q ≠ vm.nextPage) :
    q ∈ (vm.addPage pg).supPageTable ↔ q ∈ vm.supPageTable := by
  unfold addPage
  dsimp only
  split
  · rw [List.mem_cons]
    exact or_iff_right ne
  · rfl

/-- A page after `addPage` is the new one or was there. -/
theorem addPage_eq_some {new : Page} (isPg : (vm.addPage new).page p = some pg) :
    (p = vm.nextPage ∧ pg = new) ∨ vm.page p = some pg := by
  by_cases same : p = vm.nextPage
  · left
    rw [same, show (vm.addPage new).page = update vm.page vm.nextPage (some new) from rfl,
      update_self, some.injEq] at isPg
    exact ⟨same, isPg.symm⟩
  right
  rwa [show (vm.addPage new).page = update vm.page vm.nextPage (some new) from rfl,
    update_of_ne same] at isPg

/-- A page is added, and the process is promised its first contents. -/
theorem Faithful.addPage (faithful : vm.Faithful t bytes) (good : vm.Good)
    (unseated : pg.kpage = none) (notAlloc : pg.type ≠ .alloc)
    (unregistered : pg.owner = t → pg.type = .file → vm.getPage t pg.upage = none) :
    (vm.addPage pg).Faithful t (promise t vm bytes pg) := by
  have unallocOf : pg.type ≠ .file → pg.type = .unalloc := by
    intro notFile
    cases isType : pg.type with
    | unalloc => rfl
    | alloc => exact absurd isType notAlloc
    | file => exact absurd isType notFile
  refine ⟨?_, ?_, ?_⟩
  · intro q pg' isPage mine notUnalloc
    rcases addPage_eq_some isPage with ⟨rfl, rfl⟩ | wasPg
    · rw [mem_addPage good, mine]
      apply unregistered mine
      by_contra notFile
      exact notUnalloc (unallocOf notFile)
    · rw [mem_addPage_of_ne (good.registry.old wasPg).ne]
      exact faithful.registered wasPg mine notUnalloc
  · intro q pg' mem isPage mine notFile writable
    rcases addPage_eq_some isPage with ⟨rfl, rfl⟩ | wasPg
    · have absent := (mem_addPage good).mp mem
      rw [mine] at absent
      have added : promise t vm bytes pg' = setPage bytes pg'.upage (vm.initialData pg') :=
        if_pos ⟨mine, unallocOf notFile, absent⟩
      rw [added, pageOf_setPage, data_of_unread unseated notAlloc]
      rfl
    rw [mem_addPage_of_ne (good.registry.old wasPg).ne] at mem
    rw [pageOf_promise_of_mem mem wasPg mine]
    exact faithful.content mem wasPg mine notFile writable
  intro q pg' k isPage mine isAlloc writable sits
  rcases addPage_eq_some isPage with ⟨-, rfl⟩ | wasPg
  · exact absurd isAlloc notAlloc
  · exact faithful.clean wasPg mine isAlloc writable sits

/-! ## Pages that are freed -/

/-- `page_free` keeps the contents of the other pages. -/
theorem Freed.memory (freed : vm.Freed p pg vm') (goodAfter : (vm'.dropPage p pg).Good)
    (isQ : (vm'.dropPage p pg).page q = some pg')
    (sits : pg'.kpage = some k) : vm'.memory k = vm.memory k := by
  cases freed with
  | unread isUnalloc => rfl
  | swapped swapped => rfl
  | @resident k' pinned table freed sitsP pins removes =>
    cases freed with
    | none => rfl
    | some f =>
      apply update_of_ne
      rintro rfl
      -- the frame is back in the pool, so nobody sits in it
      obtain ⟨g, mem, isKpage, -⟩ := goodAfter.frame_of_page isQ sits
      have used := (goodAfter.seating.used mem).2
      rw [isKpage, show (Vm.dropPage _ p pg).userPool = bitmapSetMultiple vm.userPool k 1 false
        from rfl, bitmapSetMultiple_bits, if_pos ⟨Nat.le_refl k, Nat.lt_succ_self k⟩] at used
      cases used

theorem Faithful.freed (faithful : vm.Faithful t bytes) (good : vm.Good)
    (isPage : vm.page p = some pg) (freed : vm.Freed p pg mid)
    (unmaps : pg.owner = t → pg.type = .file ∧ p ∈ vm.supPageTable) :
    (mid.dropPage p pg).Faithful t bytes := by
  have goodAfter := good.freed isPage freed
  have same : mid.file = vm.file ∧ ∀ slot, mid.swap.slotData slot = vm.swap.slotData slot := by
    cases freed <;> exact ⟨rfl, fun _ => rfl⟩
  apply faithful.of_carries
  · intro q pg' isQ mine
    obtain ⟨ne, wasQ⟩ := freed.page_eq_some.mp isQ
    refine ⟨pg', wasQ, faithful.carries_same good wasQ mine ?_ ?_ ?_ ?_⟩
    · exact fun k sits => freed.memory goodAfter isQ sits
    · exact fun slot _ => same.2 slot
    · intro _ file _
      rw [show (mid.dropPage p pg).file = vm.file from same.1]
    · exact good.entry_of_freed isPage freed ne wasQ
  intro q pg' isQ mine
  obtain ⟨ne, wasQ⟩ := freed.page_eq_some.mp isQ
  rw [freed.supPageTable isPage]
  cases found : vm.getPage pg.owner pg.upage with
  | none => rfl
  | some r =>
    apply List.mem_erase_of_ne
    -- the page that leaves the table is the freed one, or one of another process
    rintro rfl
    obtain ⟨mem, hasKey⟩ := getPage_eq_some found
    obtain ⟨sameOwner, -⟩ := (hasKey_iff wasQ).mp hasKey
    have memberP := (unmaps (sameOwner.symm.trans mine)).2
    rw [getPage_of_mem good.registry memberP isPage, some.injEq] at found
    exact ne found.symm

/-! ## Stores -/

theorem pageOf_update_of_ne (bytes : Nat → Byte) (b : Byte) (ne : addr / pgSize ≠ upage) :
    pageOf (update bytes addr b) upage = pageOf bytes upage := by
  funext i
  unfold pageOf
  apply update_of_ne
  rintro rfl
  exact ne (upage_of_addr upage i)

theorem pageOf_update (bytes : Nat → Byte) (addr : Nat) (b : Byte) :
    pageOf (update bytes addr b) (addr / pgSize) = fun i : Fin pgSize =>
      if i = addr % pgSize then b else pageOf bytes (addr / pgSize) i := by
  funext i
  have split := Nat.div_add_mod addr pgSize
  rw [Nat.mul_comm] at split
  unfold pageOf
  by_cases here : (i : Nat) = addr % pgSize
  · rw [if_pos here, here, split, update_self]
  rw [if_neg here, update_of_ne]
  intro same
  exact here (Nat.add_left_cancel (same.trans split.symm))

section Store

variable {addr : Nat} (b : Byte) (good : vm.Good) (isPage : vm.page p = some pg)
  (sits : pg.kpage = some (vm.pte pg.owner (addr / pgSize)).kpage)
  (isUpage : pg.upage = addr / pgSize) (writable : pg.writable = true)
include good isPage sits isUpage writable

/-- A store leaves the other pages alone, because a writable page shares its frame with no
    other page. -/
theorem Faithful.carries_store (faithful : vm.Faithful t bytes) (ne : q ≠ p)
    (isQ : vm.page q = some pg') (mine : pg'.owner = t) :
    Carries vm (vm.store pg.owner addr b) q pg' pg' := by
  apply faithful.carries_same good isQ mine
  · intro k sitsQ
    apply update_of_ne
    rintro rfl
    have readOnly := (good.contents.shared isPage isQ (Ne.symm ne) sits sitsQ).2
    rw [readOnly] at writable
    cases writable
  · exact fun _ _ => rfl
  · exact fun _ _ _ => rfl
  · exact fun seated => good.setEntry_other isPage sits isUpage ne isQ seated _

theorem Faithful.store (faithful : vm.Faithful t bytes) : (vm.store pg.owner addr b).Faithful t
      (if pg.owner = t then update bytes addr b else bytes) := by
  have seated : pg.kpage ≠ none := sits.trans_ne (some_ne_none _)
  refine ⟨faithful.registered, ?_, ?_⟩
  · intro q pg' mem isQ mine notFile writable'
    by_cases same : q = p
    · rw [same, show (vm.store pg.owner addr b).page p = some pg from isPage, some.injEq] at isQ
      subst same isQ
      rw [if_pos mine, isUpage, pageOf_update, ← isUpage,
        ← faithful.content mem isPage mine notFile writable, data_of_seated sits,
        data_of_seated sits]
      exact update_self ..
    have carried := faithful.carries_store b good isPage sits isUpage writable same isQ mine
    rw [carried.data notFile writable', faithful.content mem isQ mine notFile writable']
    split
    · rename_i isMine
      rw [pageOf_update_of_ne]
      -- the page that is written is the one that is registered for its address
      intro sameUpage
      have notUnalloc : pg.type ≠ .unalloc :=
        fun isUnalloc => seated ((good.contents.fits isPage).unalloc isUnalloc).1
      exact same (good.registry.keys mem (faithful.registered isPage isMine notUnalloc) isQ
        isPage (mine.trans isMine.symm) (sameUpage.symm.trans isUpage.symm))
    · rfl
  intro q pg' k isQ mine isAlloc writable' sitsQ clean
  by_cases same : q = p
  · rw [same, show (vm.store pg.owner addr b).page p = some pg from isPage, some.injEq] at isQ
    rw [← isQ, isUpage, show (vm.store pg.owner addr b).pte pg.owner (addr / pgSize) = _ from
      setEntry_self ..] at clean
    cases clean
  · exact (faithful.carries_store b good isPage sits isUpage writable same isQ mine).clean isAlloc
      writable' k sitsQ clean

end Store

/-- A page that can be written to through its entry is writable. -/
theorem Good.page_of_writable (good : vm.Good) (present : (vm.pte t upage).present = true)
    (writable : (vm.pte t upage).writable = true) : ∃ p pg, vm.page p = some pg ∧ pg.owner = t ∧
      pg.kpage = some (vm.pte t upage).kpage ∧ pg.upage = upage ∧ pg.writable = true := by
  obtain ⟨p, o, isSeat, rfl, rfl⟩ := good.mapping.backed present
  obtain ⟨pg, isPage, sits, rfl⟩ := seat_eq_some.mp isSeat
  have entry := ((good.contents.fits isPage).entry (sits.trans_ne (some_ne_none _))).1
  exact ⟨p, pg, isPage, rfl, sits, rfl, entry.symm.trans writable⟩

theorem Faithful.userWrite (faithful : vm.Faithful t bytes) (good : vm.Good) {t' : ThreadId}
    (b : Byte) (present : (vm.pte t' (addr / pgSize)).present = true)
    (writable : (vm.pte t' (addr / pgSize)).writable = true) :
    (vm.store t' addr b).Faithful t (if t' = t then update bytes addr b else bytes) := by
  obtain ⟨p, pg, isPage, rfl, sits, isUpage, isWritable⟩ := good.page_of_writable present writable
  exact faithful.store b good isPage sits isUpage isWritable

/-- A store changes nothing that a process reads outside the page that is written,
    although pages of several processes can sit in one frame. -/
theorem stores_are_private {u : ThreadId} {addr' : Nat} {b : Byte}
    (reached : Reachable Initial next AnyStep vm) (stored : vm.userWrite t addr b = some vm')
    (outside : ¬(u = t ∧ addr' / pgSize = addr / pgSize)) :
    vm'.userRead u addr' = vm.userRead u addr' := by
  have good := good_of_reachable reached
  obtain ⟨⟨present, writable⟩, rfl⟩ := ite_some_none_eq_some.mp stored
  obtain ⟨p, pg, isPage, rfl, sits, isUpage, isWritable⟩ := good.page_of_writable present writable
  show (vm.store pg.owner addr b).userRead u addr' = _
  have entry : (vm.store pg.owner addr b).pte u (addr' / pgSize) = _ := setEntry_of_ne _ outside
  simp only [userRead, entry]
  split
  · rename_i reads
    obtain ⟨q, o, isSeat, rfl, isUpage'⟩ := good.mapping.backed reads
    obtain ⟨pg', isQ, sits', rfl⟩ := seat_eq_some.mp isSeat
    have ne : p ≠ q := by
      rintro rfl
      cases isPage.symm.trans isQ
      exact outside ⟨rfl, isUpage'.symm.trans isUpage⟩
    dsimp only [store]
    rw [update_of_ne]
    -- pages that share a frame are read-only
    intro eq
    simp [(good.contents.shared isPage isQ ne sits (eq ▸ sits')).2] at isWritable
  · rfl

/-- Two processes have loaded the same page of a program. -/
theorem stores_are_private_copies : ∃ vm vm', Reachable Initial next AnyStep vm ∧
    vm.userWrite 1 (8 * pgSize) 7 = some vm' ∧ vm'.userRead 2 (8 * pgSize) = some 0 := by
  obtain ⟨vm, reached, writes, reads⟩ := reachable_of_run next AnyStep (start_initial 2 2)
    [.pageLazyLoad 1 (programArgs true) .unalloc, .pageLazyLoad 2 (programArgs true) .unalloc,
      .pageFullLoad 1 (8 * pgSize) none, .pageFullLoad 2 (8 * pgSize) none]
    (fun vm => (vm.userWrite 1 (8 * pgSize) 7).isSome ∧ vm.userRead 2 (8 * pgSize) = some 0)
    (by decide)
  obtain ⟨vm', stored⟩ := isSome_iff_exists.mp writes
  exact ⟨vm, vm', reached, stored, (stores_are_private reached stored (by decide)).trans reads⟩

/-! ## Accesses -/

theorem userRead_of_present (present : (vm.pte t (addr / pgSize)).present = true)
    (same : vm.memory (vm.pte t (addr / pgSize)).kpage = pageOf bytes (addr / pgSize)) :
    vm.userRead t addr = some (bytes addr) := by
  unfold userRead
  dsimp only
  rw [if_pos present, same]
  have small : addr % pgSize < pgSize := Nat.mod_lt _ (by decide)
  have split := Nat.div_add_mod addr pgSize
  rw [Nat.mul_comm] at split
  unfold PageData.byte pageOf
  rw [dif_pos small]
  exact congrArg (fun addr => some (bytes addr)) split

section Access

variable {addr : Nat} (faithful : vm.Faithful t bytes) (good : vm.Good)
  (found : vm.getPage t (addr / pgSize) = some p) (isPage : vm.page p = some pg)
  (notMapped : pg.type ≠ .file) (writable : pg.writable = true)
include faithful good found isPage notMapped writable

theorem Faithful.userRead {b : Byte} (reads : vm.userRead t addr = some b) : b = bytes addr := by
  have present : (vm.pte t (addr / pgSize)).present = true := by
    by_contra absent
    unfold Vm.userRead at reads
    rw [if_neg absent] at reads
    cases reads
  obtain ⟨q, pg', isQ, mine, sameUpage, inFrame⟩ := good.inFrame_of_present present
  have sits := (good.inFrame_iff isQ).mpr inFrame
  have notUnalloc : pg'.type ≠ .unalloc := by
    intro isUnalloc
    rw [((good.contents.fits isQ).unalloc isUnalloc).1] at sits
    cases sits
  -- the page that is mapped is the one that is registered
  have registered := getPage_of_mem good.registry (faithful.registered isQ mine notUnalloc) isQ
  rw [mine, sameUpage, found, some.injEq] at registered
  subst registered
  rw [isPage, some.injEq] at isQ
  subst isQ
  have content := faithful.content (getPage_eq_some found).1 isPage mine notMapped writable
  rw [data_of_seated sits, sameUpage] at content
  rw [userRead_of_present present content] at reads
  exact (some.inj reads).symm

theorem Faithful.userRead_of_load {victim : Option FrameId}
    (run : vm.pageFullLoad t addr victim = .ok (true, vm')) (files : SameFiles t vm vm') :
    vm'.userRead t addr = some (bytes addr) := by
  obtain ⟨mem, hasKey⟩ := getPage_eq_some found
  obtain ⟨mine, sameUpage⟩ := (hasKey_iff isPage).mp hasKey
  rcases good.pageFullLoad run with ⟨isFalse, -⟩ |
    ⟨-, q, pg', evicted, foundQ, isQ, unseated, evicts, loaded⟩
  · cases isFalse
  rw [found, some.injEq] at foundQ
  subst foundQ
  rw [isPage, some.injEq] at isQ
  subst isQ
  obtain ⟨k, spec⟩ := (good.evicts evicts).loadedAt unseated loaded
  have isPage' := evicts.page_of_unseated good isPage unseated
  have content := (faithful.evicts good (files.of_file spec.file) evicts).content
    (evicts.supPageTable ▸ mem) isPage' mine notMapped writable
  have entry : vm'.pte t (addr / pgSize) = ⟨true, k, pg.writable, pg.type = .alloc⟩ := by
    rw [spec.pte, ← mine, ← sameUpage, setEntry_self]
  apply userRead_of_present
  · rw [entry]
  · rw [entry, spec.loads writable, content, sameUpage]

end Access

end Pintos.Vm

namespace Pintos.PrivateMemory

open Function Vm

variable {t : ThreadId} {s s' : PrivateMemory}

theorem record_pageLazyLoad (vm : Vm) (bytes : Nat → Byte) (t' : ThreadId) (args : PageArgs)
    (type : PageType) :
    record t vm bytes (.pageLazyLoad t' args type) = promise t vm bytes
      { args with type, kpage := none, slotIdx := none, owner := t' } := by
  unfold promise
  cases type with
  | unalloc =>
    unfold record
    by_cases mine : t' = t
    · subst mine
      simp
    · simp [mine]
  | alloc => simp [record]
  | file => simp [record]

theorem record_pageFullLoadStack (vm : Vm) (bytes : Nat → Byte) (t' : ThreadId) (upage : Nat)
    (victim : Option FrameId) (unregistered : t' = t → vm.getPage t upage = none) :
    record t vm bytes (.pageFullLoadStack t' upage victim) =
      promise t vm bytes (stackPage t' upage) := by
  unfold promise record
  dsimp only
  rw [initialData_stackPage]
  by_cases mine : t' = t
  · rw [if_pos mine, if_pos ⟨mine, rfl, unregistered mine⟩]
    rfl
  · rw [if_neg mine, if_neg fun both => mine both.1]

theorem FilesKept.same {step : VmStep} {vm vm' : Vm} (kept : FilesKept t vm step) (good : vm.Good)
    (taken : vm.next step = some vm') : SameFiles t vm vm' := by
  intro p pg isPage mine notFile file hasFile
  have listed := good.registry.listed.mpr ⟨pg, isPage, mine, notFile⟩
  exact (kept p listed pg isPage file hasFile).imp_right fun same => same vm' taken

/-- One operation keeps the contents of the pages of a process that lives. -/
theorem faithful_next (faithful : s.vm.Faithful t s.bytes) (good : s.vm.Good) {step : VmStep}
    (lives : Lives t s.vm step) (kept : FilesKept t s.vm step) (taken : next t s step = some s') :
    s'.vm.Faithful t s'.bytes := by
  obtain ⟨after, vmTaken, rfl⟩ := Option.map_eq_some_iff.mp taken
  have files := kept.same good vmTaken
  dsimp only
  cases good.moves vmTaken with
  | @pageLazyLoad t' args type notAlloc hasFile =>
    rw [record_pageLazyLoad]
    exact faithful.addPage good rfl notAlloc lives
  | notFound => exact faithful
  | pageFullLoad found isPage unseated evicts loaded =>
    obtain ⟨_, spec⟩ := (good.evicts evicts).loadedAt unseated loaded
    exact (faithful.evicts good (files.of_file spec.file) evicts).loaded (good.evicts evicts)
      (evicts.page_of_unseated good isPage unseated) unseated
      (fun _ => evicts.supPageTable ▸ (getPage_eq_some found).1) loaded
  | @pageFullLoadStack t' upage victim evicted vm' evicts loaded =>
    rw [record_pageFullLoadStack s.vm s.bytes t' upage victim lives]
    have goodBefore := good.lazyStack t' upage
    have added : (s.vm.pageLazyLoad t' (stackArgs upage) .unalloc).Faithful t
        (promise t s.vm s.bytes (stackPage t' upage)) :=
      faithful.addPage good rfl nofun nofun
    obtain ⟨_, spec⟩ := (goodBefore.evicts evicts).loadedAt rfl loaded
    have filesBefore : SameFiles t (s.vm.pageLazyLoad t' (stackArgs upage) .unalloc) evicted := by
      intro p pg isPage mine notFile file hasFile
      rcases addPage_eq_some isPage with ⟨-, rfl⟩ | wasPg
      · cases hasFile
      · exact files.of_file spec.file p pg wasPg mine notFile file hasFile
    apply (added.evicts goodBefore filesBefore evicts).loaded (goodBefore.evicts evicts)
      (stackPage_of_evicts goodBefore evicts) rfl _ loaded
    intro mine
    have mine : t' = t := mine
    subst mine
    rw [evicts.supPageTable]
    exact (mem_addPage good).mpr (lives rfl)
  | @pageFree p pg mid isPage freed => exact faithful.freed good isPage freed (lives pg isPage)
  | frameEvict evicts => exact faithful.evicts good files evicts
  | userWrite present writable => exact faithful.userWrite good _ present writable
  | rehash perm =>
    exact ⟨fun isPage mine notUnalloc =>
      perm.mem_iff.mpr (faithful.registered isPage mine notUnalloc),
      fun mem => faithful.content (perm.mem_iff.mp mem), faithful.clean⟩

/-- As long as a process lives and the files of its private pages are kept, what it reads from a
    private page is the byte that it wrote last, or the first contents; this holds for an access
    that does not fault and for one after a page fault. -/
theorem reads_last_byte_written
    (reached : Reachable Initial (next t) (fun s step => Lives t s.vm step ∧ FilesKept t s.vm step) s)
    {addr : Nat} {p : PageId} {pg : Page} (found : s.vm.getPage t (addr / pgSize) = some p)
    (isPage : s.vm.page p = some pg) (notMapped : pg.type ≠ .file) (writable : pg.writable = true) :
    (∀ b, s.vm.userRead t addr = some b → b = s.bytes addr) ∧
      ∀ victim vm', s.vm.pageFullLoad t addr victim = .ok (true, vm') →
        FilesKept t s.vm (.pageFullLoad t addr victim) →
        vm'.userRead t addr = some (s.bytes addr) := by
  have both : s.vm.Good ∧ s.vm.Faithful t s.bytes := by
    apply reached.invariant (P := fun s => s.vm.Good ∧ s.vm.Faithful t s.bytes)
    · intro s initial
      have noPage : ∀ {p pg}, s.vm.page p ≠ some pg := by
        intro p pg
        rw [Vm.Initial.page initial p]
        exact nofun
      exact ⟨Vm.Initial.good initial, fun isPage => absurd isPage noPage,
        fun _ isPage => absurd isPage noPage, fun isPage => absurd isPage noPage⟩
    intro s step s' both ⟨lives, kept⟩ taken
    refine ⟨?_, faithful_next both.2 both.1 lives kept taken⟩
    obtain ⟨after, vmTaken, rfl⟩ := Option.map_eq_some_iff.mp taken
    exact both.1.next vmTaken
  refine ⟨fun b reads => both.2.userRead both.1 found isPage notMapped writable reads, ?_⟩
  intro victim vm' run kept
  refine both.2.userRead_of_load both.1 found isPage notMapped writable run (kept.same both.1 ?_)
  show ((s.vm.pageFullLoad t addr victim).toOption.map Prod.snd) = some vm'
  rw [run]
  rfl

/-- A process writes a byte, the page goes to a swap slot and comes back. -/
theorem reads_last_byte_written_swapped : ∃ s,
    Reachable Initial (next 1) (fun s step => Lives 1 s.vm step ∧ FilesKept 1 s.vm step) s ∧
      s.vm.userRead 1 (8 * pgSize) = some 7 ∧ s.bytes (8 * pgSize) = 7 := by
  obtain ⟨s, reached, reads, found, pg, isPage, notMapped, writable⟩ :=
      reachable_of_run (next 1) (fun s step => Lives 1 s.vm step ∧ ∀ p ∈ s.vm.pageList 1,
        ∀ pg ∈ s.vm.page p, ∀ file ∈ pg.file, (s.vm.file file).denyWrite = true)
    (show Initial ⟨start 2 2, fun _ => 0⟩ from start_initial 2 2)
    [.pageLazyLoad 1 (programArgs true) .unalloc, .pageFullLoad 1 (8 * pgSize) none,
      .userWrite 1 (8 * pgSize) 7, .frameEvict (some 0), .pageFullLoad 1 (8 * pgSize) none]
    (fun s => s.vm.userRead 1 (8 * pgSize) = some 7 ∧ s.vm.getPage 1 8 = some 0 ∧
      ∃ pg ∈ s.vm.page 0, pg.type ≠ .file ∧ pg.writable = true) (by decide)
  have kept : Reachable Initial (next 1)
      (fun s step => Lives 1 s.vm step ∧ FilesKept 1 s.vm step) s :=
    reached.mono fun _ _ ⟨lives, denied⟩ => ⟨lives,
      fun p listed pg isPage file hasFile => .inl (denied p listed pg isPage file hasFile)⟩
  exact ⟨s, kept, reads,
    ((reads_last_byte_written kept found isPage notMapped writable).1 7 reads).symm⟩

/-- A program has a writable segment in the page that `setup_stack` uses. The process writes a byte
    to its stack, the page is evicted, and the fault brings the page of the segment. -/
theorem stack_over_segment_loses_write : ¬∀ s, Reachable Initial (next 1) AnyStep s →
    ∀ addr p pg, s.vm.getPage 1 (addr / pgSize) = some p → s.vm.page p = some pg →
      pg.type ≠ .file → pg.writable = true → ∀ b, s.vm.userRead 1 addr = some b →
        b = s.bytes addr := by
  intro always
  obtain ⟨s, reached, reads, promised, found, pg, isPage, notMapped, writable⟩ :=
      reachable_of_run (next 1) AnyStep
    (show Initial ⟨start 2 2, fun _ => 0⟩ from start_initial 2 2)
    [.pageLazyLoad 1 { programArgs true with upage := physBasePage - 1 } .unalloc,
      .pageFullLoadStack 1 (physBasePage - 1) none, .userWrite 1 ((physBasePage - 1) * pgSize) 7,
      .frameEvict (some 0), .pageFullLoad 1 ((physBasePage - 1) * pgSize) none]
    (fun s => s.vm.userRead 1 ((physBasePage - 1) * pgSize) = some 0 ∧
      s.bytes ((physBasePage - 1) * pgSize) = 7 ∧
      s.vm.getPage 1 ((physBasePage - 1) * pgSize / pgSize) = some 0 ∧
      ∃ pg ∈ s.vm.page 0, pg.type ≠ .file ∧ pg.writable = true) (by decide)
  have same := always s reached _ 0 pg found isPage notMapped writable 0 reads
  rw [promised] at same
  cases same

end Pintos.PrivateMemory
