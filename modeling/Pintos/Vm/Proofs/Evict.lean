import Pintos.Vm.Proofs.Good

/-!
# Eviction

What `frame_evict` does to a victim, stated for the pages that sit in it instead of for
the records of its owners. The page of a dirty victim goes to a swap slot, the pages of
a clean one go back to where they came from, a mapped page goes to its file. In all
cases the pages lose their seat and their entries in the page directories.
-/

namespace Pintos

open Function List Option Seating FrameOwner

variable {second change : Page → Page} {page : PageId → Option Page}
  {pte pte' : ThreadId → Nat → Pte} {swap swap' : Swap} {saved : Vm}

/-- Change the pages that are in one kernel page. -/
def changeAt (page : PageId → Option Page) (k : KPage) (change : Page → Page) :
    PageId → Option Page :=
  fun p => (page p).map fun pg => if pg.kpage = some k then change pg else pg

/-- Clear the entries that map one kernel page. -/
def clearAt (pte : ThreadId → Nat → Pte) (k : KPage) : ThreadId → Nat → Pte :=
  fun t upage =>
    if (pte t upage).present = true ∧ (pte t upage).kpage = k then
      { pte t upage with present := false }
    else pte t upage

section ChangeAt

variable {page : PageId → Option Page} {k : KPage} {change : Page → Page} {p : PageId}
  {pg pg' : Page}

theorem changeAt_of_seated (isPg : page p = some pg) (sits : pg.kpage = some k) :
    changeAt page k change p = some (change pg) := by
  rw [changeAt, isPg, map_some, if_pos sits]

theorem changeAt_of_elsewhere (isPg : page p = some pg) (elsewhere : pg.kpage ≠ some k) :
    changeAt page k change p = some pg := by
  rw [changeAt, isPg, map_some, if_neg elsewhere]

theorem changeAt_eq_some (isPg : changeAt page k change p = some pg') :
    ∃ pg, page p = some pg ∧
      ((pg.kpage = some k ∧ pg' = change pg) ∨ (pg.kpage ≠ some k ∧ pg' = pg)) := by
  obtain ⟨pg, wasPg, rfl⟩ := map_eq_some_iff.mp isPg
  refine ⟨pg, wasPg, ?_⟩
  by_cases sits : pg.kpage = some k
  · exact .inl ⟨sits, if_pos sits⟩
  · exact .inr ⟨sits, if_neg sits⟩

theorem changeAt_changeAt (keeps : ∀ pg : Page, pg.kpage = some k → (change pg).kpage = some k) :
    changeAt (changeAt page k change) k second = changeAt page k fun pg => second (change pg) := by
  funext p
  unfold changeAt
  cases page p with
  | none => rfl
  | some pg =>
    by_cases sits : pg.kpage = some k
    · simp [sits, keeps pg sits]
    · simp [sits]

theorem changeAt_kin (kin : ∀ {p pg}, page p = some pg → pg.kpage = some k → pg.Kin (change pg)) :
    KinPages page (changeAt page k change) where
  forth {p pg} isPage := by
    by_cases sits : pg.kpage = some k
    · exact ⟨change pg, changeAt_of_seated isPage sits, kin isPage sits⟩
    · exact ⟨pg, changeAt_of_elsewhere isPage sits, .refl pg⟩
  back {p pg'} isPage := by
    obtain ⟨pg, wasPg, ⟨sits, rfl⟩ | ⟨-, rfl⟩⟩ := changeAt_eq_some isPage
    · exact ⟨pg, wasPg, kin wasPg sits⟩
    · exact ⟨pg', wasPg, .refl pg'⟩

end ChangeAt

/-- The pages in one kernel page leave it. `change` says what becomes of them. -/
theorem Contents.evict {k : KPage} (contents : Contents page pte swap)
    (entries : ∀ {p pg}, page p = some pg → pg.kpage ≠ none → pg.kpage ≠ some k → pte' pg.owner
      pg.upage = pte pg.owner pg.upage)
    (leaves : ∀ pg : Page, (change pg).kpage = none)
    (fits : ∀ {p pg}, page p = some pg → pg.kpage = some k → (change pg).Fits pte' swap')
    (used : ∀ {slot}, swap'.Used slot ↔ swap.Used slot ∨
      ∃ p pg, page p = some pg ∧ pg.kpage = some k ∧ (change pg).Swapped slot)
    (fresh : ∀ {p pg slot}, page p = some pg → pg.kpage = some k → (change pg).Swapped slot →
      ¬ swap.Used slot ∧ ∀ {q pg'}, page q = some pg' → pg'.kpage = some k → q = p)
    (data : ∀ {slot}, swap'.Used slot → swap'.slotData slot = swap'.given slot) :
    Contents (changeAt page k change) pte' swap' := by
  refine ⟨?_, ?_, ?_, ?_, data⟩
  · intro p pg' isPg
    obtain ⟨pg, wasPg, ⟨sits, rfl⟩ | ⟨elsewhere, rfl⟩⟩ := changeAt_eq_some isPg
    · exact fits wasPg sits
    have before := contents.fits wasPg
    refine ⟨before.unalloc, before.file, ?_, ?_⟩
    · intro isAlloc unseated
      obtain ⟨writable, slot, isSlot, wasUsed⟩ := before.alloc isAlloc unseated
      exact ⟨writable, slot, isSlot, used.mpr (.inl wasUsed)⟩
    intro seated
    rw [entries wasPg seated elsewhere]
    exact before.entry seated
  · intro p q pg pg' k' isP isQ ne sitsP sitsQ
    have stays : ∀ {r new}, changeAt page k change r = some new → new.kpage = some k' →
        page r = some new := by
      intro r new isNew sits
      obtain ⟨old, wasPg, ⟨-, rfl⟩ | ⟨-, rfl⟩⟩ := changeAt_eq_some isNew
      · rw [leaves old] at sits
        cases sits
      · exact wasPg
    exact contents.shared (stays isP sitsP) (stays isQ sitsQ) ne sitsP sitsQ
  · intro slot isUsed
    rcases used.mp isUsed with wasUsed | ⟨p, pg, isPg, sits, swapped⟩
    · obtain ⟨p, pg, isPg, swapped⟩ := contents.slots wasUsed
      refine ⟨p, pg, changeAt_of_elsewhere isPg ?_, swapped⟩
      rw [swapped.2.1]
      exact nofun
    · exact ⟨p, change pg, changeAt_of_seated isPg sits, swapped⟩
  intro p q pg pg' slot isP isQ swappedP swappedQ
  obtain ⟨old, wasP, ⟨sits, rfl⟩ | ⟨-, rfl⟩⟩ := changeAt_eq_some isP
  · obtain ⟨unused, only⟩ := fresh wasP sits swappedP
    obtain ⟨old', wasQ, ⟨sits', rfl⟩ | ⟨-, rfl⟩⟩ := changeAt_eq_some isQ
    · exact (only wasQ sits').symm
    · exact absurd (contents.used wasQ swappedQ) unused
  obtain ⟨old', wasQ, ⟨sits', rfl⟩ | ⟨-, rfl⟩⟩ := changeAt_eq_some isQ
  · exact absurd (contents.used wasP swappedP) (fresh wasQ sits' swappedQ).1
  · exact contents.slotInj wasP wasQ swappedP swappedQ

/-- The pages in one kernel page lose their seats and their entries. -/
theorem Mapping.clearAt {seat : Seats} (mapping : Mapping pte seat)
    (k : KPage) : Mapping (clearAt pte k) (without seat k) where
  maps {p k' o} sits := by
    obtain ⟨elsewhere, sits⟩ := without_eq_some.mp sits
    obtain ⟨present, isKpage⟩ := mapping.maps sits
    rw [Pintos.clearAt, if_neg]
    · exact ⟨present, isKpage⟩
    · exact fun here => elsewhere (isKpage.symm.trans here.2)
  backed {t upage} present := by
    unfold Pintos.clearAt at present ⊢
    split at present
    · cases present
    rename_i elsewhere
    rw [if_neg elsewhere]
    obtain ⟨p, o, sits, isThread, isPg⟩ := mapping.backed present
    refine ⟨p, o, without_eq_some.mpr ⟨?_, sits⟩, isThread, isPg⟩
    exact fun here => elsewhere ⟨present, here⟩
  single sitsP sitsQ :=
    mapping.single (without_eq_some.mp sitsP).2 (without_eq_some.mp sitsQ).2

namespace Vm

variable {vm vm' : Vm} {f : FrameId} {k : KPage} {p : PageId} {pg : Page}

/-! ## The loops over the owners -/

/-- A change of the pages of the owners, which does no more when it is done twice. -/
theorem foldl_modifyPage (change : Page → Page) (idem : ∀ pg, change (change pg) = change pg)
    (owners : List FrameOwner) (vm : Vm) :
    owners.foldl (fun vm o => vm.modifyPage o.supPage change) vm =
      { vm with page := fun p =>
          if p ∈ owners.map supPage then (vm.page p).map change else vm.page p } := by
  induction owners generalizing vm with
  | nil => simp
  | cons o rest ih =>
    rw [foldl_cons, ih]
    unfold modifyPage
    congr 1
    funext p
    dsimp only
    by_cases same : p = o.supPage
    · by_cases again : p ∈ rest.map supPage
      · subst same
        rw [if_pos again, List.map_cons, if_pos (List.mem_cons_self ..), update_self,
          Option.map_map]
        congr 1
        funext pg
        exact idem pg
      · subst same
        rw [if_neg again, map_cons, if_pos (mem_cons_self ..), update_self]
    · rw [update_of_ne same, map_cons]
      simp only [mem_cons, same, false_or]

/-- The entry of an owner. -/
def ownerEntry (o : FrameOwner) : ThreadId × Nat := (o.thread, o.upage)

theorem unbind_eq (owners : List FrameOwner) (vm : Vm) :
    vm.unbind owners =
      { vm with
        page := fun p =>
          if p ∈ owners.map supPage then
            (vm.page p).map fun page => { page with kpage := none }
          else vm.page p
        pte := fun t upage =>
          if (t, upage) ∈ owners.map ownerEntry then { vm.pte t upage with present := false }
          else vm.pte t upage } := by
  induction owners generalizing vm with
  | nil => simp [unbind]
  | cons o rest ih =>
    have step : vm.unbind (o :: rest) = ((vm.pagedirClearPage o.thread o.upage).modifyPage
        o.supPage fun page => { page with kpage := none }).unbind rest := rfl
    rw [step, ih]
    unfold modifyPage pagedirClearPage setPte
    congr 1
    · funext p
      dsimp only
      by_cases same : p = o.supPage
      · subst same
        rw [List.map_cons, if_pos (List.mem_cons_self ..), update_self, Option.map_map]
        split <;> rfl
      · rw [update_of_ne same, List.map_cons]
        simp only [mem_cons, same, false_or]
    funext t upage
    show (if _ then { setEntry vm.pte o.thread o.upage _ t upage with present := false }
      else setEntry vm.pte o.thread o.upage _ t upage) = _
    by_cases same : t = o.thread ∧ upage = o.upage
    · obtain ⟨rfl, rfl⟩ := same
      have first : (o.thread, o.upage) ∈ (o :: rest).map ownerEntry := mem_cons_self ..
      rw [if_pos first, setEntry_self]
      split <;> rfl
    rw [setEntry_of_ne _ same, map_cons]
    have other : (t, upage) ≠ ownerEntry o := fun equal =>
      same ⟨congrArg Prod.fst equal, congrArg Prod.snd equal⟩
    simp only [mem_cons, other, false_or]

theorem Good.mem_supPages (good : vm.Good) (mem : f ∈ vm.table.frameList) :
    p ∈ (vm.table.frame f).ownerList.map supPage ↔
      ∃ pg, vm.page p = some pg ∧ pg.kpage = some (vm.table.frame f).kpage := by
  constructor
  · intro owned
    obtain ⟨o, owns, rfl⟩ := mem_map.mp owned
    obtain ⟨pg, isPg, sits, -⟩ := (good.owner_iff mem).mp owns
    exact ⟨pg, isPg, sits⟩
  rintro ⟨pg, isPg, sits⟩
  exact mem_map.mpr ⟨ownerRecord p pg, (good.owner_iff mem).mpr ⟨pg, isPg, sits, rfl⟩,
    rfl⟩

theorem Good.mem_ownerEntries (good : vm.Good) (mem : f ∈ vm.table.frameList) {t : ThreadId}
    {upage : Nat} :
    (t, upage) ∈ (vm.table.frame f).ownerList.map ownerEntry ↔
      (vm.pte t upage).present = true ∧ (vm.pte t upage).kpage = (vm.table.frame f).kpage := by
  constructor
  · intro owned
    obtain ⟨o, owns, isEntry⟩ := mem_map.mp owned
    cases isEntry
    exact good.mapping.maps ((good.seating.owners mem o).mp owns)
  rintro ⟨present, isKpage⟩
  obtain ⟨p, o, sits, rfl, rfl⟩ := good.mapping.backed present
  rw [isKpage] at sits
  refine mem_map.mpr ⟨o, (good.seating.owners mem o).mpr ?_, rfl⟩
  rw [good.seating.record sits]
  exact sits

/-! ## The victim is saved -/

/-- What `frame_evict` can do to save a victim. -/
inductive Saved (vm : Vm) (k : KPage) : Vm → Prop where
  /-- The frame of a page that was written goes to a swap slot. -/
  | swapped {p : PageId} {pg : Page} {slot : SlotId} {swap : Swap}
      (isPage : vm.page p = some pg) (sits : pg.kpage = some k)
      (only : ∀ {q pg'}, vm.page q = some pg' → pg'.kpage = some k → q = p)
      (isAlloc : pg.type = .alloc) (writable : pg.writable = true)
      (run : vm.swap.swapOut (vm.memory k) = (some slot, swap)) :
      Saved vm k { vm with
        swap, page := changeAt vm.page k fun page => { page with slotIdx := some slot } }
  /-- Pages that were not written since they were loaded are loaded again. -/
  | clean (unwritten : ∀ {p pg}, vm.page p = some pg → pg.kpage = some k →
        pg.type = .alloc ∧ (vm.pte pg.owner pg.upage).dirty = false) :
      Saved vm k { vm with
        page := changeAt vm.page k fun page => { page with type := .unalloc, slotIdx := none } }
  /-- A mapped page that was not written. -/
  | kept (isFile : ∀ {p pg}, vm.page p = some pg → pg.kpage = some k → pg.type = .file)
      (unwritten : ∀ {p pg}, vm.page p = some pg → pg.kpage = some k →
        (vm.pte pg.owner pg.upage).dirty = false) :
      Saved vm k vm
  /-- A mapped page that was written. -/
  | writtenBack {p : PageId} {pg : Page} {file : FileId}
      (isPage : vm.page p = some pg) (sits : pg.kpage = some k)
      (isFile : ∀ {p pg}, vm.page p = some pg → pg.kpage = some k → pg.type = .file)
      (dirty : (vm.pte pg.owner pg.upage).dirty = true) (hasFile : pg.file = some file) :
      Saved vm k ((vm.fileWriteAt file (vm.memory k) pg.readBytes pg.ofs).pagedirSetDirty
        pg.owner pg.upage false)

theorem Good.clean_of_shared (good : vm.Good) {q : PageId} {pg' : Page}
    (isP : vm.page p = some pg) (isQ : vm.page q = some pg') (ne : p ≠ q)
    (sitsP : pg.kpage = some k) (sitsQ : pg'.kpage = some k) :
    pg.type = .alloc ∧ pg.writable = false ∧ (vm.pte pg.owner pg.upage).dirty = false := by
  obtain ⟨isAlloc, readOnly⟩ := good.contents.shared isP isQ ne sitsP sitsQ
  exact ⟨isAlloc, readOnly,
    ((good.contents.fits isP).entry (sitsP.trans_ne (some_ne_none k))).2 readOnly⟩

/-- The changes of the pages of the owners, as changes of the pages in the frame. -/
theorem Good.changeAt_owners (good : vm.Good) (mem : f ∈ vm.table.frameList)
    (change : Page → Page) :
    (fun p => if p ∈ (vm.table.frame f).ownerList.map supPage then
        (vm.page p).map change else vm.page p) =
      changeAt vm.page (vm.table.frame f).kpage change := by
  funext p
  by_cases owns : p ∈ (vm.table.frame f).ownerList.map supPage
  · rw [if_pos owns]
    obtain ⟨pg, isPg, sits⟩ := (good.mem_supPages mem).mp owns
    rw [changeAt_of_seated isPg sits, isPg, map_some]
  rw [if_neg owns]
  cases isPg : vm.page p with
  | none => rw [changeAt, isPg, map_none]
  | some pg =>
    rw [changeAt_of_elsewhere isPg]
    exact fun sits => owns ((good.mem_supPages mem).mpr ⟨pg, isPg, sits⟩)

theorem modifyPage_page_of_only (isPg : vm.page p = some pg) (sits : pg.kpage = some k)
    (only : ∀ {q pg'}, vm.page q = some pg' → pg'.kpage = some k → q = p) (change : Page → Page) :
    update vm.page p ((vm.page p).map change) = changeAt vm.page k change := by
  funext q
  by_cases same : q = p
  · rw [same, update_self, changeAt_of_seated isPg sits, isPg, map_some]
  rw [update_of_ne same]
  cases isQ : vm.page q with
  | none => rw [changeAt, isQ, map_none]
  | some pg' =>
    rw [changeAt_of_elsewhere isQ]
    exact fun sitsQ => same (only isQ sitsQ)

theorem Good.saveAlloc (good : vm.Good) (mem : f ∈ vm.table.frameList)
    (isKpage : (vm.table.frame f).kpage = k) (isPg : vm.page p = some pg)
    (sits : pg.kpage = some k) (isAlloc : pg.type = .alloc) :
    vm.saveAlloc k (vm.table.frame f).ownerList (ownerRecord p pg) = .error .swapFull ∨
      ∃ saved, vm.saveAlloc k (vm.table.frame f).ownerList (ownerRecord p pg) = .ok saved ∧
        vm.Saved k saved := by
  unfold Vm.saveAlloc
  by_cases dirty : (vm.pte pg.owner pg.upage).dirty = true
  · rw [show (vm.pte (ownerRecord p pg).thread (ownerRecord p pg).upage).dirty = true from dirty,
      if_pos rfl]
    -- a page that was written has its frame for itself
    have alone : ∀ {q pg'}, vm.page q = some pg' → pg'.kpage = some k → q = p := by
      intro q pg' isQ sitsQ
      by_contra ne
      have clean := (good.clean_of_shared isPg isQ (Ne.symm ne) sits sitsQ).2.2
      rw [clean] at dirty
      cases dirty
    have writable : pg.writable = true := by
      by_contra readOnly
      have seated : pg.kpage ≠ none := sits.trans_ne (some_ne_none k)
      rw [((good.contents.fits isPg).entry seated).2 (eq_false_of_ne_true readOnly)] at dirty
      cases dirty
    cases run : vm.swap.swapOut (vm.memory k) with
    | mk found swap =>
      cases found with
      | none => exact .inl rfl
      | some slot =>
        refine .inr ⟨_, rfl, ?_⟩
        unfold modifyPage
        dsimp only [ownerRecord]
        rw [modifyPage_page_of_only isPg sits alone]
        exact .swapped isPg sits alone isAlloc writable run
  rw [show (vm.pte (ownerRecord p pg).thread (ownerRecord p pg).upage).dirty = false from
    eq_false_of_ne_true dirty, if_neg nofun]
  refine .inr ⟨_, rfl, ?_⟩
  rw [foldl_modifyPage (fun page => { page with type := .unalloc, slotIdx := none })
    (fun _ => rfl), good.changeAt_owners mem, isKpage]
  apply Saved.clean
  intro q pg' isQ sitsQ
  by_cases same : q = p
  · rw [same, isPg, some.injEq] at isQ
    rw [← isQ]
    exact ⟨isAlloc, eq_false_of_ne_true dirty⟩
  · have clean := good.clean_of_shared isQ isPg same sitsQ sits
    exact ⟨clean.1, clean.2.2⟩

theorem Good.saveFile (good : vm.Good) (isPg : vm.page p = some pg) (sits : pg.kpage = some k)
    (isFile : pg.type = .file) :
    ∃ saved, vm.saveFile k (ownerRecord p pg) pg = .ok saved ∧ vm.Saved k saved := by
  have only : ∀ {q pg'}, vm.page q = some pg' → pg'.kpage = some k → pg' = pg := by
    intro q pg' isQ sitsQ
    by_cases same : q = p
    · rw [same, isPg, some.injEq] at isQ
      exact isQ.symm
    -- a shared page is not mapped
    have isAlloc := (good.clean_of_shared isPg isQ (Ne.symm same) sits sitsQ).1
    rw [isFile] at isAlloc
    cases isAlloc
  have allFile : ∀ {q pg'}, vm.page q = some pg' → pg'.kpage = some k → pg'.type = .file := by
    intro q pg' isQ sitsQ
    rw [only isQ sitsQ]
    exact isFile
  unfold Vm.saveFile
  by_cases dirty : (vm.pte pg.owner pg.upage).dirty = true
  · rw [show (vm.pte (ownerRecord p pg).thread (ownerRecord p pg).upage).dirty = true from dirty,
      if_pos rfl]
    cases hasFile : pg.file with
    | none => exact absurd hasFile ((good.contents.fits isPg).file isFile).2
    | some file => exact ⟨_, rfl, .writtenBack isPg sits allFile dirty hasFile⟩
  rw [show (vm.pte (ownerRecord p pg).thread (ownerRecord p pg).upage).dirty = false from
    eq_false_of_ne_true dirty, if_neg nofun]
  refine ⟨vm, rfl, .kept allFile fun isQ sitsQ => ?_⟩
  rw [only isQ sitsQ]
  exact eq_false_of_ne_true dirty

/-- The part of `frame_evict` that saves the victim stops only if the swap is full. -/
theorem Good.saveVictim (good : vm.Good) (mem : f ∈ vm.table.frameList)
    (isKpage : (vm.table.frame f).kpage = k) :
    vm.saveVictim k (vm.table.frame f).ownerList = .error .swapFull ∨
      ∃ saved, vm.saveVictim k (vm.table.frame f).ownerList = .ok saved ∧ vm.Saved k saved := by
  cases isList : (vm.table.frame f).ownerList with
  | nil => exact absurd isList (good.seating.nonempty mem)
  | cons first rest =>
    have owns : first ∈ (vm.table.frame f).ownerList := by
      rw [isList]
      exact mem_cons_self ..
    obtain ⟨pg, isPg, sits, isFirst⟩ := (good.owner_iff mem).mp owns
    rw [isKpage] at sits
    have sameUpage : first.upage = pg.upage := congrArg upage isFirst
    unfold Vm.saveVictim
    dsimp only
    rw [isPg]
    dsimp only
    rw [if_pos sameUpage]
    cases isType : pg.type with
    | unalloc =>
      rw [((good.contents.fits isPg).unalloc isType).1] at sits
      cases sits
    | alloc =>
      dsimp only
      rw [← isList, isFirst]
      exact good.saveAlloc mem isKpage isPg sits isType
    | file =>
      dsimp only
      rw [isFirst]
      exact .inr (good.saveFile isPg sits isType)

/-! ## The victim is given up -/

/-- What `frame_evict` does once the victim is saved. -/
def vacate (vm : Vm) (f : FrameId) (k : KPage) : Vm :=
  { vm with
    table := (vm.table.dropOwners f).drop f
    userPool := bitmapSetMultiple vm.userPool k 1 false
    memory := update vm.memory k fun _ => 0xcc
    page := changeAt vm.page k fun page => { page with kpage := none }
    pte := clearAt vm.pte k }

/-- What stays as it was when a victim is saved. -/
structure Saved.Keeps (vm saved : Vm) : Prop where
  table : saved.table = vm.table
  userPool : saved.userPool = vm.userPool
  memory : saved.memory = vm.memory
  nextPage : saved.nextPage = vm.nextPage
  supPageTable : saved.supPageTable = vm.supPageTable
  pageList : saved.pageList = vm.pageList
  name : saved.name = vm.name
  kpage : ∀ p, (saved.page p).map Page.kpage = (vm.page p).map Page.kpage
  entry : ∀ t upage, (saved.pte t upage).present = (vm.pte t upage).present ∧
    (saved.pte t upage).kpage = (vm.pte t upage).kpage

theorem changeAt_kpage (keeps : ∀ pg, (change pg).kpage = pg.kpage) (p : PageId) :
    (changeAt page k change p).map Page.kpage = (page p).map Page.kpage := by
  unfold changeAt
  cases page p with
  | none => rfl
  | some pg =>
    by_cases sits : pg.kpage = some k
    · simp [sits, keeps]
    · simp [sits]

/-- `file_write_at` changes files only. -/
theorem fileWriteAt_eq (vm : Vm) (file : FileId) (d : PageData) (size ofs : Nat) :
    vm.fileWriteAt file d size ofs =
      { vm with file := (vm.fileWriteAt file d size ofs).file } := by
  unfold fileWriteAt
  split <;> rfl

theorem Saved.keeps (saves : vm.Saved k saved) : Saved.Keeps vm saved := by
  cases saves with
  | swapped isPg sits only isAlloc writable run | clean unwritten =>
    exact ⟨rfl, rfl, rfl, rfl, rfl, rfl, rfl, changeAt_kpage fun _ => rfl, fun _ _ => ⟨rfl, rfl⟩⟩
  | kept isFile unwritten =>
    exact ⟨rfl, rfl, rfl, rfl, rfl, rfl, rfl, fun _ => rfl, fun _ _ => ⟨rfl, rfl⟩⟩
  | @writtenBack p pg file isPg sits isFile dirty hasFile =>
    rw [fileWriteAt_eq]
    exact ⟨rfl, rfl, rfl, rfl, rfl, rfl, rfl, fun _ => rfl,
      setEntry_dirty vm.pte pg.owner pg.upage false⟩

theorem Good.unbind_saved (good : vm.Good) (mem : f ∈ vm.table.frameList)
    (keeps : Saved.Keeps vm saved) :
    saved.unbind (vm.table.frame f).ownerList =
      { saved with
        page := changeAt saved.page (vm.table.frame f).kpage fun page => { page with kpage := none }
        pte := clearAt saved.pte (vm.table.frame f).kpage } := by
  rw [unbind_eq]
  congr 1
  · funext p
    have same := keeps.kpage p
    have owned := good.mem_supPages (p := p) mem
    cases isSaved : saved.page p with
    | none =>
      rw [changeAt, isSaved]
      split <;> rfl
    | some pg =>
      rw [isSaved] at same
      obtain ⟨old, wasPg, isKpage⟩ := map_eq_some_iff.mp same.symm
      by_cases sits : pg.kpage = some (vm.table.frame f).kpage
      · rw [changeAt_of_seated isSaved sits,
          if_pos (owned.mpr ⟨old, wasPg, isKpage.trans sits⟩), map_some]
      rw [changeAt_of_elsewhere isSaved sits, if_neg]
      intro owns
      obtain ⟨old', wasPg', sits'⟩ := owned.mp owns
      rw [wasPg, some.injEq] at wasPg'
      rw [← wasPg', isKpage] at sits'
      exact sits sits'
  funext t upage
  unfold clearAt
  rw [(keeps.entry t upage).1, (keeps.entry t upage).2]
  simp only [good.mem_ownerEntries mem]

theorem pallocFreePage_eq (used : vm.userPool.bits k = true) :
    vm.pallocFreePage k = .ok
      { vm with userPool := bitmapSetMultiple vm.userPool k 1 false
                memory := update vm.memory k fun _ => 0xcc } := by
  apply if_pos
  rw [bitmapAll_iff]
  intro i low high
  rwa [Nat.le_antisymm (Nat.lt_succ_iff.mp high) low]

/-- `frame_evict` of a frame of the list stops only if the swap is full. -/
theorem Good.evictVictim (good : vm.Good) (mem : f ∈ vm.table.frameList) :
    vm.evictVictim f = .error .swapFull ∨
      ∃ saved, vm.evictVictim f = .ok (saved.vacate f (vm.table.frame f).kpage) ∧
        vm.Saved (vm.table.frame f).kpage saved := by
  rcases good.saveVictim mem rfl with full | ⟨saved, run, saves⟩
  · left
    unfold Vm.evictVictim
    dsimp only
    rw [full]
    rfl
  right
  refine ⟨saved, ?_, saves⟩
  have keeps := saves.keeps
  unfold Vm.evictVictim
  dsimp only
  rw [run]
  show Vm.frameFree _ _ = _
  rw [good.unbind_saved mem keeps]
  unfold Vm.frameFree
  dsimp only
  rw [keeps.table, good.seating.listed.frameFree_dropOwners mem]
  dsimp only
  rw [pallocFreePage_eq]
  · unfold vacate
    rw [keeps.table]
  show saved.userPool.bits _ = true
  rw [keeps.userPool]
  exact (good.seating.used mem).2

/-! ## The invariant -/

theorem seat_changeAt (leaves : ∀ pg, (change pg).kpage = none)
    (isPage : vm'.page = changeAt vm.page k change) : vm'.seat = without vm.seat k := by
  funext p
  cases wasPg : vm.page p with
  | none =>
    have gone : vm'.page p = none := by rw [isPage, changeAt, wasPg, map_none]
    rw [seat_of_absent gone, without, seat_of_absent wasPg]
    rfl
  | some pg =>
    by_cases sits : pg.kpage = some k
    · rw [seat_eq_none (isPage ▸ changeAt_of_seated wasPg sits) (leaves pg)]
      unfold without
      rw [seat_of_page wasPg sits, map_some, if_pos rfl]
    have same : vm'.seat p = vm.seat p := by
      unfold seat
      rw [isPage, changeAt_of_elsewhere wasPg sits, wasPg]
    rw [same]
    unfold without
    rw [if_neg]
    intro here
    obtain ⟨⟨k', o⟩, isSeat, rfl⟩ := map_eq_some_iff.mp here
    obtain ⟨pg', isPg', sits', -⟩ := seat_eq_some.mp isSeat
    rw [wasPg, some.injEq] at isPg'
    exact sits (isPg' ▸ sits')

theorem Good.clearAt_of_elsewhere (good : vm.Good) (isPg : vm.page p = some pg)
    (seated : pg.kpage ≠ none) (elsewhere : pg.kpage ≠ some k) :
    clearAt vm.pte k pg.owner pg.upage = vm.pte pg.owner pg.upage := by
  obtain ⟨k', sits⟩ := ne_none_iff_exists'.mp seated
  have isKpage := (good.mapping.maps (seat_of_page isPg sits)).2
  apply if_neg
  rintro ⟨-, here⟩
  apply elsewhere
  rw [sits, ← here]
  exact congrArg some isKpage.symm

/-- The pages of a victim after `frame_evict`: `change` says what becomes of them. -/
structure Departs (vm saved : Vm) (k : KPage) (change : Page → Page) : Prop where
  page : changeAt saved.page k (fun page => { page with kpage := none }) =
    changeAt vm.page k change
  leaves : ∀ pg : Page, (change pg).kpage = none
  kin : ∀ {p pg}, vm.page p = some pg → pg.kpage = some k → pg.Kin (change pg)
  contents : Contents (changeAt vm.page k change) (clearAt saved.pte k) saved.swap

section

variable (good : vm.Good)
include good

theorem Good.departs_swapped {slot : SlotId}
    (isPage : vm.page p = some pg) (sits : pg.kpage = some k)
    (only : ∀ {q pg'}, vm.page q = some pg' → pg'.kpage = some k → q = p)
    (isAlloc : pg.type = .alloc) (writable : pg.writable = true)
    (run : vm.swap.swapOut (vm.memory k) = (some slot, swap)) :
    Departs vm { vm with
        swap, page := changeAt vm.page k fun page => { page with slotIdx := some slot } } k
      fun page => { page with slotIdx := some slot, kpage := none } := by
  obtain ⟨unused, used, slotData, given⟩ := Swap.swapOut_spec run
  have isPg : ∀ {q pg'}, vm.page q = some pg' → pg'.kpage = some k → pg' = pg := by
    intro q pg' isQ sitsQ
    rw [only isQ sitsQ, isPage, some.injEq] at isQ
    exact isQ.symm
  refine ⟨changeAt_changeAt fun _ sits => sits, fun _ => rfl, fun _ _ => ⟨rfl, rfl, Iff.rfl⟩, ?_⟩
  apply good.contents.evict
  · exact good.clearAt_of_elsewhere
  · exact fun _ => rfl
  · intro q pg' isQ sitsQ
    rw [isPg isQ sitsQ]
    constructor
    · intro isUnalloc
      rw [show pg.type = .unalloc from isUnalloc] at isAlloc
      cases isAlloc
    · intro isFile
      rw [show pg.type = .file from isFile] at isAlloc
      cases isAlloc
    · exact fun _ _ => ⟨writable, slot, rfl, (used slot).mpr (.inl rfl)⟩
    · exact fun seated => absurd rfl seated
  · intro slot'
    rw [used slot', or_comm]
    apply or_congr Iff.rfl
    constructor
    · rintro rfl
      exact ⟨p, pg, isPage, sits, isAlloc, rfl, rfl⟩
    · rintro ⟨q, pg', -, -, -, -, isSlot⟩
      exact (some.inj isSlot).symm
  · rintro q pg' slot' isQ sitsQ ⟨-, -, isSlot⟩
    rw [← show slot = slot' from some.inj isSlot]
    refine ⟨unused, ?_⟩
    intro r pg'' isR sitsR
    rw [only isQ sitsQ, only isR sitsR]
  intro slot' isUsed
  rw [slotData, given]
  split
  · rfl
  · rename_i other
    exact good.contents.data (((used slot').mp isUsed).resolve_left other)

theorem Good.contents_evict
    (entries : ∀ {p pg}, vm.page p = some pg → pg.kpage ≠ none → pg.kpage ≠ some k →
      pte' pg.owner pg.upage = vm.pte pg.owner pg.upage)
    (leaves : ∀ pg : Page, (change pg).kpage = none)
    (fits : ∀ {p pg}, vm.page p = some pg → pg.kpage = some k → (change pg).Fits pte' vm.swap)
    (noSlot : ∀ {p pg}, vm.page p = some pg → pg.kpage = some k → (change pg).type ≠ .alloc) :
    Contents (changeAt vm.page k change) pte' vm.swap := by
  apply good.contents.evict entries leaves fits
  · intro slot
    refine ⟨.inl, fun used => used.resolve_right ?_⟩
    rintro ⟨p, pg, isPg, sits, swapped⟩
    exact noSlot isPg sits swapped.1
  · intro p pg slot isPg sits swapped
    exact absurd swapped.1 (noSlot isPg sits)
  · exact good.contents.data

theorem Good.departs_clean
    (isAlloc : ∀ {p pg}, vm.page p = some pg → pg.kpage = some k → pg.type = .alloc) :
    Departs vm { vm with
        page := changeAt vm.page k fun page => { page with type := .unalloc, slotIdx := none } } k
      fun page => { page with type := .unalloc, slotIdx := none, kpage := none } := by
  refine ⟨changeAt_changeAt fun _ sits => sits, fun _ => rfl, ?_, ?_⟩
  · intro p pg isPg sits
    refine ⟨rfl, rfl, ?_⟩
    rw [isAlloc isPg sits]
    exact ⟨nofun, nofun⟩
  apply good.contents_evict
  · exact good.clearAt_of_elsewhere
  · exact fun _ => rfl
  · intro p pg isPg sits
    exact ⟨fun _ => ⟨rfl, rfl⟩, nofun, nofun, fun seated => absurd rfl seated⟩
  · exact fun _ _ => nofun

theorem Good.departs_file (samePage : saved.page = vm.page) (sameSwap : saved.swap = vm.swap)
    (isFile : ∀ {p pg}, vm.page p = some pg → pg.kpage = some k → pg.type = .file)
    (entries : ∀ {p pg}, vm.page p = some pg → pg.kpage ≠ none → pg.kpage ≠ some k →
      clearAt saved.pte k pg.owner pg.upage = vm.pte pg.owner pg.upage) :
    Departs vm saved k fun page => { page with kpage := none } := by
  refine ⟨by rw [samePage], fun _ => rfl, fun _ _ => ⟨rfl, rfl, Iff.rfl⟩, ?_⟩
  rw [sameSwap]
  apply good.contents_evict entries
  · exact fun _ => rfl
  · intro p pg isPg sits
    have wasFile := isFile isPg sits
    refine ⟨?_, (good.contents.fits isPg).file, ?_, fun seated => absurd rfl seated⟩
    · intro isUnalloc
      rw [show pg.type = .unalloc from isUnalloc] at wasFile
      cases wasFile
    intro isAlloc
    rw [show pg.type = .alloc from isAlloc] at wasFile
    cases wasFile
  intro p pg isPg sits isAlloc
  have wasFile := isFile isPg sits
  rw [show pg.type = .alloc from isAlloc] at wasFile
  cases wasFile

theorem Good.entry_of_elsewhere (saves : vm.Saved k saved)
    (isPg : vm.page p = some pg) (seated : pg.kpage ≠ none) (elsewhere : pg.kpage ≠ some k) :
    clearAt saved.pte k pg.owner pg.upage = vm.pte pg.owner pg.upage := by
  have cleared := good.clearAt_of_elsewhere isPg seated elsewhere
  cases saves with
  | swapped isQ sits only isAlloc writable run => exact cleared
  | clean unwritten => exact cleared
  | kept isFile unwritten => exact cleared
  | @writtenBack q pg' file isQ sits isFile dirty hasFile =>
    rw [← cleared, fileWriteAt_eq]
    show clearAt (setEntry vm.pte pg'.owner pg'.upage _) k _ _ = _
    unfold clearAt
    rw [setEntry_of_ne]
    -- the entry of the victim is not the entry of another page
    rintro ⟨sameThread, sameUpage⟩
    obtain ⟨k', sits'⟩ := ne_none_iff_exists'.mp seated
    have here := (good.mapping.maps (seat_of_page isQ sits)).2
    have there := (good.mapping.maps (seat_of_page isPg sits')).2
    dsimp only [ownerRecord] at here there
    rw [sameThread, sameUpage, here] at there
    exact elsewhere (sits'.trans (congrArg some there.symm))

theorem Good.departs (saves : vm.Saved k saved) :
    ∃ change, Departs vm saved k change := by
  have entries : ∀ {p pg}, vm.page p = some pg → pg.kpage ≠ none → pg.kpage ≠ some k →
      clearAt saved.pte k pg.owner pg.upage = vm.pte pg.owner pg.upage :=
    good.entry_of_elsewhere saves
  cases saves with
  | swapped isPg sits only isAlloc writable run =>
    exact ⟨_, good.departs_swapped isPg sits only isAlloc writable run⟩
  | clean unwritten =>
    exact ⟨_, good.departs_clean fun isPg sits => (unwritten isPg sits).1⟩
  | kept isFile unwritten => exact ⟨_, good.departs_file rfl rfl isFile good.clearAt_of_elsewhere⟩
  | writtenBack isPg sits isFile dirty hasFile =>
    rw [fileWriteAt_eq] at entries ⊢
    exact ⟨_, good.departs_file rfl rfl isFile entries⟩

theorem Good.vacate (mem : f ∈ vm.table.frameList)
    (isKpage : (vm.table.frame f).kpage = k) (saves : vm.Saved k saved) :
    (saved.vacate f k).Good := by
  have keeps := saves.keeps
  obtain ⟨change, departs⟩ := good.departs saves
  have isSeat : (saved.vacate f k).seat = without vm.seat k :=
    seat_changeAt departs.leaves departs.page
  refine ⟨?_, ?_, ?_, ?_⟩
  · rw [isSeat]
    unfold Vm.vacate
    dsimp only
    rw [keeps.table, keeps.userPool, ← isKpage]
    exact good.seating.drop mem []
  · rw [isSeat]
    exact (good.mapping.congr keeps.entry).clearAt k
  · unfold Vm.vacate
    dsimp only
    rw [departs.page]
    exact departs.contents
  unfold Vm.vacate
  dsimp only
  rw [departs.page, keeps.nextPage, keeps.pageList, keeps.supPageTable]
  exact good.registry.kin (changeAt_kin departs.kin)

end

/-- What `frame_evict` can do: nothing, or it gives up a frame that is not pinned. -/
inductive Evicts (vm : Vm) : Vm → Prop where
  | nothing : Evicts vm vm
  | victim {f : FrameId} {saved : Vm} (member : f ∈ vm.table.frameList)
      (unpinned : (vm.table.frame f).pinned = false)
      (saves : vm.Saved (vm.table.frame f).kpage saved) :
      Evicts vm (saved.vacate f (vm.table.frame f).kpage)

theorem Good.frameEvict (good : vm.Good) (victim : Option FrameId) :
    vm.frameEvict victim = .error .swapFull ∨
      ∃ evicted, vm.frameEvict victim = .ok evicted ∧ vm.Evicts evicted := by
  cases victim with
  | none => exact .inr ⟨vm, rfl, .nothing⟩
  | some f =>
    unfold Vm.frameEvict
    dsimp only
    split
    · rename_i chosen
      rcases good.evictVictim chosen.1 with full | ⟨saved, run, saves⟩
      · exact .inl full
      · exact .inr ⟨_, run, .victim chosen.1 chosen.2 saves⟩
    · exact .inr ⟨vm, rfl, .nothing⟩

theorem Good.evicts (good : vm.Good) (evicts : vm.Evicts vm') : vm'.Good := by
  cases evicts with
  | nothing => exact good
  | victim mem unpinned saves => exact good.vacate mem rfl saves

theorem Evicts.page_of_unseated (evicts : vm.Evicts vm') (good : vm.Good)
    (isPg : vm.page p = some pg) (unseated : pg.kpage = none) : vm'.page p = some pg := by
  cases evicts with
  | nothing => exact isPg
  | @victim f saved mem unpinned saves =>
    obtain ⟨change, departs⟩ := good.departs saves
    show changeAt saved.page _ _ p = some pg
    rw [departs.page]
    apply changeAt_of_elsewhere isPg
    rw [unseated]
    exact nofun

theorem Evicts.supPageTable (evicts : vm.Evicts vm') : vm'.supPageTable = vm.supPageTable := by
  cases evicts with
  | nothing => rfl
  | victim mem unpinned saves => exact saves.keeps.supPageTable

end Vm

end Pintos
