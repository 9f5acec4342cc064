import Pintos.Vm.Proofs.Load

/-!
# Pages come and go

`page_lazy_load` makes a page without a frame, `page_free` takes a page out of its frame
or its swap slot and out of the tables. Both keep the invariant, and so do the accesses
of the processes.
-/

namespace Pintos

open Function Option

variable {mid : Vm}

namespace Vm

variable {vm : Vm} {p q : PageId} {pg : Page} {t : ThreadId} {upage : Nat}

theorem hasKey_iff (isPg : vm.page p = some pg) :
    vm.HasKey t upage p ↔ pg.owner = t ∧ pg.upage = upage := by
  simp [HasKey, isPg]

theorem getPage_eq_some (found : vm.getPage t upage = some p) :
    p ∈ vm.supPageTable ∧ vm.HasKey t upage p := by
  have holds := List.find?_some found
  exact ⟨List.mem_of_find?_eq_some found, of_decide_eq_true holds⟩

theorem getPage_eq_none (absent : vm.getPage t upage = none) (mem : p ∈ vm.supPageTable) :
    ¬ vm.HasKey t upage p := by
  have all := List.find?_eq_none.mp absent p mem
  exact fun hasKey => all (decide_eq_true hasKey)

/-- `get_page` finds every page of the table. -/
theorem getPage_of_mem (registry : Registry vm.page vm.nextPage vm.pageList vm.supPageTable)
    (mem : p ∈ vm.supPageTable) (isPg : vm.page p = some pg) :
    vm.getPage pg.owner pg.upage = some p := by
  cases found : vm.getPage pg.owner pg.upage with
  | none => exact absurd ((hasKey_iff isPg).mpr ⟨rfl, rfl⟩) (getPage_eq_none found mem)
  | some q =>
    obtain ⟨memberQ, pg', isQ, sameOwner, sameUpage⟩ := getPage_eq_some found
    exact congrArg some (registry.keys memberQ mem isQ isPg sameOwner sameUpage)

end Vm

namespace Registry

variable {page : PageId → Option Page} {nextPage p : PageId} {pageList : ThreadId → List PageId}
  {supPageTable : List PageId} {pg : Page} (registry : Registry page nextPage pageList supPageTable)
include registry

theorem page_next : page nextPage = none := by
  cases isPg : page nextPage with
  | none => rfl
  | some pg => exact absurd (registry.old isPg) (Nat.lt_irrefl _)

theorem not_mem_of_absent (absent : page p = none) : p ∉ supPageTable := by
  intro mem
  obtain ⟨pg, isPg⟩ := registry.live mem
  rw [absent] at isPg
  cases isPg

theorem add (pg : Page) : Registry (update page nextPage (some pg)) (nextPage + 1)
      (if pg.type = .file then pageList
        else update pageList pg.owner (pageList pg.owner ++ [nextPage]))
      supPageTable := by
  have fresh := registry.page_next
  have unlisted := registry.not_mem_of_absent fresh
  have notOld : ∀ t, nextPage ∉ pageList t := by
    intro t mem
    obtain ⟨pg', isPg, -⟩ := registry.listed.mp mem
    rw [fresh] at isPg
    cases isPg
  have live : ∀ {q}, q ∈ supPageTable → ∃ pg', update page nextPage (some pg) q = some pg' := by
    intro q mem
    obtain ⟨pg', isPg⟩ := registry.live mem
    exact ⟨pg', by grind⟩
  obtain ⟨old, listed, listNodup, -, tableNodup, keys⟩ := registry
  refine ⟨?_, ?_, ?_, live, tableNodup, ?_⟩ <;> grind [update_eq_some_iff, update_apply]

/-- A page whose key is not in `sup_page_table` is put into it. -/
theorem register (isPg : page p = some pg) (unlisted : p ∉ supPageTable)
    (newKey : ∀ {q pg'}, q ∈ supPageTable → page q = some pg' →
      ¬ (pg'.owner = pg.owner ∧ pg'.upage = pg.upage)) :
    Registry page nextPage pageList (p :: supPageTable) := by
  obtain ⟨old, listed, listNodup, live, tableNodup, keys⟩ := registry
  refine ⟨old, listed, listNodup, ?_, ?_, ?_⟩ <;> grind

/-- `sup_page_table` loses pages or goes through them in another order. -/
theorem subtable {table : List PageId} (nodup : table.Nodup) (subset : table ⊆ supPageTable) :
    Registry page nextPage pageList table where
  old := registry.old
  listed := registry.listed
  listNodup := registry.listNodup
  live member := registry.live (subset member)
  tableNodup := nodup
  keys memberQ memberR := registry.keys (subset memberQ) (subset memberR)

/-- A page that is not in `sup_page_table` is freed. -/
theorem remove (isPg : page p = some pg) (unlisted : p ∉ supPageTable) :
    Registry (update page p none) nextPage
      (if pg.type = .file then pageList
        else update pageList pg.owner ((pageList pg.owner).erase p))
      supPageTable := by
  have live : ∀ {q}, q ∈ supPageTable → ∃ pg', update page p none q = some pg' := by
    intro q mem
    obtain ⟨pg', isQ⟩ := registry.live mem
    exact ⟨pg', by grind⟩
  obtain ⟨old, listed, listNodup, -, tableNodup, keys⟩ := registry
  refine ⟨?_, ?_, ?_, live, tableNodup, ?_⟩ <;> grind [update_none_eq_some_iff, update_apply]

end Registry

namespace Vm

variable {vm vm' : Vm} {k : KPage} {p q : PageId} {pg : Page} {t : ThreadId} {upage : Nat}

/-! ## `page_lazy_load` -/

theorem Good.addPage (good : vm.Good) (unseated : pg.kpage = none) (noSlot : pg.slotIdx = none)
    (notAlloc : pg.type ≠ .alloc) (hasFile : pg.type = .file → pg.file ≠ none) :
    (vm.addPage pg).Good := by
  have fresh := good.registry.page_next
  have isSeat : (vm.addPage pg).seat = vm.seat := by
    rw [seat_update vm.page (rfl : (vm.addPage pg).page = _) (rfl : vm.page = vm.page)]
    rw [bind_some, unseated, map_none]
    exact update_eq_self_iff.mpr (seat_of_absent fresh).symm
  refine ⟨?_, ?_, ?_, ?_⟩
  · rw [isSeat]
    exact good.seating
  · rw [isSeat]
    exact good.mapping
  · apply good.contents.update
    · exact fun _ _ _ => rfl
    · rintro pg' ⟨⟩
      refine ⟨fun _ => ⟨unseated, noSlot⟩, fun isFile => ⟨noSlot, hasFile isFile⟩, ?_, ?_⟩
      · exact fun isAlloc => absurd isAlloc notAlloc
      · exact fun seated => absurd unseated seated
    · rintro pg' ⟨⟩ isAlloc
      exact absurd isAlloc notAlloc
    · rintro pg' ⟨⟩ q other k' _ _ sits
      rw [unseated] at sits
      cases sits
    · intro slot
      rw [fresh]
      exact ⟨fun used => ⟨used, nofun⟩, fun both => both.1⟩
    · exact good.contents.data
  have added := good.registry.add pg
  have isList : (vm.addPage pg).pageList = if pg.type = .file then vm.pageList else
      update vm.pageList pg.owner (vm.pageList pg.owner ++ [vm.nextPage]) := by
    unfold Vm.addPage
    dsimp only
    cases isType : pg.type with
    | unalloc => simp
    | alloc => exact absurd isType notAlloc
    | file => simp
  rw [isList]
  unfold Vm.addPage
  dsimp only
  by_cases absent : vm.getPage pg.owner pg.upage = none
  · rw [if_pos absent]
    apply added.register (update_self ..) (good.registry.not_mem_of_absent fresh)
    intro q pg' mem isQ
    rw [update_of_ne] at isQ
    · rw [← hasKey_iff isQ]
      exact getPage_eq_none absent mem
    · rintro rfl
      exact good.registry.not_mem_of_absent fresh mem
  · rw [if_neg absent]
    exact added

/-! ## `page_free` -/

/-- What `page_free` can do before it takes the page out of the tables. -/
inductive Freed (vm : Vm) (p : PageId) (pg : Page) : Vm → Prop where
  /-- The page was never loaded, or not since it was evicted clean. -/
  | unread (isUnalloc : pg.type = .unalloc) : Freed vm p pg vm
  /-- The page leaves its frame, which goes with the last page in it. -/
  | resident {k : KPage} {pinned table : FrameTable} {freed : Option FrameId}
      (sits : pg.kpage = some k) (pins : vm.table.frameSetPinned k true = some pinned)
      (removes : pinned.frameRemove k p = some (table, freed)) :
      Freed vm p pg { vm with
        table
        userPool := if freed = none then vm.userPool else bitmapSetMultiple vm.userPool k 1 false
        memory := if freed = none then vm.memory else update vm.memory k fun _ => 0xcc
        page := update vm.page p (some { pg with kpage := none })
        pte := setEntry vm.pte pg.owner pg.upage
          ⟨false, (vm.pte pg.owner pg.upage).kpage, (vm.pte pg.owner pg.upage).writable, false⟩ }
  /-- The page leaves its swap slot. -/
  | swapped {slot : SlotId} (swapped : pg.Swapped slot) :
      Freed vm p pg { vm with
        swap := { vm.swap with bitmap := bitmapSetMultiple vm.swap.bitmap slot 1 false } }

theorem clearEntry_eq (vm : Vm) (t : ThreadId) (upage : Nat) :
    (vm.pagedirSetDirty t upage false).pagedirClearPage t upage = { vm with
        pte := setEntry vm.pte t upage
          ⟨false, (vm.pte t upage).kpage, (vm.pte t upage).writable, false⟩ } := by
  unfold pagedirClearPage pagedirSetDirty
  rw [show (vm.setPte t upage _).pte t upage = _ from setEntry_self ..]
  unfold setPte
  congr 1
  exact setEntry_setEntry ..

/-- `page_free` of a page that sits in a frame, up to the tables of pages. -/
theorem Good.freeResident (good : vm.Good) (isPg : vm.page p = some pg) (sits : pg.kpage = some k) :
    ∃ pinned mid, vm.table.frameSetPinned k true = some pinned ∧ vm.Freed p pg mid ∧
      Vm.freeResident { vm with table := pinned } p pg k = .ok mid := by
  obtain ⟨f, mem, isKpage, -⟩ := good.frame_of_page isPg sits
  have found : vm.table.frameHash k = some f := isKpage ▸ good.seating.listed.hashed_of_mem mem
  have pins := FrameTable.frameSetPinned_of_found found true
  generalize isPinned : vm.table.setFrame f _ = pinned at pins
  obtain ⟨table, freed, removes⟩ : ∃ table freed, pinned.frameRemove k p = some (table, freed) := by
    apply FrameTable.frameRemove_of_found (f := f)
    · rw [← isPinned]
      exact found
    · rw [← isPinned, FrameTable.setFrame_frame_self]
      exact isKpage
  refine ⟨pinned, _, pins, .resident sits pins removes, ?_⟩
  unfold Vm.freeResident
  dsimp only
  rw [removes]
  dsimp only
  have used : vm.userPool.bits k = true := isKpage ▸ (good.seating.used mem).2
  cases freed with
  | none =>
    rw [if_pos rfl]
    refine congrArg Except.ok ?_
    rw [clearEntry_eq]
    dsimp only [modifyPage]
    rw [isPg]
    rfl
  | some f' =>
    rw [if_neg nofun, show Vm.pallocFreePage { vm with table } k = _ from pallocFreePage_eq used]
    refine congrArg Except.ok ?_
    rw [clearEntry_eq]
    dsimp only [modifyPage]
    rw [isPg]
    rfl

/-- `page_free` stops on a mapped page without a frame, and only there. -/
theorem Good.pageFree (good : vm.Good) (isPg : vm.page p = some pg) :
    if pg.type = .file ∧ pg.kpage = none then vm.pageFree p = .error .assertion
    else ∃ mid, vm.Freed p pg mid ∧ vm.pageFree p = .ok (mid.dropPage p pg) := by
  have fits := good.contents.fits isPg
  unfold Vm.pageFree
  rw [isPg]
  dsimp only
  cases sits : pg.kpage with
  | some k =>
    rw [if_neg (fun both => nomatch both.2)]
    obtain ⟨pinned, mid, pins, freed, run⟩ := good.freeResident isPg sits
    have notUnalloc : pg.type ≠ .unalloc := by
      intro isUnalloc
      rw [(fits.unalloc isUnalloc).1] at sits
      cases sits
    refine ⟨mid, freed, ?_⟩
    unfold pinPage
    rw [sits]
    dsimp only [bind, Except.bind]
    rw [pins]
    cases isType : pg.type with
    | unalloc => exact absurd isType notUnalloc
    | alloc =>
      dsimp only
      rw [run]
    | file =>
      dsimp only
      rw [run]
  | none =>
    cases isType : pg.type with
    | unalloc =>
      rw [if_neg (fun both => nomatch both.1)]
      refine ⟨vm, .unread isType, ?_⟩
      simp [pinPage, sits, bind, Except.bind]
    | alloc =>
      rw [if_neg (fun both => nomatch both.1)]
      obtain ⟨-, slot, isSlot, used⟩ := fits.alloc isType sits
      refine ⟨_, .swapped ⟨isType, sits, isSlot⟩, ?_⟩
      have swapIn := Swap.swapIn_of_used used
      simp [pinPage, freeSlot, sits, isSlot, swapIn, bind, Except.bind]
    | file =>
      rw [if_pos ⟨rfl, rfl⟩]
      have noSlot := (fits.file isType).1
      simp [pinPage, freeSlot, sits, noSlot, bind, Except.bind]

/-- The end of `page_free` keeps the tables of pages in order. -/
theorem dropPage_registry (registry : Registry vm.page vm.nextPage vm.pageList vm.supPageTable)
    {kpage : Option KPage} (isPg : vm.page p = some { pg with kpage }) :
    Registry (vm.dropPage p pg).page (vm.dropPage p pg).nextPage (vm.dropPage p pg).pageList
      (vm.dropPage p pg).supPageTable := by
  unfold dropPage
  dsimp only
  cases found : vm.getPage pg.owner pg.upage with
  | none =>
    apply registry.remove isPg
    exact fun mem => getPage_eq_none found mem ((hasKey_iff isPg).mpr ⟨rfl, rfl⟩)
  | some q =>
    apply (registry.subtable (registry.tableNodup.erase q) List.erase_subset).remove isPg
    intro mem
    have isP := getPage_of_mem registry (List.mem_of_mem_erase mem) isPg
    rw [show vm.getPage _ _ = some q from found, some.injEq] at isP
    rw [isP] at mem
    exact registry.tableNodup.not_mem_erase mem

theorem Good.remove (good : vm.Good) (isPg : vm.page p = some pg)
    (samePage : vm'.page = update vm.page p none)
    (seating : Seating vm'.table vm'.userPool (update vm.seat p none))
    (mapping : Mapping vm'.pte (update vm.seat p none))
    (entries : ∀ {q pg'}, q ≠ p → vm.page q = some pg' → pg'.kpage ≠ none →
      vm'.pte pg'.owner pg'.upage = vm.pte pg'.owner pg'.upage)
    (used : ∀ {slot}, vm'.swap.Used slot ↔ vm.swap.Used slot ∧ ¬ pg.Swapped slot)
    (data : ∀ {slot}, vm'.swap.Used slot → vm'.swap.slotData slot = vm'.swap.given slot)
    (registry : Registry vm'.page vm'.nextPage vm'.pageList vm'.supPageTable) : vm'.Good where
  seating := by
    rw [seat_update vm.page samePage rfl]
    exact seating
  mapping := by
    rw [seat_update vm.page samePage rfl]
    exact mapping
  contents := by
    rw [samePage]
    apply good.contents.update entries
    · exact fun _ absent => nomatch absent
    · exact fun _ absent => nomatch absent
    · exact fun _ absent => nomatch absent
    · intro slot
      rw [used, isPg]
      simp
    · exact data
  registry := registry

/-- `page_free` frees one page. -/
theorem Freed.dropPage_page (freed : vm.Freed p pg mid) :
    (mid.dropPage p pg).page = update vm.page p none := by
  cases freed with
  | unread isUnalloc => rfl
  | resident sits pins removes => exact update_idem ..
  | swapped swapped => rfl

theorem Freed.page_eq_some (freed : vm.Freed p pg mid) {pg' : Page} :
    (mid.dropPage p pg).page q = some pg' ↔ q ≠ p ∧ vm.page q = some pg' := by
  rw [freed.dropPage_page, update_apply]
  split
  · rename_i same
    exact iff_of_false nofun fun both => both.1 same
  · rename_i ne
    exact (and_iff_right ne).symm

/-- `page_free` that returns. -/
theorem Good.pageFree_ok (good : vm.Good) (run : vm.pageFree p = .ok vm') :
    ∃ pg mid, vm.page p = some pg ∧ vm.Freed p pg mid ∧ vm' = mid.dropPage p pg := by
  cases isPg : vm.page p with
  | none =>
    unfold Vm.pageFree at run
    rw [isPg] at run
    cases run
  | some pg =>
    have outcome := good.pageFree isPg
    split at outcome
    · rw [outcome] at run
      cases run
    obtain ⟨mid, freed, run'⟩ := outcome
    rw [run'] at run
    cases run
    exact ⟨pg, mid, rfl, freed, rfl⟩

/-- The entries of the other pages stay when the entry of a page changes. -/
theorem Good.setEntry_other (good : vm.Good) {pg' : Page}
    (isPg : vm.page p = some pg) (sits : pg.kpage = some k) (isUpage : pg.upage = upage)
    (ne : q ≠ p) (isQ : vm.page q = some pg') (seated : pg'.kpage ≠ none) (entry : Pte) :
    setEntry vm.pte pg.owner upage entry pg'.owner pg'.upage = vm.pte pg'.owner pg'.upage := by
  apply setEntry_of_ne
  rintro ⟨sameThread, sameUpage⟩
  obtain ⟨k', sitsQ⟩ := ne_none_iff_exists'.mp seated
  exact ne (good.mapping.single (seat_of_page isQ sitsQ) (seat_of_page isPg sits)
    sameThread (sameUpage.trans isUpage.symm))

/-- `page_free` keeps the entries of the other pages. -/
theorem Good.entry_of_freed (good : vm.Good) (isPg : vm.page p = some pg)
    (freed : vm.Freed p pg mid) {pg' : Page} (ne : q ≠ p) (isQ : vm.page q = some pg')
    (seated : pg'.kpage ≠ none) : mid.pte pg'.owner pg'.upage = vm.pte pg'.owner pg'.upage := by
  cases freed with
  | unread isUnalloc => rfl
  | swapped swapped => rfl
  | resident sits pins removes => exact good.setEntry_other isPg sits rfl ne isQ seated _

/-- `get_page` only looks at the keys of pages. -/
theorem getPage_congr (table : vm'.supPageTable = vm.supPageTable)
    (keys : ∀ p, vm'.HasKey t upage p ↔ vm.HasKey t upage p) :
    vm'.getPage t upage = vm.getPage t upage := by
  unfold getPage
  rw [table]
  congr 1
  funext p
  exact decide_eq_decide.mpr (keys p)

/-- `page_free` takes the page with the key of the freed page out of `sup_page_table`. -/
theorem Freed.supPageTable (isPg : vm.page p = some pg) (freed : vm.Freed p pg mid) :
    (mid.dropPage p pg).supPageTable =
      match vm.getPage pg.owner pg.upage with
      | none => vm.supPageTable
      | some q => vm.supPageTable.erase q := by
  cases freed with
  | unread isUnalloc => rfl
  | swapped swapped => rfl
  | @resident k pinned table freed sits pins removes =>
    unfold dropPage
    dsimp only
    refine congrArg (fun found : Option PageId => match found with
      | none => vm.supPageTable
      | some q => vm.supPageTable.erase q) ?_
    apply getPage_congr
    · rfl
    intro q
    unfold HasKey
    dsimp only
    by_cases same : q = p
    · rw [same, update_self, isPg]
      simp
    · rw [update_of_ne same]

/-- `page_free` keeps the invariant. -/
theorem Good.freed (good : vm.Good) (isPg : vm.page p = some pg)
    (freed : vm.Freed p pg mid) : (mid.dropPage p pg).Good := by
  have unseated : pg.kpage = none → update vm.seat p none = vm.seat :=
    fun unseated => update_eq_self_iff.mpr (seat_eq_none isPg unseated).symm
  cases freed with
  | unread isUnalloc =>
    have noSeat := ((good.contents.fits isPg).unalloc isUnalloc).1
    apply good.remove isPg rfl
    · rw [unseated noSeat]
      exact good.seating
    · rw [unseated noSeat]
      exact good.mapping
    · exact fun _ _ _ => rfl
    · intro slot
      refine ⟨fun used => ⟨used, ?_⟩, fun both => both.1⟩
      intro swapped
      have isAlloc := swapped.1
      rw [isUnalloc] at isAlloc
      cases isAlloc
    · exact good.contents.data
    · exact dropPage_registry good.registry isPg
  | @swapped slot swapped =>
    apply good.remove isPg rfl
    · rw [unseated swapped.2.1]
      exact good.seating
    · rw [unseated swapped.2.1]
      exact good.mapping
    · exact fun _ _ _ => rfl
    · intro slot'
      exact Swap.used_clear.trans (and_congr Iff.rfl (swapped.ne_iff).symm)
    · intro slot' used
      exact good.contents.data (Swap.used_clear.mp used).1
    · exact dropPage_registry good.registry isPg
  | @resident k pinned table freed sits pins removes =>
    have isSeat := seat_of_page isPg sits
    apply good.remove isPg
    · exact update_idem ..
    · have seating := (good.seating.frameSetPinned pins).frameRemove isSeat removes
      exact seating
    · exact good.mapping.clear isSeat rfl
    · exact good.entry_of_freed isPg (.resident sits pins removes)
    · intro slot
      refine ⟨fun used => ⟨used, ?_⟩, fun both => both.1⟩
      intro swapped
      rw [swapped.2.1] at sits
      cases sits
    · exact good.contents.data
    apply dropPage_registry
    · exact good.registry.kin (KinPages.update isPg ⟨rfl, rfl, Iff.rfl⟩)
    · exact update_self ..

end Vm

end Pintos
