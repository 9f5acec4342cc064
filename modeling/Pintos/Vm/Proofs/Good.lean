import Pintos.Vm.Proofs.Seating

/-!
# The invariant of virtual memory

What holds of the frame table, the page directories, the pages and the swap slots
between two operations. Pages that share a frame are read-only, so a page that was
written sits alone in its frame; it is the only one that has to go to a swap slot. A
read-only page is therefore never in a slot.
-/

namespace Pintos

open Option Function

variable {page pg pg' pg'' : Page} {slot slot' : SlotId} {new : Option Page} {p nextPage : PageId}

theorem Except.bind_eq_ok {ε α β : Type} {x : Except ε α} {g : α → Except ε β} {b : β} :
    (x >>= g) = .ok b ↔ ∃ a, x = .ok a ∧ g a = .ok b := by
  cases x with
  | error e => simp [bind, Except.bind]
  | ok a => simp [bind, Except.bind]

theorem Except.toOption_eq_some {ε α : Type} {x : Except ε α} {a : α} :
    x.toOption = some a ↔ x = .ok a := by
  cases x <;> simp [Except.toOption]

/-- The page is in a swap slot. -/
def Page.Swapped (page : Page) (slot : SlotId) : Prop :=
  page.type = .alloc ∧ page.kpage = none ∧ page.slotIdx = some slot

theorem Page.Swapped.ne_iff (swapped : page.Swapped slot) :
    ¬ page.Swapped slot' ↔ slot' ≠ slot := by
  constructor
  · rintro notSwapped rfl
    exact notSwapped swapped
  · exact fun other also => other (some.inj (also.2.2.symm.trans swapped.2.2))

/-- A page and what is known about its entry and its slot. -/
structure Page.Fits (page : Page) (pte : ThreadId → Nat → Pte) (swap : Swap) : Prop where
  unalloc : page.type = .unalloc → page.kpage = none ∧ page.slotIdx = none
  file : page.type = .file → page.slotIdx = none ∧ page.file ≠ none
  alloc : page.type = .alloc → page.kpage = none →
    page.writable = true ∧ ∃ slot, page.slotIdx = some slot ∧ swap.Used slot
  entry : page.kpage ≠ none → (pte page.owner page.upage).writable = page.writable ∧
    (page.writable = false → (pte page.owner page.upage).dirty = false)

/-- The pages agree with the entries and the swap slots. -/
structure Contents (page : PageId → Option Page) (pte : ThreadId → Nat → Pte) (swap : Swap) :
    Prop where
  fits : ∀ {p pg}, page p = some pg → pg.Fits pte swap
  shared : ∀ {p q pg pg' k}, page p = some pg → page q = some pg' → p ≠ q →
    pg.kpage = some k → pg'.kpage = some k → pg.type = .alloc ∧ pg.writable = false
  slots : ∀ {slot}, swap.Used slot → ∃ p pg, page p = some pg ∧ pg.Swapped slot
  slotInj : ∀ {p q pg pg' slot}, page p = some pg → page q = some pg' → pg.Swapped slot →
    pg'.Swapped slot → p = q
  data : ∀ {slot}, swap.Used slot → swap.slotData slot = swap.given slot

namespace Contents

variable {page : PageId → Option Page} {pte pte' : ThreadId → Nat → Pte} {swap swap' : Swap}
  {p : PageId}

theorem used (contents : Contents page pte swap)
    (isPg : page p = some pg) (swapped : pg.Swapped slot) : swap.Used slot := by
  obtain ⟨-, slot', isSlot, used⟩ := (contents.fits isPg).alloc swapped.1 swapped.2.1
  rw [swapped.2.2, some.injEq] at isSlot
  rwa [isSlot]

/-- One page changes, goes, or is new; afterwards it is not in a slot. -/
theorem update (contents : Contents page pte swap)
    (entries : ∀ {q pg}, q ≠ p → page q = some pg → pg.kpage ≠ none →
      pte' pg.owner pg.upage = pte pg.owner pg.upage)
    (fits : ∀ pg ∈ new, pg.Fits pte' swap')
    (awake : ∀ pg ∈ new, pg.type = .alloc → pg.kpage ≠ none)
    (shares : ∀ pg ∈ new, ∀ {q pg' k}, q ≠ p → page q = some pg' → pg.kpage = some k →
      pg'.kpage = some k → (pg.type = .alloc ∧ pg.writable = false) ∧
        pg'.type = .alloc ∧ pg'.writable = false)
    (used : ∀ {slot}, swap'.Used slot ↔ swap.Used slot ∧ ∀ pg ∈ page p, ¬ pg.Swapped slot)
    (data : ∀ {slot}, swap'.Used slot → swap'.slotData slot = swap'.given slot) :
    Contents (update page p new) pte' swap' := by
  refine ⟨?_, ?_, ?_, ?_, data⟩
  · intro q pg isPg
    by_cases same : q = p
    · rw [same, update_self] at isPg
      exact fits pg isPg
    rw [update_of_ne same] at isPg
    have before := contents.fits isPg
    refine ⟨before.unalloc, before.file, ?_, ?_⟩
    · intro isAlloc unseated
      obtain ⟨writable, slot, isSlot, wasUsed⟩ := before.alloc isAlloc unseated
      refine ⟨writable, slot, isSlot, used.mpr ⟨wasUsed, ?_⟩⟩
      intro old isOld swapped
      exact same (contents.slotInj isPg isOld ⟨isAlloc, unseated, isSlot⟩ swapped)
    intro seated
    rw [entries same isPg seated]
    exact before.entry seated
  · intro q r pg pg' k isQ isR ne sitsQ sitsR
    by_cases sameQ : q = p
    · rw [sameQ, update_self] at isQ
      rw [update_of_ne (fun same => ne (sameQ.trans same.symm))] at isR
      exact (shares pg isQ (fun same => ne (sameQ.trans same.symm)) isR sitsQ sitsR).1
    rw [update_of_ne sameQ] at isQ
    by_cases sameR : r = p
    · rw [sameR, update_self] at isR
      exact (shares pg' isR sameQ isQ sitsR sitsQ).2
    · rw [update_of_ne sameR] at isR
      exact contents.shared isQ isR ne sitsQ sitsR
  · intro slot isUsed
    obtain ⟨wasUsed, notOld⟩ := used.mp isUsed
    obtain ⟨q, pg, isPg, swapped⟩ := contents.slots wasUsed
    refine ⟨q, pg, ?_, swapped⟩
    rw [Function.update_of_ne, isPg]
    rintro rfl
    exact notOld pg isPg swapped
  have notNew : ∀ {q pg slot}, Function.update page p new q = some pg → pg.Swapped slot →
      page q = some pg := by
    intro q pg slot isPg swapped
    by_cases same : q = p
    · rw [same, Function.update_self] at isPg
      exact absurd swapped.2.1 (awake pg isPg swapped.1)
    · rwa [update_of_ne same] at isPg
  intro q r pg pg' slot isQ isR swappedQ swappedR
  exact contents.slotInj (notNew isQ swappedQ) (notNew isR swappedR) swappedQ swappedR

/-- The page directories change, but not what the seated pages rely on. -/
theorem congr_pte (contents : Contents page pte swap)
    (entries : ∀ {q pg}, page q = some pg → pg.kpage ≠ none →
      (pte' pg.owner pg.upage).writable = (pte pg.owner pg.upage).writable ∧ (pg.writable = false →
          (pte' pg.owner pg.upage).dirty = (pte pg.owner pg.upage).dirty)) :
    Contents page pte' swap := by
  refine ⟨?_, contents.shared, contents.slots, contents.slotInj, contents.data⟩
  intro q pg isPg
  have old := contents.fits isPg
  refine ⟨old.unalloc, old.file, old.alloc, ?_⟩
  intro seated
  obtain ⟨writable, dirty⟩ := entries isPg seated
  obtain ⟨wasWritable, wasClean⟩ := old.entry seated
  exact ⟨writable.trans wasWritable, fun readOnly => (dirty readOnly).trans (wasClean readOnly)⟩

end Contents

/-- The lists of pages: `page_list` has the anonymous pages of a process, and
    `sup_page_table` holds pages with different keys. -/
structure Registry (page : PageId → Option Page) (nextPage : PageId)
    (pageList : ThreadId → List PageId) (supPageTable : List PageId) : Prop where
  old : ∀ {p pg}, page p = some pg → p < nextPage
  listed : ∀ {t p}, p ∈ pageList t ↔ ∃ pg, page p = some pg ∧ pg.owner = t ∧ pg.type ≠ .file
  listNodup : ∀ t, (pageList t).Nodup
  live : ∀ {p}, p ∈ supPageTable → ∃ pg, page p = some pg
  tableNodup : supPageTable.Nodup
  keys : ∀ {p q pg pg'}, p ∈ supPageTable → q ∈ supPageTable → page p = some pg →
    page q = some pg' → pg.owner = pg'.owner → pg.upage = pg'.upage → p = q

/-- Two states of one `struct page`. -/
structure Page.Kin (pg pg' : Page) : Prop where
  args : pg'.toPageArgs = pg.toPageArgs
  owner : pg'.owner = pg.owner
  file : pg'.type = .file ↔ pg.type = .file

theorem Page.Kin.refl (pg : Page) : pg.Kin pg := ⟨rfl, rfl, Iff.rfl⟩

theorem Page.Kin.trans (first : pg.Kin pg') (second : pg'.Kin pg'') : pg.Kin pg'' :=
  ⟨second.args.trans first.args, second.owner.trans first.owner, second.file.trans first.file⟩

theorem Page.Kin.upage (kin : pg.Kin pg') : pg'.upage = pg.upage :=
  congrArg PageArgs.upage kin.args

theorem Page.Kin.writable (kin : pg.Kin pg') : pg'.writable = pg.writable :=
  congrArg PageArgs.writable kin.args

/-- The same pages are in use, each with what does not change of it. -/
structure KinPages (page page' : PageId → Option Page) : Prop where
  forth : ∀ {p pg}, page p = some pg → ∃ pg', page' p = some pg' ∧ pg.Kin pg'
  back : ∀ {p pg'}, page' p = some pg' → ∃ pg, page p = some pg ∧ pg.Kin pg'

namespace KinPages

variable {page page' page'' : PageId → Option Page}

theorem refl (page : PageId → Option Page) : KinPages page page :=
  ⟨fun {_ pg} isPg => ⟨pg, isPg, .refl pg⟩, fun {_ pg} isPg => ⟨pg, isPg, .refl pg⟩⟩

theorem trans (first : KinPages page page') (second : KinPages page' page'') :
    KinPages page page'' where
  forth {p pg} isPage := by
    obtain ⟨pg', isPage', kin⟩ := first.forth isPage
    obtain ⟨pg'', isPage'', kin'⟩ := second.forth isPage'
    exact ⟨pg'', isPage'', kin.trans kin'⟩
  back {p pg''} isPage'' := by
    obtain ⟨pg', isPage', kin'⟩ := second.back isPage''
    obtain ⟨pg, isPage, kin⟩ := first.back isPage'
    exact ⟨pg, isPage, kin.trans kin'⟩

theorem update (isPg : page p = some pg) (kin : pg.Kin pg') :
    KinPages page (update page p (some pg')) where
  forth {q old} isOld := by
    by_cases same : q = p
    · rw [same, isPg, some.injEq] at isOld
      rw [same, update_self, ← isOld]
      exact ⟨pg', rfl, kin⟩
    · rw [update_of_ne same]
      exact ⟨old, isOld, .refl old⟩
  back {q new} isNew := by
    by_cases same : q = p
    · rw [same, update_self, some.injEq] at isNew
      rw [same, ← isNew]
      exact ⟨pg, isPg, kin⟩
    · rw [update_of_ne same] at isNew
      exact ⟨new, isNew, .refl new⟩

end KinPages

theorem Registry.kin {page page' : PageId → Option Page}
    {pageList : ThreadId → List PageId} {supPageTable : List PageId}
    (registry : Registry page nextPage pageList supPageTable) (kin : KinPages page page') :
    Registry page' nextPage pageList supPageTable where
  old {p pg'} isPage := by
    obtain ⟨pg, wasPg, -⟩ := kin.back isPage
    exact registry.old wasPg
  listed {t p} := by
    rw [registry.listed]
    constructor
    · rintro ⟨pg, isPage, isOwner, notFile⟩
      obtain ⟨pg', isPage', same⟩ := kin.forth isPage
      exact ⟨pg', isPage', same.owner.trans isOwner, fun isFile => notFile (same.file.mp isFile)⟩
    rintro ⟨pg', isPage', isOwner, notFile⟩
    obtain ⟨pg, isPage, same⟩ := kin.back isPage'
    exact ⟨pg, isPage, same.owner.symm.trans isOwner, fun isFile => notFile (same.file.mpr isFile)⟩
  listNodup := registry.listNodup
  live {p} member := by
    obtain ⟨pg, isPage⟩ := registry.live member
    obtain ⟨pg', isPage', -⟩ := kin.forth isPage
    exact ⟨pg', isPage'⟩
  tableNodup := registry.tableNodup
  keys {p q pg pg'} memberP memberQ isP isQ sameOwner samePage := by
    obtain ⟨old, wasP, kinP⟩ := kin.back isP
    obtain ⟨old', wasQ, kinQ⟩ := kin.back isQ
    apply registry.keys memberP memberQ wasP wasQ
    · rw [← kinP.owner, ← kinQ.owner, sameOwner]
    · rw [← kinP.upage, ← kinQ.upage, samePage]

namespace Vm

/-- The seats of the pages. -/
def seat (vm : Vm) : Seats :=
  fun p => (vm.page p).bind fun pg => pg.kpage.map fun k => (k, ownerRecord p pg)

/-- The invariant between two operations. -/
structure Good (vm : Vm) : Prop where
  seating : Seating vm.table vm.userPool vm.seat
  mapping : Mapping vm.pte vm.seat
  contents : Contents vm.page vm.pte vm.swap
  registry : Registry vm.page vm.nextPage vm.pageList vm.supPageTable

variable {vm vm' : Vm} {p q : PageId} {pg : Page} {k : KPage} {o : FrameOwner}

theorem seat_eq_some : vm.seat p = some (k, o) ↔ ∃ pg, vm.page p = some pg ∧ pg.kpage = some k ∧
      o = ownerRecord p pg := by
  unfold seat
  cases vm.page p with
  | none => simp
  | some pg =>
    cases isK : pg.kpage with
    | none => simp [isK]
    | some k' => simp [isK, eq_comm]

theorem seat_of_page (isPg : vm.page p = some pg) (sits : pg.kpage = some k) :
    vm.seat p = some (k, ownerRecord p pg) := seat_eq_some.mpr ⟨pg, isPg, sits, rfl⟩

theorem seat_eq_none (isPg : vm.page p = some pg) (unseated : pg.kpage = none) :
    vm.seat p = none := by
  unfold seat
  rw [isPg, bind_some, unseated, map_none]

theorem seat_of_absent (absent : vm.page p = none) : vm.seat p = none := by
  unfold seat
  rw [absent, bind_none]

theorem seat_update (page : PageId → Option Page)
    (same : vm'.page = update page p new) (others : vm.page = page) :
    vm'.seat = update vm.seat p
      (new.bind fun pg => pg.kpage.map fun k => (k, ownerRecord p pg)) := by
  funext q
  unfold seat
  rw [same, others]
  by_cases isP : q = p
  · rw [isP, update_self, update_self]
  · rw [update_of_ne isP, update_of_ne isP]

theorem Good.frame_of_page (good : vm.Good) (isPg : vm.page p = some pg)
    (sits : pg.kpage = some k) :
    ∃ f ∈ vm.table.frameList, (vm.table.frame f).kpage = k ∧
      ownerRecord p pg ∈ (vm.table.frame f).ownerList :=
  good.seating.frame_of_seat (seat_of_page isPg sits)

theorem Good.owner_iff (good : vm.Good) {f : FrameId} (mem : f ∈ vm.table.frameList) :
    o ∈ (vm.table.frame f).ownerList ↔ ∃ pg, vm.page o.supPage = some pg ∧
      pg.kpage = some (vm.table.frame f).kpage ∧ o = ownerRecord o.supPage pg := by
  rw [good.seating.owners mem, seat_eq_some]

theorem Initial.good (init : vm.Initial) : vm.Good where
  seating := by
    rw [init.table]
    have noSeat : ∀ p, vm.seat p = none := by
      intro p
      unfold seat
      rw [init.page p]
      rfl
    refine ⟨.frameInit, nofun, ?_, nofun, nofun, nofun, ?_⟩
    · intro p k o sits
      rw [noSeat p] at sits
      cases sits
    intro p k o sits
    rw [noSeat p] at sits
    cases sits
  mapping := by
    refine ⟨?_, ?_, ?_⟩
    · intro p k o sits
      obtain ⟨pg, isPg, -⟩ := seat_eq_some.mp sits
      rw [init.page p] at isPg
      cases isPg
    · intro t upage present
      rw [init.pte t upage] at present
      cases present
    intro p q k k' o o' sits
    obtain ⟨pg, isPg, -⟩ := seat_eq_some.mp sits
    rw [init.page p] at isPg
    cases isPg
  contents := by
    have noPage : ∀ {p pg}, vm.page p ≠ some pg := by
      intro p pg
      rw [init.page p]
      exact nofun
    have unused : ∀ {slot}, ¬ vm.swap.Used slot := by
      intro slot used
      have := used.2
      rw [init.swap slot] at this
      cases this
    exact ⟨fun isPg => absurd isPg noPage, fun isPg => absurd isPg noPage,
      fun used => absurd used unused, fun isPg => absurd isPg noPage,
      fun used => absurd used unused⟩
  registry := by
    have noPage : ∀ {p pg}, vm.page p ≠ some pg := by
      intro p pg
      rw [init.page p]
      exact nofun
    refine ⟨fun isPg => absurd isPg noPage, ?_, ?_, ?_, ?_, ?_⟩
    · intro t p
      rw [init.pageList t]
      constructor
      · exact fun mem => nomatch mem
      · exact fun ⟨pg, isPg, _⟩ => absurd isPg noPage
    · intro t
      rw [init.pageList t]
      exact List.nodup_nil
    · rw [init.supPageTable]
      exact nofun
    · rw [init.supPageTable]
      exact List.nodup_nil
    · rw [init.supPageTable]
      exact nofun

end Vm

end Pintos
