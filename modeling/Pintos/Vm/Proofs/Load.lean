import Pintos.Vm.Proofs.Evict

/-!
# Page faults

What `page_full_load` and `page_full_load_stack` do to a page that is found: after an
eviction if there has to be one, the page is read from its file, comes back from its
swap slot or shares a frame. The label `fail` is never left, because `frame_free`
refuses the frame that the page already owns.
-/

namespace Pintos

open Function List Option FrameTable

variable {table : FrameTable} {k : KPage} {pool userPool : Bitmap} {zero pinned success : Bool}
  {o : FrameOwner} {q : PageId} {pg' cur : Page} {victim : Option FrameId} {t : ThreadId}
  {addr upage : Nat}

theorem setEntry_setEntry (pte : ThreadId → Nat → Pte) (t : ThreadId) (upage : Nat)
    (first second : Pte) :
    setEntry (setEntry pte t upage first) t upage second = setEntry pte t upage second := by
  unfold setEntry
  rw [update_self, update_idem, update_idem]

/-- The system is out of memory: there is no frame or no swap slot. -/
def Panic.Scarce (e : Panic) : Prop := e = .noFrame ∨ e = .swapFull

namespace FrameTable

/-- A frame is unpinned. -/
def unpin (table : FrameTable) (f : FrameId) : FrameTable :=
  table.setFrame f { table.frame f with pinned := false }

theorem frameSetPinned_false {f : FrameId} (found : table.frameHash k = some f) :
    table.frameSetPinned k false = some (table.unpin f) := frameSetPinned_of_found found false

theorem frameAlloc_frameHash (free : table.frameHash k = none)
    (old : Option FrameId) (o : FrameOwner) (pinned : Bool) :
    (table.frameAlloc old k o pinned).frameHash k = some table.nextFrame := by
  unfold frameAlloc
  dsimp only
  rw [if_pos free, update_self]

end FrameTable

theorem Seating.unpin {seat : Seats}
    (seating : Seating table pool seat) (f : FrameId) : Seating (table.unpin f) pool seat :=
  seating.setFrame rfl rfl

namespace Vm

variable {vm vm' : Vm} {f : FrameId} {k : KPage} {p : PageId} {pg : Page}

/-! ## `frame_alloc` -/

/-- The page is free in the user pool. -/
def Free (vm : Vm) (k : KPage) : Prop := k < vm.userPool.bitCnt ∧ vm.userPool.bits k = false

/-- The state after `frame_alloc` has found a page. -/
def grant (vm : Vm) (zero : Bool) (k : KPage) (o : FrameOwner) (pinned : Bool) : Vm :=
  { vm with
    table := vm.table.frameAlloc none k o pinned
    userPool := bitmapSetMultiple vm.userPool k 1 true
    memory := if zero then update vm.memory k fun _ => 0 else vm.memory }

theorem pallocGetPage_eq_some (run : vm.pallocGetPage zero = some (k, vm')) :
    vm.Free k ∧ ∀ o pinned, vm'.addFrame k o pinned = vm.grant zero k o pinned := by
  unfold pallocGetPage bitmapScanAndFlip at run
  cases scan : bitmapScan vm.userPool 0 1 false with
  | none =>
    rw [scan] at run
    cases run
  | some found =>
    rw [scan] at run
    obtain ⟨rfl, rfl⟩ := Prod.mk.inj (some.inj run)
    obtain ⟨-, small, free⟩ := bitmapScan_some scan
    refine ⟨⟨small, free found (Nat.le_refl _) (Nat.lt_succ_self _)⟩, ?_⟩
    exact fun _ _ => rfl

/-- `frame_alloc` stops if memory is scarce; otherwise it grants a free page, after an
    eviction if there has to be one. -/
theorem Good.frameAlloc (good : vm.Good) (zero : Bool) (pinned : Bool)
    (victim : Option FrameId) (inUser : o.upage < physBasePage) :
    (∃ e, vm.frameAlloc zero o pinned victim = .error e ∧ e.Scarce) ∨
      ∃ evicted k, vm.Evicts evicted ∧ evicted.Free k ∧
        vm.frameAlloc zero o pinned victim = .ok (k, evicted.grant zero k o pinned) := by
  unfold Vm.frameAlloc
  rw [if_pos inUser]
  cases first : vm.pallocGetPage zero with
  | some got =>
    obtain ⟨free, isGrant⟩ := pallocGetPage_eq_some first
    refine .inr ⟨vm, got.1, .nothing, free, ?_⟩
    dsimp only
    rw [isGrant]
  | none =>
    rcases good.frameEvict victim with full | ⟨evicted, run, evicts⟩
    · dsimp only
      rw [full]
      exact .inl ⟨_, rfl, .inr rfl⟩
    dsimp only
    rw [run]
    cases second : evicted.pallocGetPage zero with
    | some got =>
      obtain ⟨free, isGrant⟩ := pallocGetPage_eq_some second
      refine .inr ⟨evicted, got.1, evicts, free, ?_⟩
      dsimp only [bind, Except.bind]
      rw [second]
      dsimp only
      rw [isGrant]
    | none =>
      refine .inl ⟨.noFrame, ?_, .inl rfl⟩
      dsimp only [bind, Except.bind]
      rw [second]

/-! ## The end of a load -/

/-- The page `p`, which was `pg`, sits in `k`. -/
def seated (vm : Vm) (p : PageId) (pg : Page) (k : KPage) : Vm :=
  { vm with
    pte := setEntry vm.pte pg.owner pg.upage ⟨true, k, pg.writable, pg.type = .alloc⟩
    page := update vm.page p (some
      { pg with kpage := some k, type := if pg.type = .unalloc then .alloc else pg.type }) }

/-- The label `fail` with a frame that has an owner. -/
theorem failLoad_of_owned (found : vm.table.frameHash k = some f)
    (owned : (vm.table.frame f).ownerList ≠ []) : vm.failLoad k = .error .assertion := by
  unfold failLoad Vm.frameFree FrameTable.frameFree
  rw [found]
  dsimp only
  rw [if_neg owned]
  rfl

theorem install_eq (vm : Vm) (pg : Page) (k : KPage) :
    (if pg.type = .alloc then
        (vm.setPte pg.owner pg.upage ⟨true, k, pg.writable, false⟩).pagedirSetDirty pg.owner
          pg.upage true
      else vm.setPte pg.owner pg.upage ⟨true, k, pg.writable, false⟩) =
      { vm with
        pte := setEntry vm.pte pg.owner pg.upage ⟨true, k, pg.writable, pg.type = .alloc⟩ } := by
  by_cases isAlloc : pg.type = .alloc
  · rw [if_pos isAlloc, decide_eq_true isAlloc]
    unfold pagedirSetDirty
    rw [show (vm.setPte pg.owner pg.upage ⟨true, k, pg.writable, false⟩).pte pg.owner pg.upage = _
      from setEntry_self ..]
    unfold setPte
    congr 1
    exact setEntry_setEntry ..
  · rw [if_neg isAlloc, decide_eq_false isAlloc]
    rfl

/-- The end of `page_full_load`, with a frame that has an owner. -/
theorem finishLoad_eq (isPage : vm.page p = some pg) (found : vm.table.frameHash k = some f)
    (owned : (vm.table.frame f).ownerList ≠ []) :
    vm.finishLoad p pg k =
      if (vm.pte pg.owner pg.upage).present then .error .assertion
      else .ok (true, { vm.seated p pg k with table := vm.table.unpin f }) := by
  unfold finishLoad pagedirInstallPage
  by_cases present : (vm.pte pg.owner pg.upage).present = true
  · rw [if_pos present, if_pos present]
    exact failLoad_of_owned found owned
  rw [if_neg present, if_neg present]
  dsimp only
  rw [install_eq]
  dsimp only [modifyPage]
  rw [frameSetPinned_false found, isPage]
  rfl

/-! ## Loads -/

/-- What a load can do to the page `p` that is `pg`. -/
inductive Loaded (vm : Vm) (p : PageId) (pg : Page) : Vm → Prop where
  /-- The page is read from its file, or is filled with zeros. -/
  | read {k : KPage} (free : vm.Free k) (absent : (vm.pte pg.owner pg.upage).present = false)
      (notAlloc : pg.type ≠ .alloc) :
      Loaded vm p pg { vm.seated p pg k with
        table := (vm.table.frameAlloc none k (ownerRecord p pg) true).unpin vm.table.nextFrame
        userPool := bitmapSetMultiple vm.userPool k 1 true
        memory := update vm.memory k (vm.initialData pg) }
  /-- The page comes back from its swap slot. -/
  | swappedIn {k : KPage} {slot : SlotId} (free : vm.Free k)
      (absent : (vm.pte pg.owner pg.upage).present = false) (swapped : pg.Swapped slot) :
      Loaded vm p pg { vm.seated p pg k with
        table := (vm.table.frameAlloc none k (ownerRecord p pg) true).unpin vm.table.nextFrame
        userPool := bitmapSetMultiple vm.userPool k 1 true
        memory := update vm.memory k (vm.swap.slotData slot)
        swap := { vm.swap with bitmap := bitmapSetMultiple vm.swap.bitmap slot 1 false } }
  /-- The page shares the frame of another read-only page. -/
  | shared {q : PageId} {cur : Page} {f : FrameId} (isCur : vm.page q = some cur)
      (curAlloc : cur.type = .alloc) (curReadOnly : cur.writable = false)
      (sits : cur.kpage = some (vm.table.frame f).kpage) (member : f ∈ vm.table.frameList)
      (absent : (vm.pte pg.owner pg.upage).present = false) (isUnalloc : pg.type = .unalloc)
      (readOnly : pg.writable = false) :
      Loaded vm p pg { vm.seated p pg (vm.table.frame f).kpage with
        table := (vm.table.setFrame f { vm.table.frame f with
          ownerList := (vm.table.frame f).ownerList ++ [ownerRecord p pg] }).unpin f }

section NewSeat

variable (good : vm.Good)
include good

theorem Good.entry_of_ne (absent : (vm.pte pg.owner pg.upage).present = false)
    (isQ : vm.page q = some pg') (seated : pg'.kpage ≠ none) (entry : Pte) :
    setEntry vm.pte pg.owner pg.upage entry pg'.owner pg'.upage = vm.pte pg'.owner pg'.upage := by
  apply setEntry_of_ne
  rintro ⟨sameThread, sameUpage⟩
  obtain ⟨k', sits⟩ := ne_none_iff_exists'.mp seated
  have present := (good.mapping.maps (seat_of_page isQ sits)).1
  dsimp only [ownerRecord] at present
  rw [sameThread, sameUpage, absent] at present
  cases present

variable (isPage : vm.page p = some pg) (unseated : pg.kpage = none)
include isPage unseated

theorem Good.fits_seated (swap : Swap) :
    Page.Fits { pg with kpage := some k, type := if pg.type = .unalloc then .alloc else pg.type }
      (setEntry vm.pte pg.owner pg.upage ⟨true, k, pg.writable, pg.type = .alloc⟩) swap := by
  have old := good.contents.fits isPage
  constructor
  · intro isUnalloc
    dsimp only at isUnalloc
    split at isUnalloc
    · cases isUnalloc
    · contradiction
  · intro isFile
    dsimp only at isFile
    split at isFile
    · cases isFile
    · exact old.file isFile
  · exact fun _ => nofun
  intro _
  rw [setEntry_self]
  refine ⟨rfl, ?_⟩
  intro readOnly
  apply decide_eq_false
  intro isAlloc
  have writable := (old.alloc isAlloc unseated).1
  rw [show pg.writable = false from readOnly] at writable
  cases writable

theorem Good.seat (absent : (vm.pte pg.owner pg.upage).present = false)
    {memory : KPage → PageData} {swap : Swap}
    (seating : Seating table userPool (update vm.seat p (some (k, ownerRecord p pg))))
    (shares : ∀ {q pg'}, q ≠ p → vm.page q = some pg' → pg'.kpage = some k →
      (pg.type = .unalloc ∧ pg.writable = false) ∧ pg'.type = .alloc ∧ pg'.writable = false)
    (used : ∀ {slot}, swap.Used slot ↔ vm.swap.Used slot ∧ ¬ pg.Swapped slot)
    (data : ∀ {slot}, swap.Used slot → swap.slotData slot = swap.given slot) :
    Good { vm.seated p pg k with table, userPool, memory, swap } where
  seating := by
    rw [seat_update vm.page rfl (rfl : vm.page = vm.page)]
    exact seating
  mapping := by
    rw [seat_update vm.page rfl (rfl : vm.page = vm.page)]
    exact good.mapping.install (o := ownerRecord p pg) absent rfl rfl (seat_eq_none isPage unseated)
  contents := by
    apply good.contents.update
    · intro q pg' _ isQ seated
      exact good.entry_of_ne absent isQ seated _
    · rintro pg' ⟨⟩
      exact good.fits_seated isPage unseated swap
    · rintro pg' ⟨⟩ _
      exact nofun
    · rintro pg' ⟨⟩ q other k' ne isQ sits sitsQ
      cases sits
      obtain ⟨⟨isUnalloc, readOnly⟩, fromOther⟩ := shares ne isQ sitsQ
      exact ⟨⟨if_pos isUnalloc, readOnly⟩, fromOther⟩
    · intro slot
      rw [used, isPage]
      simp
    · exact data
  registry := by
    apply good.registry.kin
    apply KinPages.update isPage
    refine ⟨rfl, rfl, ?_⟩
    dsimp only
    split
    · rename_i isUnalloc
      rw [isUnalloc]
      exact ⟨nofun, nofun⟩
    · exact Iff.rfl

end NewSeat

theorem Good.kpage_ne_of_free (good : vm.Good) (free : vm.Free k) (isPage : vm.page p = some pg) :
    pg.kpage ≠ some k := by
  intro sits
  obtain ⟨f, found⟩ := good.seating.housed (seat_of_page isPage sits)
  rw [good.seating.frameHash_of_free free.2] at found
  cases found

/-- `frame_alloc` followed by `frame_set_pinned (kpage, false)`. -/
theorem Good.seating_alloc (good : vm.Good) (free : vm.Free k) (isPage : vm.page p = some pg)
    (unseated : pg.kpage = none) :
    Seating ((vm.table.frameAlloc none k (ownerRecord p pg) true).unpin vm.table.nextFrame)
      (bitmapSetMultiple vm.userPool k 1 true)
      (update vm.seat p (some (k, ownerRecord p pg))) :=
  (good.seating.frameAlloc free.1 free.2 (seat_eq_none isPage unseated) rfl none true).unpin _

theorem Good.loaded (good : vm.Good) (isPage : vm.page p = some pg) (unseated : pg.kpage = none)
    (loaded : vm.Loaded p pg vm') : vm'.Good := by
  cases loaded with
  | @read k free absent notAlloc =>
    apply good.seat isPage unseated absent (good.seating_alloc free isPage unseated)
    · intro q pg' _ isQ sits
      exact absurd sits (good.kpage_ne_of_free free isQ)
    · intro slot
      exact ⟨fun used => ⟨used, fun swapped => notAlloc swapped.1⟩, fun both => both.1⟩
    · exact good.contents.data
  | @swappedIn k slot free absent swapped =>
    apply good.seat isPage unseated absent (good.seating_alloc free isPage unseated)
    · intro q pg' _ isQ sits
      exact absurd sits (good.kpage_ne_of_free free isQ)
    · intro slot'
      rw [Swap.used_clear, swapped.ne_iff]
    · intro slot' used
      exact good.contents.data (Swap.used_clear.mp used).1
  | @shared q cur f isCur curAlloc curReadOnly sits mem absent isUnalloc readOnly =>
    have found := good.seating.listed.hashed_of_mem mem
    have seating := (good.seating.frameShare (o := ownerRecord p pg) (seat_eq_none isPage unseated)
      rfl (frameShare_eq_some.mpr ⟨f, found, rfl⟩)).unpin f
    apply good.seat isPage unseated absent seating
    · intro r pg' _ isR sitsR
      refine ⟨⟨isUnalloc, readOnly⟩, ?_⟩
      by_cases same : r = q
      · rw [same, isCur, some.injEq] at isR
        rw [← isR]
        exact ⟨curAlloc, curReadOnly⟩
      · exact good.contents.shared isR isCur same sitsR sits
    · intro slot
      refine ⟨fun used => ⟨used, ?_⟩, fun both => both.1⟩
      intro swapped
      have isAlloc := swapped.1
      rw [isUnalloc] at isAlloc
      cases isAlloc
    · exact good.contents.data

/-! ## `page_full_load` -/

/-- The frame that `frame_alloc` grants has its page as owner. -/
theorem Good.owned_of_free (good : vm.Good) (free : vm.Free k) (zero pinned : Bool)
    (o : FrameOwner) :
    (vm.grant zero k o pinned).table.frameHash k = some vm.table.nextFrame ∧
      ((vm.grant zero k o pinned).table.frame vm.table.nextFrame).ownerList ≠ [] := by
  constructor
  · exact frameAlloc_frameHash (good.seating.frameHash_of_free free.2) ..
  rw [show (vm.grant zero k o pinned).table.frame vm.table.nextFrame = _ from
    frameAlloc_frame_new ..]
  exact cons_ne_nil _ _

section FullLoad

variable (good : vm.Good) (isPage : vm.page p = some pg)
include good isPage

theorem Good.finishLoad_grant (free : vm.Free k) (memory : KPage → PageData) (swap : Swap) :
    Vm.finishLoad { vm.grant false k (ownerRecord p pg) true with memory, swap } p pg k =
      if (vm.pte pg.owner pg.upage).present then .error .assertion
      else .ok (true, { vm.seated p pg k with
        table := (vm.table.frameAlloc none k (ownerRecord p pg) true).unpin vm.table.nextFrame
        userPool := bitmapSetMultiple vm.userPool k 1 true
        memory, swap }) := by
  obtain ⟨found, owned⟩ := good.owned_of_free free false true (ownerRecord p pg)
  have isPage' :
      Vm.page { vm.grant false k (ownerRecord p pg) true with memory, swap } p = some pg := isPage
  exact finishLoad_eq isPage' found owned

theorem Good.finishLoad_share (isCur : vm.page q = some cur) (sits : cur.kpage = some k) :
    ∃ f ∈ vm.table.frameList, (vm.table.frame f).kpage = k ∧ ∃ table,
      vm.table.frameShare k (ownerRecord p pg) = some table ∧
      Vm.finishLoad { vm with table } p pg k =
        if (vm.pte pg.owner pg.upage).present then .error .assertion
        else .ok (true, { vm.seated p pg k with
          table := (vm.table.setFrame f { vm.table.frame f with
            ownerList := (vm.table.frame f).ownerList ++ [ownerRecord p pg] }).unpin f }) := by
  obtain ⟨f, mem, isFrame, -⟩ := good.frame_of_page isCur sits
  have found := isFrame ▸ good.seating.listed.hashed_of_mem mem
  refine ⟨f, mem, isFrame, _, frameShare_eq_some.mpr ⟨f, found, rfl⟩, ?_⟩
  apply finishLoad_eq
    (show Vm.page { vm with table := vm.table.setFrame f _ } p = some pg from isPage) found
  rw [setFrame_frame_self]
  exact append_ne_nil_of_right_ne_nil _ (cons_ne_nil _ _)

/-- `page_full_load` with a frame to share. -/
theorem Good.loadShared (isCur : vm.page q = some cur)
    (curAlloc : cur.type = .alloc) (curReadOnly : cur.writable = false)
    (isUnalloc : pg.type = .unalloc) (readOnly : pg.writable = false) :
    vm.loadShared p pg cur = .error .assertion ∨
      ∃ vm', vm.Loaded p pg vm' ∧ vm.loadShared p pg cur = .ok (true, vm') := by
  unfold Vm.loadShared
  split
  · rename_i kpage sits _
    split
    · obtain ⟨f, mem, rfl, table, share, finish⟩ := good.finishLoad_share isPage isCur sits
      rw [share]
      dsimp only
      rw [finish]
      dsimp only
      split
      · exact .inl rfl
      rename_i absent
      exact .inr ⟨_, .shared isCur curAlloc curReadOnly sits mem
        (eq_false_of_ne_true absent) isUnalloc readOnly, rfl⟩
    · exact .inl rfl
  · exact .inl rfl

variable (unseated : pg.kpage = none) (inUser : pg.upage < physBasePage) (victim : Option FrameId)
include unseated inUser

/-- `page_full_load` from the file: besides scarce memory, it stops on a file that has
    become too short and on an entry that is taken. -/
theorem Good.loadFile (notAlloc : pg.type ≠ .alloc) :
    (∃ e, vm.loadFile p pg victim = .error e ∧ e.Scarce) ∨ ∃ evicted, vm.Evicts evicted ∧
        if evicted.ReadsAll pg ∧ (evicted.pte pg.owner pg.upage).present = false then
          ∃ vm', evicted.Loaded p pg vm' ∧ vm.loadFile p pg victim = .ok (true, vm')
        else vm.loadFile p pg victim = .error .assertion := by
  unfold Vm.loadFile
  rcases good.frameAlloc false (o := ownerRecord p pg) true victim inUser with
    ⟨e, run, scarce⟩ | ⟨evicted, k, evicts, free, run⟩
  · left
    rw [run]
    exact ⟨e, rfl, scarce⟩
  right
  refine ⟨evicted, evicts, ?_⟩
  have goodAfter := good.evicts evicts
  have isPageAfter := evicts.page_of_unseated good isPage unseated
  rw [run]
  by_cases readsAll : evicted.ReadsAll pg
  · have finish := goodAfter.finishLoad_grant isPageAfter free
      (update evicted.memory k (evicted.initialData pg)) evicted.swap
    by_cases present : (evicted.pte pg.owner pg.upage).present = true
    · rw [if_neg (by simp [present])]
      rw [if_pos present] at finish
      exact (if_pos readsAll).trans finish
    rw [if_pos ⟨readsAll, eq_false_of_ne_true present⟩]
    rw [if_neg present] at finish
    exact ⟨_, .read free (eq_false_of_ne_true present) notAlloc, (if_pos readsAll).trans finish⟩
  rw [if_neg (fun both => readsAll both.1)]
  obtain ⟨found, owned⟩ := goodAfter.owned_of_free free false true (ownerRecord p pg)
  exact (if_neg readsAll).trans (failLoad_of_owned found owned)

/-- `page_full_load` from a swap slot. -/
theorem Good.loadSlot {slot : SlotId} (swapped : pg.Swapped slot) :
    (∃ e, vm.loadSlot p pg slot victim = .error e ∧ e.Scarce) ∨ ∃ evicted, vm.Evicts evicted ∧
        if (evicted.pte pg.owner pg.upage).present then
          vm.loadSlot p pg slot victim = .error .assertion
        else ∃ vm', evicted.Loaded p pg vm' ∧ vm.loadSlot p pg slot victim = .ok (true, vm') := by
  unfold Vm.loadSlot
  rcases good.frameAlloc false (o := ownerRecord p pg) true victim inUser with
    ⟨e, run, scarce⟩ | ⟨evicted, k, evicts, free, run⟩
  · left
    rw [run]
    exact ⟨e, rfl, scarce⟩
  right
  refine ⟨evicted, evicts, ?_⟩
  have goodAfter := good.evicts evicts
  have isPageAfter := evicts.page_of_unseated good isPage unseated
  have used := goodAfter.contents.used isPageAfter swapped
  have finish := goodAfter.finishLoad_grant isPageAfter free
    (update evicted.memory k (evicted.swap.slotData slot))
    { evicted.swap with bitmap := bitmapSetMultiple evicted.swap.bitmap slot 1 false }
  rw [run]
  dsimp only [bind, Except.bind]
  rw [show (evicted.grant false k (ownerRecord p pg) true).swap.swapIn slot = _ from
    Swap.swapIn_of_used used]
  by_cases present : (evicted.pte pg.owner pg.upage).present = true
  · rw [if_pos present] at finish ⊢
    exact finish
  · rw [if_neg present] at finish ⊢
    exact ⟨_, .swappedIn free (eq_false_of_ne_true present) swapped, finish⟩

end FullLoad

theorem sharedPage_sharable (found : vm.sharedPage pg = some cur) :
    pg.type = .unalloc ∧ pg.writable = false ∧ ∃ q ∈ vm.supPageTable, vm.page q = some cur ∧
      vm.Sharable pg cur := by
  unfold sharedPage at found
  obtain ⟨candidate, found⟩ := ite_none_right_eq_some.mp found
  obtain ⟨q, mem, isCur⟩ := exists_of_findSome?_eq_some found
  obtain ⟨isCur, sharable⟩ := filter_eq_some_iff.mp isCur
  exact ⟨candidate.1, candidate.2.2, q, mem, isCur, of_decide_eq_true sharable⟩

/-- `frame_alloc` is for user addresses. -/
theorem inUser_of_frameAlloc
    {result : KPage × Vm} (run : vm.frameAlloc zero o pinned victim = .ok result) :
    o.upage < physBasePage := by
  unfold Vm.frameAlloc at run
  split at run
  · assumption
  · cases run

section Success

variable {victim : Option FrameId} {success : Bool} (good : vm.Good) (isPage : vm.page p = some pg)
include good isPage

theorem Good.load_of_unread (unseated : pg.kpage = none) (notAlloc : pg.type ≠ .alloc)
    (run : (match vm.sharedPage pg with
      | some cur => vm.loadShared p pg cur
      | none => vm.loadFile p pg victim) = .ok (success, vm')) :
    success = true ∧ ∃ evicted, vm.Evicts evicted ∧ evicted.Loaded p pg vm' := by
  split at run
  · rename_i cur found
    obtain ⟨isUnalloc, readOnly, q, -, isCur, sharable⟩ := sharedPage_sharable found
    rcases good.loadShared isPage isCur sharable.2.2.1 sharable.2.2.2 isUnalloc readOnly with
      stops | ⟨after, loaded, run'⟩
    · rw [stops] at run
      cases run
    rw [run'] at run
    cases run
    exact ⟨rfl, vm, .nothing, loaded⟩
  obtain ⟨granted, alloc, -⟩ := Except.bind_eq_ok.mp run
  rcases good.loadFile isPage unseated (inUser_of_frameAlloc alloc) victim notAlloc with
    ⟨e, stops, -⟩ | ⟨evicted, evicts, outcome⟩
  · rw [stops] at run
    cases run
  split at outcome
  · obtain ⟨after, loaded, run'⟩ := outcome
    rw [run'] at run
    cases run
    exact ⟨rfl, evicted, evicts, loaded⟩
  · rw [outcome] at run
    cases run

/-- `page_full_load` of a page that is found returns only if the page was loaded. -/
theorem Good.loadPage (run : vm.loadPage p pg victim = .ok (success, vm')) :
    pg.kpage = none ∧ success = true ∧ ∃ evicted, vm.Evicts evicted ∧ evicted.Loaded p pg vm' := by
  unfold Vm.loadPage at run
  split at run
  · rename_i slot isAlloc unseated isSlot
    refine ⟨unseated, ?_⟩
    obtain ⟨granted, alloc, -⟩ := Except.bind_eq_ok.mp run
    rcases good.loadSlot isPage unseated (inUser_of_frameAlloc alloc) victim
      ⟨isAlloc, unseated, isSlot⟩ with ⟨e, stops, -⟩ | ⟨evicted, evicts, outcome⟩
    · rw [stops] at run
      cases run
    split at outcome
    · rw [outcome] at run
      cases run
    obtain ⟨after, loaded, run'⟩ := outcome
    rw [run'] at run
    cases run
    exact ⟨rfl, evicted, evicts, loaded⟩
  · rename_i isUnalloc unseated _
    refine ⟨unseated, good.load_of_unread isPage unseated ?_ run⟩
    rw [isUnalloc]
    exact nofun
  · rename_i isFile unseated _
    refine ⟨unseated, good.load_of_unread isPage unseated ?_ run⟩
    rw [isFile]
    exact nofun
  · cases run

end Success

/-- `page_full_load` returns false and does nothing, or it loads the page of the address. -/
theorem Good.pageFullLoad (good : vm.Good)
    (run : vm.pageFullLoad t addr victim = .ok (success, vm')) :
    (success = false ∧ vm' = vm) ∨ success = true ∧ ∃ p pg evicted,
      vm.getPage t (addr / pgSize) = some p ∧ vm.page p = some pg ∧ pg.kpage = none ∧
        vm.Evicts evicted ∧ evicted.Loaded p pg vm' := by
  unfold Vm.pageFullLoad at run
  split at run
  · cases run
    exact .inl ⟨rfl, rfl⟩
  split at run
  · cases run
    exact .inl ⟨rfl, rfl⟩
  rename_i p found
  split at run
  · cases run
  rename_i pg isPage
  obtain ⟨unseated, isTrue, evicted, evicts, loaded⟩ := good.loadPage isPage run
  exact .inr ⟨isTrue, p, pg, evicted, found, isPage, unseated, evicts, loaded⟩

/-! ## `page_full_load_stack` -/

/-- A new stack page. -/
def stackPage (t : ThreadId) (upage : Nat) : Page :=
  { stackArgs upage with type := .unalloc, kpage := none, slotIdx := none, owner := t }

theorem initialData_stackPage (vm : Vm) (t : ThreadId) (upage : Nat) :
    vm.initialData (stackPage t upage) = fun _ => 0 := by
  funext i
  exact if_neg (Nat.not_lt_zero _)

/-- `page_full_load_stack` returns only if it has loaded the page that it makes. -/
theorem Good.pageFullLoadStack (good : (vm.pageLazyLoad t (stackArgs upage) .unalloc).Good)
    (run : vm.pageFullLoadStack t upage victim = .ok (success, vm')) :
    success = true ∧ ∃ evicted, (vm.pageLazyLoad t (stackArgs upage) .unalloc).Evicts evicted ∧
      evicted.Loaded vm.nextPage (stackPage t upage) vm' := by
  have isPage : (vm.pageLazyLoad t (stackArgs upage) .unalloc).page vm.nextPage =
      some (stackPage t upage) := update_self ..
  obtain ⟨granted, alloc, run⟩ := Except.bind_eq_ok.mp run
  have inUser := inUser_of_frameAlloc alloc
  rcases good.frameAlloc true true victim inUser with ⟨e, stops, -⟩ |
    ⟨evicted, k, evicts, free, alloc'⟩
  · rw [stops] at alloc
    cases alloc
  rw [alloc'] at alloc
  cases alloc
  have goodAfter := good.evicts evicts
  have isPageAfter := evicts.page_of_unseated good isPage rfl
  obtain ⟨found, owned⟩ := goodAfter.owned_of_free free true true ⟨upage, t, vm.nextPage⟩
  have isTable := frameSetPinned_false found
  dsimp only at run
  by_cases present : (evicted.pte t upage).present = true
  · rw [show (evicted.grant true k _ true).pagedirInstallPage t upage k true = none from
      if_pos present] at run
    cases run.symm.trans (failLoad_of_owned found owned)
  rw [show (evicted.grant true k _ true).pagedirInstallPage t upage k true = _ from
    if_neg present] at run
  dsimp only [setPte, modifyPage] at run
  rw [isTable] at run
  have absent : (evicted.pte (stackPage t upage).owner (stackPage t upage).upage).present =
    false := eq_false_of_ne_true present
  have loaded := Loaded.read (p := vm.nextPage) free absent nofun
  rw [initialData_stackPage] at loaded
  cases run
  refine ⟨rfl, evicted, evicts, ?_⟩
  rw [show (evicted.grant true k _ true).page vm.nextPage = _ from isPageAfter]
  exact loaded

end Vm

end Pintos
