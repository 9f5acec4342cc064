import Pintos.Vm.Page
import Pintos.Vm.Proofs.FrameTable

/-!
# Frames, their owners and the page directories

A seat of a page is the kernel page it is in, with the record of the page among the
owners of the frame. The frame table agrees with the seats if the owners of each frame
are exactly the pages that sit in it; the page directories agree with them if the
present entries are exactly those of the pages that sit somewhere.
-/

namespace Pintos

open Function Option FrameTable

/-- The seats of the pages that have a frame. -/
abbrev Seats := PageId → Option (KPage × FrameOwner)

/-- The frame table and the user pool agree with the seats. -/
structure Seating (table : FrameTable) (userPool : Bitmap) (seat : Seats) : Prop where
  listed : table.Listed
  used : ∀ {f}, f ∈ table.frameList → (table.frame f).kpage < userPool.bitCnt ∧
    userPool.bits (table.frame f).kpage = true
  record : ∀ {p k o}, seat p = some (k, o) → o.supPage = p
  owners : ∀ {f}, f ∈ table.frameList → ∀ o, o ∈ (table.frame f).ownerList ↔
    seat o.supPage = some ((table.frame f).kpage, o)
  nodup : ∀ {f}, f ∈ table.frameList → (table.frame f).ownerList.Nodup
  nonempty : ∀ {f}, f ∈ table.frameList → (table.frame f).ownerList ≠ []
  housed : ∀ {p k o}, seat p = some (k, o) → ∃ f, table.frameHash k = some f

namespace Seating

variable {table table' : FrameTable} {pool : Bitmap} {seat : Seats} {p : PageId} {k : KPage}
  {o : FrameOwner} {f : FrameId} {freed : Option FrameId}

section

variable (seating : Seating table pool seat)
include seating

theorem frame_of_seat (sits : seat p = some (k, o)) :
    ∃ f ∈ table.frameList, (table.frame f).kpage = k ∧ o ∈ (table.frame f).ownerList := by
  obtain ⟨f, found⟩ := seating.housed sits
  obtain ⟨mem, isKey⟩ := seating.listed.hashed.mp found
  refine ⟨f, mem, isKey, ?_⟩
  rw [seating.owners mem o, seating.record sits, isKey]
  exact sits

theorem frameHash_of_free (free : pool.bits k = false) : table.frameHash k = none := by
  cases found : table.frameHash k with
  | none => rfl
  | some f =>
    obtain ⟨mem, isKey⟩ := seating.listed.hashed.mp found
    have used := (seating.used mem).2
    rw [isKey, free] at used
    cases used

theorem owner_unique (mem : f ∈ table.frameList)
    {o' : FrameOwner} (owns : o ∈ (table.frame f).ownerList)
    (owns' : o' ∈ (table.frame f).ownerList) (same : o.supPage = o'.supPage) : o = o' := by
  rw [seating.owners mem] at owns owns'
  rw [same, owns', some.injEq, Prod.mk.injEq] at owns
  exact owns.2.symm

/-- `frame_alloc` for a page without a seat. -/
theorem frameAlloc (small : k < pool.bitCnt)
    (free : pool.bits k = false) (unseated : seat p = none) (isRecord : o.supPage = p)
    (old : Option FrameId) (pinned : Bool) :
    Seating (table.frameAlloc old k o pinned) (bitmapSetMultiple pool k 1 true)
      (update seat p (some (k, o))) := by
  have noFrame := seating.frameHash_of_free free
  have listed := seating.listed.frameAlloc noFrame old o pinned
  have new := @frameAlloc_frame_new table old k o pinned
  have kept : ∀ g ∈ table.frameList, (table.frameAlloc old k o pinned).frame g = table.frame g :=
    fun g mem => seating.listed.frameAlloc_frame mem old k o pinned
  have members : ∀ {g}, g ∈ (table.frameAlloc old k o pinned).frameList ↔
      g = table.nextFrame ∨ g ∈ table.frameList := mem_listInsert
  have hashed := @listed.hashed
  have housed : ∀ {q k' o'}, update seat p (some (k, o)) q = some (k', o') →
      ∃ g, (table.frameAlloc old k o pinned).frameHash k' = some g := by
    intro q k' o' sits
    simp only [hashed, members]
    rcases update_eq_some_iff.mp sits with ⟨-, isSeat⟩ | ⟨-, sits⟩
    · exact ⟨table.nextFrame, by grind⟩
    · obtain ⟨g, mem, isKey, -⟩ := seating.frame_of_seat sits
      exact ⟨g, by grind⟩
  have oldHashed := @seating.listed.hashed
  cases seating
  refine ⟨listed, ?_, ?_, ?_, ?_, ?_, housed⟩ <;>
    grind [update_eq_some_iff, bitmapSetMultiple_bits, bitmapSetMultiple_bitCnt]

theorem setFrame {frame : Frame} (sameKpage : frame.kpage = (table.frame f).kpage)
    (sameOwners : frame.ownerList = (table.frame f).ownerList) :
    Seating (table.setFrame f frame) pool seat := by
  have kept : ∀ g, ((table.setFrame f frame).frame g).kpage = (table.frame g).kpage ∧
      ((table.setFrame f frame).frame g).ownerList = (table.frame g).ownerList := by
    intro g
    by_cases isF : g = f
    · rw [isF, setFrame_frame_self]
      exact ⟨sameKpage, sameOwners⟩
    · rw [setFrame_frame_of_ne frame isF]
      exact ⟨rfl, rfl⟩
  have listed := seating.listed.setFrame sameKpage
  cases seating
  refine ⟨listed, ?_, ?_, ?_, ?_, ?_, ?_⟩ <;> grind [setFrame_frameList, setFrame_frameHash]

theorem frameSetPinned {status : Bool}
    (run : table.frameSetPinned k status = some table') : Seating table' pool seat := by
  obtain ⟨f, -, rfl⟩ := frameSetPinned_eq_some.mp run
  exact seating.setFrame rfl rfl

theorem setOwners (mem : f ∈ table.frameList) {ownerList : List FrameOwner} {seat' : Seats}
    (record : ∀ {p k o}, seat' p = some (k, o) → o.supPage = p)
    (others : ∀ {p k o}, k ≠ (table.frame f).kpage → (seat' p = some (k, o) ↔ seat p = some (k, o)))
    (owners : ∀ o, o ∈ ownerList ↔ seat' o.supPage = some ((table.frame f).kpage, o))
    (nodup : ownerList.Nodup) (nonempty : ownerList ≠ []) :
    Seating (table.setFrame f { table.frame f with ownerList }) pool seat' := by
  have apart : ∀ {g}, g ∈ table.frameList → g ≠ f → (table.frame g).kpage ≠ (table.frame f).kpage :=
    fun memberG ne same => ne (seating.listed.kpage_inj memberG mem same)
  have listed : (table.setFrame f { table.frame f with ownerList }).Listed :=
    seating.listed.setFrame rfl
  have hashed := seating.listed.hashed_of_mem mem
  cases seating
  refine ⟨listed, ?_, record, ?_, ?_, ?_, ?_⟩ <;>
    grind [setFrame_frameList, setFrame_frame, setFrame_frameHash]

/-- `frame_share` for a page without a seat. -/
theorem frameShare (unseated : seat p = none)
    (isRecord : o.supPage = p) (run : table.frameShare k o = some table') :
    Seating table' pool (update seat p (some (k, o))) := by
  obtain ⟨f, found, rfl⟩ := frameShare_eq_some.mp run
  obtain ⟨mem, rfl⟩ := seating.listed.hashed.mp found
  have new : o ∉ (table.frame f).ownerList := by
    rw [seating.owners mem, isRecord, unseated]
    exact nofun
  have owners := seating.owners mem
  have nodup := seating.nodup mem
  have record := @seating.record
  apply seating.setOwners mem
  case nonempty => exact List.append_ne_nil_of_right_ne_nil _ (List.cons_ne_nil _ _)
  all_goals grind [update_eq_some_iff]

end

/-- The seats outside of one kernel page. -/
def without (seat : Seats) (k : KPage) : Seats :=
  fun p => if (seat p).map Prod.fst = some k then none else seat p

theorem without_eq_some {k' : KPage} :
    without seat k p = some (k', o) ↔ k' ≠ k ∧ seat p = some (k', o) := by
  unfold without
  cases sits : seat p with
  | none => simp
  | some place => grind

/-- A frame leaves the table, and all who sit in it lose their seats. -/
theorem drop (seating : Seating table pool seat) (mem : f ∈ table.frameList)
    (ownerList : List FrameOwner) :
    Seating ((table.setFrame f { table.frame f with ownerList }).drop f)
      (bitmapSetMultiple pool (table.frame f).kpage 1 false)
      (without seat (table.frame f).kpage) := by
  generalize isTable : table.setFrame f { table.frame f with ownerList } = mid
  have listed : mid.Listed := by
    rw [← isTable]
    exact seating.listed.setFrame rfl
  have memberMid : f ∈ mid.frameList := by
    rw [← isTable]
    exact mem
  have kept : ∀ g, g ≠ f → mid.frame g = table.frame g := by
    intro g ne
    rw [← isTable, setFrame_frame_of_ne _ ne]
  have still : ∀ {g}, g ∈ (mid.drop f).frameList → g ≠ f ∧ g ∈ table.frameList := by
    intro g memberG
    have both := listed.mem_drop.mp memberG
    rw [← isTable] at both
    exact both
  have apart : ∀ {g}, g ≠ f → g ∈ table.frameList → (table.frame g).kpage ≠ (table.frame f).kpage :=
    fun ne memberG same => ne (seating.listed.kpage_inj memberG mem same)
  have housed : ∀ {q k o}, without seat (table.frame f).kpage q = some (k, o) →
      ∃ g, (mid.drop f).frameHash k = some g := by
    intro q k o sits
    obtain ⟨elsewhere, sits⟩ := without_eq_some.mp sits
    obtain ⟨g, memberG, isKey, -⟩ := seating.frame_of_seat sits
    have ne : g ≠ f := by
      rintro rfl
      exact elsewhere isKey.symm
    refine ⟨g, (listed.drop memberMid).hashed.mpr ⟨listed.mem_drop.mpr ⟨ne, ?_⟩, ?_⟩⟩
    · rw [← isTable]
      exact memberG
    · exact (congrArg Frame.kpage (kept g ne)).trans isKey
  have same : (mid.drop f).frame = mid.frame := rfl
  cases seating
  refine ⟨listed.drop memberMid, ?_, ?_, ?_, ?_, ?_, housed⟩ <;>
    grind [without_eq_some, bitmapSetMultiple_bits, bitmapSetMultiple_bitCnt]

theorem mem_eraseP (seating : Seating table pool seat) (mem : f ∈ table.frameList) :
    o ∈ (table.frame f).ownerList.eraseP (fun o => o.supPage = p) ↔
      o.supPage ≠ p ∧ o ∈ (table.frame f).ownerList := by
  rw [mem_eraseP_iff (seating.nodup mem), decide_eq_false_iff_not]
  intro a ownsA b ownsB isA isB
  exact seating.owner_unique mem ownsA ownsB
    ((of_decide_eq_true isA).trans (of_decide_eq_true isB).symm)

/-- `frame_remove` of a page that sits in a frame. -/
theorem frameRemove (seating : Seating table pool seat) (sits : seat p = some (k, o))
    (run : table.frameRemove k p = some (table', freed)) :
    Seating table' (if freed = none then pool else bitmapSetMultiple pool k 1 false)
      (update seat p none) := by
  obtain ⟨f, mem, rfl, -⟩ := seating.frame_of_seat sits
  have found := seating.listed.hashed_of_mem mem
  have rest : ∀ o', o' ∈ (table.frame f).ownerList.eraseP (fun o => o.supPage = p) ↔
      update seat p none o'.supPage = some ((table.frame f).kpage, o') := by
    intro o'
    rw [seating.mem_eraseP mem, seating.owners mem, update_none_eq_some_iff]
  unfold frameRemove dropOwner at run
  rw [found, bind_eq_bind, bind_some] at run
  dsimp only at run
  rw [setFrame_frame_self] at run
  split at run
  · -- the last owner: the frame goes, and nobody else sat in it
    rename_i isEmpty
    have empty : (table.frame f).ownerList.eraseP (fun o => o.supPage = p) = [] := isEmpty
    rcases frameFree_eq_some.mp run with ⟨absent, -, -⟩ | ⟨g, foundG, -, rfl, rfl⟩
    · rw [setFrame_frameHash] at absent
      rw [found] at absent
      cases absent
    rw [show table.frameHash _ = some g from foundG, some.injEq] at found
    subst found
    rw [if_neg nofun]
    have only : update seat p none = without seat (table.frame g).kpage := by
      have alone : ∀ o', ¬(o'.supPage ≠ p ∧ seat o'.supPage = some ((table.frame g).kpage, o')) := by
        intro o' sitsHere
        have owns := (rest o').mpr (update_none_eq_some_iff.mpr sitsHere)
        rw [empty] at owns
        cases owns
      have record := @seating.record
      funext q
      ext ⟨k', o'⟩
      simp only [update_none_eq_some_iff, without_eq_some]
      grind
    rw [only]
    exact seating.drop mem _
  rename_i others
  obtain ⟨rfl, rfl⟩ := Prod.mk.inj (some.inj run)
  rw [if_pos rfl]
  have record := @seating.record
  apply seating.setOwners mem
  case owners => exact rest
  case nodup => exact (List.eraseP_sublist ..).nodup (seating.nodup mem)
  case nonempty => exact others
  all_goals grind [update_none_eq_some_iff]

end Seating

/-- The page directories agree with the seats. -/
structure Mapping (pte : ThreadId → Nat → Pte) (seat : Seats) : Prop where
  maps : ∀ {p k o}, seat p = some (k, o) →
    (pte o.thread o.upage).present = true ∧ (pte o.thread o.upage).kpage = k
  backed : ∀ {t upage}, (pte t upage).present = true →
    ∃ p o, seat p = some ((pte t upage).kpage, o) ∧ o.thread = t ∧ o.upage = upage
  single : ∀ {p q k k' o o'}, seat p = some (k, o) → seat q = some (k', o') →
    o.thread = o'.thread → o.upage = o'.upage → p = q

/-- Replace one entry of a page directory. -/
def setEntry (pte : ThreadId → Nat → Pte) (t : ThreadId) (upage : Nat) (entry : Pte) :
    ThreadId → Nat → Pte :=
  update pte t (update (pte t) upage entry)

theorem setEntry_apply (pte : ThreadId → Nat → Pte) (t t' : ThreadId) (upage upage' : Nat)
    (entry : Pte) : setEntry pte t upage entry t' upage' =
      if t' = t ∧ upage' = upage then entry else pte t' upage' := by
  rw [setEntry, update_apply]
  split <;> simp_all [update_apply]

theorem setEntry_self (pte : ThreadId → Nat → Pte) (t : ThreadId) (upage : Nat) (entry : Pte) :
    setEntry pte t upage entry t upage = entry := by
  rw [setEntry_apply, if_pos ⟨rfl, rfl⟩]

theorem setEntry_of_ne {pte : ThreadId → Nat → Pte} {t t' : ThreadId} {upage upage' : Nat}
    (entry : Pte) (ne : ¬ (t' = t ∧ upage' = upage)) :
    setEntry pte t upage entry t' upage' = pte t' upage' := by
  rw [setEntry_apply, if_neg ne]

theorem setEntry_dirty (pte : ThreadId → Nat → Pte) (t : ThreadId) (upage : Nat) (dirty : Bool)
    (t' : ThreadId) (upage' : Nat) :
    (setEntry pte t upage { pte t upage with dirty } t' upage').present = (pte t' upage').present ∧
      (setEntry pte t upage { pte t upage with dirty } t' upage').kpage = (pte t' upage').kpage := by
  grind [setEntry_apply]

namespace Mapping

variable {pte : ThreadId → Nat → Pte} {seat : Seats} {p : PageId} {k : KPage} {o : FrameOwner}

theorem install (mapping : Mapping pte seat) (absent : (pte o.thread o.upage).present = false)
    {entry : Pte} (present : entry.present = true) (isKpage : entry.kpage = k)
    (unseated : seat p = none) :
    Mapping (setEntry pte o.thread o.upage entry) (update seat p (some (k, o))) := by
  have elsewhere : ∀ {q k' o'}, seat q = some (k', o') →
      ¬ (o'.thread = o.thread ∧ o'.upage = o.upage) := by
    rintro q k' o' sits ⟨sameThread, samePage⟩
    have present := (mapping.maps sits).1
    rw [sameThread, samePage, absent] at present
    cases present
  obtain ⟨maps, backed, single⟩ := mapping
  refine ⟨?_, ?_, ?_⟩
  · grind [setEntry_apply, update_eq_some_iff]
  · intro t upage isPresent
    by_cases here : t = o.thread ∧ upage = o.upage
    · exact ⟨p, o, by grind [setEntry_apply], here.1.symm, here.2.symm⟩
    rw [setEntry_of_ne entry here] at isPresent ⊢
    obtain ⟨q, o', sits, isThread, isPg⟩ := backed isPresent
    exact ⟨q, o', by grind, isThread, isPg⟩
  · grind [update_eq_some_iff]

theorem clear (mapping : Mapping pte seat) (sits : seat p = some (k, o)) {entry : Pte}
    (absent : entry.present = false) :
    Mapping (setEntry pte o.thread o.upage entry) (update seat p none) := by
  obtain ⟨maps, backed, single⟩ := mapping
  refine ⟨?_, ?_, ?_⟩
  · grind [setEntry_apply, update_none_eq_some_iff]
  · intro t upage isPresent
    by_cases here : t = o.thread ∧ upage = o.upage
    · grind [setEntry_apply]
    rw [setEntry_of_ne entry here] at isPresent ⊢
    obtain ⟨q, o', sitsQ, isThread, isPg⟩ := backed isPresent
    exact ⟨q, o', by grind, isThread, isPg⟩
  · grind [update_none_eq_some_iff]

/-- The entries may change as long as they stay present or absent and keep their pages. -/
theorem congr {pte' : ThreadId → Nat → Pte} (mapping : Mapping pte seat)
    (same : ∀ t upage, (pte' t upage).present = (pte t upage).present ∧
      (pte' t upage).kpage = (pte t upage).kpage) : Mapping pte' seat where
  maps {p k o} sits := by
    rw [(same _ _).1, (same _ _).2]
    exact mapping.maps sits
  backed {t upage} present := by
    rw [(same _ _).1] at present
    rw [(same _ _).2]
    exact mapping.backed present
  single := mapping.single

end Mapping

end Pintos
