import Pintos.Misc.PartialMap
import Pintos.Vm.Frame

/-!
# The hash table and the list of frames

`frame_hash` and `frame_list` hold the same frames, each of them once, and the hash
table finds a frame by its own `kpage`. Every function of the frame table keeps this,
as long as `frame_alloc` is given a page that no frame has.
-/

namespace Pintos.FrameTable

open Function Option FrameTable

variable {owner o : FrameOwner} {status : Bool}

structure Listed (table : FrameTable) : Prop where
  nodup : table.frameList.Nodup
  /-- Frames to come are not in the list. -/
  old : ∀ f ∈ table.frameList, f < table.nextFrame
  hashed : ∀ {kpage f}, table.frameHash kpage = some f ↔
    f ∈ table.frameList ∧ (table.frame f).kpage = kpage

theorem Listed.frameInit : Listed frameInit where
  nodup := List.nodup_nil
  old _ member := nomatch member
  hashed {k f} := by
    constructor
    · exact fun found => nomatch found
    · exact fun listed => nomatch listed.1

variable {table table' : FrameTable} {f g : FrameId} {kpage : KPage} {freed : Option FrameId}

@[simp] theorem setFrame_frameList (frame : Frame) :
    (table.setFrame f frame).frameList = table.frameList := rfl

@[simp] theorem setFrame_frameHash (frame : Frame) :
    (table.setFrame f frame).frameHash = table.frameHash := rfl

@[simp] theorem setFrame_frame_self (frame : Frame) : (table.setFrame f frame).frame f = frame :=
  update_self ..

theorem setFrame_frame_of_ne (frame : Frame) (ne : g ≠ f) :
    (table.setFrame f frame).frame g = table.frame g := update_of_ne ne ..

theorem setFrame_frame (frame : Frame) :
    (table.setFrame f frame).frame g = if g = f then frame else table.frame g :=
  update_apply ..

section

variable (listed : table.Listed)
include listed

/-- A change of a frame that keeps its `kpage`. -/
theorem Listed.setFrame {frame : Frame}
    (same : frame.kpage = (table.frame f).kpage) : (table.setFrame f frame).Listed where
  nodup := listed.nodup
  old := listed.old
  hashed {k g} := by
    have kept : ((table.setFrame f frame).frame g).kpage = (table.frame g).kpage := by
      grind [setFrame_frame]
    rw [kept]
    exact listed.hashed

theorem Listed.hashed_of_mem (mem : f ∈ table.frameList) :
    table.frameHash (table.frame f).kpage = some f := listed.hashed.mpr ⟨mem, rfl⟩

theorem Listed.kpage_inj (memberF : f ∈ table.frameList)
    (memberG : g ∈ table.frameList) (same : (table.frame f).kpage = (table.frame g).kpage) :
    f = g := by
  have foundF := listed.hashed_of_mem memberF
  rw [same, listed.hashed_of_mem memberG] at foundF
  exact (some.inj foundF).symm

theorem Listed.nextFrame_not_mem : table.nextFrame ∉ table.frameList :=
  fun mem => Nat.lt_irrefl _ (listed.old _ mem)

/-- The frames that were there before `frame_alloc` stay as they are. -/
theorem Listed.frameAlloc_frame (mem : f ∈ table.frameList)
    (old : Option FrameId) (kpage : KPage) (owner : FrameOwner) (pinned : Bool) :
    (table.frameAlloc old kpage owner pinned).frame f = table.frame f := by
  apply update_of_ne
  rintro rfl
  exact listed.nextFrame_not_mem mem

end

theorem frameAlloc_frame_new (old : Option FrameId) (kpage : KPage) (owner : FrameOwner)
    (pinned : Bool) : (table.frameAlloc old kpage owner pinned).frame table.nextFrame =
      ⟨kpage, pinned, [owner]⟩ := update_self ..

theorem Listed.frameAlloc (listed : table.Listed) (free : table.frameHash kpage = none)
    (before : Option FrameId) (owner : FrameOwner) (pinned : Bool) :
    (table.frameAlloc before kpage owner pinned).Listed where
  nodup := listInsert_nodup listed.nodup listed.nextFrame_not_mem
  old g member := by
    rcases mem_listInsert.mp member with rfl | member
    · exact Nat.lt_succ_self _
    · exact Nat.lt_succ_of_lt (listed.old g member)
  hashed {k g} := by
    have hash : (table.frameAlloc before kpage owner pinned).frameHash =
        update table.frameHash kpage (some table.nextFrame) := if_pos free
    rw [hash, show g ∈ (table.frameAlloc before kpage owner pinned).frameList ↔ _ from
      mem_listInsert, update_eq_some_iff]
    have new := @frameAlloc_frame_new table before kpage owner pinned
    have kept : ∀ f ∈ table.frameList, (table.frameAlloc before kpage owner pinned).frame f =
        table.frame f := fun f member => listed.frameAlloc_frame member before kpage owner pinned
    have hashed := @listed.hashed
    grind

/-- `frame_share` adds a record at the end of the owners of the frame. -/
theorem frameShare_eq_some :
    table.frameShare kpage owner = some table' ↔ ∃ f, table.frameHash kpage = some f ∧
      table' = table.setFrame f
        { table.frame f with ownerList := (table.frame f).ownerList ++ [owner] } := by
  unfold frameShare
  cases table.frameHash kpage <;> simp [eq_comm]

theorem frameSetPinned_eq_some :
    table.frameSetPinned kpage status = some table' ↔ ∃ f, table.frameHash kpage = some f ∧
      table' = table.setFrame f { table.frame f with pinned := status } := by
  unfold frameSetPinned
  cases table.frameHash kpage <;> simp [eq_comm]

theorem frameSetPinned_of_found (found : table.frameHash kpage = some f) (status : Bool) :
    table.frameSetPinned kpage status =
      some (table.setFrame f { table.frame f with pinned := status }) :=
  frameSetPinned_eq_some.mpr ⟨f, found, rfl⟩

theorem Listed.frameShare (listed : table.Listed)
    (run : table.frameShare kpage owner = some table') : table'.Listed := by
  obtain ⟨f, -, rfl⟩ := frameShare_eq_some.mp run
  exact listed.setFrame rfl

theorem Listed.frameSetPinned (listed : table.Listed)
    (run : table.frameSetPinned kpage status = some table') : table'.Listed := by
  obtain ⟨f, -, rfl⟩ := frameSetPinned_eq_some.mp run
  exact listed.setFrame rfl

theorem Listed.mem_drop (listed : table.Listed) :
    g ∈ (table.drop f).frameList ↔ g ≠ f ∧ g ∈ table.frameList := listed.nodup.mem_erase_iff

theorem Listed.drop (listed : table.Listed) (mem : f ∈ table.frameList) :
    (table.drop f).Listed where
  nodup := listed.nodup.erase f
  old g still := listed.old g (List.mem_of_mem_erase still)
  hashed {k g} := by
    rw [listed.mem_drop]
    show update table.frameHash (table.frame f).kpage none k = some g ↔
      (g ≠ f ∧ g ∈ table.frameList) ∧ (table.frame g).kpage = k
    have only := fun g (memberG : g ∈ table.frameList) => listed.kpage_inj memberG mem
    rw [update_none_eq_some_iff, listed.hashed]
    grind

/-- `frame_free` does nothing, or it takes a frame without owners out of the table. -/
theorem frameFree_eq_some : table.frameFree kpage = some (table', freed) ↔
    (table.frameHash kpage = none ∧ table' = table ∧ freed = none) ∨
      ∃ f, table.frameHash kpage = some f ∧ (table.frame f).ownerList = [] ∧
        table' = table.drop f ∧ freed = some f := by
  unfold frameFree
  cases table.frameHash kpage with
  | none => simp [eq_comm (a := table), eq_comm (a := none)]
  | some f =>
    by_cases empty : (table.frame f).ownerList = []
    · simp [empty, eq_comm (a := table.drop f), eq_comm (a := some f)]
    · simp [empty]

theorem Listed.frameFree (listed : table.Listed)
    (run : table.frameFree kpage = some (table', freed)) :
    table'.Listed ∧ ((freed = none ∧ table'.frameList = table.frameList) ∨
      ∃ f ∈ table.frameList, freed = some f ∧ table'.frameList = table.frameList.erase f) := by
  rcases frameFree_eq_some.mp run with ⟨-, rfl, rfl⟩ | ⟨f, found, -, rfl, rfl⟩
  · exact ⟨listed, .inl ⟨rfl, rfl⟩⟩
  · have mem := (listed.hashed.mp found).1
    exact ⟨listed.drop mem, .inr ⟨f, mem, rfl, rfl⟩⟩

theorem Listed.dropOwner (listed : table.Listed) (f : FrameId) (page : PageId) :
    (table.dropOwner f page).Listed := listed.setFrame rfl

theorem Listed.dropOwners (listed : table.Listed) (f : FrameId) : (table.dropOwners f).Listed :=
  listed.setFrame rfl

theorem Listed.frameFree_dropOwners (listed : table.Listed) (mem : f ∈ table.frameList) :
    (table.dropOwners f).frameFree (table.frame f).kpage =
      some ((table.dropOwners f).drop f, some f) := by
  apply frameFree_eq_some.mpr
  refine .inr ⟨f, listed.hashed_of_mem mem, ?_, rfl, rfl⟩
  rw [FrameTable.dropOwners, setFrame_frame_self]

/-- `frame_remove` succeeds if there is a frame. -/
theorem frameRemove_of_found (found : table.frameHash kpage = some f)
    (isKpage : (table.frame f).kpage = kpage) (page : PageId) :
    ∃ table' freed, table.frameRemove kpage page = some (table', freed) := by
  unfold frameRemove
  rw [found, bind_eq_bind, bind_some]
  dsimp only
  split
  · rename_i empty
    refine ⟨_, _, frameFree_eq_some.mpr (.inr ⟨f, ?_, empty, rfl, rfl⟩)⟩
    rw [dropOwner, setFrame_frame_self]
    exact isKpage ▸ found
  · exact ⟨_, _, rfl⟩

/-- `frame_remove` of the only owner frees the frame. -/
theorem frameRemove_last (found : table.frameHash kpage = some f)
    (isKpage : (table.frame f).kpage = kpage) (alone : (table.frame f).ownerList = [o]) :
    table.frameRemove kpage o.supPage = some ((table.dropOwner f o.supPage).drop f, some f) := by
  have empty : ((table.dropOwner f o.supPage).frame f).ownerList = [] := by
    rw [dropOwner, setFrame_frame_self, alone]
    simp
  unfold frameRemove
  rw [found, bind_eq_bind, bind_some]
  dsimp only
  rw [if_pos empty]
  apply frameFree_eq_some.mpr
  refine .inr ⟨f, ?_, empty, rfl, rfl⟩
  rw [dropOwner, setFrame_frame_self, setFrame_frameHash]
  exact isKpage ▸ found

/-- The only owner of a frame leaves it while the frame is pinned: the frames that are
    left are as before. -/
theorem Listed.frameRemove_alone (listed : table.Listed) (mem : f ∈ table.frameList)
    (alone : (table.frame f).ownerList = [o]) {pinned : FrameTable}
    (pins : table.frameSetPinned (table.frame f).kpage true = some pinned)
    (removes : pinned.frameRemove (table.frame f).kpage o.supPage = some (table', freed))
    (still : g ∈ table'.frameList) : g ∈ table.frameList ∧ table'.frame g = table.frame g := by
  have found := listed.hashed_of_mem mem
  rw [frameSetPinned_of_found found, some.injEq] at pins
  have foundPinned : pinned.frameHash (table.frame f).kpage = some f := by
    rw [← pins]
    exact found
  have isFrame : pinned.frame f = { table.frame f with pinned := true } := by
    rw [← pins, setFrame_frame_self]
  rw [frameRemove_last foundPinned (by rw [isFrame]) (by rw [isFrame, alone])] at removes
  obtain ⟨rfl, -⟩ := Prod.mk.inj (some.inj removes)
  have inList : g ∈ table.frameList.erase f := by
    rw [← show pinned.frameList = table.frameList by rw [← pins, setFrame_frameList]]
    exact still
  obtain ⟨ne, old⟩ := listed.nodup.mem_erase_iff.mp inList
  refine ⟨old, ?_⟩
  show (pinned.dropOwner f o.supPage).frame g = table.frame g
  rw [FrameTable.dropOwner, setFrame_frame_of_ne _ ne, ← pins, setFrame_frame_of_ne _ ne]

theorem Listed.frameRemove (listed : table.Listed) {page : PageId}
    (run : table.frameRemove kpage page = some (table', freed)) :
    table'.Listed ∧ ((freed = none ∧ table'.frameList = table.frameList) ∨
      ∃ f ∈ table.frameList, freed = some f ∧ table'.frameList = table.frameList.erase f) := by
  unfold FrameTable.frameRemove at run
  obtain ⟨f, -, rest⟩ := bind_eq_some_iff.mp run
  have still := listed.dropOwner f page
  dsimp only at rest
  split at rest
  · exact still.frameFree rest
  · obtain ⟨rfl, rfl⟩ := Prod.mk.inj (some.inj rest)
    exact ⟨still, .inl ⟨rfl, rfl⟩⟩

end Pintos.FrameTable
