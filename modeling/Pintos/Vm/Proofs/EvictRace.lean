import Pintos.Vm.EvictRace
import Pintos.Vm.Proofs.Residency

/-!
# What eviction saves

When a mapping of the victim is cleared, the contents that were saved are the contents of
the frame, provided nobody wrote to a part of the page after it was saved. Nothing in the
kernel provides for that: a write between a sector and the clearing of the mapping is
lost.
-/

namespace Pintos.EvictRace

open Function Option

variable {stage : EvictStage} {slot : SlotId} {i ofs readBytes offset j addr : Nat} {b : Byte}
  {s s' : EvictRace} {savedIn : SavedIn} {first : FrameOwner} {saved vm : Vm}

/-- The sectors below `i` of the slot hold the first part of the victim. -/
def Copied (s : EvictRace) (slot : SlotId) (i : Nat) : Prop :=
  ∀ j < i, s.vm.swap.device (slot * slotSize + j) = (s.vm.memory s.kpage).sector j

/-- What holds at each stage. -/
def Current (s : EvictRace) : EvictStage → Prop
  | .writeSector _ slot i => i < slotSize ∧ s.Copied slot i
  | .setClean _ file ofs readBytes => s.Kept (.file file ofs readBytes)
  | .clear savedIn _ => s.Kept savedIn
  | .testDirty | .writeBack .. | .free | .done => True

/-- `Kept` looks at the frame of the victim, the slots and the files. -/
theorem Kept.congr (kept : s.Kept savedIn) (table : s'.kpage = s.kpage)
    (memory : s'.vm.memory s.kpage = s.vm.memory s.kpage)
    (device : s'.vm.swap.device = s.vm.swap.device) (file : s'.vm.file = s.vm.file) :
    s'.Kept savedIn := by
  cases savedIn with
  | nowhere d =>
    unfold Kept at kept ⊢
    rw [table, memory]
    exact kept
  | slot slot =>
    unfold Kept Swap.slotData at kept ⊢
    rw [table, memory, device]
    exact kept
  | file target ofs readBytes =>
    unfold Kept at kept ⊢
    rw [table, memory, file]
    exact kept

theorem Current.congr (current : s.Current stage)
    (table : s'.kpage = s.kpage) (memory : s'.vm.memory s.kpage = s.vm.memory s.kpage)
    (device : s'.vm.swap.device = s.vm.swap.device) (file : s'.vm.file = s.vm.file) :
    s'.Current stage := by
  cases stage with
  | writeSector p slot i =>
    refine ⟨current.1, ?_⟩
    intro j below
    rw [device, table, memory]
    exact current.2 j below
  | setClean owner target ofs readBytes =>
    have kept : s.Kept (.file target ofs readBytes) := current
    exact kept.congr table memory device file
  | clear savedIn owners =>
    have kept : s.Kept savedIn := current
    exact kept.congr table memory device file
  | testDirty => trivial
  | writeBack owner target ofs readBytes => trivial
  | free => trivial
  | done => trivial

theorem current_clearFrom (kept : s.Kept savedIn) (owners : List FrameOwner) :
    s.Current (clearFrom savedIn owners) := by
  cases owners with
  | nil => trivial
  | cons o rest => exact kept

/-! ## Steps of `frame_evict` -/

theorem current_testAlloc (taken : s.testAlloc first = some s') : s'.Current s'.stage := by
  unfold testAlloc at taken
  split at taken
  · split at taken
    · cases taken
    · cases taken
      exact ⟨by decide, fun j none => absurd none (Nat.not_lt_zero j)⟩
  cases taken
  apply current_clearFrom
  rw [Vm.foldl_modifyPage (fun page => { page with type := .unalloc, slotIdx := none })
    fun _ => rfl]
  rfl

theorem current_testFile {page : Page}
    (taken : s.testFile first page = some s') : s'.Current s'.stage := by
  unfold testFile at taken
  split at taken
  · split at taken
    · cases taken
    · cases taken
      trivial
  cases taken
  apply current_clearFrom
  rfl

theorem current_testDirty (taken : s.testDirty = some s') : s'.Current s'.stage := by
  unfold testDirty at taken
  split at taken
  · cases taken
  split at taken
  · cases taken
  split at taken
  · split at taken
    · exact current_testAlloc taken
    · exact current_testFile taken
    · cases taken
  · cases taken

/-- One more sector is copied; after the last one the slot holds the page. -/
theorem current_writeSector (p : PageId) (small : i < slotSize)
    (copied : s.Copied slot i) : (s.writeSector p slot i).Current (s.writeSector p slot i).stage := by
  have more : ∀ j < i + 1, update s.vm.swap.device (slot * slotSize + i)
      ((s.vm.memory s.kpage).sector i) (slot * slotSize + j) = (s.vm.memory s.kpage).sector j := by
    intro j below
    by_cases last : j = i
    · rw [last, update_self]
    rw [update_of_ne]
    · exact copied j (by omega)
    · exact fun same => last (Nat.add_left_cancel same)
  unfold writeSector
  dsimp only
  split
  · rename_i notLast
    exact ⟨notLast, more⟩
  rename_i isLast
  apply current_clearFrom
  apply PageData.ofSectors_eq
  intro j inside
  apply more
  have inside : j < slotSize := inside
  omega

/-- The write-back puts the part of the page that belongs to the file there. -/
theorem kept_writeBack {file : FileId} (stage : EvictStage)
    (allowed : (s.vm.file file).denyWrite = false) :
    Kept { s with vm := s.vm.fileWriteAt file (s.vm.memory s.kpage) readBytes ofs, stage }
      (.file file ofs readBytes) := by
  intro i inside
  have bytes : ((s.vm.fileWriteAt file (s.vm.memory s.kpage) readBytes ofs).file file).bytes =
      (s.vm.file file).bytes.write (s.vm.memory s.kpage).byte readBytes ofs := by
    unfold Vm.fileWriteAt
    rw [allowed, if_neg nofun]
    dsimp only
    rw [update_self]
  dsimp only
  rw [bytes, FileBytes.write_byte, if_pos ⟨Nat.le_add_right .., Nat.add_lt_add_left inside _⟩,
    Nat.add_sub_cancel_left, PageData.byte_coe, Vm.fileWriteAt_eq]
  rfl

theorem current_evict (current : s.Current s.stage) (spares : s.Spares .evict)
    (taken : s.evict = some s') : s'.Current s'.stage := by
  unfold evict at taken
  split at taken
  · exact current_testDirty taken
  · rename_i p slot i isStage
    rw [isStage] at current
    cases taken
    exact current_writeSector p current.1 current.2
  · rename_i owner file ofs readBytes isStage
    unfold Spares at spares
    rw [isStage] at spares
    cases taken
    exact kept_writeBack _ spares
  · rename_i owner file ofs readBytes isStage
    rw [isStage] at current
    cases taken
    apply current_clearFrom
    exact Kept.congr current rfl rfl rfl rfl
  · cases taken
  · rename_i savedIn o rest isStage
    rw [isStage] at current
    cases taken
    apply current_clearFrom
    exact Kept.congr current rfl rfl rfl rfl
  · obtain ⟨vm, -, rfl⟩ := map_eq_some_iff.mp taken
    trivial
  · cases taken

/-! ## Writes of processes -/

theorem sector_of_ne {d : PageData} (ne : offset / blockSectorSize ≠ j) :
    PageData.sector (fun i : Fin pgSize => if i = offset then b else d i) j = d.sector j := by
  funext k
  unfold PageData.sector PageData.byte
  split
  · dsimp only
    rw [if_neg]
    rintro rfl
    apply ne
    rw [Nat.mul_add_div (by decide), Nat.div_eq_of_lt k.2, Nat.add_zero]
  · rfl

theorem current_userWrite {t : ThreadId} (current : s.Current stage)
    (spares : (s.vm.pte t (addr / pgSize)).kpage = s.kpage → Open addr stage)
    (taken : s.vm.userWrite t addr b = some vm) : Current { s with vm } stage := by
  obtain ⟨-, rfl⟩ := ite_some_none_eq_some.mp taken
  by_cases hits : (s.vm.pte t (addr / pgSize)).kpage = s.kpage
  · have isOpen := spares hits
    cases stage with
    | writeSector p slot i =>
      refine ⟨current.1, ?_⟩
      intro j below
      have isOpen : i ≤ addr % pgSize / blockSectorSize := isOpen
      apply (current.2 j below).trans
      show _ = PageData.sector (update s.vm.memory _ _ s.kpage) j
      rw [hits, update_self, sector_of_ne]
      omega
    | setClean owner target ofs readBytes => exact absurd isOpen id
    | clear savedIn owners => exact absurd isOpen id
    | testDirty => trivial
    | writeBack owner target ofs readBytes => trivial
    | free => trivial
    | done => trivial
  apply current.congr
  · rfl
  · exact update_of_ne (Ne.symm hits) ..
  · rfl
  · rfl

theorem current_next {step : RaceStep} (current : s.Current s.stage) (spares : s.Spares step)
    (taken : s.next step = some s') : s'.Current s'.stage := by
  cases step with
  | evict => exact current_evict current spares taken
  | userWrite t addr b =>
    obtain ⟨vm, write, rfl⟩ := map_eq_some_iff.mp taken
    exact current_userWrite current spares write

/-- If nobody writes to a part of the victim that was saved or found clean, then whenever
    a mapping is cleared the saved contents are those of the frame. -/
theorem saved_contents_current (reached : Reachable Chosen next Spares s)
    {o : FrameOwner} {rest : List FrameOwner} (clearing : s.stage = .clear savedIn (o :: rest)) :
    s.Kept savedIn := by
  have current : s.Current s.stage := by
    apply reached.invariant (P := fun s => s.Current s.stage)
    · intro s chosen
      rw [chosen.stage]
      trivial
    · exact fun s step s' current spares taken => current_next current spares taken
  rw [clearing] at current
  exact current

/-! ## A lost write -/

/-- Process 1 writes 7 to the first byte of its page. -/
def dirtySteps : List VmStep :=
  [.pageLazyLoad 1 (Vm.programArgs true) .unalloc, .pageFullLoad 1 (8 * pgSize) none,
    .userWrite 1 (8 * pgSize) 7]

/-- The machine after that. -/
def dirtyVm : Vm :=
  (runLabels Vm.next AnyStep (Vm.start 2 2) dirtySteps).getD (Vm.start 2 2)

theorem chosen_dirtyVm : Chosen ⟨dirtyVm, 0, .testDirty⟩ where
  reached := by
    obtain ⟨vm, run⟩ := isSome_iff_exists.mp
      (show (runLabels Vm.next AnyStep (Vm.start 2 2) dirtySteps).isSome = true by decide)
    have isVm : runLabels Vm.next AnyStep (Vm.start 2 2) dirtySteps = some dirtyVm := by
      rw [dirtyVm, run]
      rfl
    exact .of_runLabels (.start (Vm.start_initial 2 2)) isVm
  member := by decide
  unpinned := by decide
  stage := rfl

/-- The page is saved in a slot and its mapping is about to be cleared. -/
def inSlot (s : EvictRace) : Option SlotId :=
  match s.stage with
  | .clear (.slot slot) (_ :: _) => some slot
  | _ => none

theorem stage_of_inSlot (saved : s.inSlot = some slot) :
    ∃ o rest, s.stage = .clear (.slot slot) (o :: rest) := by
  unfold inSlot at saved
  split at saved
  · rename_i o rest isStage
    cases saved
    exact ⟨o, rest, isStage⟩
  · cases saved

/-- A write to a sector that is not written yet is saved. -/
theorem saved_contents_current_ahead :
    ∃ s slot, Reachable Chosen next Spares s ∧ s.inSlot = some slot ∧
      (s.vm.memory s.kpage).byte 4095 = 9 ∧ s.vm.swap.slotData slot = s.vm.memory s.kpage := by
  obtain ⟨s, reached, saved, written⟩ := reachable_of_run next Spares chosen_dirtyVm
    ([.evict, .evict, .userWrite 1 (8 * pgSize + 4095) 9] ++ List.replicate 7 .evict)
    (fun s => s.inSlot = some 0 ∧ (s.vm.memory s.kpage).byte 4095 = 9) (by decide)
  obtain ⟨o, rest, clearing⟩ := stage_of_inSlot saved
  exact ⟨s, 0, reached, saved, written, saved_contents_current reached clearing⟩

/-- The owner writes to a sector that was written to the slot, and its mapping is cleared
    with the old byte saved. -/
theorem write_during_eviction_lost :
    ∃ s slot o rest, Reachable Chosen next AnyStep s ∧ s.stage = .clear (.slot slot) (o :: rest) ∧
      ¬ s.Kept (.slot slot) := by
  obtain ⟨s, reached, saved, differs⟩ := reachable_of_run next AnyStep chosen_dirtyVm
    ([.evict, .evict, .userWrite 1 (8 * pgSize) 9] ++ List.replicate 7 .evict)
    (fun s => s.inSlot = some 0 ∧ (s.vm.swap.slotData 0).byte 0 ≠ (s.vm.memory s.kpage).byte 0)
    (by decide)
  obtain ⟨o, rest, clearing⟩ := stage_of_inSlot saved
  refine ⟨s, 0, o, rest, reached, clearing, ?_⟩
  intro kept
  apply differs
  rw [show s.vm.swap.slotData 0 = s.vm.memory s.kpage from kept]

end Pintos.EvictRace
