import Pintos.Devices.Block
import Pintos.Lib.Bitmap

/-!
# Swap slots

Model of `src/vm/swap.c`. The swap device is divided into slots of eight sectors, and a
bitmap with one bit for each slot tells which of them are used, so a slot that the
bitmap has is inside the device.
-/

namespace Pintos

open Function List

/-- How the kernel can stop. -/
inductive Panic where
  /-- An `ASSERT` fails. -/
  | assertion
  /-- `PANIC ("Cannot evict a frame")`. -/
  | noFrame
  /-- `PANIC ("swap is full")`. -/
  | swapFull
  /-- Memory is used that is not the object it is taken for. -/
  | undefined
  deriving DecidableEq

/-- `PGSIZE` (`vaddr.h:15`). -/
abbrev pgSize : Nat := 4096

/-- The bytes of a page. -/
abbrev PageData := Fin pgSize → Byte

namespace PageData

/-- The byte at `i`; the callers stay below `pgSize`. -/
def byte (d : PageData) (i : Nat) : Byte := if h : i < pgSize then d ⟨i, h⟩ else 0

/-- The part that goes to the sector `i` of a slot. -/
def sector (d : PageData) (i : Nat) : SectorData := fun j => d.byte (blockSectorSize * i + j)

/-- The page that is read from the sectors of a slot. -/
def ofSectors (sectors : Nat → SectorData) : PageData :=
  fun k => (sectors (k / blockSectorSize)).byte (k % blockSectorSize)

@[simp] theorem byte_coe (d : PageData) (i : Fin pgSize) : d.byte i = d i := by
  simp [byte, i.2]

theorem ofSectors_eq {d : PageData} {sectors : Nat → SectorData}
    (same : ∀ i < pgSize / blockSectorSize, sectors i = d.sector i) : ofSectors sectors = d := by
  funext k
  have inside := k.2
  have small : k / blockSectorSize < pgSize / blockSectorSize :=
    Nat.div_lt_div_of_lt_of_dvd ⟨8, rfl⟩ inside
  have offset : k % blockSectorSize < blockSectorSize := Nat.mod_lt _ (by decide)
  unfold ofSectors
  rw [same _ small, SectorData.byte, dif_pos offset]
  show d.byte (blockSectorSize * (k / blockSectorSize) + k % blockSectorSize) = d k
  rw [Nat.div_add_mod, byte_coe]

end PageData

abbrev SlotId := Nat

/-- `SLOT_SIZE` (`swap.c:18`). -/
abbrev slotSize : Nat := pgSize / blockSectorSize

/-- The static variables of `swap.c`. `given` is not in the source: it keeps the bytes
    that the last `swap_out` of each slot was given. -/
structure Swap where
  bitmap : Bitmap
  device : Nat → SectorData
  given : SlotId → PageData

namespace Swap

variable (swap : Swap)

/-- The loop of `swap_out` (`swap.c:47-49`). -/
def writeSlot (device : Nat → SectorData) (slot : SlotId) (d : PageData) : Nat → SectorData :=
  (List.range slotSize).foldl
    (fun device i => update device (slot * slotSize + i) (d.sector i)) device

/-- `swap_out` (`swap.c:38-51`); no slot is `SLOT_ERR`. -/
def swapOut (d : PageData) : Option SlotId × Swap :=
  match bitmapScanAndFlip swap.bitmap 0 1 false with
  | (none, _) => (none, swap)
  | (some slot, bitmap) =>
      (some slot, { bitmap, device := writeSlot swap.device slot d
                    given := update swap.given slot d })

/-- The page that the sectors of a slot hold. -/
def slotData (slot : SlotId) : PageData :=
  PageData.ofSectors fun i => swap.device (slot * slotSize + i)

/-- `swap_in` (`swap.c:58-79`) with the bytes it reads; `none` if it returns false. -/
def swapIn (slot : SlotId) : Except Panic (Option (PageData × Swap)) :=
  if slot < swap.bitmap.bitCnt then
    if swap.bitmap.bits slot then
      .ok (some (swap.slotData slot,
        { swap with bitmap := bitmapSetMultiple swap.bitmap slot 1 false }))
    else .ok none
  -- `bitmap_test` has an assertion of its own
  else .error .assertion

/-- The slot is in use. -/
def Used (slot : SlotId) : Prop :=
  slot < swap.bitmap.bitCnt ∧ swap.bitmap.bits slot = true

instance (slot : SlotId) : Decidable (swap.Used slot) := inferInstanceAs (Decidable (_ ∧ _))

theorem foldl_writeSectors (device : Nat → SectorData) (start n : Nat) (d : PageData) (i : Nat) :
    (List.range n).foldl (fun device i => update device (start + i) (d.sector i))
      device i = if start ≤ i ∧ i < start + n then d.sector (i - start) else device i := by
  induction n with
  | zero =>
    rw [if_neg (by omega)]
    rfl
  | succ n ih =>
    rw [range_succ, foldl_append, foldl_cons, foldl_nil]
    by_cases last : i = start + n
    · rw [last, update_self, if_pos (by omega), Nat.add_sub_cancel_left]
    rw [update_of_ne last, ih]
    by_cases inside : start ≤ i ∧ i < start + n
    · rw [if_pos inside, if_pos (by omega)]
    · rw [if_neg inside, if_neg (by omega)]

variable {swap : Swap}

theorem slots_apart {a b i : Nat} (ne : b ≠ a) (small : i < slotSize) :
    ¬ (a * slotSize ≤ b * slotSize + i ∧ b * slotSize + i < a * slotSize + slotSize) := by
  have eight : slotSize = 8 := rfl
  rw [eight] at small ⊢
  omega

/-- The slot that was written holds the page, the other slots hold what they held. -/
theorem slotData_writeSlot (bitmap : Bitmap) (given : SlotId → PageData) (slot slot' : SlotId)
    (d : PageData) :
    slotData ⟨bitmap, writeSlot swap.device slot d, given⟩ slot' =
      if slot' = slot then d else swap.slotData slot' := by
  have written : ∀ i, writeSlot swap.device slot d i =
      if slot * slotSize ≤ i ∧ i < slot * slotSize + slotSize then d.sector (i - slot * slotSize)
      else swap.device i := foldl_writeSectors swap.device (slot * slotSize) slotSize d
  by_cases same : slot' = slot
  · subst same
    rw [if_pos rfl]
    apply PageData.ofSectors_eq
    intro i small
    have small : i < slotSize := small
    show writeSlot swap.device slot' d (slot' * slotSize + i) = d.sector i
    rw [written, if_pos ⟨Nat.le_add_right .., Nat.add_lt_add_left small _⟩, Nat.add_sub_cancel_left]
  rw [if_neg same]
  unfold slotData PageData.ofSectors
  funext k
  have inside : (k : Nat) / blockSectorSize < slotSize :=
    Nat.div_lt_div_of_lt_of_dvd ⟨8, rfl⟩ k.2
  show (writeSlot swap.device slot d _).byte _ = (swap.device _).byte _
  rw [written, if_neg (slots_apart same inside)]

/-- `swap_out` finds a slot that is not in use, and fills it. -/
theorem swapOut_spec {swap' : Swap} {d : PageData} {slot : SlotId}
    (run : swap.swapOut d = (some slot, swap')) :
    ¬ swap.Used slot ∧ (∀ slot', swap'.Used slot' ↔ slot' = slot ∨ swap.Used slot') ∧
      (∀ slot', swap'.slotData slot' = if slot' = slot then d else swap.slotData slot') ∧
      ∀ slot', swap'.given slot' = if slot' = slot then d else swap.given slot' := by
  unfold swapOut bitmapScanAndFlip at run
  cases scan : bitmapScan swap.bitmap 0 1 false with
  | none =>
    rw [scan] at run
    cases run
  | some found =>
    rw [scan] at run
    obtain ⟨isSlot, rfl⟩ := Prod.mk.inj run
    obtain rfl := Option.some.inj isSlot
    obtain ⟨-, small, free⟩ := bitmapScan_some scan
    have wasFree : swap.bitmap.bits found = false := free found (Nat.le_refl _) (Nat.lt_succ_self _)
    refine ⟨?_, ?_, fun slot' => slotData_writeSlot _ _ found slot' d, ?_⟩
    · intro used
      rw [used.2] at wasFree
      cases wasFree
    · intro slot'
      unfold Used
      rw [bitmapSetMultiple_bits, bitmapSetMultiple_bitCnt]
      by_cases same : slot' = found
      · subst same
        rw [if_pos (by omega)]
        exact ⟨fun _ => Or.inl rfl, fun _ => ⟨small, rfl⟩⟩
      have apart := Nat.lt_or_gt_of_ne same
      rw [if_neg (by omega)]
      exact ⟨Or.inr, fun used => used.resolve_left same⟩
    intro slot'
    by_cases same : slot' = found
    · subst same
      rw [if_pos rfl]
      exact update_self ..
    · rw [if_neg same]
      exact update_of_ne same ..

/-- `swap_in` of a slot in use. -/
theorem swapIn_of_used {slot : SlotId} (used : swap.Used slot) :
    swap.swapIn slot = .ok (some (swap.slotData slot,
      { swap with bitmap := bitmapSetMultiple swap.bitmap slot 1 false })) := by
  unfold swapIn
  rw [if_pos used.1, if_pos used.2]

/-- `swap_in` frees the slot. -/
theorem used_clear {slot slot' : SlotId} :
    Used { swap with bitmap := bitmapSetMultiple swap.bitmap slot 1 false } slot' ↔
      swap.Used slot' ∧ slot' ≠ slot := by
  unfold Used
  rw [bitmapSetMultiple_bits, bitmapSetMultiple_bitCnt]
  by_cases same : slot' = slot
  · subst same
    rw [if_pos (by omega)]
    constructor
    · exact fun used => nomatch used.2
    · exact fun both => absurd rfl both.2
  have apart := Nat.lt_or_gt_of_ne same
  rw [if_neg (by omega)]
  exact ⟨fun used => ⟨used, same⟩, fun both => both.1⟩

end Swap

end Pintos
