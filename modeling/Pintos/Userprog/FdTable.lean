import Pintos.Lib.Bitmap
import Pintos.Vm.Frame

/-!
# The table of file descriptors

Model of the static arrays of `src/userprog/syscall.c` and of what the system calls do to
them with `fd_table_lock` held. One table serves all processes; a descriptor belongs to
the process whose `tid` is in `fd_owner`. A `struct file *` is any value of a type `Ptr`.
-/

namespace Pintos

open Function

/-- `OPEN_FILE_MAX` (`syscall.h:8`). -/
abbrev openFileMax : Nat := 1024

/-- The arrays of `syscall.c:21-23`. No entry is a null pointer, no owner is `TID_ERROR`. -/
structure FdTable (Ptr : Type) where
  fdTable : Bitmap
  fdEntry : Nat → Option Ptr
  fdOwner : Nat → Option ThreadId

namespace FdTable

variable {Ptr : Type}

/-- `syscall_init` (`syscall.c:73-77`). -/
def syscallInit : FdTable Ptr where
  fdTable := bitmapSetMultiple { bitCnt := openFileMax, bits := fun _ => false } 0 2 true
  fdEntry _ := none
  fdOwner _ := none

variable (table : FdTable Ptr)

/-- The tests with which every system call on a descriptor starts, and the entry that it
    finds (`syscall.c:360-371` and the like). -/
def find (t : ThreadId) (fd : Int) : Option Ptr :=
  if fd < 0 ∨ (openFileMax : Int) ≤ fd then none
  else if table.fdOwner fd.toNat ≠ some t then none
  else table.fdEntry fd.toNat

/-- `bitmap_set` and the assignments to the other two arrays. -/
def set (fd : Nat) (owner : Option ThreadId) (entry : Option Ptr) : FdTable Ptr where
  fdTable := bitmapSetMultiple table.fdTable fd 1 entry.isSome
  fdEntry := update table.fdEntry fd entry
  fdOwner := update table.fdOwner fd owner

/-- The part of `open_` with the lock held (`syscall.c:341-351`); no descriptor is
    `BITMAP_ERROR`. -/
def alloc (t : ThreadId) (file : Ptr) : Option Nat × FdTable Ptr :=
  match bitmapScan table.fdTable 2 1 false with
  | none => (none, table)
  | some fd => (some fd, table.set fd (some t) (some file))

/-- The last part of `close_` (`syscall.c:494-498`). -/
def clear (fd : Nat) : FdTable Ptr := table.set fd none none

/-- Every descriptor that `open_` can hand out is taken. -/
def Full : Prop := ∀ fd, 2 ≤ fd → fd < openFileMax → table.fdTable.bits fd = true

/-- The three arrays agree. -/
structure Aligned : Prop where
  bitCnt : table.fdTable.bitCnt = openFileMax
  console : ∀ fd < 2, table.fdTable.bits fd = true ∧ table.fdEntry fd = none ∧
    table.fdOwner fd = none
  entry : ∀ fd, 2 ≤ fd → (table.fdTable.bits fd = true ↔ table.fdEntry fd ≠ none)
  owner : ∀ fd, 2 ≤ fd → (table.fdTable.bits fd = true ↔ table.fdOwner fd ≠ none)

variable {table} {t : ThreadId} {fd : Nat} {file : Ptr}

theorem find_eq_some {fd : Int} : table.find t fd = some file ↔
    0 ≤ fd ∧ fd < openFileMax ∧ table.fdOwner fd.toNat = some t ∧
      table.fdEntry fd.toNat = some file := by
  unfold find
  by_cases range : fd < 0 ∨ (openFileMax : Int) ≤ fd
  · rw [if_pos range]
    constructor
    · intro found
      cases found
    · intro found
      omega
  rw [if_neg range]
  by_cases owner : table.fdOwner fd.toNat = some t
  · rw [if_neg (not_not.mpr owner)]
    have inRange : 0 ≤ fd ∧ fd < (openFileMax : Int) := by omega
    exact ⟨fun entry => ⟨inRange.1, inRange.2, owner, entry⟩, fun found => found.2.2.2⟩
  · simp [owner]

variable {owner : Option ThreadId} {entry : Option Ptr}

@[simp] theorem set_fdEntry_self :
    (table.set fd owner entry).fdEntry fd = entry := update_self ..

@[simp] theorem set_fdOwner_self :
    (table.set fd owner entry).fdOwner fd = owner := update_self ..

theorem set_fdEntry_of_ne {fd' : Nat} (ne : fd' ≠ fd) :
    (table.set fd owner entry).fdEntry fd' = table.fdEntry fd' := update_of_ne ne ..

theorem set_fdOwner_of_ne {fd' : Nat} (ne : fd' ≠ fd) :
    (table.set fd owner entry).fdOwner fd' = table.fdOwner fd' := update_of_ne ne ..

theorem set_bits (fd' : Nat) : (table.set fd owner entry).fdTable.bits fd' =
      if fd' = fd then entry.isSome else table.fdTable.bits fd' := by
  show (bitmapSetMultiple table.fdTable fd 1 entry.isSome).bits fd' = _
  rw [bitmapSetMultiple_bits]
  by_cases same : fd' = fd
  · rw [if_pos (by omega), if_pos same]
  · rw [if_neg (by omega), if_neg same]

/-- The descriptor that `open_` gets. -/
theorem alloc_some {table' : FdTable Ptr} (run : table.alloc t file = (some fd, table')) :
    2 ≤ fd ∧ fd < table.fdTable.bitCnt ∧ table.fdTable.bits fd = false ∧
      table' = table.set fd (some t) (some file) := by
  unfold alloc at run
  cases scan : bitmapScan table.fdTable 2 1 false with
  | none =>
    rw [scan] at run
    cases run
  | some found =>
    rw [scan] at run
    cases run
    obtain ⟨low, high, free⟩ := bitmapScan_some scan
    exact ⟨low, by omega, free fd (Nat.le_refl _) (by omega), rfl⟩

theorem aligned_syscallInit : (syscallInit : FdTable Ptr).Aligned := by
  have bits : ∀ fd, (syscallInit : FdTable Ptr).fdTable.bits fd = decide (fd < 2) := by
    intro fd
    show (if 0 ≤ fd ∧ fd < 0 + 2 then true else false) = decide (fd < 2)
    by_cases console : fd < 2
    · simp [console]
    · simp [console]
  refine ⟨rfl, fun fd console => ⟨by simpa [bits] using console, rfl, rfl⟩, ?_, ?_⟩ <;>
  · intro fd low
    rw [bits, decide_eq_true_iff]
    exact iff_of_false (by omega) fun taken => taken rfl

theorem Aligned.set (aligned : table.Aligned) (low : 2 ≤ fd) (both : owner = none ↔ entry = none) :
    (table.set fd owner entry).Aligned where
  bitCnt := aligned.bitCnt
  console fd' console := by
    rw [set_bits, if_neg (by omega), set_fdEntry_of_ne (by omega), set_fdOwner_of_ne (by omega)]
    exact aligned.console fd' console
  entry fd' low' := by
    rw [set_bits]
    by_cases same : fd' = fd
    · subst same
      rw [if_pos rfl, set_fdEntry_self, Option.isSome_iff_ne_none]
    · rw [if_neg same, set_fdEntry_of_ne same]
      exact aligned.entry fd' low'
  owner fd' low' := by
    rw [set_bits]
    by_cases same : fd' = fd
    · subst same
      rw [if_pos rfl, set_fdOwner_self, Option.isSome_iff_ne_none, ne_eq, ne_eq, both]
    · rw [if_neg same, set_fdOwner_of_ne same]
      exact aligned.owner fd' low'

/-- A descriptor with an owner is one that `open_` handed out. -/
theorem Aligned.two_le (aligned : table.Aligned) (owned : table.fdOwner fd ≠ none) : 2 ≤ fd := by
  by_contra console
  exact owned (aligned.console fd (by omega)).2.2

end FdTable

end Pintos
