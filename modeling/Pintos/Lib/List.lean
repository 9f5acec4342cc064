import Mathlib.Data.List.Basic

/-!
# Lists

Functions of `src/lib/kernel/list.c`. A list is the list of its interior elements,
and a `struct list_elem *` that may point to the end of the list is an option, with
`none` for the tail. `list_max` takes a comparison that can fail: a C comparison
function may contain assertions of its own.
-/

namespace Pintos

open List Option

variable {α : Type} {less : α → α → Option Bool} {max m e x : α} {rest xs : List α} {old : Option α}

/-- The loop of `list_max` (`list.c:492-504`) over the elements after `max`. -/
def listMax (less : α → α → Option Bool) : α → List α → Option α
  | max, [] => some max
  | max, e :: rest => do
      if ← less max e then listMax less e rest else listMax less max rest

theorem listMax_mem (run : listMax less max rest = some m) : m ∈ max :: rest := by
  induction rest generalizing max with
  | nil =>
    cases run
    exact mem_cons_self
  | cons e rest ih =>
    rw [listMax, bind_eq_bind, bind_eq_some_iff] at run
    obtain ⟨smaller, -, run⟩ := run
    split at run
    · exact mem_cons_of_mem _ (ih run)
    have mem := ih run
    simp only [mem_cons] at mem ⊢
    tauto

/-- If the comparison is that of a key, the result has the largest key. -/
theorem listMax_spec (key : α → Int) (rest : List α) :
    ∀ max, (∀ a ∈ max :: rest, ∀ b ∈ max :: rest, less a b = some (decide (key a < key b))) →
      ∃ m, listMax less max rest = some m ∧ m ∈ max :: rest ∧ ∀ x ∈ max :: rest, key x ≤ key m := by
  induction rest with
  | nil =>
    intro max _
    refine ⟨max, rfl, mem_cons_self, ?_⟩
    intro x hx
    exact Int.le_of_eq (congrArg key (mem_singleton.mp hx))
  | cons e rest ih =>
    intro max compares
    have compared := compares max (by simp) e (by simp)
    rw [listMax, compared]
    by_cases smaller : key max < key e
    · obtain ⟨m, run, mem, largest⟩ :=
        ih e fun a ha b hb => compares a (mem_cons_of_mem _ ha) b (mem_cons_of_mem _ hb)
      refine ⟨m, ?_, mem_cons_of_mem _ mem, ?_⟩
      · simpa [smaller] using run
      intro x hx
      rcases mem_cons.mp hx with rfl | hx
      · have := largest e mem_cons_self
        omega
      · exact largest x hx
    have subset : ∀ a, a ∈ max :: rest → a ∈ max :: e :: rest := by
      intro a ha
      rcases mem_cons.mp ha with rfl | ha
      · exact mem_cons_self
      · exact mem_cons_of_mem _ (mem_cons_of_mem _ ha)
    obtain ⟨m, run, mem, largest⟩ :=
      ih max fun a ha b hb => compares a (subset a ha) b (subset b hb)
    refine ⟨m, ?_, subset m mem, ?_⟩
    · simpa [smaller] using run
    intro x hx
    rcases mem_cons.mp hx with rfl | hx
    · exact largest x mem_cons_self
    rcases mem_cons.mp hx with rfl | hx
    · have := largest max mem_cons_self
      omega
    · exact largest x (mem_cons_of_mem _ hx)

theorem listMax_first {key : α → Int}
    (compares : ∀ {a b c}, less a b = some c → c = decide (key a < key b))
    (run : listMax less max rest = some m) :
    ∃ old after, max :: rest = old ++ m :: after ∧ (∀ x ∈ old, key x < key m) ∧
      ∀ x ∈ after, key x ≤ key m := by
  induction rest generalizing max with
  | nil =>
    cases run
    exact ⟨[], [], rfl, by simp, by simp⟩
  | cons e rest ih =>
    rw [listMax, bind_eq_bind, bind_eq_some_iff] at run
    obtain ⟨smaller, compared, run⟩ := run
    have isLess := compares compared
    cases smaller with
    | true =>
      obtain ⟨old, after, split, less, le⟩ := ih run
      refine ⟨max :: old, after, by rw [split]; rfl, ?_, le⟩
      have : key e ≤ key m := by
        have mem : e ∈ old ++ m :: after := split ▸ mem_cons_self
        grind
      grind
    | false =>
      obtain ⟨old, after, split, less, le⟩ := ih run
      cases old with
      | nil =>
        obtain ⟨rfl, rfl⟩ := List.cons.inj split
        exact ⟨[], e :: rest, rfl, by simp, by grind⟩
      | cons x old =>
        obtain ⟨rfl, rfl⟩ := List.cons.inj split
        exact ⟨max :: e :: old, after, rfl, by grind, le⟩

/-- What is left when the only element with a property is taken out. -/
theorem mem_eraseP_iff {p : α → Bool} (nodup : xs.Nodup)
    (unique : ∀ a ∈ xs, ∀ b ∈ xs, p a = true → p b = true → a = b) :
    x ∈ xs.eraseP p ↔ p x = false ∧ x ∈ xs := by
  induction xs with
  | nil => simp
  | cons y rest ih =>
    rw [nodup_cons] at nodup
    rw [eraseP_cons]
    cases isY : p y with
    | true =>
      rw [cond_true, mem_cons]
      constructor
      · intro member
        refine ⟨?_, .inr member⟩
        cases isX : p x with
        | false => rfl
        | true =>
          have same := unique x (mem_cons_of_mem _ member) y mem_cons_self isX isY
          exact absurd (same ▸ member) nodup.1
      rintro ⟨isX, rfl | member⟩
      · rw [isX] at isY
        cases isY
      · exact member
    | false =>
      rw [cond_false, mem_cons, mem_cons, ih nodup.2 fun a ha b hb =>
        unique a (mem_cons_of_mem _ ha) b (mem_cons_of_mem _ hb)]
      constructor
      · rintro (rfl | both)
        · exact ⟨isY, .inl rfl⟩
        · exact ⟨both.1, .inr both.2⟩
      rintro ⟨isX, rfl | member⟩
      · exact .inl rfl
      · exact .inr ⟨isX, member⟩

/-! ## Neighbours -/

variable [DecidableEq α]

/-- `list_next` (`list.c:73-78`) of an element of the list. -/
def listNext (e : α) : List α → Option α
  | [] => none
  | x :: rest => if x = e then rest.head? else listNext e rest

/-- `list_insert` (`list.c:168-179`). -/
def listInsert (before : Option α) (e : α) : List α → List α
  | [] => [e]
  | x :: rest => if before = some x then e :: x :: rest else x :: listInsert before e rest

theorem listNext_mem (next : listNext e xs = some x) : x ∈ xs := by
  induction xs with
  | nil => cases next
  | cons y rest ih =>
    rw [listNext] at next
    split at next
    · exact mem_cons_of_mem _ (mem_of_mem_head? next)
    · exact mem_cons_of_mem _ (ih next)

theorem listNext_ne (nodup : xs.Nodup) (next : listNext e xs = some x) : x ≠ e := by
  induction xs with
  | nil => cases next
  | cons y rest ih =>
    rw [nodup_cons] at nodup
    rw [listNext] at next
    split at next
    · rename_i isFirst
      rintro rfl
      rw [isFirst] at nodup
      exact nodup.1 (mem_of_mem_head? next)
    · exact ih nodup.2 next

theorem head?_ne_of_listNext_none (others : 1 < xs.length)
    (last : listNext e xs = none) : xs.head? ≠ some e := by
  cases xs with
  | nil => exact nofun
  | cons y rest =>
    intro isFirst
    rw [List.head?_cons, some.injEq] at isFirst
    rw [listNext, if_pos isFirst, List.head?_eq_none_iff] at last
    rw [last] at others
    exact Nat.lt_irrefl 1 others

@[simp] theorem mem_listInsert :
    x ∈ listInsert old e xs ↔ x = e ∨ x ∈ xs := by
  induction xs with
  | nil => simp [listInsert]
  | cons y rest ih =>
    rw [listInsert]
    split
    · rw [mem_cons]
    · rw [mem_cons, ih, mem_cons]
      tauto

theorem listInsert_nodup (nodup : xs.Nodup) (new : e ∉ xs) : (listInsert old e xs).Nodup := by
  induction xs with
  | nil => exact nodup_cons.mpr ⟨not_mem_nil, nodup_nil⟩
  | cons y rest ih =>
    rw [mem_cons, not_or] at new
    rw [listInsert]
    split
    · rw [nodup_cons, mem_cons, not_or]
      exact ⟨new, nodup⟩
    rw [nodup_cons] at nodup ⊢
    refine ⟨?_, ih nodup.2 new.2⟩
    rw [mem_listInsert, not_or]
    exact ⟨fun same => new.1 same.symm, nodup.1⟩

end Pintos
