import Mathlib.Data.BitVec
import Mathlib.Data.List.TakeWhile

/-!
# Strings

Model of `strtok_r` of `src/lib/string.c` with a single delimiter. A string is the list of its
characters up to the null byte at its end. The null byte that `strtok_r` stores ends the token and
is not read again.
-/

namespace Pintos

open List

variable {α : Type} [DecidableEq α] {delimiter : α}

/-- `strtok_r` (`string.c:234-275`) at `s`, or at `*save_ptr`: the token, and the string at
    `*save_ptr` afterwards. -/
def strtokR (delimiter : α) (s : List α) : Option (List α × List α) :=
  match s.dropWhile (· = delimiter) with
  | [] => none
  | c :: rest =>
      let token := (c :: rest).takeWhile (· ≠ delimiter)
      some (token, ((c :: rest).dropWhile (· ≠ delimiter)).tail)

/-- The tokens of at most `count` calls, one after the other. -/
def strtokLoop (delimiter : α) : Nat → List α → List (List α)
  | 0, _ => []
  | count + 1, s =>
      match strtokR delimiter s with
      | none => []
      | some (token, rest) => token :: strtokLoop delimiter count rest

/-- The parts of a string between delimiters that are not empty. -/
def parts (delimiter : α) (s : List α) : List (List α) := (s.splitOn delimiter).filter (· ≠ [])

theorem parts_append_cons (delimiter : α) (x y : List α) :
    parts delimiter (x ++ delimiter :: y) = parts delimiter x ++ parts delimiter y := by
  unfold parts List.splitOn
  rw [splitOnP_append_cons x y (by simp), filter_append]

theorem parts_of_notMem {x : List α} (nonempty : x ≠ []) (notMem : delimiter ∉ x) :
    parts delimiter x = [x] := by
  have whole : x.splitOn delimiter = [x] := by
    refine splitOnP_eq_singleton fun c mem => ?_
    simpa using fun same : c = delimiter => notMem (same ▸ mem)
  simp [parts, whole, nonempty]

/-- Only a string of delimiters has no parts. -/
theorem parts_eq_nil_iff {s : List α} : parts delimiter s = [] ↔ ∀ c ∈ s, c = delimiter := by
  unfold parts List.splitOn
  rw [filter_eq_nil_iff]
  induction s with
  | nil => simp [splitOnP_nil]
  | cons first rest ih =>
    rw [splitOnP_cons_eq_if_modifyHead]
    by_cases same : first = delimiter
    · simpa [same] using ih
    rw [if_neg fun equal => same (beq_iff_eq.mp equal)]
    cases parts : List.splitOnP (· == delimiter) rest with
    | nil => exact absurd parts (splitOnP_ne_nil _ _)
    | cons part _ => simp [same]

theorem parts_dropWhile (s : List α) :
    parts delimiter (s.dropWhile (· = delimiter)) = parts delimiter s := by
  induction s with
  | nil => rfl
  | cons c rest ih =>
    by_cases same : c = delimiter
    · subst same
      have skip := parts_append_cons c [] rest
      have none : parts c [] = [] := by simp [parts, List.splitOn]
      rw [none] at skip
      simpa [ih] using skip.symm
    · simp [same]

theorem parts_eq (delimiter : α) (s : List α) :
    match strtokR delimiter s with
    | none => parts delimiter s = []
    | some (token, rest) => parts delimiter s = token :: parts delimiter rest := by
  rw [← parts_dropWhile]
  unfold strtokR
  cases found : s.dropWhile (· = delimiter) with
  | nil => rfl
  | cons c rest =>
    have first : c ≠ delimiter := by
      have test := List.head?_dropWhile_not (fun c => decide (c = delimiter)) s
      simpa [found] using test
    have token : delimiter ∉ (c :: rest).takeWhile (· ≠ delimiter) := by
      intro mem
      simpa using mem_takeWhile_imp mem
    have nonempty : (c :: rest).takeWhile (· ≠ delimiter) ≠ [] := by simp [first]
    dsimp only
    rw [show parts delimiter (c :: rest) = parts delimiter ((c :: rest).takeWhile (· ≠ delimiter) ++
      (c :: rest).dropWhile (· ≠ delimiter)) by rw [takeWhile_append_dropWhile]]
    cases ends : (c :: rest).dropWhile (· ≠ delimiter) with
    | nil =>
      rw [append_nil, parts_of_notMem nonempty token]
      rfl
    | cons d after =>
      have isDelimiter := List.head?_dropWhile_not (fun c => decide (c ≠ delimiter)) (c :: rest)
      rw [ends] at isDelimiter
      obtain rfl : d = delimiter := by simpa using isDelimiter
      rw [parts_append_cons, parts_of_notMem nonempty token]
      rfl

theorem strtokLoop_eq (count : Nat) (s : List α) :
    strtokLoop delimiter count s = (parts delimiter s).take count := by
  induction count generalizing s with
  | zero => rfl
  | succ count ih =>
    have first := parts_eq delimiter s
    unfold strtokLoop
    cases call : strtokR delimiter s with
    | none => simp_all
    | some found => simp_all

/-- The tokens are nonempty pieces of the string, one after the other. -/
theorem strtokLoop_pieces (delimiter : α) (count : Nat) (s : List α) :
    (∀ token ∈ strtokLoop delimiter count s, token ⊆ s) ∧
      ((strtokLoop delimiter count s).map (·.length + 1)).sum ≤ s.length + min 1 s.length := by
  induction count generalizing s with
  | zero => simp [strtokLoop]
  | succ count ih =>
    unfold strtokLoop strtokR
    have skipped := dropWhile_suffix (fun c => decide (c = delimiter)) (l := s)
    cases found : s.dropWhile (· = delimiter) with
    | nil => simp
    | cons c rest =>
      have first : c ≠ delimiter := by
        have test := List.head?_dropWhile_not (fun c => decide (c = delimiter)) s
        simpa [found] using test
      rw [found] at skipped
      have split := takeWhile_append_dropWhile (p := (· ≠ delimiter)) (l := c :: rest)
      obtain ⟨pieces, bound⟩ := ih ((c :: rest).dropWhile (· ≠ delimiter)).tail
      have left := dropWhile_suffix (fun c => decide (c ≠ delimiter)) (l := c :: rest)
      have total := congrArg List.length split
      have pos : 0 < ((c :: rest).takeWhile (· ≠ delimiter)).length := by simp [first]
      have short := skipped.length_le
      dsimp only
      constructor
      · intro token mem
        rcases mem_cons.mp mem with rfl | mem
        · exact List.Subset.trans (takeWhile_subset _) skipped.subset
        · exact List.Subset.trans (pieces token mem)
            (((tail_sublist _).trans left.sublist).trans skipped.sublist).subset
      rw [length_append] at total
      rw [map_cons, sum_cons]
      rw [length_tail] at bound
      omega

end Pintos
