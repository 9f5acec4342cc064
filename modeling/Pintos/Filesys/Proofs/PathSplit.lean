import Pintos.Filesys.Filesys
import Pintos.Lib.String

/-!
# Splitting a path

`path_split` against the components of the name, its parts between slashes that are not empty. The
loop that copies the name keeps them, and what it has copied never ends in two slashes, so that one
step back is enough to trim the name of a directory.
-/

namespace Pintos

open List

@[simp] theorem endsInSlash_concat (x : List Byte) (c : Byte) :
    endsInSlash (x ++ [c]) = (c == slash) := by
  simp [endsInSlash]

theorem endsInSlash_of_notMem {x : List Byte} (absent : slash ∉ x) : endsInSlash x = false := by
  simpa [endsInSlash] using fun last => absent (mem_of_getLast? last)

theorem endsInSlash_iff {x : List Byte} : endsInSlash x = true ↔ x = x.dropLast ++ [slash] := by
  cases x using reverseRecOn <;> simp [endsInSlash]

/-- `copy` is `name` with one slash for several. -/
structure Squeezed (name copy : List Byte) : Prop where
  same : parts slash copy = parts slash name
  head : copy.head? = name.head?
  last : endsInSlash copy = endsInSlash name
  single : endsInSlash copy = true → endsInSlash copy.dropLast = false

/-- The loop, with `copied` in the buffer and `rest` to be read. -/
theorem squeezed_loop (rest copied : List Byte)
    (single : endsInSlash copied = true → endsInSlash copied.dropLast = false) :
    Squeezed (copied ++ rest) (copied ++ squeezeSlashes (endsInSlash copied) rest) := by
  induction rest generalizing copied with
  | nil => simpa [squeezeSlashes] using ⟨rfl, rfl, rfl, single⟩
  | cons c rest ih =>
    by_cases skip : c = slash ∧ endsInSlash copied = true
    · obtain ⟨rfl, ends⟩ := skip
      have step : squeezeSlashes (endsInSlash copied) (slash :: rest) =
          squeezeSlashes (endsInSlash copied) rest := by simp [squeezeSlashes, ends]
      have kept := ih copied single
      obtain ⟨before, rfl⟩ : ∃ before, copied = before ++ [slash] := ⟨_, endsInSlash_iff.mp ends⟩
      rw [step]
      refine ⟨kept.same.trans ?_, kept.head.trans ?_, kept.last.trans ?_, kept.single⟩
      · simp only [append_assoc, singleton_append, parts_append_cons]
        exact congrArg _ (parts_append_cons slash [] rest).symm
      · simp
      · cases rest <;> simp [endsInSlash]
    have step : squeezeSlashes (endsInSlash copied) (c :: rest) =
        c :: squeezeSlashes (endsInSlash (copied ++ [c])) rest := by
      by_cases isSlash : c = slash <;> simp_all [squeezeSlashes, beq_eq_false_iff_ne.mpr]
    have kept := ih (copied ++ [c]) (by simpa using fun same => by simpa [same] using skip)
    rw [step]
    simpa using kept

theorem squeezed_name (name : List Byte) : Squeezed name (squeezeSlashes false name) :=
  squeezed_loop name [] (by simp [endsInSlash])

/-- Up to the last slash and after it. -/
theorem split_last (s : List Byte) :
    match s.reverse.dropWhile (· != slash) with
    | [] => slash ∉ s
    | _ :: before => slash ∉ (s.reverse.takeWhile (· != slash)).reverse ∧
        s = before.reverse ++ slash :: (s.reverse.takeWhile (· != slash)).reverse := by
  have after : slash ∉ s.reverse.takeWhile (· != slash) := fun mem => by
    simpa using mem_takeWhile_imp mem
  have whole := takeWhile_append_dropWhile (p := (· != slash)) (l := s.reverse)
  have test := head?_dropWhile_not (· != slash) s.reverse
  cases found : s.reverse.dropWhile (· != slash) with
  | nil =>
    rw [found, append_nil] at whole
    simpa [whole] using after
  | cons d before =>
    obtain rfl : d = slash := by simpa [found] using test
    rw [found] at whole
    refine ⟨by simpa using after, reverse_injective ?_⟩
    simpa using whole.symm

/-- The copy of the name, without the slash at its end where a directory is named. -/
theorem trimmed_name (name : List Byte) (isDir : Bool) : ∃ nameCopy,
    (if isDir && endsInSlash name then (squeezeSlashes false name).dropLast
      else squeezeSlashes false name) = nameCopy ∧
    parts slash nameCopy = parts slash name ∧ (nameCopy ≠ [] → nameCopy.head? = name.head?) ∧
    endsInSlash nameCopy = (endsInSlash name && !isDir) := by
  obtain ⟨same, head, last, single⟩ := squeezed_name name
  refine ⟨_, rfl, ?_⟩
  by_cases trim : (isDir && endsInSlash name) = true
  · simp only [Bool.and_eq_true] at trim
    have ends := endsInSlash_iff.mp (last.trans trim.2)
    generalize (squeezeSlashes false name).dropLast = before at ends single ⊢
    rw [ends] at same head single
    simp only [trim, Bool.and_true, if_true]
    refine ⟨?_, fun nonempty => ?_, by simpa using single⟩
    · rw [← same, parts_append_cons]
      simp [parts]
    · rw [← head, head?_append_of_ne_nil _ nonempty]
  rw [if_neg trim]
  refine ⟨same, fun _ => head, ?_⟩
  rw [last]
  cases isDir <;> simp_all

/-- Without a component, there is nothing but slashes. -/
theorem head_of_parts_eq_nil {x : List Byte} (none : parts slash x = []) (y : List Byte) :
    (x ++ slash :: y).head? = some slash := by
  cases x with
  | nil => rfl
  | cons c x =>
    by_contra other
    have first := parts_eq slash (c :: x)
    rw [none] at first
    simp_all [strtokR]

/-- `path_split` fails only on a name without components, and on a name that ends in a slash and
    is not a directory's. -/
theorem pathSplit_spec (name : List Byte) (isDir : Bool) :
    match pathSplit name isDir with
    | none => parts slash name = [] ∨ isDir = false ∧ endsInSlash name = true
    | some (pathName, fileName) =>
        (isDir = true ∨ endsInSlash name = false) ∧ fileName ≠ [] ∧ slash ∉ fileName ∧
        ∃ before, parts slash name = before ++ [fileName] ∧ parts slash pathName =
          if before = [] ∧ name.head? ≠ some slash then [dotName] else before := by
  obtain ⟨nameCopy, isCopy, same, head, last⟩ := trimmed_name name isDir
  have split := split_last nameCopy
  unfold pathSplit
  simp only [isCopy]
  by_cases empty : nameCopy = []
  · rw [if_pos empty]
    rw [empty] at same
    exact .inl same.symm
  rw [if_neg empty]
  have head := head empty
  have allowed (inner : endsInSlash nameCopy = false) : isDir = true ∨ endsInSlash name = false := by
    cases isDir <;> simp_all
  generalize (nameCopy.reverse.takeWhile (· != slash)).reverse = fileName at split ⊢
  cases found : nameCopy.reverse.dropWhile (· != slash) with
  | nil =>
    rw [found] at split
    refine ⟨allowed (endsInSlash_of_notMem split), empty, split, [], ?_, ?_⟩
    · rw [← same, parts_of_notMem empty split, nil_append]
    · rw [if_pos ⟨rfl, fun first => split (mem_of_head? (head.trans first))⟩]
      rfl
  | cons d before =>
    rw [found] at split
    obtain ⟨absent, rfl⟩ := split
    dsimp only
    by_cases noFile : fileName = []
    · rw [if_pos noFile]
      subst noFile
      simp_all
    rw [if_neg noFile]
    refine ⟨allowed ?_, noFile, absent, parts slash before.reverse, ?_, ?_⟩
    · rw [← endsInSlash_of_notMem absent]
      simp [endsInSlash, getLast?_cons, getLast?_eq_some_getLast noFile]
    · rw [← same, parts_append_cons, parts_of_notMem noFile absent]
    have leading : ¬(parts slash before.reverse = [] ∧ name.head? ≠ some slash) :=
      fun all => all.2 (head ▸ head_of_parts_eq_nil all.1 fileName)
    rw [if_neg leading]
    split
    · subst before
      rfl
    · rfl

/-- The components of a name against what `path_split` makes of it, and `strtok_r` of its path. -/
theorem pathSplit_components (name : List Byte) (isDir : Bool) :
    ((pathSplit name isDir).isSome = true ↔
      parts slash name ≠ [] ∧ (isDir = true ∨ endsInSlash name = false)) ∧
    ∀ pathName fileName, pathSplit name isDir = some (pathName, fileName) →
      fileName ≠ [] ∧ slash ∉ fileName ∧ (parts slash name).getLast? = some fileName ∧
      ∀ count, strtokLoop slash count pathName =
        (if (parts slash name).length = 1 ∧ name.head? ≠ some slash then [dotName]
          else (parts slash name).dropLast).take count := by
  have spec := pathSplit_spec name isDir
  cases result : pathSplit name isDir with
  | none =>
    rw [result] at spec
    rcases spec with none | ⟨rfl, ends⟩ <;> simp_all
  | some found =>
    rw [result] at spec
    obtain ⟨allowed, nonempty, absent, before, components, path⟩ := spec
    refine ⟨by simp [components, allowed], ?_⟩
    rintro _ _ ⟨⟩
    refine ⟨nonempty, absent, by simp [components], fun count => ?_⟩
    rw [strtokLoop_eq, path]
    simp [components]

/-- The directory `a//b/`. -/
theorem pathSplit_components_trailing :
    (parts slash [0x61, slash, slash, 0x62, slash]).getLast? = some [0x62] ∧
      strtokLoop slash 2 [0x61] = [[0x61]] := by
  obtain ⟨-, -, last, path⟩ :=
    (pathSplit_components [0x61, slash, slash, 0x62, slash] true).2 [0x61] [0x62] (by decide)
  exact ⟨last, path 2⟩

end Pintos
