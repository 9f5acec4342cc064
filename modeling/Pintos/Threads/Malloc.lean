import Mathlib.Data.BitVec

/-!
# The sizes of allocated blocks

Model of how `malloc` and `calloc` of `src/threads/malloc.c` compute the size of the block that
they return. Sizes are 32-bit words. Whether a free block or pages are there is left open.
-/

namespace Pintos

/-- `sizeof (struct arena)`. -/
def arenaSize : Nat := 12

/-- The loop of `malloc_init` (`malloc.c:74-84`), which asserts that there are at most so many
    descriptors. -/
def mallocInit : Nat → BitVec 32 → List (BitVec 32)
  | 0, _ => []
  | left + 1, blockSize =>
      if blockSize < 4096 / 2 then blockSize :: mallocInit left (blockSize * 2) else []

/-- `block_size` of `descs`. -/
def blockSizes : List (BitVec 32) := mallocInit 10 16

/-- A block: one of an arena, or all of the pages after the header. -/
inductive MallocBlock where
  | ofArena (blockSize : BitVec 32)
  | ofPages (pageCnt : BitVec 32)

/-- The bytes that the caller can use. -/
def MallocBlock.usable : MallocBlock → Nat
  | .ofArena blockSize => blockSize.toNat
  | .ofPages pageCnt => 4096 * pageCnt.toNat - arenaSize

section

variable (free : BitVec 32 → Bool) (pages : BitVec 32 → Bool)

/-- `malloc` (`malloc.c:89-154`); `free` says for which descriptors there is a free block, `pages`
    how many pages in a row there are. -/
def malloc (size : BitVec 32) : Option MallocBlock :=
  if size = 0 then none
  else
    match blockSizes.find? fun blockSize => size ≤ blockSize with
    | some blockSize => if free blockSize || pages 1 then some (.ofArena blockSize) else none
    | none =>
        let pageCnt := (size + BitVec.ofNat 32 arenaSize + 4096 - 1) / 4096
        -- `palloc_get_multiple` returns no page for a count of 0
        if pageCnt ≠ 0 ∧ pages pageCnt then some (.ofPages pageCnt) else none

/-- `calloc` (`malloc.c:158-175`). -/
def calloc (a b : BitVec 32) : Option MallocBlock :=
  let size := a * b
  if size < a ∨ size < b then none else malloc free pages size

end

variable {free pages : BitVec 32 → Bool} {size a b : BitVec 32} {block : MallocBlock}

theorem toNat_pageCnt (size : BitVec 32) :
    ((size + BitVec.ofNat 32 arenaSize + 4096 - 1) / 4096).toNat =
      (size.toNat + 4107) % 2 ^ 32 / 4096 := by
  have count : (size + BitVec.ofNat 32 arenaSize + 4096 - 1).toNat =
      (size.toNat + 4107) % 2 ^ 32 := by
    unfold arenaSize
    bv_omega
  rw [BitVec.toNat_udiv, count]
  rfl

theorem malloc_size_le (fits : size.toNat + arenaSize ≤ 2 ^ 32)
    (returned : malloc free pages size = some block) : size.toNat ≤ block.usable := by
  unfold malloc at returned
  split at returned
  · cases returned
  split at returned
  · next blockSize found =>
    rw [Option.ite_none_right_eq_some] at returned
    cases returned.2
    have le := List.find?_some found
    exact of_decide_eq_true le
  rw [Option.ite_none_right_eq_some] at returned
  obtain ⟨⟨some, -⟩, same⟩ := returned
  cases same
  have nonzero : (size.toNat + 4107) % 2 ^ 32 / 4096 ≠ 0 :=
    fun zero => some (BitVec.eq_of_toNat_eq ((toNat_pageCnt size).trans zero))
  dsimp only [MallocBlock.usable]
  rw [toNat_pageCnt]
  unfold arenaSize at *
  omega

/-- The sum in `malloc` wraps around to a number of pages that is 0. -/
def NoPages (size : BitVec 32) : Prop :=
  2 ^ 32 ≤ size.toNat + arenaSize + 4095 ∧ size.toNat + arenaSize ≤ 2 ^ 32

theorem blockSize_le : ∀ blockSize ∈ blockSizes, blockSize.toNat ≤ 1024 := by
  simp [blockSizes, mallocInit]

theorem malloc_of_noPages (noPages : NoPages size) : malloc free pages size = none := by
  obtain ⟨low, high⟩ := noPages
  unfold arenaSize at low high
  have notFound : blockSizes.find? (fun blockSize => size ≤ blockSize) = none := by
    refine List.find?_eq_none.mpr fun blockSize mem le => ?_
    have bound := blockSize_le blockSize mem
    have le : size ≤ blockSize := of_decide_eq_true le
    bv_omega
  have zero : (size + BitVec.ofNat 32 arenaSize + 4096 - 1) / 4096 = 0 := by
    apply BitVec.eq_of_toNat_eq
    rw [toNat_pageCnt, Nat.div_eq_of_lt (by omega)]
    rfl
  unfold malloc
  rw [notFound]
  exact ite_eq_left_iff.mpr fun _ => if_neg fun some => some.1 zero

/-- With all pages free a block is returned, and for a size that is too large it is one page. -/
theorem malloc_of_pages (nonzero : size ≠ 0) (notNone : ¬NoPages size) :
    ∃ block, malloc (fun _ => false) (fun _ => true) size = some block ∧
      block.usable < 2 ^ 32 ∧ (2 ^ 32 < size.toNat + arenaSize → block.usable < size.toNat) := by
  simp only [malloc, if_neg nonzero]
  unfold NoPages at notNone
  have positive : size.toNat ≠ 0 := fun zero => nonzero (BitVec.eq_of_toNat_eq zero)
  split
  · next blockSize found =>
    have le := List.find?_some found
    have le : size ≤ blockSize := of_decide_eq_true le
    have bound := blockSize_le _ (List.mem_of_find?_eq_some found)
    refine ⟨_, rfl, blockSize.isLt, ?_⟩
    unfold arenaSize
    bv_omega
  have bound := size.isLt
  have count := toNat_pageCnt size
  unfold arenaSize at notNone
  have some : (size + BitVec.ofNat 32 arenaSize + 4096 - 1) / 4096 ≠ 0 := fun zero => by
    rw [zero] at count
    change 0 = _ at count
    omega
  refine ⟨_, if_pos ⟨some, trivial⟩, ?_⟩
  dsimp only [MallocBlock.usable]
  rw [count]
  unfold arenaSize
  omega

/-- A block has the bytes that were asked for, whatever memory is free, exactly if the size with
    the header fits into a word, and in `calloc` also if no block is returned because the product
    is less than a factor or leads to no page. -/
theorem allocated_blocks_suffice_iff (size a b : BitVec 32) :
    ((∀ free pages block, malloc free pages size = some block → size.toNat ≤ block.usable) ↔
      size.toNat + arenaSize ≤ 2 ^ 32) ∧
    ((∀ free pages block, calloc free pages a b = some block →
        a.toNat * b.toNat ≤ block.usable) ↔
      a.toNat * b.toNat + arenaSize ≤ 2 ^ 32 ∨ a * b < a ∨ a * b < b ∨ NoPages (a * b)) := by
  have product := BitVec.toNat_mul a b
  refine ⟨⟨fun enough => ?_, fun fits _ _ _ => malloc_size_le fits⟩, fun enough => ?_, ?_⟩
  · by_contra! wraps
    have nonzero : size ≠ 0 := by
      rintro rfl
      exact absurd wraps (by decide)
    obtain ⟨block, returned, -, less⟩ := malloc_of_pages nonzero fun noPages =>
      wraps.not_ge noPages.2
    exact (less wraps).not_ge (enough _ _ block returned)
  · by_contra wraps
    obtain ⟨tooLarge, wraps⟩ := not_or.mp wraps
    obtain ⟨notLessA, wraps⟩ := not_or.mp wraps
    obtain ⟨notLessB, notNone⟩ := not_or.mp wraps
    rw [not_le] at tooLarge
    have nonzero : a * b ≠ 0 := by
      intro zero
      have isZero : a = 0 := by simpa [zero] using notLessA
      subst isZero
      exact absurd tooLarge (by simp [arenaSize])
    obtain ⟨block, returned, small, less⟩ := malloc_of_pages nonzero notNone
    have returns : calloc (fun _ => false) (fun _ => true) a b = some block := by
      unfold calloc
      rw [if_neg (not_or.mpr ⟨notLessA, notLessB⟩)]
      exact returned
    have hasAll := enough _ _ block returns
    rw [product, Nat.mod_eq_of_lt (hasAll.trans_lt small)] at less
    exact (less tooLarge).not_ge hasAll
  · intro cond free pages block returned
    obtain ⟨notLess, returned⟩ := Option.ite_none_left_eq_some.mp returned
    rcases cond with fits | less | less | noPages
    · have unwrapped : (a * b).toNat = a.toNat * b.toNat := by
        rw [product, Nat.mod_eq_of_lt (by unfold arenaSize at fits; omega)]
      rw [← unwrapped] at fits ⊢
      exact malloc_size_le fits returned
    · exact absurd (.inl less) notLess
    · exact absurd (.inr less) notLess
    · cases (malloc_of_noPages noPages).symm.trans returned

/-- The largest size needs one page after the sum has wrapped around, and the product of
    `0x10001` by itself wraps around to a number that is not less. -/
theorem wrapped_sizes_too_small :
    (∃ block, malloc (fun _ => true) (fun _ => true) 0xffffffff = some block ∧
      block.usable < 0xffffffff) ∧
    ∃ block, calloc (fun _ => true) (fun _ => true) 0x10001 0x10001 = some block ∧
      block.usable < 0x10001 * 0x10001 :=
  ⟨⟨.ofPages 1, rfl, by decide⟩, ⟨.ofPages 33, rfl, by decide⟩⟩

end Pintos
