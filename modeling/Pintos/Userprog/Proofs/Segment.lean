import Pintos.Userprog.Segment

/-!
# Segments are loaded as they are described

The loop of `load_segment` in closed form, and the segments for which no operation overflows.
`load_segment` advances `ofs` for the pages of zeros too, so `ofs` overflows where the segment is
long, whatever the length of the file.
-/

namespace Pintos

open List BitVec ElfPhdr

variable {n turns length : Nat} {ofs upage readBytes zeroBytes : Int}

namespace Words

/-- No change to values of 32 bits. -/
structure Exact (m : Words) : Prop where
  word : ∀ {x}, 0 ≤ x → x < 2 ^ 32 → m.word x = .ok x
  off : ∀ {x}, -2 ^ 31 ≤ x → x < 2 ^ 31 → m.off x = .ok x

theorem checked_exact : checked.Exact := ⟨fun low high => if_pos ⟨low, high⟩,
  fun low high => if_pos ⟨low, high⟩⟩

theorem wrapping_exact : wrapping.Exact := ⟨fun low high => congrArg _ (Int.emod_eq_of_lt low high),
  fun low high => congrArg _ (int32_of_bounds low high)⟩

end Words

variable {m : Words}

/-! ## The loop -/

/-- Page `i` of a segment. -/
def segmentPage (ofs upage readBytes : Int) (i : Nat) : SegmentPage where
  ofs := ofs + 4096 * i
  upage := upage + 4096 * i
  readBytes := max 0 (min 4096 (readBytes - 4096 * i))
  zeroBytes := 4096 - max 0 (min 4096 (readBytes - 4096 * i))

theorem segmentPage_succ (ofs upage readBytes : Int) (i : Nat) :
    segmentPage ofs upage readBytes (i + 1) =
      segmentPage (ofs + 4096) (upage + 4096) (readBytes - min 4096 readBytes) i := by
  simp only [segmentPage, SegmentPage.mk.injEq]
  omega

theorem segmentLoop_succ (exact : m.Exact)
    (nonneg : 0 ≤ readBytes) (sum : readBytes + zeroBytes = 4096 * (n + 1))
    (within : readBytes ≤ 4096 * (n + 1)) (lowest : 0 ≤ upage)
    (highest : upage + 4096 * (n + 1) < 2 ^ 32) :
    segmentLoop m (turns + 1) ofs upage readBytes zeroBytes = (do
      let nextOfs ← m.off (ofs + 4096)
      let rest ← segmentLoop m turns nextOfs (upage + 4096) (readBytes - min 4096 readBytes)
        (zeroBytes - (4096 - min 4096 readBytes))
      .ok (segmentPage ofs upage readBytes 0 :: rest)) := by
  have read : (if readBytes < 4096 then readBytes else 4096) = min 4096 readBytes := by
    split <;> omega
  have page : segmentPage ofs upage readBytes 0 =
      ⟨ofs, upage, min 4096 readBytes, 4096 - min 4096 readBytes⟩ := by
    simp only [segmentPage, SegmentPage.mk.injEq]
    omega
  simp only [segmentLoop, read, page]
  rw [if_pos (by omega), exact.word (by omega) (by omega), exact.word (by omega) (by omega)]
  simp only [bind, Except.bind]
  rw [exact.word (by omega) (by omega), exact.word (by omega) (by omega)]

theorem segmentLoop_eq (exact : m.Exact)
    (enough : n < turns) (nonneg : 0 ≤ readBytes) (sum : readBytes + zeroBytes = 4096 * n)
    (within : readBytes ≤ 4096 * n) (low : 0 ≤ ofs) (high : ofs + 4096 * n < 2 ^ 31)
    (lowest : 0 ≤ upage) (highest : upage + 4096 * n < 2 ^ 32) :
    segmentLoop m turns ofs upage readBytes zeroBytes =
      .ok ((range n).map (segmentPage ofs upage readBytes)) := by
  induction n generalizing turns ofs upage readBytes zeroBytes with
  | zero =>
    cases turns with
    | zero => omega
    | succ turns => exact if_neg (by omega)
  | succ n ih =>
    cases turns with
    | zero => omega
    | succ turns =>
      rw [segmentLoop_succ exact nonneg sum within lowest highest, exact.off (by omega) (by omega)]
      simp only [bind, Except.bind]
      rw [ih (by omega) (by omega) (by omega) (by omega) (by omega) (by omega) (by omega)
        (by omega)]
      simp only [range_succ_eq_map, map_cons, map_map]
      congr 2
      exact map_congr_left fun i _ => (segmentPage_succ ..).symm

/-- Where the last offset is no `off_t`, a checked machine stops. -/
theorem segmentLoop_overflow
    (enough : n < turns) (nonneg : 0 ≤ readBytes) (sum : readBytes + zeroBytes = 4096 * n)
    (within : readBytes ≤ 4096 * n) (low : 0 ≤ ofs ∧ ofs < 2 ^ 31)
    (high : 2 ^ 31 ≤ ofs + 4096 * n) (lowest : 0 ≤ upage) (highest : upage + 4096 * n < 2 ^ 32) :
    segmentLoop .checked turns ofs upage readBytes zeroBytes = .error .overflow := by
  induction n generalizing turns ofs upage readBytes zeroBytes with
  | zero => omega
  | succ n ih =>
    cases turns with
    | zero => omega
    | succ turns =>
      rw [segmentLoop_succ Words.checked_exact nonneg sum within lowest highest]
      by_cases last : ofs + 4096 < 2 ^ 31
      · rw [Words.checked_exact.off (by omega) last]
        simp only [bind, Except.bind]
        rw [ih (by omega) (by omega) (by omega) (by omega) (by omega) (by omega) (by omega)
          (by omega)]
      · rw [show Words.checked.off (ofs + 4096) = _ from if_neg (by omega)]
        rfl

/-! ## The header -/

theorem toNat_pgMask (x : BitVec 32) : (x &&& pgMask).toNat = x.toNat % 4096 := by
  rw [toNat_and]
  exact Nat.and_two_pow_sub_one_eq_mod x.toNat 12

theorem toNat_not_pgMask (x : BitVec 32) : (x &&& ~~~pgMask).toNat = 4096 * (x.toNat / 4096) := by
  have split : x = (x &&& pgMask) + (x &&& ~~~pgMask) := by
    rw [BitVec.add_eq_or_of_and_eq_zero _ _ (by ext; simp; grind), ← BitVec.and_or_distrib_left,
      show pgMask ||| ~~~pgMask = BitVec.allOnes 32 by decide, BitVec.and_allOnes]
  have sum := congrArg BitVec.toNat split
  have le : (x &&& ~~~pgMask).toNat ≤ x.toNat := by
    rw [BitVec.toNat_and]
    exact Nat.and_le_left
  rw [BitVec.toNat_add, toNat_pgMask] at sum
  omega

variable {phdr : ElfPhdr} {b : FileBytes}

/-- The numbers of a header that `validate_segment` accepts. -/
theorem ElfPhdr.ValidateSegment.numbers (valid : phdr.ValidateSegment length) :
    phdr.offset.toNat % 4096 = phdr.vaddr.toNat % 4096 ∧ phdr.filesz.toNat ≤ phdr.memsz.toNat ∧
      0 < phdr.memsz.toNat ∧ phdr.vaddr.toNat + phdr.memsz.toNat < 0xc0000000 ∧
      4096 ≤ phdr.vaddr.toNat := by
  obtain ⟨same, -, le, nonempty, low, high, order, first⟩ := valid
  have same := congrArg BitVec.toNat same
  rw [toNat_pgMask, toNat_pgMask] at same
  unfold physBase at *
  refine ⟨same, ?_, ?_, ?_, ?_⟩ <;> bv_omega

/-- The number of pages of the segment. -/
def ElfPhdr.pageCount (phdr : ElfPhdr) : Nat :=
  (phdr.vaddr.toNat % 4096 + phdr.memsz.toNat + 4095) / 4096

/-- The exact value of `read_bytes`. -/
def ElfPhdr.bytesRead (phdr : ElfPhdr) : Nat :=
  if 0 < phdr.filesz.toNat then phdr.vaddr.toNat % 4096 + phdr.filesz.toNat else 0

/-- The pages that `load` registers, where no offset overflows. -/
def ElfPhdr.pages (phdr : ElfPhdr) : List SegmentPage :=
  (range phdr.pageCount).map (segmentPage (4096 * (phdr.offset.toNat / 4096) : Nat)
    (4096 * (phdr.vaddr.toNat / 4096) : Nat) phdr.bytesRead)

theorem ElfPhdr.pages_describe (valid : phdr.ValidateSegment b.length)
    (inFile : phdr.offset.toNat + phdr.filesz.toNat ≤ b.length) :
    DescribesSegment phdr b phdr.pages := by
  obtain ⟨same, le, nonempty, high, first⟩ := valid.numbers
  have base : physBase.toNat = 0xc0000000 := rfl
  constructor
  case upage =>
    simp only [pages, map_map, length_map, length_range]
    rfl
  case covers =>
    simp only [pages, pageCount, length_map, length_range]
    omega
  all_goals
    simp only [pages, pageCount, bytesRead, mem_map, mem_range, forall_exists_index,
      and_imp, forall_apply_eq_imp_iff₂, segmentPage]
  case user =>
    intro i inside
    omega
  case full => omega
  case reads =>
    intro i inside
    split <;> omega
  case bytes =>
    intro k small i inside j within isByte
    unfold SegmentPage.fill
    dsimp only
    by_cases isRead : k < phdr.filesz.toNat
    · rw [if_pos (by split <;> omega), if_pos isRead]
      congr 1
      omega
    · rw [if_neg (by split <;> omega), if_neg isRead]

theorem ElfPhdr.ValidateSegment.pages_below (valid : phdr.ValidateSegment length) :
    phdr.bytesRead ≤ 4096 * phdr.pageCount ∧
      4096 * (phdr.vaddr.toNat / 4096) + 4096 * phdr.pageCount ≤ 0xc0000000 := by
  obtain ⟨same, le, nonempty, high, first⟩ := valid.numbers
  unfold bytesRead pageCount
  split <;> omega

theorem roundUp_natCast (a b : Nat) : ((a : Int) + b + 4096 - 1) / 4096 * 4096 =
    4096 * ((a + b + 4095) / 4096 : Nat) := by
  omega

theorem segmentOf_loop (exact : m.Exact) (valid : phdr.ValidateSegment length)
    (turns : Nat) : segmentOf m turns phdr = (do
      let ofs ← m.off (phdr.offset &&& ~~~pgMask).toNat
      if ofs % 4096 = 0 then
        segmentLoop m turns ofs (4096 * (phdr.vaddr.toNat / 4096) : Nat) phdr.bytesRead
          (4096 * phdr.pageCount - phdr.bytesRead)
      else .error .assertion) := by
  obtain ⟨same, le, nonempty, high, first⟩ := valid.numbers
  have offset : phdr.pageOffset.toNat = phdr.vaddr.toNat % 4096 := toNat_pgMask _
  have size := valid.pages_below

  have read : (if 0 < phdr.filesz then m.word (phdr.pageOffset.toNat + phdr.filesz.toNat)
      else .ok 0) = .ok (phdr.bytesRead : Int) := by
    unfold ElfPhdr.bytesRead
    rw [offset]
    by_cases some : 0 < phdr.filesz
    · rw [if_pos some, if_pos (by bv_omega), exact.word (by omega) (by omega)]
      rfl
    · rw [if_neg some, if_neg (by bv_omega)]
      rfl
  simp only [segmentOf, roundUpPage]
  rw [exact.word (by omega) (by omega), read, offset, exact.word (by omega) (by omega)]
  simp only [bind, Except.bind]
  rw [exact.word (by omega) (by omega)]
  dsimp only
  rw [exact.word (by omega) (by omega)]
  dsimp only
  rw [roundUp_natCast, ← pageCount, exact.word (by omega) (by omega)]
  dsimp only
  rw [exact.word (by omega) (by omega)]
  dsimp only
  rw [exact.word (by omega) (by omega), toNat_not_pgMask phdr.vaddr]
  cases m.off (phdr.offset &&& ~~~pgMask).toNat with
  | error e => rfl
  | ok ofs =>
    by_cases aligned : ofs % 4096 = 0
    · exact (if_pos ⟨by omega, by omega, aligned⟩).trans (if_pos aligned).symm
    · exact (if_neg fun all => aligned all.2.2).trans (if_neg aligned).symm

/-- `load` in closed form. -/
theorem segmentOf_eq (exact : m.Exact) (valid : phdr.ValidateSegment length)
    (enough : phdr.pageCount < turns)
    (small : 4096 * (phdr.offset.toNat / 4096) + 4096 * phdr.pageCount < 2 ^ 31) :
    segmentOf m turns phdr = .ok phdr.pages := by
  have highest := valid.pages_below
  rw [segmentOf_loop exact valid, toNat_not_pgMask, exact.off (by omega) (by omega)]
  simp only [bind, Except.bind]
  rw [if_pos (by omega)]
  exact segmentLoop_eq exact enough (by omega) (by omega) (by omega) (by omega) (by omega)
    (by omega) (by omega)

/-- Where the offset after the last page is no `off_t`, a checked machine stops. -/
theorem segmentOf_overflow (valid : phdr.ValidateSegment length) (enough : phdr.pageCount < turns)
    (large : 2 ^ 31 ≤ 4096 * (phdr.offset.toNat / 4096) + 4096 * phdr.pageCount) :
    segmentOf .checked turns phdr = .error .overflow := by
  have highest := valid.pages_below
  rw [segmentOf_loop Words.checked_exact valid, toNat_not_pgMask]
  by_cases fits : 4096 * (phdr.offset.toNat / 4096) < 2 ^ 31
  · rw [Words.checked_exact.off (by omega) (by omega)]
    simp only [bind, Except.bind]
    rw [if_pos (by omega)]
    exact segmentLoop_overflow enough (by omega) (by omega) (by omega) (by omega) (by omega)
      (by omega) (by omega)
  · rw [show Words.checked.off _ = _ from if_neg (by omega)]
    rfl

/-- The call of `page_lazy_load` for a page. -/
def Vm.registerPage (vm : Vm) (t : ThreadId) (file : FileId) (writable : Bool)
    (page : SegmentPage) : Vm :=
  vm.pageLazyLoad t (segmentArgs file page.ofs.toNat (page.upage / 4096).toNat page.readBytes.toNat
    writable) .unalloc

/-- The loop of `load_segment` registers pages of this form. -/
theorem Vm.segmentPages_eq {t : ThreadId} {file : FileId} {writable : Bool}
    (turns ofs upage readBytes : Nat) (vm : Vm) :
    Vm.segmentPages t file writable turns ofs upage readBytes vm =
      ((range turns).map (segmentPage ofs (4096 * upage : Nat) readBytes)).foldl
        (·.registerPage t file writable) vm := by
  induction turns generalizing ofs upage readBytes vm with
  | zero => rfl
  | succ turns ih =>
    rw [Vm.segmentPages, ih, range_succ_eq_map, map_cons, foldl_cons, map_map]
    have first : segmentArgs file (ofs + 4096 * 0 : Int).toNat
        (((4096 * upage : Nat) + 4096 * 0 : Int) / 4096).toNat
        (max 0 (min 4096 (readBytes - 4096 * 0 : Int))).toNat writable =
          segmentArgs file ofs upage readBytes writable := by
      rw [show (ofs + 4096 * 0 : Int).toNat = ofs by omega,
        show (((4096 * upage : Nat) + 4096 * 0 : Int) / 4096).toNat = upage by omega,
        show (max 0 (min 4096 (readBytes - 4096 * 0 : Int))).toNat = min readBytes pgSize by
          unfold pgSize
          omega]
      simp only [segmentArgs, Nat.min_assoc, Nat.min_self]
    refine congrArg₂ _ (congrArg (vm.pageLazyLoad t · _) first.symm) ?_
    refine map_congr_left fun i _ => ?_
    have left : ((readBytes - min readBytes pgSize : Nat) : Int) =
        readBytes - min 4096 (readBytes : Int) := by
      unfold pgSize
      omega
    rw [left, show ((ofs + pgSize : Nat) : Int) = ofs + 4096 from rfl,
      show ((4096 * (upage + 1) : Nat) : Int) = (4096 * upage : Nat) + 4096 from rfl]
    exact (segmentPage_succ ..).symm

theorem ElfPhdr.ValidateSegment.readBytes_toNat
    (valid : phdr.ValidateSegment length) : phdr.readBytes.toNat = phdr.bytesRead := by
  obtain ⟨same, le, nonempty, high, first⟩ := valid.numbers
  have offset : phdr.pageOffset.toNat = phdr.vaddr.toNat % 4096 := toNat_pgMask _
  unfold readBytes bytesRead
  split <;> split <;> bv_omega

theorem ElfPhdr.ValidateSegment.pgRoundUp_toNat (valid : phdr.ValidateSegment length) :
    (pgRoundUp (phdr.pageOffset + phdr.memsz)).toNat = 4096 * phdr.pageCount := by
  obtain ⟨same, le, nonempty, high, first⟩ := valid.numbers
  have offset : phdr.pageOffset.toNat = phdr.vaddr.toNat % 4096 := toNat_pgMask _
  unfold pgRoundUp pageCount
  rw [toNat_mul, toNat_udiv, toNat_add, toNat_add, offset,
    show (4095 : BitVec 32).toNat = 4095 from rfl, show (4096 : BitVec 32).toNat = 4096 from rfl]
  omega

/-- `load_segment` registers the pages. -/
theorem Vm.loadSegment_eq (valid : phdr.ValidateSegment length) (vm : Vm)
    (t : ThreadId) (file : FileId) : vm.loadSegment t file phdr = .ok (phdr.pages.foldl
      (·.registerPage t file (phdr.flags &&& pfW ≠ 0)) vm) := by
  have sum : (phdr.readBytes + phdr.zeroBytes).toNat = 4096 * phdr.pageCount := by
    unfold zeroBytes
    rw [BitVec.add_comm, BitVec.sub_add_cancel, valid.pgRoundUp_toNat]
  unfold Vm.loadSegment
  dsimp only
  rw [sum, toNat_not_pgMask, toNat_not_pgMask, valid.readBytes_toNat, Vm.segmentPages_eq]
  unfold pgSize
  rw [if_pos (by omega), Nat.mul_div_cancel_left _ (by decide), Nat.mul_div_cancel_left _ (by decide)]
  rfl

/-- For every accepted header whose file has its bytes, no operation overflows and the pages that
    are registered are those of the segment, exactly if the offsets fit into an `off_t`. -/
theorem load_describes_segment_iff (valid : phdr.ValidateSegment b.length)
    (inFile : phdr.offset.toNat + phdr.filesz.toNat ≤ b.length) :
    (∃ pages, DescribesSegment phdr b pages ∧
      (∀ turns > pages.length, segmentOf .checked turns phdr = .ok pages ∧
        segmentOf .wrapping turns phdr = .ok pages) ∧
      ∀ (vm : Vm) t file, vm.loadSegment t file phdr =
        .ok (pages.foldl (·.registerPage t file (phdr.flags &&& ElfPhdr.pfW ≠ 0)) vm)) ↔
      (phdr.offset &&& ~~~pgMask).toNat +
        (pgRoundUp (phdr.pageOffset + phdr.memsz)).toNat < 2 ^ 31 := by
  have count : phdr.pages.length = phdr.pageCount := by simp [pages]
  rw [toNat_not_pgMask, valid.pgRoundUp_toNat]
  constructor
  · rintro ⟨pages, -, turns, -⟩
    by_contra! large
    have runs := (turns (pages.length + phdr.pageCount + 1) (by omega)).1
    rw [segmentOf_overflow valid (by omega) large] at runs
    cases runs
  · intro small
    refine ⟨phdr.pages, pages_describe valid inFile, fun turns enough => ?_,
      fun vm t file => Vm.loadSegment_eq valid vm t file⟩
    rw [count] at enough
    exact ⟨segmentOf_eq Words.checked_exact valid enough small,
      segmentOf_eq Words.wrapping_exact valid enough small⟩

/-- The header of a segment that ends in its second page. -/
def twoPages : ElfPhdr := ⟨ptLoad, 16, 0x1010, 0x1000, 0x1800, 5⟩

theorem load_describes_segment_iff_two :
    ∃ pages, pages.length = 2 ∧ DescribesSegment twoPages (.zeros 0x1010) pages := by
  obtain ⟨pages, describes, -⟩ := (load_describes_segment_iff (b := .zeros 0x1010)
    (show twoPages.ValidateSegment 0x1010 by decide) (by decide)).mpr (by decide)
  have covers : 1 + pages.length = 3 := describes.covers
  exact ⟨pages, by omega, describes⟩

/-- The header of an empty file whose segment of zeros has two gigabytes. -/
def longZeros : ElfPhdr := ⟨ptLoad, 0, 0x1000, 0, 0x80000000, 6⟩

theorem segment_offset_overflows : longZeros.ValidateSegment 0 ∧
    longZeros.offset.toNat + longZeros.filesz.toNat ≤ 0 ∧
    ∀ turns > 2 ^ 19, segmentOf .checked turns longZeros = .error .overflow := by
  have valid : longZeros.ValidateSegment 0 := by decide
  have count : longZeros.pageCount = 2 ^ 19 := by decide
  refine ⟨valid, by decide, fun turns enough => segmentOf_overflow valid (count ▸ enough) ?_⟩
  rw [count, show longZeros.offset.toNat = 0 by decide]
  omega

end Pintos
