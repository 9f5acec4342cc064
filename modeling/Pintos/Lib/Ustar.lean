import Pintos.Devices.Block
import Mathlib.Data.List.GetD
import Mathlib.Data.List.TakeWhile
import Mathlib.Algebra.Order.BigOperators.Group.List
import Mathlib.Algebra.Order.Ring.Nat

/-!
# Archive headers

Model of `src/lib/ustar.c`. A header has the 512 bytes of a sector. `snprintf` is taken to print a
number with as many octal digits as the conversion asks for.
-/

namespace Pintos

open List SectorData

/-- The bytes of a string literal. -/
def ascii (s : List Char) : List Byte := s.map fun c => .ofNat 8 c.toNat

/-- The types of `enum ustar_type` that a header can have. -/
inductive UstarType
  | regular
  | directory
  deriving DecidableEq

def UstarType.byte : UstarType → Byte
  | regular => 0x30
  | directory => 0x35

/-- What `"%0no"` prints. -/
def octal : Nat → Nat → List Byte
  | 0, _ => []
  | n + 1, value => octal n (value / 8) ++ [.ofNat 8 (0x30 + value % 8)]

/-- `calculate_chksum` (`ustar.c:35-53`), in `unsigned int`. -/
def calculateChksum (h : SectorData) : Nat :=
  ((List.range blockSectorSize).map fun i =>
    if 148 ≤ i ∧ i < 156 then 0x20 else (h.byte i).toNat).sum % 2 ^ 32

def IsAntisocial (name : List Byte) : Prop :=
  ascii ['/'] <+: name ∨ ascii ['.', '/'] <+: name ∨ ascii ['.', '.', '/'] <+: name

instance (name : List Byte) : Decidable (IsAntisocial name) := inferInstanceAs (Decidable (_ ∨ _))

/-- The loop of `strip_antisocial_prefixes`; `strchr` finds the slash of the prefix. -/
def stripPrefixes (name : List Byte) : List Byte :=
  if IsAntisocial name then stripPrefixes (name.dropWhile (· ≠ 0x2f)).tail else name
termination_by name.length
decreasing_by
  rename_i antisocial
  have some : name ≠ [] := by
    rintro rfl
    exact absurd antisocial (by decide)
  have shorter := (dropWhile_suffix (fun c => decide (c ≠ 0x2f)) (l := name)).length_le
  have := length_pos_iff.mpr some
  simp only [length_tail]
  omega

/-- `strip_antisocial_prefixes` (`ustar.c:64-71`). -/
def stripAntisocialPrefixes (fileName : List Byte) : List Byte :=
  let name := stripPrefixes fileName
  if name = [] ∨ name = ascii ['.', '.'] then ascii ['.'] else name

/-- `memcpy` of a string into the header. -/
def SectorData.put (h : SectorData) (offset : Nat) (s : List Byte) : SectorData :=
  h.copyIn offset s.length fun k => s.getD k 0

/-- The header without the checksum (`ustar.c:97-110`). -/
def fillHeader (fileName : List Byte) (type : UstarType) (size : BitVec 32) : SectorData :=
  let h : SectorData := fun _ => 0
  let h := h.put 0 (fileName ++ [0])
  let h := h.put 100 (octal 7 (if type = .regular then 0o644 else 0o755) ++ [0])
  let h := h.put 108 (octal 7 0 ++ [0])
  let h := h.put 116 (octal 7 0 ++ [0])
  let h := h.put 124 (octal 11 size.toNat ++ [0])
  let h := h.put 136 (octal 11 1136102400 ++ [0])
  let h := h.put 156 [type.byte]
  let h := h.put 257 (ascii ['u', 's', 't', 'a', 'r'] ++ [0])
  let h := h.put 263 (ascii ['0', '0'])
  let h := h.put 297 (ascii ['r', 'o', 'o', 't'] ++ [0])
  h.put 265 (ascii ['r', 'o', 'o', 't'] ++ [0])

/-- `ustar_make_header` (`ustar.c:80-116`); `none` if it returns false. -/
def ustarMakeHeader (fileName : List Byte) (type : UstarType) (size : BitVec 32) :
    Option SectorData :=
  let fileName := stripAntisocialPrefixes fileName
  if 99 < fileName.length then none
  else
    let h := fillHeader fileName type size
    some (h.put 148 (octal 7 (calculateChksum h) ++ [0]))

/-- `parse_octal_field` (`ustar.c:127-158`) from `ofs` on, where `*value` is `value`. -/
def parseOctalField (ofs value : Nat) : List Byte → Option Nat
  | [] => none
  | c :: rest =>
      if 0x30 ≤ c ∧ c ≤ 0x37 then
        if (2 ^ 32 - 1) / 8 < value then none
        else parseOctalField (ofs + 1) (c.toNat - 0x30 + value * 8) rest
      else if c = 0x20 ∨ c = 0 then if 0 < ofs then some value else none
      else none

/-- `ustar_parse_header` (`ustar.c:177-225`): the message, or the name, the type and the size;
    `.ok none` at the end of an archive. -/
def ustarParseHeader (h : SectorData) : Except String (Option (List Byte × UstarType × Nat)) :=
  if ∀ i, h i = 0 then .ok none
  else if h.copyOut 257 6 ≠ ascii ['u', 's', 't', 'a', 'r'] ++ [0] then
    .error "not a ustar archive"
  else if h.copyOut 263 2 ≠ ascii ['0', '0'] then .error "invalid ustar version"
  else match parseOctalField 0 0 (h.copyOut 148 8) with
    | none => .error "corrupt chksum field"
    | some chksum =>
      if chksum ≠ calculateChksum h then .error "checksum mismatch"
      else if h.byte 99 ≠ 0 ∨ h.byte 345 ≠ 0 then .error "file name too long"
      else
        let fileName := stripAntisocialPrefixes ((h.copyOut 0 100).takeWhile (· ≠ 0))
        if h.byte 156 = UstarType.regular.byte then
          match parseOctalField 0 0 (h.copyOut 124 12) with
          | none => .error "corrupt file size field"
          | some size =>
            if 2 ^ 31 - 1 < size then .error "file too large"
            else .ok (some (fileName, .regular, size))
        else if h.byte 156 = UstarType.directory.byte then .ok (some (fileName, .directory, 0))
        else .error "unimplemented file type"

/-! ## Names -/

theorem stripPrefixes_spec (name : List Byte) : ¬IsAntisocial (stripPrefixes name) ∧
    stripPrefixes name <:+ name := by
  fun_induction stripPrefixes name with
  | case1 name antisocial ih =>
    exact ⟨ih.1, ih.2.trans ((tail_suffix _).trans (dropWhile_suffix _))⟩
  | case2 name social => exact ⟨social, suffix_refl _⟩

theorem stripAntisocialPrefixes_spec (name : List Byte) :
    ¬IsAntisocial (stripAntisocialPrefixes name) ∧
      stripAntisocialPrefixes (stripAntisocialPrefixes name) = stripAntisocialPrefixes name := by
  have social := (stripPrefixes_spec name).1
  unfold stripAntisocialPrefixes
  dsimp only
  generalize stripPrefixes name = stripped at social ⊢
  split
  · have dot : ¬IsAntisocial (ascii ['.']) := by decide
    rw [stripPrefixes, if_neg dot]
    exact ⟨dot, rfl⟩
  rename_i named
  rw [stripPrefixes, if_neg social, if_neg named]
  exact ⟨social, rfl⟩

/-! ## Fields -/

@[simp] theorem length_octal (n value : Nat) : (octal n value).length = n := by
  induction n generalizing value with
  | zero => rfl
  | succ n ih => simp [octal, ih]

theorem parseOctalField_octal {n value ofs acc : Nat} (rest : List Byte) (small : value < 8 ^ n)
    (fits : acc * 8 ^ n + value < 2 ^ 32) :
    parseOctalField ofs acc (octal n value ++ rest) =
      parseOctalField (ofs + n) (acc * 8 ^ n + value) rest := by
  induction n generalizing value rest with
  | zero =>
    obtain rfl : value = 0 := by simpa using small
    simp [octal]
  | succ n ih =>
    have digit : (BitVec.ofNat 8 (0x30 + value % 8)).toNat = 0x30 + value % 8 := by
      rw [BitVec.toNat_ofNat]
      omega
    have isDigit : (0x30 : Byte) ≤ .ofNat 8 (0x30 + value % 8) ∧
        BitVec.ofNat 8 (0x30 + value % 8) ≤ (0x37 : Byte) := by
      rw [BitVec.le_def, BitVec.le_def, digit]
      have := Nat.mod_lt value (show 8 > 0 by decide)
      exact ⟨Nat.le_add_right .., Nat.add_le_add_left (Nat.le_of_lt_succ this) 0x30⟩
    rw [Nat.pow_succ, ← Nat.mul_assoc] at *
    rw [octal, append_assoc, ih _ (by omega) (by omega), singleton_append, parseOctalField,
      if_pos isDigit, if_neg (by omega), digit]
    congr 1
    omega

/-- A field with `n` digits and the null byte after them. -/
theorem parseOctalField_field {n value : Nat} (pos : 0 < n) (small : value < 8 ^ n)
    (fits : value < 2 ^ 32) : parseOctalField 0 0 (octal n value ++ [0]) = some value := by
  rw [parseOctalField_octal [0] small (by omega)]
  simp [parseOctalField, pos]

namespace SectorData

variable (h : SectorData) {offset start n i : Nat} {s : List Byte}

theorem byte_put (inside : i < 512) : (h.put offset s).byte i =
    if offset ≤ i ∧ i < offset + s.length then s.getD (i - offset) 0 else h.byte i :=
  byte_copyIn h offset s.length _ inside

@[simp] theorem byte_put_apart (inside : i < 512)
    (apart : i < offset ∨ offset + s.length ≤ i) : (h.put offset s).byte i = h.byte i := by
  rw [byte_put h inside, if_neg (by omega)]

@[simp] theorem copyOut_put (len : s.length = n) (inside : offset + n ≤ 512) :
    (h.put offset s).copyOut offset n = s := by
  subst len
  apply ext_getElem (by simp [copyOut])
  intro k low high
  simp [copyOut, byte_put h (show offset + k < 512 by omega), high]

@[simp] theorem copyOut_put_apart (inside : start + n ≤ 512)
    (apart : start + n ≤ offset ∨ offset + s.length ≤ start) :
    (h.put offset s).copyOut start n = h.copyOut start n := by
  refine map_congr_left fun k mem => ?_
  have := mem_range.mp mem
  exact byte_put_apart h (by omega) (by omega)

theorem copyOut_add (m : Nat) :
    h.copyOut start (n + m) = h.copyOut start n ++ h.copyOut (start + n) m := by
  simp [copyOut, range_add, Nat.add_assoc]

/-- The checksum does not depend on its own field. -/
theorem calculateChksum_put (len : s.length = 8) :
    calculateChksum (h.put 148 s) = calculateChksum h := by
  unfold calculateChksum
  rw [map_congr_left fun i mem => ?_]
  have inside := mem_range.mp mem
  split
  · rfl
  · rw [byte_put_apart h inside (by omega)]

end SectorData

theorem calculateChksum_lt (h : SectorData) : calculateChksum h < 8 ^ 7 := by
  have bound : ((List.range blockSectorSize).map fun i =>
      if 148 ≤ i ∧ i < 156 then 0x20 else (h.byte i).toNat).sum ≤ 512 * 255 := by
    refine (sum_le_card_nsmul _ 255 fun x mem => ?_).trans_eq (by rw [length_map, length_range]; rfl)
    obtain ⟨i, -, rfl⟩ := mem_map.mp mem
    have := (h.byte i).isLt
    split <;> omega
  exact (Nat.mod_le ..).trans_lt (bound.trans_lt (by decide))

section

variable (name : List Byte) {chksum : List Byte} (len : chksum.length = 8) (type : UstarType)
  (size : BitVec 32)
include len

/-- The fields of a header are where they were put. -/
theorem header_fields : let h := (fillHeader name type size).put 148 chksum
    h.copyOut 257 6 = ascii ['u', 's', 't', 'a', 'r'] ++ [0] ∧ h.copyOut 263 2 = ascii ['0', '0'] ∧
      h.copyOut 148 8 = chksum ∧ h.byte 156 = type.byte ∧
      h.copyOut 124 12 = octal 11 size.toNat ++ [0] := by
  refine ⟨?_, ?_, ?_, ?_, ?_⟩ <;> simp [fillHeader, ascii, len, byte_put]

/-- The name ends with the null byte that was put after it. -/
theorem header_name (isString : 0 ∉ name) (short : name.length ≤ 99) :
    let h := (fillHeader name type size).put 148 chksum
    h.byte 99 = 0 ∧ h.byte 345 = 0 ∧ (h.copyOut 0 100).takeWhile (· ≠ 0) = name := by
  have after {i : Nat} (low : name.length ≤ i) (inside : i < 512) :
      (put (fun _ => 0) 0 (name ++ [0])).byte i = 0 := by
    rw [byte_put _ inside, Nat.sub_zero, getD_append_right _ _ _ _ low]
    simp [byte]
  refine ⟨?_, ?_, ?_⟩
  · simpa [fillHeader, ascii] using after short (by decide)
  · simpa [fillHeader, ascii, len] using after (i := 345) (by omega) (by decide)
  have field : ((fillHeader name type size).put 148 chksum).copyOut 0 100 =
      (put (fun _ => 0) 0 (name ++ [0])).copyOut 0 100 := by
    simp [fillHeader, ascii]
  rw [field, show 100 = name.length + 1 + (99 - name.length) by omega, copyOut_add,
    copyOut_put _ (by simp) (by omega), append_assoc,
    takeWhile_append_of_pos fun c mem => by simpa using ne_of_mem_of_not_mem mem isString]
  simp

end

/-- What `ustar_parse_header` reads. -/
theorem ustar_header_round_trip {fileName : List Byte} (isString : 0 ∉ fileName) (type : UstarType)
    {size : BitVec 32} (nonneg : 0 ≤ size.toInt) {header : SectorData}
    (made : ustarMakeHeader fileName type size = some header) :
    ustarParseHeader header = .ok (some (stripAntisocialPrefixes fileName, type,
      if type = .regular then size.toNat else 0)) ∧
    ¬IsAntisocial (stripAntisocialPrefixes fileName) ∧
    stripAntisocialPrefixes (stripAntisocialPrefixes fileName) =
      stripAntisocialPrefixes fileName := by
  obtain ⟨social, idem⟩ := stripAntisocialPrefixes_spec fileName
  refine ⟨?_, social, idem⟩
  unfold ustarMakeHeader at made
  dsimp only at made
  have isString : 0 ∉ stripAntisocialPrefixes fileName := by
    unfold stripAntisocialPrefixes
    dsimp only
    split
    · decide
    · exact fun mem => isString ((stripPrefixes_spec fileName).2.subset mem)
  generalize stripAntisocialPrefixes fileName = name at made idem isString ⊢
  split at made
  · cases made
  rename_i short
  obtain rfl := Option.some.inj made
  have len : (octal 7 (calculateChksum (fillHeader name type size)) ++ [0]).length = 8 := by simp
  obtain ⟨magic, version, chksum, typeflag, sizeField⟩ := header_fields name len type size
  obtain ⟨ends, noPrefix, isName⟩ := header_name name len type size isString (by omega)
  have same := calculateChksum_put (fillHeader name type size) len
  generalize (fillHeader name type size).put 148 _ = header at *
  have notZero : ¬∀ i, header i = 0 := by
    intro all
    rw [funext all] at magic
    exact absurd magic (by decide)
  have sum := calculateChksum_lt (fillHeader name type size)
  unfold ustarParseHeader
  rw [if_neg notZero, if_neg (not_not.mpr magic), if_neg (not_not.mpr version), chksum,
    parseOctalField_field (by decide) sum (sum.trans (by decide))]
  simp only [same, ends, noPrefix, isName, idem, typeflag, sizeField, ne_eq, not_true_eq_false,
    or_self, if_false]
  cases type with
  | regular =>
    have small : size.toNat < 2 ^ 31 := by
      have := BitVec.toInt_eq_toNat_cond size
      have := size.isLt
      omega
    have size11 := parseOctalField_field (n := 11) (by decide) (size.isLt.trans (by decide)) size.isLt
    simp only [size11, if_true]
    rw [if_neg (by omega)]
  | directory => rfl

theorem ustar_header_round_trip_file : ∃ header,
    ustarMakeHeader (ascii ['a']) .regular 5 = some header ∧
      ustarParseHeader header = .ok (some (ascii ['a'], .regular, 5)) := by
  have strip : stripAntisocialPrefixes (ascii ['a']) = ascii ['a'] := by
    unfold stripAntisocialPrefixes
    rw [stripPrefixes, if_neg (by decide)]
    rfl
  obtain ⟨header, made⟩ : ∃ header, ustarMakeHeader (ascii ['a']) .regular 5 = some header := by
    rw [ustarMakeHeader, strip]
    exact ⟨_, rfl⟩
  have parsed := (ustar_header_round_trip (by decide) .regular (by decide) made).1
  rw [strip] at parsed
  exact ⟨header, made, parsed⟩

end Pintos
