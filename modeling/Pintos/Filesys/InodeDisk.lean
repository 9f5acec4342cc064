import Pintos.Devices.Block
import Pintos.Misc.Words

/-!
# On-disk inodes and index blocks

`struct inode_disk` and `struct indirect_block` of `src/filesys/inode.c` with
their 512 bytes on disk, and the `off_t` arithmetic of `inode.c`. `off_t` and
`int` are 32 bits wide: the model computes in the integers and wraps where an
operation of the source can leave the range.
-/

namespace Pintos

/-- `bytes_to_sectors` (`inode.c:55-59`), as the `int` value that both callers
    make of the result. -/
def bytesToSectors (size : Int) : Int := (int32 (size + 511)).tdiv 512

/-- Below the wrap of `size + 511` the count is the rounded-up quotient. -/
theorem bytesToSectors_of_bounds {size : Nat} (high : size ≤ 2 ^ 31 - 512) :
    bytesToSectors size = ((size + 511) / 512 : Nat) := by
  unfold bytesToSectors
  rw [int32_of_bounds (by omega) (by omega), Int.tdiv_eq_ediv_of_nonneg (by omega)]
  omega

/-- Near the end of `off_t` the number of sectors comes out negative. -/
theorem bytesToSectors_overflow {size : Nat} (low : 2 ^ 31 - 512 < size) (high : size < 2 ^ 31) :
    -2 ^ 22 ≤ bytesToSectors size ∧ bytesToSectors size < 0 := by
  have wrapped : int32 ((size : Int) + 511) = -((2 ^ 32 - 511 - size : Nat) : Int) := by
    unfold int32
    rw [Int.bmod_def]
    omega
  unfold bytesToSectors
  rw [wrapped, Int.neg_tdiv, Int.tdiv_eq_ediv_of_nonneg (by omega)]
  omega

/-- `INODE_MAGIC` (`inode.c:15`). -/
def inodeMagic : BitVec 32 := 0x494e4f44

/-- `FREE_MAP_SECTOR` (`filesys.h:8`). -/
def freeMapSector : BlockSector := 0

/-- `ROOT_DIR_SECTOR` (`filesys.h:9`). -/
def rootDirSector : BlockSector := 1

/-- `struct inode_disk` (`inode.c:26-40`) without the unused bytes, which are zero
    from `inode_create` on. -/
structure InodeDisk where
  isDir : BitVec 32
  fileCnt : BitVec 32
  length : BitVec 32
  parent : BlockSector
  direct : Fin 10 → BlockSector
  indirect : BlockSector
  doublyIndirect : BlockSector
  magic : BitVec 32

namespace InodeDisk

/-- The words of the inode in the order of the C structure. -/
def words (d : InodeDisk) (i : Nat) : BitVec 32 :=
  if i = 0 then d.isDir
  else if i = 1 then d.fileCnt
  else if i = 2 then d.length
  else if i = 3 then d.parent
  else if h : 4 ≤ i ∧ i < 14 then d.direct ⟨i - 4, by omega⟩
  else if i = 14 then d.indirect
  else if i = 15 then d.doublyIndirect
  else if i = 16 then d.magic
  else 0

/-- The bytes that `cache_write` stores. -/
def encode (d : InodeDisk) : Nat → Byte := bytesOf d.words

/-- The inode that `cache_read` leaves in memory. -/
def decode (b : Nat → Byte) : InodeDisk where
  isDir := wordAt b 0
  fileCnt := wordAt b 1
  length := wordAt b 2
  parent := wordAt b 3
  direct := fun i => wordAt b (4 + i)
  indirect := wordAt b 14
  doublyIndirect := wordAt b 15
  magic := wordAt b 16

theorem decode_encode (d : InodeDisk) : decode d.encode = d := by
  have slots : (fun i : Fin 10 => d.words (4 + i)) = d.direct := by
    funext i
    have range : 4 ≤ 4 + i.val ∧ 4 + i.val < 14 := by omega
    unfold words
    rw [if_neg (by omega), if_neg (by omega), if_neg (by omega), if_neg (by omega), dif_pos range]
    congr 1
    apply Fin.ext
    show 4 + i.val - 4 = i.val
    omega
  simp only [decode, encode, wordAt_bytesOf, slots]
  simp [words]

theorem decode_congr {b c : Nat → Byte} (same : ∀ k < blockSectorSize, b k = c k) :
    decode b = decode c := by
  have word : ∀ i < 128, wordAt b i = wordAt c i := fun i hi =>
    wordAt_congr fun k _ high => same k (by unfold blockSectorSize; omega)
  unfold decode
  have slots : (fun i : Fin 10 => wordAt b (4 + i)) = fun i : Fin 10 => wordAt c (4 + i) := by
    funext i
    exact word _ (by omega)
  rw [word 0 (by decide), word 1 (by decide), word 2 (by decide), word 3 (by decide), slots,
    word 14 (by decide), word 15 (by decide), word 16 (by decide)]

end InodeDisk

/-- `struct indirect_block` (`inode.c:19-22`). -/
abbrev IndirectBlock := Fin 128 → BlockSector

namespace IndirectBlock

/-- The bytes that `cache_write` stores. -/
def encode (ib : IndirectBlock) : Nat → Byte :=
  bytesOf fun i => if h : i < 128 then ib ⟨i, h⟩ else 0

/-- The block that `cache_read` leaves in memory. -/
def decode (b : Nat → Byte) : IndirectBlock := fun i => wordAt b i

theorem decode_encode (ib : IndirectBlock) : decode ib.encode = ib := by
  funext i
  simp [decode, encode, wordAt_bytesOf]

theorem decode_congr {b c : Nat → Byte} (same : ∀ k < blockSectorSize, b k = c k) :
    decode b = decode c := by
  funext i
  exact wordAt_congr fun k _ high => same k (by unfold blockSectorSize; omega)

/-- An index block fills its sector: reading it and writing it back is no change. -/
theorem encode_decode (b : Nat → Byte) {k : Nat} (hk : k < blockSectorSize) :
    encode (decode b) k = b k := by
  have low : k / 4 < 128 := by unfold blockSectorSize at hk; omega
  rw [← bytesOf_wordAt b k]
  simp only [encode, decode, bytesOf, low, dite_true]

end IndirectBlock

end Pintos
