import Pintos.Devices.Block

/-!
# Volumes

What inodes are for, without sectors, caches and index blocks. An inode is a byte
array with a few attributes, and a volume is a map from inode numbers (the sectors
of the inodes) to inodes, together with the inodes that are open. The model of
`inode.c` refines it.
-/

namespace Pintos

open Function

/-- A byte array; the bytes after its end read as zero. -/
@[ext]
structure FileBytes where
  length : Nat
  byte : Nat → Byte
  zero : ∀ k, length ≤ k → byte k = 0

namespace FileBytes

/-- The array of `length` zeros. -/
def zeros (length : Nat) : FileBytes := ⟨length, fun _ => 0, fun _ _ => rfl⟩

/-- At most `size` bytes from `offset` on. -/
def read (b : FileBytes) (size offset : Nat) : List Byte :=
  (List.range (min size (b.length - offset))).map fun k => b.byte (offset + k)

/-- The array with the first `size` bytes of `buffer` at `offset`. It gets longer where
    they do not fit; a gap before `offset` is filled with zeros. -/
def write (b : FileBytes) (buffer : Nat → Byte) (size offset : Nat) : FileBytes where
  length := max b.length (offset + size)
  byte := fun k => if offset ≤ k ∧ k < offset + size then buffer (k - offset) else b.byte k
  zero := by
    intro k after
    rw [if_neg (by omega)]
    exact b.zero k (by omega)

@[simp] theorem write_length (b : FileBytes) (buffer : Nat → Byte) (size offset : Nat) :
    (b.write buffer size offset).length = max b.length (offset + size) := rfl

theorem write_byte (b : FileBytes) (buffer : Nat → Byte) (size offset k : Nat) :
    (b.write buffer size offset).byte k =
      if offset ≤ k ∧ k < offset + size then buffer (k - offset) else b.byte k := rfl

/-- The array made longer with zeros. -/
def extend (b : FileBytes) (length : Nat) : FileBytes where
  length := max b.length length
  byte := b.byte
  zero := fun k after => b.zero k (by omega)

/-- Writing past the end is extending the array and then writing inside it. -/
theorem extend_write (b : FileBytes) (buffer : Nat → Byte) (size offset : Nat) :
    (b.extend (offset + size)).write buffer size offset = b.write buffer size offset := by
  apply FileBytes.ext
  · show max (max b.length (offset + size)) (offset + size) = max b.length (offset + size)
    omega
  · rfl

theorem write_append (b : FileBytes) (buffer : Nat → Byte) (done more offset : Nat) :
    (b.write buffer done offset).write (fun k => buffer (done + k)) more (offset + done) =
      b.write buffer (done + more) offset := by
  apply FileBytes.ext
  · show max (max b.length (offset + done)) (offset + done + more) =
      max b.length (offset + (done + more))
    omega
  funext k
  simp only [write_byte]
  by_cases second : offset + done ≤ k ∧ k < offset + done + more
  · rw [if_pos second, if_pos (by omega)]
    congr 1
    omega
  rw [if_neg second]
  by_cases first : offset ≤ k ∧ k < offset + done
  · rw [if_pos first, if_pos (by omega)]
  · rw [if_neg first, if_neg (by omega)]

theorem length_read (b : FileBytes) (size offset : Nat) :
    (b.read size offset).length = min size (b.length - offset) := by
  simp [read]

end FileBytes

/-- An inode as its users see it. -/
@[ext]
structure Node where
  isDir : Bool
  fileCnt : BitVec 32
  parent : BlockSector
  content : FileBytes

/-- The inode that `inode_create` makes. -/
def Node.new (isDir : Bool) (parent : BlockSector) (length : Nat) : Node where
  isDir := isDir
  fileCnt := 0
  parent := parent
  content := .zeros length

/-- An open inode as its users see it. -/
structure Handle where
  openCnt : Int
  removed : Bool
  denyWriteCnt : Int
  deriving DecidableEq

/-- The handle that the first `inode_open` of an inode makes. -/
def Handle.first : Handle := { openCnt := 1, removed := false, denyWriteCnt := 0 }

/-- The handle of an inode after `inode_open`. -/
def Handle.reopen : Option Handle → Handle
  | none => Handle.first
  | some o => { o with openCnt := o.openCnt + 1 }

/-- The inode after `inode_close`: a removed inode goes with its last handle. -/
def Node.close (n : Node) (o : Handle) : Option Node :=
  if o.openCnt - 1 = 0 ∧ o.removed = true then none else some n

/-- The handle after `inode_close`. -/
def Handle.close (o : Handle) : Option Handle :=
  if o.openCnt - 1 = 0 then none else some { o with openCnt := o.openCnt - 1 }

/-- The inodes of a file system, and those of them that are open. -/
@[ext]
structure Volume where
  node : BlockSector → Option Node
  handle : BlockSector → Option Handle

namespace Volume

/-- The volume without inodes. -/
def empty : Volume := ⟨fun _ => none, fun _ => none⟩

/-- Replace what the volume has at one sector. -/
def put (V : Volume) (s : BlockSector) (n : Option Node) (o : Option Handle) : Volume :=
  ⟨update V.node s n, update V.handle s o⟩

variable {V : Volume} {s t : BlockSector} {n n' : Option Node} {o o' : Option Handle}

@[grind =] theorem put_node : (V.put s n o).node t = if t = s then n else V.node t :=
  update_apply ..

@[grind =] theorem put_handle : (V.put s n o).handle t = if t = s then o else V.handle t :=
  update_apply ..

@[simp] theorem put_node_self : (V.put s n o).node s = n := update_self ..

@[simp] theorem put_handle_self : (V.put s n o).handle s = o := update_self ..

theorem put_node_of_ne (ne : t ≠ s) : (V.put s n o).node t = V.node t :=
  update_of_ne ne ..

theorem put_handle_of_ne (ne : t ≠ s) : (V.put s n o).handle t = V.handle t :=
  update_of_ne ne ..

@[simp] theorem put_put : (V.put s n o).put s n' o' = V.put s n' o' := by
  simp [put]

theorem put_self : V.put s (V.node s) (V.handle s) = V := by
  simp [put]

theorem put_of_eq (node : V.node s = n) (handle : V.handle s = o) : V.put s n o = V := by
  rw [← node, ← handle, put_self]

end Volume

end Pintos
