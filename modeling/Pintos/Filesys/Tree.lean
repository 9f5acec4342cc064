import Mathlib.Data.Nat.Count
import Pintos.Filesys.Directory
import Pintos.Filesys.Volume

/-!
# The directory tree

What directories are for, over a volume. The content of a directory is an array of
entries, a name leads from a directory to an inode, and a path leads through
several directories. `Tree` says that the directories of a volume form a tree with
the root directory as its root: every inode that is not removed is named once.
-/

namespace Pintos

/-! ## The entries of a directory -/

namespace FileBytes

variable (b : FileBytes)

/-- The number of whole entries. -/
def entryCnt : Nat := b.length / entrySize

/-- The bytes that a read of an entry returns. -/
def entryBytes (i : Nat) : EntryBytes := fun k => (b.read entrySize (entrySize * i)).getD k 0

/-- An entry. -/
def entry (i : Nat) : DirEntry := (b.entryBytes i).decode

/-- The first entry with a name. -/
def find (name : FileName) : Option Nat :=
  (List.range b.entryCnt).find? fun i => (b.entry i).isNamed name

/-- The first entry that is not in use, or the one after the last. -/
def freeSlot : Nat :=
  ((List.range b.entryCnt).find? fun i => !(b.entry i).inUse).getD b.entryCnt

/-- The number of entries in use. -/
def usedCnt : Nat := Nat.count (fun i => (b.entry i).inUse = true) b.entryCnt

/-- The array with an entry replaced. -/
def setEntry (i : Nat) (e : EntryBytes) : FileBytes := b.write e entrySize (entrySize * i)

end FileBytes

namespace Volume

variable (V : Volume)

/-- Entry `i` of the directory `d` is in use and names the inode `s`. -/
def Entry (d : BlockSector) (i : Nat) (s : BlockSector) : Prop :=
  ∃ n, V.node d = some n ∧ n.isDir = true ∧ i < n.content.entryCnt ∧
    (n.content.entry i).inUse = true ∧ (n.content.entry i).inodeSector = s

/-- The inodes that are reached from the root directory. -/
inductive InTree : BlockSector → Prop
  | root : InTree rootDirSector
  | child {d s : BlockSector} {i : Nat} (parent : InTree d) (entry : V.Entry d i s) : InTree s

/-- There is a directory at the sector. -/
def isDir (s : BlockSector) : Bool := (V.node s).any (·.isDir)

/-! ## Names and paths -/

/-- The inode to which a name leads from a directory. -/
def lookup (dir : BlockSector) (name : FileName) : Option BlockSector := do
  let n ← V.node dir
  if name = dotName then some dir
  else if name = dotDotName then some n.parent
  else (n.content.find name).map fun i => (n.content.entry i).inodeSector

/-- Follow the names of a path as long as they lead to directories: whether all did,
    and the last directory. -/
def walk : List FileName → BlockSector → Bool × BlockSector
  | [], dir => (true, dir)
  | token :: rest, dir =>
      match (V.lookup dir token).filter V.isDir with
      | none => (false, dir)
      | some next => walk rest next

/-! ## Open inodes -/

/-- The inode is not waiting to be deleted. -/
def Kept (s : BlockSector) : Prop := ∀ o, V.handle s = some o → o.removed = false

/-- Change the handle of an inode. -/
def setHandle (s : BlockSector) (o : Option Handle) : Volume := V.put s (V.node s) o

/-- The volume after `inode_open`. -/
def opened (s : BlockSector) : Volume := V.setHandle s (some (Handle.reopen (V.handle s)))

/-! ## Changing the tree -/

/-- A new inode `n'` at `s` is entered in the directory `d`. -/
def link (d : BlockSector) (n : Node) (e : EntryBytes) (s : BlockSector) (n' : Node) : Volume :=
  (V.put s (some n') none).put d
    (some { n with content := n.content.setEntry n.content.freeSlot e, fileCnt := n.fileCnt + 1 })
    (V.handle d)

/-- The directories of the volume are a tree that names every inode which is not
    removed, and each directory counts its entries. Writes to a directory are not denied. -/
structure Tree : Prop where
  root : ∃ n, V.node rootDirSector = some n ∧ n.isDir = true ∧ n.parent = rootDirSector
  target : ∀ {d i s}, V.Entry d i s → s ≠ rootDirSector ∧ V.Kept s ∧
    ∃ n, V.node s = some n ∧ (n.isDir = true → n.parent = d)
  once : ∀ {d d' i i' s}, V.Entry d i s → V.Entry d' i' s → d = d' ∧ i = i'
  named : ∀ {s n}, V.node s = some n → V.Kept s → V.InTree s
  removed : ∀ {s n}, V.node s = some n → n.isDir = true → V.Kept s
  counted : ∀ {d n}, V.node d = some n → n.isDir = true → n.fileCnt.toNat = n.content.usedCnt
  handles : ∀ {s o}, V.handle s = some o → (V.node s).isSome ∧ 1 ≤ o.openCnt ∧
    ∀ n, V.node s = some n → n.isDir = true → o.denyWriteCnt = 0

end Volume

end Pintos
