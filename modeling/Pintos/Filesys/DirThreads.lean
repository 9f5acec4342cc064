import Pintos.Filesys.DirEntry
import Pintos.Misc.EventLog

/-!
# Concurrent changes of one directory

`dir_add` and `dir_remove` (`src/filesys/directory.c:218-309`) of several threads
on one directory. The lock of the directory's inode is held only within each call
of the inode layer, so other threads run between the reads of a scan and between
the scan and the write of the slot it chose.

The directory is the list of its slots. What the other inodes decide (whether an
entry's inode may be removed, whether there is room for another sector) is part of
the step. A failed growth of a directory of more than ten sectors frees its index
blocks (`inode.c:346-348`, `378-380`), and only the direct sectors can be read then.
-/

namespace Pintos

/-- Where a thread is in `dir_add` or `dir_remove`; `slot` is the offset of the
    next read or write, in entries. -/
inductive DirPhase where
  | idle
  /-- The loop of `lookup`, called by `dir_add`. -/
  | addLookup (name : FileName) (sector : BlockSector) (slot : Nat)
  /-- The search for a free slot. -/
  | addScan (name : FileName) (sector : BlockSector) (slot : Nat)
  | addWrite (name : FileName) (sector : BlockSector) (slot : Nat)
  /-- Before `inode_update_file_cnt (…, 1)`. -/
  | addCount
  /-- The loop of `lookup`, called by `dir_remove`. -/
  | removeLookup (name : FileName) (slot : Nat)
  /-- `lookup` has returned `e`; its inode is opened and tested. -/
  | removeCheck (e : DirEntry) (slot : Nat)
  | removeWrite (e : DirEntry) (slot : Nat)
  /-- Before `inode_remove`. -/
  | removeInode (sector : BlockSector)
  /-- Before `inode_update_file_cnt (…, -1)`. -/
  | removeCount
  deriving DecidableEq

/-- A write that makes `dir_add` or `dir_remove` return true. -/
inductive DirEvent where
  | added (name : FileName)
  | removed (name : FileName)
  deriving DecidableEq

def DirEvent.adds (name : FileName) : DirEvent → Bool
  | .added n => n == name
  | .removed _ => false

def DirEvent.removes (name : FileName) : DirEvent → Bool
  | .added _ => false
  | .removed n => n == name

/-- The directory, the inodes removed from it, its threads and the log of their
    successful writes, newest first. -/
structure DirThreads (Tid : Type) where
  entries : List DirEntry
  /-- A failed growth has freed the index blocks of the inode. -/
  cut : Bool
  fileCnt : Int
  inumber : BlockSector
  parent : BlockSector
  removedInodes : List BlockSector
  phase : Tid → DirPhase
  log : List DirEvent

inductive DirStep (Tid : Type) where
  | add (t : Tid) (name : FileName) (sector : BlockSector)
  | remove (t : Tid) (name : FileName)
  /-- The next step of a call. `ok` is the outcome of what is decided elsewhere:
      the allocation when a write needs another sector, the tests of the inode that
      `dir_remove` is to remove. -/
  | run (t : Tid) (ok : Bool)

namespace DirThreads

variable {Tid : Type} [DecidableEq Tid]

/-- `inode_write_at` of one entry; an extending write fills a gap with zeros. -/
def writeSlot (entries : List DirEntry) (slot : Nat) (e : DirEntry) : List DirEntry :=
  if slot < entries.length then entries.set slot e
  else entries ++ List.replicate (slot - entries.length) .zero ++ [e]

/-- The sectors of a directory of `slots` entries of 36 bytes. -/
def sectorsOf (slots : Nat) : Nat := (slots * 36 + 511) / 512

/-- The entries that lie in the ten direct sectors. -/
def directSlots : Nat := 10 * 512 / 36

/-- The slots that `inode_read_at` returns whole. -/
def readable (s : DirThreads Tid) : List DirEntry :=
  if s.cut then s.entries.take directSlots else s.entries

/-- The write is in place, or it extends the directory and `inode_grow_unlocked`
    returns true. -/
def canWrite (s : DirThreads Tid) (slot : Nat) (ok : Bool) : Bool :=
  slot < s.entries.length || sectorsOf (slot + 1) ≤ sectorsOf s.entries.length || ok

/-- `inode_write_at` of one entry, and whether it was written. The assertion of its
    loop (`inode.c:706`) stops the kernel at a sector whose index block was freed; a
    growth does not bring the sector of this slot back, as it fills the index blocks
    from their start. -/
def writeAt (s : DirThreads Tid) (slot : Nat) (e : DirEntry) (ok : Bool) :
    Option (DirThreads Tid × Bool) :=
  if s.canWrite slot ok then
    if s.cut ∧ directSlots ≤ slot then none
    else some ({ s with entries := writeSlot s.entries slot e }, true)
  else some ({ s with cut := s.cut || directSlots < s.entries.length }, false)

def goto (s : DirThreads Tid) (t : Tid) (phase : DirPhase) : DirThreads Tid :=
  { s with phase := Function.update s.phase t phase }

/-- The next step of the call that `t` is in. -/
def runPhase (s : DirThreads Tid) (t : Tid) (ok : Bool) : Option (DirThreads Tid) :=
  match s.phase t with
  | .idle => none
  | .addLookup name sector slot =>
      match s.readable[slot]? with
      | none => some (s.goto t (.addScan name sector 0))
      | some e =>
          if e.isNamed name then some (s.goto t .idle)
          else some (s.goto t (.addLookup name sector (slot + 1)))
  | .addScan name sector slot =>
      match s.readable[slot]? with
      | none => some (s.goto t (.addWrite name sector slot))
      | some e =>
          if e.inUse then some (s.goto t (.addScan name sector (slot + 1)))
          else some (s.goto t (.addWrite name sector slot))
  | .addWrite name sector slot =>
      (s.writeAt slot { inodeSector := sector, name, inUse := true } ok).map fun (s, written) =>
        if written then { s.goto t .addCount with log := .added name :: s.log }
        else s.goto t .addCount
  | .addCount => some { s.goto t .idle with fileCnt := s.fileCnt + 1 }
  | .removeLookup name slot =>
      if name = dotName then some (s.goto t (.removeCheck ⟨s.inumber, name, true⟩ 0))
      else if name = dotDotName then some (s.goto t (.removeCheck ⟨s.parent, name, true⟩ 0))
      else
        match s.readable[slot]? with
        | none => some (s.goto t .idle)
        | some e =>
            if e.isNamed name then some (s.goto t (.removeCheck e slot))
            else some (s.goto t (.removeLookup name (slot + 1)))
  | .removeCheck e slot =>
      -- The directory itself is open more than once here, and is not removed.
      if ok ∧ e.inodeSector ≠ s.inumber then some (s.goto t (.removeWrite e slot))
      else some (s.goto t .idle)
  | .removeWrite e slot =>
      (s.writeAt slot { e with inUse := false } ok).map fun (s, written) =>
        if written then
          { s.goto t (.removeInode e.inodeSector) with log := .removed e.name :: s.log }
        else s.goto t .idle
  | .removeInode sector =>
      some { s.goto t .removeCount with removedInodes := sector :: s.removedInodes }
  | .removeCount => some { s.goto t .idle with fileCnt := s.fileCnt - 1 }

def next (s : DirThreads Tid) : DirStep Tid → Option (DirThreads Tid)
  | .add t name sector =>
      if s.phase t = .idle then
        if validName name then some (s.goto t (.addLookup name sector 0)) else some s
      else none
  | .remove t name => if s.phase t = .idle then some (s.goto t (.removeLookup name 0)) else none
  | .run t ok => s.runPhase t ok

/-- No two slots are in use for one name. -/
def UniqueNames (entries : List DirEntry) : Prop :=
  ∀ (name : FileName) (i j : Nat) (e e' : DirEntry), entries[i]? = some e →
    entries[j]? = some e' → e.isNamed name = true → e'.isNamed name = true → i = j

/-- A slot is in use for the name. -/
def Present (entries : List DirEntry) (name : FileName) : Prop :=
  ∃ e ∈ entries, e.isNamed name = true

instance (entries : List DirEntry) (name : FileName) : Decidable (Present entries name) :=
  inferInstanceAs (Decidable (∃ e ∈ entries, e.isNamed name = true))

/-- Before the first call. -/
def Initial (s : DirThreads Tid) : Prop :=
  (∀ t, s.phase t = .idle) ∧ s.log = [] ∧ s.cut = false ∧ UniqueNames s.entries

/-- Names are unique, successful calls for one name take turns in adding and
    removing it, and a name that was added and not removed since is there. -/
def Consistent (s : DirThreads Tid) : Prop :=
  UniqueNames s.readable ∧
  (∀ name, Separated (DirEvent.adds name) (DirEvent.removes name) s.log ∧
    Separated (DirEvent.removes name) (DirEvent.adds name) s.log) ∧
  ∀ name, lastEvent (DirEvent.adds name) (DirEvent.removes name) s.log = some (.added name) →
    Present s.readable name

/-- What the scan of a call found still holds when the call writes its slot: `dir_add` writes a free
    slot and the name is not in use, `dir_remove` writes a slot that is in use for its name. No
    growth fails in a directory that has index blocks. -/
def Undisturbed (s : DirThreads Tid) : DirStep Tid → Prop
  | .run t ok =>
      match s.phase t with
      | .addWrite name _ slot =>
          (∀ e : DirEntry, s.readable[slot]? = some e → e.inUse = false) ∧
            ¬Present s.readable name ∧ (s.canWrite slot ok ∨ s.entries.length ≤ directSlots)
      | .removeWrite e slot => ∃ e' : DirEntry, s.readable[slot]? = some e' ∧ e'.isNamed e.name = true
      | _ => True
  | _ => True

end DirThreads
end Pintos
