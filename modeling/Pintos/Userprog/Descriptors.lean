import Pintos.Misc.Transition
import Pintos.Userprog.Syscall

/-!
# System calls on descriptors, interleaved

The system calls of `src/userprog/syscall.c` on descriptors, cut where they release
`fd_table_lock`. `open_` asks for a file before it takes the lock, all the others use the
`struct file` after they have released it, and `close_` takes the lock again to clear the
entry. `readdir_` looks at the owner and the entry without the lock and then reads the
entry once more. Any process may take the next step; a process that was killed takes none.

`live` is not in the source: the descriptors that `open_` has returned and that their
process has not closed. A `tid` belongs to one process, as in the source up to the `2 ^ 31`
threads after which `allocate_tid` overflows.
-/

namespace Pintos

open Function

/-- The system calls on a descriptor, with their other arguments; `bytes` is what `write_`
    finds in its buffer. -/
inductive FdCall where
  | filesize
  | read (size : BitVec 32)
  | write (bytes : Nat → Byte) (size : BitVec 32)
  | seek (position : BitVec 32)
  | tell
  | close
  | mmap
  | readdir
  | isdir
  | inumber

/-- What a call returns for a descriptor that is not one of the process. -/
def FdCall.missing : FdCall → Int
  | .read _ | .write .. | .tell | .mmap => -1
  | .filesize | .seek _ | .close | .readdir | .isdir | .inumber => 0

/-- The result of a call and what it does to the file system and to the `struct file`. For
    `mmap_` this is `file_reopen` only, the rest is in `Pintos.Userprog.Mmap`. -/
def FdCall.serve (fs : FS) (file : File) : FdCall → Option (Int × File × FS)
  | .filesize => do
      let length ← fs.fileLength file
      some (length, file, fs)
  | .read size => do
      let (result, _, file, fs) ← fs.fileRead file size.toInt
      some (result, file, fs)
  | .write bytes size => fs.fileWrite file bytes size.toInt
  | .seek position => do
      let file ← fileSeek file position.toInt
      some (0, file, fs)
  | .tell => some (file.pos, file, fs)
  | .close => do
      let fs ← fs.fileClose file
      some (0, file, fs)
  | .mmap => do
      let (_, fs) ← fs.fileReopen file
      some (0, file, fs)
  | .readdir => do
      let (name, file, fs) ← fs.filesysReaddir file
      some (if name.isSome then 1 else 0, file, fs)
  | .isdir => do
      let isDir ← fs.inodeIsDir file.inode
      some (if isDir then 1 else 0, file, fs)
  | .inumber => some (file.inode.toInt, file, fs)

/-- Where a process is in these calls. -/
inductive FdPlace where
  /-- Not in one of them. -/
  | outside
  /-- In `open_`, with the file that `filesys_open` returned. -/
  | opening (ptr : Nat)
  /-- In `readdir_` after its tests. -/
  | tested (fd : Nat)
  /-- In a call that has read the entry of the descriptor and released the lock. -/
  | found (call : FdCall) (fd ptr : Nat)
  /-- In `close_` after `file_close`. -/
  | closed (fd : Nat)

/-- A descriptor that `open_` has returned to `owner` for the `struct file` at `ptr`. -/
structure Descriptor where
  owner : ThreadId
  fd : Nat
  ptr : Nat
  deriving DecidableEq

/-- The table, the `struct file`s and the processes. -/
structure FdSystem where
  fs : FS
  table : FdTable Nat
  file : Nat → Option File
  nextFile : Nat
  cwd : ThreadId → BlockSector
  place : ThreadId → FdPlace
  /-- The result of the last call of each process. -/
  eax : ThreadId → Int
  live : List Descriptor

inductive FdStep where
  /-- `open_` up to the return of `filesys_open`. -/
  | openBegin (t : ThreadId) (name : List Byte)
  /-- The rest of `open_`. -/
  | openEnd (t : ThreadId)
  /-- The part of a call with the lock held, or the tests of `readdir_`. -/
  | begin (t : ThreadId) (call : FdCall) (fd : Int)
  /-- `readdir_` reads the entry. -/
  | fetch (t : ThreadId)
  /-- The call uses the `struct file`. -/
  | use (t : ThreadId)
  /-- The end of `close_`. -/
  | clear (t : ThreadId)
  /-- Another system call changes the file system. -/
  | other (fs : FS)

namespace FdSystem

variable (s : FdSystem)

/-- Move one process. -/
def goto (t : ThreadId) (place : FdPlace) : FdSystem :=
  { s with place := update s.place t place }

/-- A call returns. -/
def ret (t : ThreadId) (result : Int) : FdSystem :=
  { s with place := update s.place t .outside, eax := update s.eax t result }

def setFile (ptr : Nat) (file : Option File) : FdSystem :=
  { s with file := update s.file ptr file }

@[simp] theorem goto_place_self (t : ThreadId) (place : FdPlace) :
    (s.goto t place).place t = place := update_self ..

theorem goto_place_of_ne {t u : ThreadId} (ne : u ≠ t) (place : FdPlace) :
    (s.goto t place).place u = s.place u := update_of_ne ne ..

theorem ret_place_of_ne {t u : ThreadId} (ne : u ≠ t) (result : Int) :
    (s.ret t result).place u = s.place u := update_of_ne ne ..

/-- `open_` up to the return of `filesys_open` (`syscall.c:334-339`). -/
def openBegin (t : ThreadId) (name : List Byte) : Option FdSystem :=
  if readdirMaxLen < name.length then some (s.ret t (-1))
  else
    match s.fs.filesysOpen (s.cwd t) name with
    | none => none
    | some (none, fs) => some ({ s with fs }.ret t (-1))
    | some (some file, fs) =>
        some (({ s with fs, nextFile := s.nextFile + 1 }.setFile s.nextFile (some file)).goto t
          (.opening s.nextFile))

/-- The rest of `open_` (`syscall.c:341-353`). -/
def openEnd (t : ThreadId) (ptr : Nat) : Option FdSystem :=
  match s.table.alloc t ptr with
  | (none, _) => do
      let file ← s.file ptr
      let fs ← s.fs.fileClose file
      some (({ s with fs }.setFile ptr none).ret t (-1))
  | (some fd, table) => some ({ s with table, live := ⟨t, fd, ptr⟩ :: s.live }.ret t fd)

/-- The part of a call in which it looks for the descriptor. -/
def begin (t : ThreadId) (call : FdCall) (fd : Int) : FdSystem :=
  match s.table.find t fd with
  | none => s.ret t call.missing
  | some ptr =>
      match call with
      | .readdir => s.goto t (.tested fd.toNat)
      | _ => s.goto t (.found call fd.toNat ptr)

/-- The part of a call in which it uses the `struct file`. -/
def use (t : ThreadId) (call : FdCall) (fd ptr : Nat) : Option FdSystem := do
  let file ← s.file ptr
  let (result, file, fs) ← call.serve s.fs file
  match call with
  | .close => some (({ s with fs }.setFile ptr none).goto t (.closed fd))
  | _ => some (({ s with fs }.setFile ptr (some file)).ret t result)

/-- One step; `none` if it cannot be taken or the kernel stops in it. -/
def next : FdStep → Option FdSystem
  | .openBegin t name =>
      match s.place t with
      | .outside => s.openBegin t name
      | _ => none
  | .openEnd t =>
      match s.place t with
      | .opening ptr => s.openEnd t ptr
      | _ => none
  | .begin t call fd =>
      match s.place t with
      | .outside => some (s.begin t call fd)
      | _ => none
  | .fetch t =>
      match s.place t with
      | .tested fd => do
          let ptr ← s.table.fdEntry fd
          some (s.goto t (.found .readdir fd ptr))
      | _ => none
  | .use t =>
      match s.place t with
      | .found call fd ptr => s.use t call fd ptr
      | _ => none
  | .clear t =>
      match s.place t with
      | .closed fd =>
          some ({ s with
            table := s.table.clear fd
            live := s.live.filter fun d => ¬ (d.owner = t ∧ d.fd = fd) }.ret t 0)
      | _ => none
  | .other fs => some { s with fs }

/-- After `syscall_init`; the file system is in any state. -/
structure Initial (s : FdSystem) : Prop where
  table : s.table = .syscallInit
  file : ∀ ptr, s.file ptr = none
  place : ∀ t, s.place t = .outside
  live : s.live = []

end FdSystem

end Pintos
