import Pintos.Userprog.Descriptors

/-!
# Files that processes hold

Processes that are created, open and close descriptors, exit and are killed. `load` and
`process_exit` of `src/userprog/process.c` open and close the executable of a process; the
descriptors are in the table of `src/userprog/syscall.c`, which they do not look at. Any process
may take the next step. A fault kills a process in its own code or while `open_` looks at its
argument, before `filesys_open`; in the rest of `open_` and in `close_` the kernel does not
access user memory.
-/

namespace Pintos

/-- What a thread is. -/
inductive Phase where
  | unborn
  /-- In `load`, with the executable open. -/
  | loading (ptr : Nat)
  /-- Running, with its `exec_file`. -/
  | running (execFile : Option Nat)
  | dead
deriving DecidableEq

/-- The table, the `struct file`s and the processes. -/
structure OpenFiles where
  sys : FdSystem
  phase : ThreadId → Phase

inductive OpenStep where
  /-- `process_execute` in `t`, and `load` in its child `u` up to the return of `filesys_open`. -/
  | execute (t u : ThreadId) (name : List Byte)
  /-- The rest of `load`: it reads the file at some positions and succeeds or fails. -/
  | load (u : ThreadId) (reads : List (Int × Int)) (success : Bool)
  /-- `open_` up to the return of `filesys_open`, and the rest of it. -/
  | openBegin (t : ThreadId) (name : List Byte)
  | openEnd (t : ThreadId)
  /-- `close_`: it reads the entry, closes the file and clears the entry. -/
  | closeBegin (t : ThreadId) (fd : Int)
  | closeFile (t : ThreadId)
  | closeEnd (t : ThreadId)
  /-- `process_exit`, called by `exit_` or for a process that is killed. -/
  | exit (t : ThreadId)
  | kill (t : ThreadId)

/-- `file_seek` and `file_read` in `load`. -/
def loadReads (file : File) : List (Int × Int) → FS → Option FS
  | [], fs => some fs
  | (pos, size) :: rest, fs => do
      let file ← fileSeek file pos
      let (_, _, file, fs) ← fs.fileRead file size
      loadReads file rest fs

namespace OpenFiles

variable (s : OpenFiles)

def setPhase (t : ThreadId) (phase : Phase) : OpenFiles :=
  { s with phase := Function.update s.phase t phase }

/-- A `struct file` is allocated. -/
def newFile (fs : FS) (file : File) : OpenFiles :=
  { s with
    sys := { s.sys with fs, nextFile := s.sys.nextFile + 1 }.setFile s.sys.nextFile (some file) }

/-- `load` up to the return of `filesys_open` (`process.c:389-406`), in the directory that the
    child gets from its father. A child that finds no file is dead. The father is not made to
    wait for the child. -/
def execute (t u : ThreadId) (name : List Byte) : Option OpenFiles :=
  match s.sys.fs.filesysOpen (s.sys.cwd t) name with
  | none => none
  | some (none, fs) => some ({ s with sys := { s.sys with fs } }.setPhase u .dead)
  | some (some file, fs) =>
      let s' : OpenFiles :=
        { s with sys := { s.sys with cwd := Function.update s.sys.cwd u (s.sys.cwd t) } }
      some ((s'.newFile fs file).setPhase u (.loading s.sys.nextFile))

/-- The rest of `load` (`process.c:408-500`), and `thread_exit` if it fails. -/
def load (u : ThreadId) (ptr : Nat) (reads : List (Int × Int)) (success : Bool) :
    Option OpenFiles := do
  let file ← s.sys.file ptr
  let fs ← loadReads file reads s.sys.fs
  if success then do
    let (file, fs) ← fs.fileDenyWrite file
    some ({ s with sys := { s.sys with fs }.setFile ptr (some file) }.setPhase u
      (.running (some ptr)))
  else do
    let fs ← fs.fileClose file
    some ({ s with sys := { s.sys with fs }.setFile ptr none }.setPhase u .dead)

/-- `process_exit` (`process.c:229-296`). `file_close` does nothing with a null pointer. -/
def processExit (t : ThreadId) : Option Nat → Option OpenFiles
  | none => some (s.setPhase t .dead)
  | some ptr => do
      let file ← s.sys.file ptr
      let fs ← s.sys.fs.fileClose file
      some ({ s with sys := { s.sys with fs }.setFile ptr none }.setPhase t .dead)

/-- A step of a running process on descriptors. -/
def call (t : ThreadId) (step : FdStep) : Option OpenFiles :=
  match s.phase t with
  | .running _ => do
      let sys ← s.sys.next step
      some { s with sys }
  | _ => none

/-- A running process that is not in a system call exits. -/
def exit (t : ThreadId) : Option OpenFiles :=
  match s.phase t, s.sys.place t with
  | .running execFile, .outside => s.processExit t execFile
  | _, _ => none

/-- One step; `none` if it cannot be taken or the kernel stops in it. -/
def next : OpenStep → Option OpenFiles
  | .execute t u name =>
      match s.phase t, s.sys.place t, s.phase u with
      | .running _, .outside, .unborn => s.execute t u name
      | _, _, _ => none
  | .load u reads success =>
      match s.phase u with
      | .loading ptr => s.load u ptr reads success
      | _ => none
  | .openBegin t name => s.call t (.openBegin t name)
  | .openEnd t => s.call t (.openEnd t)
  | .closeBegin t fd => s.call t (.begin t .close fd)
  | .closeFile t => s.call t (.use t)
  | .closeEnd t => s.call t (.clear t)
  | .exit t => s.exit t
  | .kill t => s.exit t

/-- After boot: some threads run without an executable, and the kernel has opened the file of the
    free map and no other one. -/
structure Initial (s : OpenFiles) : Prop where
  sys : s.sys.Initial
  phase : ∀ t, s.phase t = .unborn ∨ s.phase t = .running none
  counts : s.sys.fs.Counts [freeMapSector]

/-- The process is there. -/
def Live (t : ThreadId) : Prop := s.phase t ≠ .unborn ∧ s.phase t ≠ .dead

/-- The process has the `struct file` at `ptr`: as its executable, or as a file that it is about
    to enter in the table, or behind a descriptor that `close_` has not closed yet. -/
def Uses (t : ThreadId) (ptr : Nat) : Prop :=
  s.phase t = .loading ptr ∨ ∃ execFile, s.phase t = .running execFile ∧
    (execFile = some ptr ∨ s.sys.place t = .opening ptr ∨
      ∃ fd, s.sys.table.fdOwner fd = some t ∧ s.sys.table.fdEntry fd = some ptr ∧
        s.sys.place t ≠ .closed fd)

/-- The `struct file` at `ptr` is a file of the inode. -/
def IsOn (ptr : Nat) (sector : BlockSector) : Prop :=
  (s.sys.file ptr).map File.inode = some sector

/-- A process exits or is killed only after it has closed its descriptors. -/
def ClosesFirst (s : OpenFiles) : OpenStep → Prop
  | .exit t => ∀ fd, s.sys.table.fdOwner fd ≠ some t
  | .kill t => ∀ fd, s.sys.table.fdOwner fd ≠ some t
  | _ => True

end OpenFiles

end Pintos
