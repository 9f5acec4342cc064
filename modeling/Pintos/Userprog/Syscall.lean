import Pintos.Filesys.File
import Pintos.Userprog.FdTable

/-!
# System calls

Model of `create_`, `read_`, `write_`, `seek_` and `exec_` of `src/userprog/syscall.c` with
the checks of their arguments, and of what `process_execute` and `start_process` of
`src/userprog/process.c` do to the command line. Arguments are 32-bit words. A call runs to
its end. It returns, or it ends the process that made it, or the kernel stops in it.

An address at which the kernel's access faults for good has no byte: `page_fault` then ends
the process. The addresses of the kernel are mapped in every page directory. Pages for the
copies of a command line are there when they are asked for, and `thread_create` finds a
page for the thread.
-/

namespace Pintos

abbrev Addr := BitVec 32

/-- `PHYS_BASE` (`threads/vaddr.h:61`). -/
def physBase : Addr := 0xc0000000

/-- `READDIR_MAX_LEN` (`lib/user/syscall.h:16`). -/
abbrev readdirMaxLen : Nat := 60

/-- `CMDLEN_MAX` and `ARGV_MAX` (`process.h:7-8`). -/
abbrev cmdlenMax : Nat := 4096
abbrev argvMax : Nat := 64

/-- The bytes that the kernel finds in the address space of a process. -/
abbrev AddressSpace := Addr → Option Byte

/-- How a system call ends. -/
inductive Served (α : Type) where
  | returns (value : α)
  /-- `process_exit (-1)`, in `exit_` or in `page_fault`. -/
  | killed
  /-- An assertion fails. -/
  | panics

/-- The loop of `is_valid_str` (`syscall.c:106-112`). -/
def isValidStrLoop (mem : AddressSpace) : Nat → Addr → Option Bool
  | 0, _ => some false
  | left + 1, str =>
      if physBase ≤ str then none
      else
        match mem str with
        | none => none
        | some c => if c = 0 then some true else isValidStrLoop mem left (str + 1)

/-- `is_valid_str` (`syscall.c:101-114`); `none` if the process is ended. -/
def isValidStr (mem : AddressSpace) (str : Addr) (maxlen : Nat) : Option Bool :=
  if str = 0 then none else isValidStrLoop mem maxlen str

/-- The characters of a string of less than `maxlen` characters. -/
def userStr (mem : AddressSpace) : Nat → Addr → List Byte
  | 0, _ => []
  | left + 1, str =>
      match mem str with
      | none => []
      | some c => if c = 0 then [] else c :: userStr mem left (str + 1)

/-- `count` bytes of a buffer, one after the other. -/
def bufferAddrs (buffer : Addr) (count : Nat) : List Addr :=
  (List.range count).map fun k => buffer + BitVec.ofNat 32 k

/-- The bytes reach the buffer. -/
def AddressSpace.store (mem : AddressSpace) (buffer : Addr) (bytes : List Byte) : AddressSpace :=
  fun a => match bytes[(a - buffer).toNat]? with
    | some b => some b
    | none => mem a

/-- What the system calls on files work on. `file` is the memory of the `struct file`s. -/
structure SyscallState where
  fs : FS
  table : FdTable Nat
  file : Nat → Option File
  cwd : ThreadId → BlockSector

namespace SyscallState

variable (s : SyscallState) (t : ThreadId)

/-- The file behind a descriptor of the process. -/
def fileOf (fd : Int) : Option File := (s.table.find t fd).bind s.file

def setFile (ptr : Nat) (file : File) : SyscallState :=
  { s with file := Function.update s.file ptr (some file) }

/-- `readdir_` (`syscall.c:653-667`); `strlcpy` stores the name. -/
def readdir_ (mem : AddressSpace) (fd : Int) (name : Addr) :
    Served (Bool × AddressSpace × SyscallState) :=
  match isValidStr mem name (readdirMaxLen + 1) with
  | none => .killed
  | some false => .returns (false, mem, s)
  | some true =>
      match s.table.find t fd with
      | none => .returns (false, mem, s)
      | some ptr =>
          match (s.file ptr).bind s.fs.filesysReaddir with
          | none => .panics
          | some (none, file, fs) => .returns (false, mem, { s with fs }.setFile ptr file)
          | some (some e, file, fs) =>
              let bytes := e.take nameMax ++ [0]
              if (bufferAddrs name bytes.length).any fun a => (mem a).isNone then .killed
              else .returns (true, mem.store name bytes, { s with fs }.setFile ptr file)

end SyscallState

/-! ## Starting a program -/

/-- The tokens that repeated calls of `strtok_r (line, " ", ...)` return. -/
def spaceTokens (line : List Byte) : List (List Byte) := (line.splitOn 0x20).filter (· ≠ [])

/-- `process_execute` (`process.c:52-81`) up to `thread_create`: the name of the thread and
    the copy of the command line that it gets. `init_thread` asserts that there is a name. -/
def processExecute (fileName : List Byte) : Option (List Byte × List Byte) := do
  let fnCopy := fileName.take (cmdlenMax - 1)
  let name ← (spaceTokens fnCopy).head?
  some (name, fnCopy)

/-- `start_process` (`process.c:131-146`) up to `load`: the arguments. -/
def startProcess (fileName : List Byte) : Option (List (List Byte)) :=
  if fileName.length + 1 < cmdlenMax then some ((spaceTokens fileName).take argvMax) else none

/-- `exec_` (`syscall.c:301-308`) and the start of its child, with the arguments that the
    child passes to `load`. -/
def exec_ (mem : AddressSpace) (cmdLine : Addr) : Served (List (List Byte)) :=
  match isValidStr mem cmdLine cmdlenMax with
  | none => .killed
  | some false => .killed
  | some true =>
      match processExecute (userStr mem cmdlenMax cmdLine) with
      | none => .panics
      | some (_, fnCopy) =>
          match startProcess fnCopy with
          | none => .panics
          | some argv => .returns argv

end Pintos
