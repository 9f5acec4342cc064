import Pintos.Lib.String
import Pintos.Userprog.Syscall
import Pintos.Vm.Swap

/-!
# The stack of a new process

Model of `start_process` of `src/userprog/process.c`: it parses the command line, loads the program
and pushes the arguments on the user stack. `load` is a parameter: it gives the pages of the program
that can be written, if the program can be loaded. `setup_stack` adds one page below `PHYS_BASE`.

A store to another page ends the process: `user_esp` is `PHYS_BASE`, so `page_fault`
(`exception.c:156-208`) takes the address for the stack only from `PHYS_BASE - 32` on, and
`page_full_load` does not find it. `esp` never gets near zero, so addresses are natural numbers.
-/

namespace Pintos

/-- The loop over the tokens (`process.c:141-145`), which fills `argv`. -/
def parseArguments (fileName : List Byte) : List (List Byte) :=
  strtokLoop 0x20 argvMax fileName

/-- The page that `setup_stack` (`process.c:620-646`) maps. -/
def stackUpage : Nat := physBase.toNat / pgSize - 1

/-- `image` has the bytes that were stored, and nothing where no byte was stored. -/
structure UserStack where
  esp : Nat
  image : Nat → Option Byte
  writable : Nat → Bool

namespace UserStack

variable (s : UserStack)

/-- `esp -= len; memcpy (esp, bytes, len)`; the address at which the store ends the process. -/
def push (bytes : List Byte) : Except Nat UserStack :=
  let esp := s.esp - bytes.length
  match (List.range' esp bytes.length).find? fun a => !s.writable (a / pgSize) with
  | some faultAddr => .error faultAddr
  | none => .ok { s with
      esp
      image := fun a => if esp ≤ a ∧ a < s.esp then bytes[a - esp]? else s.image a }

/-- `esp & ~3`. -/
def roundDown : UserStack := { s with esp := s.esp / 4 * 4 }

/-- A word of 32 bits, the byte of lowest significance first. -/
def wordBytes (w : Nat) : List Byte :=
  [BitVec.ofNat 8 w, BitVec.ofNat 8 (w / 2 ^ 8), BitVec.ofNat 8 (w / 2 ^ 16),
    BitVec.ofNat 8 (w / 2 ^ 24)]

/-- The strings, from the last to the first, with the values of `argv_ptrs`
    (`process.c:168-174`). -/
def pushStrings : List (List Byte) → Except Nat (List Nat × UserStack)
  | [] => .ok ([], s)
  | arg :: rest => do
      let (ptrs, s) ← pushStrings rest
      let s ← s.push (arg ++ [0])
      .ok (s.esp :: ptrs, s)

/-- Words, from the last to the first. -/
def pushWords : List Nat → Except Nat UserStack
  | [] => .ok s
  | w :: rest => do
      let s ← pushWords rest
      s.push (wordBytes w)

/-- The end of `start_process` (`process.c:165-194`), from the `esp` of `setup_stack` on, in a
    program with these pages. -/
def pushArguments (pages : Nat → Bool) (argv : List (List Byte)) : Except Nat UserStack := do
  let start : UserStack :=
    { esp := physBase.toNat
      image := fun _ => none
      writable := fun page => decide (page = stackUpage) || pages page }
  let (argvPtrs, s) ← start.roundDown.pushStrings argv
  let s ← s.roundDown.pushWords (argvPtrs ++ [0])
  s.pushWords [0, argv.length, s.esp]

/-- The word at an address. -/
def word (a : Nat) : Option Nat := do
  let b0 ← s.image a
  let b1 ← s.image (a + 1)
  let b2 ← s.image (a + 2)
  let b3 ← s.image (a + 3)
  some (b0.toNat + b1.toNat * 2 ^ 8 + b2.toNat * 2 ^ 16 + b3.toNat * 2 ^ 24)

/-- The bytes are in memory from an address on. -/
def Holds (a : Nat) (bytes : List Byte) : Prop := ∀ j < bytes.length, s.image (a + j) = bytes[j]?

/-- The program finds its arguments: `esp` is at a null return address, followed by `argc` and
    `argv`. The pointers of `argv` lead to the arguments, each with a null byte at its end, and
    the arguments lie above all words. -/
structure Decodes (argv : List (List Byte)) : Prop where
  aligned : s.esp % 4 = 0
  returnAddress : s.word s.esp = some 0
  argc : s.word (s.esp + 4) = some argv.length
  argv : ∃ base, s.word (s.esp + 8) = some base ∧ s.esp + 12 ≤ base ∧
    s.word (base + 4 * argv.length) = some 0 ∧
    ∀ (i : Nat) arg, argv[i]? = some arg → ∃ p, s.word (base + 4 * i) = some p ∧
      s.Holds p (arg ++ [0]) ∧ base + 4 * (argv.length + 1) ≤ p

end UserStack

/-- The bytes that the arguments take on the stack. -/
def stackNeed (argv : List (List Byte)) : Nat :=
  ((argv.map (·.length + 1)).sum + 3) / 4 * 4 + 4 * (argv.length + 1) + 12

/-- How `start_process` ends. -/
inductive Started where
  /-- The assertion about the length of the line fails. -/
  | stops
  /-- `load` fails. -/
  | quits
  /-- `page_fault` ends the process at a store. -/
  | killed (faultAddr : Nat)
  | runs (s : UserStack)

/-- `start_process` from `load` on (`process.c:147-194`). -/
def loadAndPush (load : Option (List Byte) → Option (Nat → Bool)) (argv : List (List Byte)) :
    Started :=
  match load argv.head? with
  | none => .quits
  | some pages =>
      match UserStack.pushArguments pages argv with
      | .error faultAddr => .killed faultAddr
      | .ok s => .runs s

/-- `start_process` (`process.c:131-194`). -/
def startProcessStack (load : Option (List Byte) → Option (Nat → Bool)) (fileName : List Byte) :
    Started :=
  if fileName.length + 1 < cmdlenMax then loadAndPush load (parseArguments fileName) else .stops

/-- The addresses to which `start_process` stores; of a process that is ended, the address of the
    store that ends it. -/
def Started.StoresTo : Started → Nat → Prop
  | .stops, _ => False
  | .quits, _ => False
  | .killed faultAddr, a => a = faultAddr
  | .runs s, a => s.image a ≠ none

/-- The program runs and finds the arguments. -/
def Started.RunsWith (argv : List (List Byte)) : Started → Prop
  | .runs s => s.Decodes argv
  | _ => False

end Pintos
