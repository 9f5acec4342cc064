import Pintos.Filesys.Proofs.Solid
import Pintos.Lib.String
import Pintos.Userprog.Syscall

/-!
# Arguments of system calls

Which calls of `create_`, `read_`, `write_`, `seek_` and `exec_` the kernel survives. An assertion
fails if the value that is out of range gets to it: a size or a position with its highest bit set is
negative in `inode_create` and in `file_seek`, a blank command line gives `init_thread` a
null name, and a command line of `CMDLEN_MAX - 1` characters is accepted by `exec_` but not
by `start_process`.
-/

namespace Pintos

open List Option

variable {c : Byte} {mem : AddressSpace} {cmdLine : Addr} {initialSize position size : BitVec 32}
  {fs : FS} {V : Volume} {cwd dir : BlockSector} {name pathName : List Byte} {count left : Nat}

/-! ## Command lines -/

theorem spaceTokens_eq_nil_iff {line : List Byte} :
    spaceTokens line = [] ↔ ∀ c ∈ line, c = 0x20 := parts_eq_nil_iff

/-- A command line reaches `load` exactly if it has a token and leaves room for its end. -/
theorem exec_eq (accepted : isValidStr mem cmdLine cmdlenMax = some true) :
    exec_ mem cmdLine =
      if (∃ c ∈ userStr mem cmdlenMax cmdLine, c ≠ 0x20) ∧
          (userStr mem cmdlenMax cmdLine).length + 1 < cmdlenMax then
        .returns ((spaceTokens (userStr mem cmdlenMax cmdLine)).take argvMax)
      else .panics := by
  unfold exec_
  rw [accepted]
  generalize userStr mem cmdlenMax cmdLine = line
  by_cases short : line.length + 1 < cmdlenMax
  · have whole : line.take (cmdlenMax - 1) = line := take_of_length_le (by omega)
    have started : startProcess line = some ((spaceTokens line).take argvMax) := if_pos short
    cases tokens : spaceTokens line with
    | nil =>
      have blank := spaceTokens_eq_nil_iff.mp tokens
      rw [if_neg fun h => h.1.elim fun c h => h.2 (blank c h.1)]
      simp only [processExecute, whole, tokens, List.head?_nil, bind_eq_bind, bind_none]
    | cons name _ =>
      have notBlank : ∃ c ∈ line, c ≠ 0x20 := by
        by_contra blank
        push Not at blank
        rw [spaceTokens_eq_nil_iff.mpr blank] at tokens
        cases tokens
      rw [if_pos ⟨notBlank, short⟩]
      simp only [processExecute, whole, tokens, List.head?_cons, bind_eq_bind, bind_some, started]
  · rw [if_neg fun h => short h.2]
    have tooLong : startProcess (line.take (cmdlenMax - 1)) = none :=
      if_neg (by rw [length_take]; omega)
    cases tokens : spaceTokens (line.take (cmdlenMax - 1)) with
    | nil => simp only [processExecute, tokens, List.head?_nil, bind_eq_bind, bind_none]
    | cons name _ => simp only [processExecute, tokens, List.head?_cons, bind_eq_bind, bind_some,
        tooLong]

namespace Models

variable {R : List BlockSector} {n : Node} {o : Handle} {fileName : FileName} {t : BlockSector}

end Models

namespace Models

end Models

namespace SyscallState

variable {s : SyscallState} {V : Volume} {t : ThreadId} {mem : AddressSpace}

/-- The file system holds the volume, processes are in directories, and a descriptor leads to
    an open file with a position in the range of `off_t`. -/
structure Sound (s : SyscallState) (V : Volume) : Prop where
  models : Models s.fs V []
  tree : V.Tree
  cwd : ∀ t, V.isDir (s.cwd t) = true
  file : ∀ t fd ptr, s.table.find t fd = some ptr → ∃ file, s.file ptr = some file ∧
    (V.node file.inode).isSome ∧ (V.handle file.inode).isSome ∧ 0 ≤ file.pos ∧ file.pos < 2 ^ 31

end SyscallState

/-! ## Arguments out of range -/

/-- A page of the process at `0x1000` with a text, and zeros. -/
def textAt (text : List Byte) : AddressSpace := fun a => some (text.getD (a.toNat - 0x1000) 0)

theorem textAt_scan {text : List Byte} (string : 0 ∉ text) (short : text.length < 4096) {k : Nat}
    (le : k ≤ text.length) (room : text.length < k + left) :
    isValidStrLoop (textAt text) left (BitVec.ofNat 32 (0x1000 + k)) = some true ∧
      userStr (textAt text) left (BitVec.ofNat 32 (0x1000 + k)) = text.drop k := by
  induction left generalizing k with
  | zero => omega
  | succ left ih =>
    have address : (BitVec.ofNat 32 (0x1000 + k)).toNat = 0x1000 + k := by
      rw [BitVec.toNat_ofNat, Nat.mod_eq_of_lt (by omega)]
    have below : ¬physBase ≤ BitVec.ofNat 32 (0x1000 + k) := by
      rw [BitVec.le_def, address]
      have base : physBase.toNat = 0xc0000000 := rfl
      omega
    have value : textAt text (BitVec.ofNat 32 (0x1000 + k)) = some (text.getD k 0) := by
      rw [textAt, address, Nat.add_sub_cancel_left]
    rw [isValidStrLoop, userStr, if_neg below, value]
    dsimp only
    by_cases inside : k < text.length
    · have next : BitVec.ofNat 32 (0x1000 + k) + 1 = BitVec.ofNat 32 (0x1000 + (k + 1)) := by
        rw [← Nat.add_assoc, BitVec.ofNat_add _ 1]
        rfl
      have nonzero : text[k] ≠ 0 := fun zero => string (zero ▸ getElem_mem inside)
      obtain ⟨scan, str⟩ := ih (k := k + 1) inside (by omega)
      rw [getD_eq_getElem _ _ inside, if_neg nonzero, if_neg nonzero, next, scan, str,
        drop_eq_getElem_cons inside]
      exact ⟨rfl, rfl⟩
    · rw [getD_eq_default _ _ (by omega), drop_of_length_le (by omega)]
      exact ⟨rfl, rfl⟩

theorem textAt_str {text : List Byte} (string : 0 ∉ text) (short : text.length < 4096)
    (room : text.length < count) :
    isValidStr (textAt text) 0x1000 count = some true ∧ userStr (textAt text) count 0x1000 = text := by
  obtain ⟨valid, str⟩ := textAt_scan string short (Nat.zero_le _)
    (show text.length < 0 + count by omega)
  exact ⟨(if_neg (by decide)).trans valid, str⟩

namespace SyscallState

/-- Process 1 is in the root directory and has it open as descriptor 2. -/
def rootOpen (fs : FS) : SyscallState where
  fs := fs
  table := FdTable.syscallInit.set 2 (some 1) (some 0)
  file _ := some (fileOpen rootDirSector)
  cwd _ := rootDirSector

theorem rootOpen_sound (tree : V.Tree) (models : Models fs (V.opened rootDirSector) []) :
    (rootOpen fs).Sound (V.opened rootDirSector) := by
  have some? : (V.node rootDirSector).isSome := by
    obtain ⟨n, found, -⟩ := tree.root
    rw [found]
    rfl
  refine ⟨models, tree.opened some?, fun _ => ?_, ?_⟩
  · rw [Volume.opened_isDir]
    exact tree.root_isDir
  intro t fd ptr found
  refine ⟨_, rfl, ?_, ?_, by decide, by decide⟩
  · rw [Volume.opened_node]
    exact some?
  show ((V.opened rootDirSector).handle rootDirSector).isSome
  rw [Volume.opened_handle_self]
  rfl

theorem exists_rootOpen : ∃ fs, (rootOpen fs).Sound (formattedVolume.opened rootDirSector) ∧
    0 < fs.freeCount := by
  obtain ⟨fs, formatted, -, -, -, count⟩ := exists_formatted
  obtain ⟨fs', -, steady, models⟩ := formatted.models.inodeOpen_opened formattedVolume_node
  have free := steady.free
  exact ⟨fs', rootOpen_sound formattedVolume_tree models, by omega⟩

end SyscallState

end Pintos
