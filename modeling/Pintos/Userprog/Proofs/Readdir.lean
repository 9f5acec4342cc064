import Pintos.Userprog.Proofs.Syscall
import Pintos.Userprog.Proofs.UserBuffer

/-!
# The buffer of `readdir_`

`readdir_` checks the buffer in which it stores a name as if it were the name of a file, so what
the buffer holds before the call decides whether the directory is read at all.
-/

namespace Pintos

open List Option

/-! ## Reading a directory -/

namespace Models

variable {fs : FS} {V : Volume} {R : List BlockSector} {dir : BlockSector} {n : Node} {o : Handle}

/-- The next entry in use from entry `i` on. -/
def nextUsed (b : FileBytes) (i : Nat) : Option Nat :=
  (range' i (b.entryCnt - i)).find? fun j => (b.entry j).inUse

theorem readdirLoop (models : Models fs V R) (found : V.node dir = some n)
    (handle : V.handle dir = some o) {i bound : Nat} (inside : i ≤ n.content.entryCnt)
    (enough : n.content.entryCnt - i < bound) :
    ∃ fs', readdirLoop dir bound ((entrySize * i : Nat) : Int) fs =
        some ((nextUsed n.content i).map fun j => (n.content.entry j).name,
          ((entrySize * ((nextUsed n.content i).elim n.content.entryCnt (· + 1)) : Nat) : Int), fs') ∧
      Models fs' V R := by
  unfold nextUsed
  induction bound generalizing i fs with
  | zero => omega
  | succ bound ih =>
    obtain ⟨fs1, run1, -, models1, full⟩ := models.readEntry found handle inside
    unfold Pintos.readdirLoop
    rw [run1, bind_eq_bind, bind_some]
    dsimp only
    by_cases more : i < n.content.entryCnt
    · rw [if_pos (full.mpr more),
        show n.content.entryCnt - i = n.content.entryCnt - (i + 1) + 1 by omega,
        range'_succ, find?_cons]
      cases used : (n.content.entry i).inUse with
      | true => exact ⟨fs1, if_pos used, models1⟩
      | false =>
        obtain ⟨fs2, run2, models2⟩ := ih models1 more (by omega)
        refine ⟨fs2, ?_, models2⟩
        rw [← run2]
        exact if_neg fun inUse => Bool.false_ne_true (used.symm.trans inUse)
    obtain rfl : i = n.content.entryCnt := by omega
    rw [if_neg fun isFull => more (full.mp isFull), Nat.sub_self]
    exact ⟨fs1, rfl, models1⟩

end Models

namespace SyscallState

/-! ## The buffer -/

variable {mem mem' : AddressSpace} {name : Addr}

/-- The buffer has its bytes in user space. -/
structure Writable (mem : AddressSpace) (name : Addr) : Prop where
  nonnull : name ≠ 0
  mapped : ∀ a ∈ bufferAddrs name (readdirMaxLen + 1), a < physBase ∧ (mem a).isSome

/-- The buffer has a null character. -/
def HasNull (mem : AddressSpace) (name : Addr) : Prop :=
  ∃ a ∈ bufferAddrs name (readdirMaxLen + 1), mem a = some 0

theorem isValidStrLoop_cases {count : Nat}
    (mapped : ∀ a ∈ bufferAddrs name count, a < physBase ∧ (mem a).isSome) :
    (∃ a ∈ bufferAddrs name count, mem a = some 0) ∧ isValidStrLoop mem count name = some true ∨
      (¬∃ a ∈ bufferAddrs name count, mem a = some 0) ∧
        isValidStrLoop mem count name = some false := by
  induction count generalizing name with
  | zero => simp [bufferAddrs, isValidStrLoop]
  | succ count ih =>
    simp only [bufferAddrs_succ, mem_cons, forall_eq_or_imp, exists_eq_or_imp] at mapped ⊢
    obtain ⟨⟨below, isByte⟩, mapped⟩ := mapped
    obtain ⟨c, byte⟩ := isSome_iff_exists.mp isByte
    rw [isValidStrLoop, if_neg (BitVec.not_le.mpr below), byte]
    by_cases zero : c = 0
    · simp [zero]
    · simp only [some.injEq, zero, false_or, if_false]
      exact ih mapped

theorem Writable.isValidStr (buffer : Writable mem name) :
    HasNull mem name ∧ isValidStr mem name (readdirMaxLen + 1) = some true ∨
      ¬HasNull mem name ∧ isValidStr mem name (readdirMaxLen + 1) = some false := by
  unfold HasNull Pintos.isValidStr
  rw [if_neg buffer.nonnull]
  exact isValidStrLoop_cases buffer.mapped

/-- The two calls end in the same way, with the same positions of all files, and store the same
    bytes. -/
def SameOutcome (mem mem' : AddressSpace) (name : Addr) :
    Served (Bool × AddressSpace × SyscallState) → Served (Bool × AddressSpace × SyscallState) → Prop
  | .returns (result, after, s), .returns (result', after', s') =>
      result = result' ∧ s.file = s'.file ∧ (result = false → after = mem ∧ after' = mem') ∧
        (result = true → ∃ bytes, after = mem.store name bytes ∧ after' = mem'.store name bytes)
  | .killed, .killed => True
  | .panics, .panics => True
  | _, _ => False

theorem SameOutcome.symm {x y : Served (Bool × AddressSpace × SyscallState)}
    (same : SameOutcome mem mem' name x y) : SameOutcome mem' mem name y x := by
  cases x <;> cases y <;> try exact same
  obtain ⟨result, files, off, on⟩ := same
  exact ⟨result.symm, files.symm, fun no => (off (result.trans no)).symm,
    fun yes => (on (result.trans yes)).imp fun _ => And.symm⟩

/-- The name and its null character are within the buffer. -/
theorem Writable.any_isNone (buffer : Writable mem name) (e : FileName) :
    ((bufferAddrs name (e.take nameMax ++ [0]).length).any fun a => (mem a).isNone) = false := by
  have length := length_take_le nameMax e
  simp only [bufferAddrs, List.any_map, List.any_eq_false, List.mem_range, Function.comp_apply]
  intro k small
  have few : k < readdirMaxLen + 1 := by
    rw [length_append, length_singleton] at small
    unfold nameMax readdirMaxLen at *
    omega
  have mapped := (buffer.mapped _ (mem_map_of_mem (List.mem_range.mpr few))).2
  simpa [isNone_iff_eq_none, isSome_iff_ne_none] using mapped

/-! ## The call -/

theorem readdirLoop_le {dir : BlockSector} {bound : Nat} {pos pos' : Int} {fs fs' : FS}
    {r : Option FileName} (run : readdirLoop dir bound pos fs = some (r, pos', fs')) : pos ≤ pos' := by
  induction bound generalizing pos fs with
  | zero => cases run
  | succ bound ih =>
    obtain ⟨⟨bytes, fs1⟩, -, run⟩ := bind_eq_some_iff.mp run
    dsimp only at run
    split at run
    · split at run
      · cases run
        unfold entrySize
        omega
      · have := ih run
        unfold entrySize at this
        omega
    · cases run
      exact le_refl _

variable {s : SyscallState} {V : Volume} {t : ThreadId} {fd : Int}

/-- If the descriptor is one of the process, it is a directory without an entry from its position
    on. -/
def NothingLeft (s : SyscallState) (V : Volume) (t : ThreadId) (fd : Int) : Prop :=
  ∀ file n, s.fileOf t fd = some file → V.node file.inode = some n →
    n.isDir = true ∧ (n.content.length : Int) < file.pos + entrySize

/-- A directory is read: nothing is found and the position stays, or something changes. -/
theorem filesysReaddir_cases {file : File} {n : Node} {o : Handle} {fs : FS}
    (models : Models fs V []) (node : V.node file.inode = some n)
    (handle : V.handle file.inode = some o) (low : 0 ≤ file.pos) (high : file.pos < 2 ^ 31) :
    if n.isDir = true ∧ (n.content.length : Int) < file.pos + entrySize then
      ∃ fs', fs.filesysReaddir file = some (none, file, fs')
    else ∀ r file' fs', fs.filesysReaddir file = some (r, file', fs') → file' ≠ file := by
  unfold FS.filesysReaddir
  rw [models.inodeIsDir node handle, models.entryBound node handle]
  cases n.isDir with
  | false => simp
  | true =>
    obtain ⟨fs1, read, -⟩ := models.inodeReadAt node handle entrySize
      (show file.pos.toNat < 2 ^ 31 by omega)
    rw [Int.toNat_of_nonneg low] at read
    have full : (n.content.read entrySize file.pos.toNat).length = entrySize ↔
        ¬(n.content.length : Int) < file.pos + entrySize := by
      rw [FileBytes.length_read]
      unfold entrySize
      omega
    simp only [bind_eq_bind, bind_some, if_true, readdirLoop, read, true_and]
    by_cases short : (n.content.length : Int) < file.pos + entrySize
    · rw [if_pos short, if_neg fun isFull => full.mp isFull short]
      exact ⟨fs1, by simp [fileSeek, Int.not_lt.mpr low]⟩
    rw [if_neg short, if_pos (full.mpr short)]
    rintro r file' fs' run rfl
    obtain ⟨⟨r', pos', fs2⟩, loop, run⟩ := bind_eq_some_iff.mp run
    obtain ⟨file'', seeks, run⟩ := bind_eq_some_iff.mp run
    cases run
    obtain ⟨-, same⟩ := ite_none_left_eq_some.mp seeks
    have moved : file'.pos + entrySize ≤ pos' := by
      split at loop
      · cases loop
        exact le_refl _
      · exact readdirLoop_le loop
    have isPos : pos' = file'.pos := congrArg File.pos (some.inj same)
    unfold entrySize at moved
    omega

/-- A call that reads the directory has the outcome of one that does not, exactly if nothing is
    left to read. -/
theorem readdir_sameOutcome_iff (sound : s.Sound V) (buffer : Writable mem name)
    (accepted : isValidStr mem name (readdirMaxLen + 1) = some true) :
    SameOutcome mem mem' name (s.readdir_ t mem fd name) (.returns (false, mem', s)) ↔
      s.NothingLeft V t fd := by
  unfold readdir_ NothingLeft fileOf
  rw [accepted]
  cases found : s.table.find t fd with
  | none =>
    refine iff_of_true ⟨rfl, rfl, fun _ => ⟨rfl, rfl⟩, nofun⟩ ?_
    simp
  | some ptr =>
    obtain ⟨file, isFile, node, handle, low, high⟩ := sound.file t fd ptr found
    obtain ⟨n, node⟩ := isSome_iff_exists.mp node
    obtain ⟨o, handle⟩ := isSome_iff_exists.mp handle
    have cases := filesysReaddir_cases sound.models node handle low high
    have left_iff : (∀ file' n', some file = some file' → V.node file'.inode = some n' →
        n'.isDir = true ∧ (n'.content.length : Int) < file'.pos + entrySize) ↔
          n.isDir = true ∧ (n.content.length : Int) < file.pos + entrySize := by
      refine ⟨fun all => all _ _ rfl node, fun left _ _ isFile' node' => ?_⟩
      cases isFile'
      cases node.symm.trans node'
      exact left
    simp only [isFile, bind_some, left_iff]
    split at cases
    · next left =>
      obtain ⟨fs', run⟩ := cases
      rw [run]
      refine iff_of_true ⟨rfl, ?_, fun _ => ⟨rfl, rfl⟩, nofun⟩ left
      exact Function.update_eq_self_iff.mpr isFile.symm
    · next more =>
      refine iff_of_false (fun same => ?_) more
      cases run : s.fs.filesysReaddir file with
      | none =>
        rw [run] at same
        exact same
      | some r =>
        obtain ⟨_ | e, file', fs'⟩ := r
        · rw [run] at same
          have files := congrFun same.2.1 ptr
          simp only [setFile, Function.update_self, isFile] at files
          exact cases _ _ _ run (some.inj files)
        · rw [run] at same
          dsimp only at same
          rw [buffer.any_isNone e] at same
          cases same.1

/-- Two calls that find different bytes in the buffer have the same outcome exactly if a null
    character is in both buffers or in none, or nothing is left to read. -/
theorem readdir_ignores_buffer_iff (sound : s.Sound V) (t : ThreadId) (fd : Int)
    (buffer : Writable mem name) (buffer' : Writable mem' name) :
    SameOutcome mem mem' name (s.readdir_ t mem fd name) (s.readdir_ t mem' fd name) ↔
      (HasNull mem name ↔ HasNull mem' name) ∨ s.NothingLeft V t fd := by
  have refused {m : AddressSpace} (invalid : isValidStr m name (readdirMaxLen + 1) = some false) :
      s.readdir_ t m fd name = .returns (false, m, s) := by
    unfold readdir_
    rw [invalid]
  rcases buffer.isValidStr with ⟨null, valid⟩ | ⟨noNull, valid⟩ <;>
    rcases buffer'.isValidStr with ⟨null', valid'⟩ | ⟨noNull', valid'⟩
  · refine iff_of_true ?_ (.inl (iff_of_true null null'))
    unfold readdir_
    rw [valid, valid']
    cases s.table.find t fd with
    | none => exact ⟨rfl, rfl, fun _ => ⟨rfl, rfl⟩, nofun⟩
    | some ptr =>
      dsimp only
      cases (s.file ptr).bind s.fs.filesysReaddir with
      | none => trivial
      | some r =>
        obtain ⟨_ | e, file, fs⟩ := r
        · exact ⟨rfl, rfl, fun _ => ⟨rfl, rfl⟩, nofun⟩
        dsimp only
        rw [buffer.any_isNone e, buffer'.any_isNone e]
        exact ⟨rfl, rfl, nofun, fun _ => ⟨_, rfl, rfl⟩⟩
  · rw [refused valid', readdir_sameOutcome_iff sound buffer valid, or_iff_right]
    exact fun same => noNull' (same.mp null)
  · rw [refused valid, or_iff_right fun same => noNull (same.mpr null')]
    exact ⟨fun same => (readdir_sameOutcome_iff sound buffer' valid').mp same.symm,
      fun left => ((readdir_sameOutcome_iff sound buffer' valid').mpr left).symm⟩
  · rw [refused valid, refused valid']
    exact iff_of_true ⟨rfl, rfl, fun _ => ⟨rfl, rfl⟩, nofun⟩ (.inl (iff_of_false noNull noNull'))

theorem textAt_writable (text : List Byte) : Writable (textAt text) 0x1000 := by
  have below : ((bufferAddrs 0x1000 (readdirMaxLen + 1)).all (· < physBase)) = true := by decide
  exact ⟨by decide, fun a inside => ⟨of_decide_eq_true (all_eq_true.mp below a inside), rfl⟩⟩

/-- An empty buffer, and one with a text of 60 characters. -/
theorem readdir_ignores_buffer_iff_sixty : ∃ (s : SyscallState) (V : Volume), s.Sound V ∧
    SameOutcome (textAt []) (textAt (replicate 60 0x61)) 0x1000
      (s.readdir_ 1 (textAt []) 2 0x1000) (s.readdir_ 1 (textAt (replicate 60 0x61)) 2 0x1000) := by
  obtain ⟨fs, sound, -⟩ := exists_rootOpen
  have null : HasNull (textAt []) 0x1000 ∧ HasNull (textAt (replicate 60 0x61)) 0x1000 :=
    ⟨⟨0x103c, by decide, by decide⟩, ⟨0x103c, by decide, by decide⟩⟩
  exact ⟨_, _, sound, (readdir_ignores_buffer_iff sound 1 2 (textAt_writable _)
    (textAt_writable _)).mpr (.inl (iff_of_true null.1 null.2))⟩

/-- The name of a file is stored in an empty buffer; if the buffer has no null character, the
    call fails and the position stays where it is. -/
theorem readdir_depends_on_buffer : ∃ (s : SyscallState) (V : Volume), s.Sound V ∧
    (∃ mem s', s.readdir_ 1 (textAt []) 2 0x1000 = .returns (true, mem, s')) ∧
    s.readdir_ 1 (textAt (replicate 61 0x61)) 2 0x1000 =
      .returns (false, textAt (replicate 61 0x61), s) := by
  obtain ⟨fs, V, t, models, tree, entered, -⟩ := exists_file_a
  obtain ⟨n, found, isDir, -⟩ := tree.root
  obtain ⟨fs1, -, -, models1⟩ := models.inodeOpen_opened found
  have found1 : (V.opened rootDirSector).node rootDirSector = some n := by
    rw [Volume.opened_node, found]
  refine ⟨rootOpen fs1, _, rootOpen_sound tree models1, ?_, rfl⟩
  obtain ⟨fs2, run, -⟩ := models1.readdirLoop found1 Volume.opened_handle_self
    (Nat.zero_le n.content.entryCnt) (Nat.lt_succ_self _)
  -- the entry of the file is in use
  obtain ⟨j, isNext⟩ : ∃ j, Models.nextUsed n.content 0 = some j := by
    unfold Volume.lookup at entered
    rw [found, bind_eq_bind, bind_some, if_neg (by decide), if_neg (by decide)] at entered
    obtain ⟨i, isAt, -⟩ := map_eq_some_iff.mp entered
    have used := (Bool.and_eq_true_iff.mp (FileBytes.find_eq_some.mp isAt).1).1
    rw [← isSome_iff_exists, Models.nextUsed, find?_isSome]
    exact ⟨i, mem_range'_1.mpr ⟨i.zero_le, by simpa using FileBytes.lt_entryCnt used⟩, used⟩
  rw [isNext] at run
  have reads : (rootOpen fs1).fs.filesysReaddir (fileOpen rootDirSector) =
      some (some (n.content.entry j).name,
        { fileOpen rootDirSector with pos := ((entrySize * (j + 1) : Nat) : Int) }, fs2) := by
    unfold FS.filesysReaddir rootOpen fileOpen
    simp only [models1.inodeIsDir found1 Volume.opened_handle_self, isDir,
      models1.entryBound found1 Volume.opened_handle_self, bind_eq_bind, bind_some, if_true]
    rw [show readdirLoop rootDirSector (n.content.entryCnt + 1) 0 fs1 = _ from run, bind_some]
    dsimp only [fileSeek, Option.elim]
    rw [if_neg (Int.not_lt.mpr (Int.natCast_nonneg _))]
    rfl
  have valid : isValidStr (textAt []) 0x1000 (readdirMaxLen + 1) = some true := by decide
  have isFile : (rootOpen fs1).table.find 1 2 = some 0 := rfl
  unfold readdir_
  simp only [valid, isFile, show (rootOpen fs1).file 0 = some (fileOpen rootDirSector) from rfl,
    bind_some, reads, (textAt_writable []).any_isNone]
  exact ⟨_, _, rfl⟩

end SyscallState

end Pintos
