import Pintos.Filesys.Proofs.Format
import Pintos.Misc.Transition

/-!
# Inodes refine byte arrays

Runs of `inode_create`, `inode_write_at` and `inode_read_at` on the inodes of a
formatted file system, beside the same calls on plain byte arrays. An inode is
created as its callers do it: in a sector from `free_map_allocate`, and then opened.
-/

namespace Pintos

open Function Option Volume

/-- A call on the inodes; `askLength` is `inode_length`. -/
inductive InodeCall where
  | create (length : Nat) (isDir : Bool) (parent : BlockSector)
  | writeAt (sector : BlockSector) (buffer : Nat → Byte) (size offset : Nat)
  | readAt (sector : BlockSector) (size offset : Nat)
  | askLength (sector : BlockSector)

/-- What a call returns. -/
inductive InodeReply where
  | created (sector : Option BlockSector)
  | wrote (bytesWritten : Int)
  | read (bytes : List Byte)
  | hasLength (length : Int)

/-- A sector is allocated, an inode created in it and opened. -/
def FS.createOpen (fs : FS) (length : Nat) (isDir : Bool) (parent : BlockSector) :
    Option (Option BlockSector × FS) := do
  match ← fs.freeMapAllocate with
  | (none, fs) => some (none, fs)
  | (some sector, fs) =>
      match ← fs.inodeCreate sector length isDir parent with
      | (false, fs) => some (none, fs)
      | (true, fs) =>
          let fs ← fs.inodeOpen sector
          some (some sector, fs)

/-- Execute a call; `none` is a kernel panic. -/
def InodeCall.exec (fs : FS) : InodeCall → Option (InodeReply × FS)
  | create length isDir parent => do
      let (sector, fs) ← fs.createOpen length isDir parent
      some (.created sector, fs)
  | writeAt sector buffer size offset => do
      let (bytesWritten, fs) ← fs.inodeWriteAt sector buffer size offset
      some (.wrote bytesWritten, fs)
  | readAt sector size offset => do
      let (bytes, fs) ← fs.inodeReadAt sector size offset
      some (.read bytes, fs)
  | askLength sector => do
      let length ← fs.inodeLength sector
      some (.hasLength length, fs)

/-- The inodes that were created, as byte arrays. -/
abbrev ByteArrays := BlockSector → Option FileBytes

namespace ByteArrays

/-- The reply is what the byte arrays say: a new inode gets a new number, a write
    writes all its bytes, a read returns the bytes that are there. -/
def Agrees (m : ByteArrays) : InodeCall → InodeReply → Prop
  | .create .., .created sector => ∀ s, sector = some s → m s = none
  | .writeAt _ _ size _, .wrote bytesWritten => bytesWritten = size
  | .readAt s size offset, .read bytes => ∃ b, m s = some b ∧ bytes = b.read size offset
  | .askLength s, .hasLength length => ∃ b, m s = some b ∧ length = b.length
  | _, _ => False

/-- The byte arrays after a call. -/
def next (m : ByteArrays) : InodeCall → InodeReply → ByteArrays
  | .create length _ _, .created (some s) => update m s (some (.zeros length))
  | .writeAt s buffer size offset, _ =>
      update m s ((m s).map fun b => b.write buffer size offset)
  | _, _ => m

/-- The calls are made on inodes that were created, at offsets that fit `off_t`. -/
def Permits (m : ByteArrays) : InodeCall → Prop
  | .create length _ _ => length < 2 ^ 31
  | .writeAt s _ size offset | .readAt s size offset => (m s).isSome ∧ offset + size < 2 ^ 31
  | .askLength s => (m s).isSome

end ByteArrays

/-- No end of an inode is so large that `bytes_to_sectors` overflows. -/
def InodeCall.NoOverflow : InodeCall → Prop
  | create length _ _ => length ≤ 2 ^ 31 - 512
  | writeAt _ _ size offset => offset + size ≤ 2 ^ 31 - 512
  | _ => True

namespace InodeRun

variable {V : Volume} {s : BlockSector} {length offset size : Nat}

/-- A formatted file system in which no inode was created yet. -/
def Init (s : FS × ByteArrays) : Prop := Formatted s.1 ∧ s.2 = fun _ => none

/-- One call, during which no `inode_grow_unlocked` fails, on both sides. -/
def next (s : FS × ByteArrays) (call : InodeCall) : Option (FS × ByteArrays) :=
  match call.exec s.1 with
  | none => none
  | some (reply, fs) => if fs.growFailed then none else some (fs, s.2.next call reply)

/-- The calls of the run are permitted and meet `cond`. -/
def Calls (cond : InodeCall → Prop) (s : FS × ByteArrays) (call : InodeCall) : Prop :=
  s.2.Permits call ∧ cond call

/-- The file system holds the byte arrays, in inodes that are open for writing. -/
def Holds (fs : FS) (m : ByteArrays) : Prop :=
  ∃ V, Models fs V [] ∧ ∀ s b, m s = some b →
    ∃ n o, V.node s = some n ∧ n.content = b ∧ V.handle s = some o ∧ o.denyWriteCnt = 0

/-- A change of one inode of the volume and of the byte array there. -/
theorem Holds.put {fs : FS} {m : ByteArrays} {n : Node} {o : Handle}
    (models : Models fs (V.put s (some n) (some o)) [])
    (others : ∀ t b, m t = some b → ∃ n o, V.node t = some n ∧ n.content = b ∧
      V.handle t = some o ∧ o.denyWriteCnt = 0)
    (allowed : o.denyWriteCnt = 0) : Holds fs (update m s (some n.content)) := by
  refine ⟨_, models, ?_⟩
  intro t b isArray
  by_cases same : t = s
  · subst same
    rw [update_self] at isArray
    exact ⟨n, o, put_node_self, some.inj isArray, put_handle_self, allowed⟩
  rw [update_of_ne same] at isArray
  rw [put_node_of_ne same, put_handle_of_ne same]
  exact others t b isArray

/-- A call returns; unless a growth failed, its reply agrees with the byte arrays and
    the file system holds the arrays after the call. -/
def Correct (fs : FS) (m : ByteArrays) (call : InodeCall) : Prop :=
  ∃ reply fs', call.exec fs = some (reply, fs') ∧
    (fs'.growFailed = false → m.Agrees call reply ∧ Holds fs' (m.next call reply))

variable {fs : FS} {m : ByteArrays}

theorem createOpen_spec {fs : FS} (models : Models fs V [])
    (bound : length ≤ 2 ^ 31 - 512) (isDir : Bool) (parent : BlockSector) :
    ∃ r fs', fs.createOpen length isDir parent = some (r, fs') ∧
      Costs (1 + ((length + 511) / 512 + 130)) fs fs' ∧
      (r = none → (fs'.growFailed = true ∨ Models fs' V []) ∧
        (512 * maxSectors < length ∨ fs'.allocFailed = true)) ∧
      ∀ t, r = some t → V.node t = none ∧ fs'.growFailed = fs.growFailed ∧
        Models fs' (V.put t (some (Node.new isDir parent length)) (some Handle.first)) [] := by
  obtain ⟨r, fs1, run1, steady1, effect⟩ := models.freeMapAllocate
  unfold FS.createOpen
  rw [run1]
  cases r with
  | none =>
    refine ⟨none, fs1, rfl, steady1.toCosts.mono (by omega),
      fun _ => ⟨Or.inr effect.2, Or.inr effect.1⟩, ?_⟩
    exact fun t isSome => nomatch isSome
  | some t =>
    have reserved : Models fs1 V [t] := effect
    obtain ⟨noNode, -, noHandle⟩ := reserved.of_reserved List.mem_cons_self
    obtain ⟨ok, fs2, run2, costs2, success, failure⟩ := reserved.inodeCreate bound isDir parent
    rw [bind_eq_bind, bind_some]
    dsimp only
    rw [run2, bind_eq_bind, bind_some]
    cases ok with
    | false =>
      obtain ⟨-, failed, why⟩ := failure rfl
      refine ⟨none, fs2, rfl, steady1.toCosts.trans costs2, fun _ => ⟨Or.inl failed, why⟩, ?_⟩
      exact fun t isSome => nomatch isSome
    | true =>
      obtain ⟨steady2, models2⟩ := success rfl
      obtain ⟨fs3, run3, steady3, models3⟩ := models2.inodeOpen put_node_self
      dsimp only
      rw [run3]
      refine ⟨some t, fs3, rfl, (steady1.toCosts.trans costs2).trans steady3.toCosts, ?_, ?_⟩
      · exact fun isNone => nomatch isNone
      intro u isT
      obtain rfl := some.inj isT
      rw [put_put, put_handle_self] at models3
      exact ⟨noNode, steady3.steady.trans (steady2.trans steady1.steady), models3⟩

section

variable (holds : Holds fs m)
include holds

theorem correct_create (bound : length ≤ 2 ^ 31 - 512)
    (isDir : Bool) (parent : BlockSector) : Correct fs m (.create length isDir parent) := by
  obtain ⟨V, models, arrays⟩ := holds
  obtain ⟨r, fs', run, -, failure, success⟩ := createOpen_spec models bound isDir parent
  have exec : InodeCall.exec fs (.create length isDir parent) = some (.created r, fs') := by
    rw [InodeCall.exec, run]
    rfl
  refine ⟨.created r, fs', exec, ?_⟩
  intro grown
  cases r with
  | none =>
    rcases (failure rfl).1 with failed | models'
    · rw [failed] at grown
      cases grown
    · refine ⟨?_, V, models', arrays⟩
      exact fun t isSome => nomatch isSome
  | some t =>
    obtain ⟨noNode, -, models'⟩ := success t rfl
    refine ⟨?_, Holds.put models' arrays rfl⟩
    intro u isT
    obtain rfl := some.inj isT
    cases isArray : m t with
    | none => rfl
    | some b =>
      obtain ⟨n, o, found, -⟩ := arrays t b isArray
      rw [noNode] at found
      cases found

theorem correct_writeAt
    (created : (m s).isSome) (buffer : Nat → Byte) (bound : offset + size ≤ 2 ^ 31 - 512) :
    Correct fs m (.writeAt s buffer size offset) := by
  obtain ⟨V, models, arrays⟩ := holds
  obtain ⟨b, isArray⟩ := isSome_iff_exists.mp created
  obtain ⟨n, o, found, rfl, handle, allowed⟩ := arrays s b isArray
  obtain ⟨r, fs', run, -, written⟩ := models.inodeWriteAt found handle allowed buffer bound
  have exec : InodeCall.exec fs (.writeAt s buffer size offset) = some (.wrote r, fs') := by
    rw [InodeCall.exec, run]
    rfl
  refine ⟨.wrote r, fs', exec, ?_⟩
  intro grown
  cases written with
  | done models' _ =>
    refine ⟨rfl, ?_⟩
    show Holds fs' (update m s ((m s).map fun b => b.write buffer size offset))
    rw [isArray]
    exact Holds.put models' arrays allowed
  | undone _ failed _ _ | broken failed _ =>
    rw [failed] at grown
    cases grown

theorem correct_readAt (created : (m s).isSome) (bound : offset + size < 2 ^ 31) :
    Correct fs m (.readAt s size offset) := by
  obtain ⟨V, models, arrays⟩ := holds
  obtain ⟨b, isArray⟩ := isSome_iff_exists.mp created
  obtain ⟨n, o, found, rfl, handle, -⟩ := arrays s b isArray
  have small : offset < 2 ^ 31 := by omega
  obtain ⟨fs', run, -, models'⟩ := models.inodeReadAt found handle size small
  have exec : InodeCall.exec fs (.readAt s size offset) =
      some (.read (n.content.read size offset), fs') := by
    rw [InodeCall.exec, run]
    rfl
  exact ⟨.read _, fs', exec, fun _ => ⟨⟨_, isArray, rfl⟩, V, models', arrays⟩⟩

theorem correct_askLength (created : (m s).isSome) : Correct fs m (.askLength s) := by
  obtain ⟨V, models, arrays⟩ := holds
  obtain ⟨b, isArray⟩ := isSome_iff_exists.mp created
  obtain ⟨n, o, found, rfl, handle, -⟩ := arrays s b isArray
  have exec : InodeCall.exec fs (.askLength s) = some (.hasLength n.content.length, fs) := by
    rw [InodeCall.exec, models.inodeLength found handle]
    rfl
  exact ⟨.hasLength _, fs, exec, fun _ => ⟨⟨_, isArray, rfl⟩, V, models, arrays⟩⟩

theorem Holds.correct (call : InodeCall) (permitted : m.Permits call)
    (small : call.NoOverflow) : Correct fs m call := by
  cases call with
  | create length isDir parent => exact correct_create holds small isDir parent
  | writeAt s buffer size offset => exact correct_writeAt holds permitted.1 buffer small
  | readAt s size offset => exact correct_readAt holds permitted.1 permitted.2
  | askLength s => exact correct_askLength holds permitted

end

theorem Holds.of_init {s : FS × ByteArrays} (init : Init s) : Holds s.1 s.2 := by
  refine ⟨formattedVolume, init.1.models, ?_⟩
  intro t b isArray
  rw [init.2] at isArray
  cases isArray

theorem Holds.of_reachable {s : FS × ByteArrays}
    (reach : Reachable Init next (Calls InodeCall.NoOverflow) s) : Holds s.1 s.2 := by
  refine reach.invariant (fun _ => Holds.of_init) ?_
  intro s call s' holds allowed step
  obtain ⟨reply, fs', run, correct⟩ := holds.correct call allowed.1 allowed.2
  unfold next at step
  rw [run] at step
  dsimp only at step
  cases grown : fs'.growFailed with
  | true =>
    rw [grown] at step
    cases step
  | false =>
    rw [grown] at step
    rw [← some.inj step]
    exact (correct grown).2

/-- In every state of a run without overflow, every permitted call without overflow
    returns, and unless a growth fails its reply is that of the byte arrays. -/
theorem inodes_refine_byte_arrays {s : FS × ByteArrays}
    (reached : Reachable Init next (Calls InodeCall.NoOverflow) s) (call : InodeCall)
    (permitted : s.2.Permits call) (small : call.NoOverflow) :
    ∃ reply fs', call.exec s.1 = some (reply, fs') ∧
      (fs'.growFailed = false → s.2.Agrees call reply) := by
  obtain ⟨reply, fs', run, correct⟩ :=
    (Holds.of_reachable reached).correct call permitted small
  exact ⟨reply, fs', run, fun grown => (correct grown).1⟩

/-! ## Runs of one inode -/

theorem exists_created (cond : InodeCall → Prop) (small : length ≤ 1000)
    (allowed : cond (.create length false rootDirSector)) :
    ∃ (s : FS × ByteArrays) (V : Volume) (t : BlockSector), Reachable Init next (Calls cond) s ∧
      s.2 = update (fun _ => none) t (some (.zeros length)) ∧
      Models s.1 V [] ∧ V.node t = some (Node.new false rootDirSector length) ∧
      V.handle t = some Handle.first ∧ s.1.growFailed = false ∧ s.1.allocFailed = false ∧
      1000 ≤ s.1.freeCount := by
  obtain ⟨fs, formatted, quiet, grown, -, room⟩ := exists_formatted
  obtain ⟨r, fs', run, costs, failure, success⟩ :=
    createOpen_spec formatted.models (show length ≤ 2 ^ 31 - 512 by omega) false rootDirSector
  have quiet' : fs'.allocFailed = false := by
    cases failed : fs'.allocFailed with
    | false => rfl
    | true =>
      rcases costs.quiet failed with old | few
      · rw [quiet] at old
        cases old
      · omega
  cases r with
  | none =>
    rcases (failure rfl).2 with tooLong | failed
    · unfold maxSectors at tooLong
      omega
    · rw [quiet'] at failed
      cases failed
  | some t =>
    obtain ⟨-, steady, models⟩ := success t rfl
    have grown' : fs'.growFailed = false := steady.trans grown
    have step : next (fs, fun _ => none) (.create length false rootDirSector) =
        some (fs', update (fun _ => none) t (some (.zeros length))) := by
      unfold next InodeCall.exec
      dsimp only
      rw [run, bind_eq_bind, bind_some]
      dsimp only
      rw [grown']
      rfl
    have free := costs.free
    refine ⟨_, _, t, .step (.start ⟨formatted, rfl⟩) ⟨?_, allowed⟩ step, rfl, models,
      put_node_self, put_handle_self, grown', quiet', ?_⟩
    · show length < 2 ^ 31
      omega
    · show 1000 ≤ fs'.freeCount
      omega

/-- A write behind the end of a new file with ten bytes. -/
theorem inodes_refine_byte_arrays_sparse : ∃ (s : FS × ByteArrays) (t : BlockSector) (fs' : FS),
      Reachable Init next (Calls InodeCall.NoOverflow) s ∧ s.2 t = some (.zeros 10) ∧
      (InodeCall.writeAt t (fun _ => 7) 3 600).exec s.1 = some (.wrote 3, fs') := by
  obtain ⟨s, V, t, reached, isNew, models, found, handle, grown, quiet, room⟩ :=
    exists_created InodeCall.NoOverflow (show 10 ≤ 1000 by decide)
      (show 10 ≤ 2 ^ 31 - 512 by decide)
  have atT : s.2 t = some (.zeros 10) := by
    rw [isNew, update_self]
  have permitted : s.2.Permits (.writeAt t (fun _ => 7) 3 600) := by
    refine ⟨?_, by decide⟩
    rw [atT]
    rfl
  obtain ⟨reply, fs', run, agrees⟩ := inodes_refine_byte_arrays reached
    (.writeAt t (fun _ => 7) 3 600) permitted (show 600 + 3 ≤ 2 ^ 31 - 512 by decide)
  obtain ⟨r, fs2, run2, costs, written⟩ := models.inodeWriteAt found handle rfl (fun _ => 7)
    (show 600 + 3 ≤ 2 ^ 31 - 512 by decide)
  have exec : InodeCall.exec s.1 (.writeAt t (fun _ => 7) 3 600) = some (.wrote r, fs2) := by
    rw [InodeCall.exec, run2]
    rfl
  rw [exec] at run
  obtain ⟨rfl, rfl⟩ := Prod.mk.inj (some.inj run)
  have quiet2 : fs2.allocFailed = false := by
    cases failed : fs2.allocFailed with
    | false => rfl
    | true =>
      rcases costs.quiet failed with before | few
      · rw [quiet] at before
        cases before
      · omega
  have grown2 : fs2.growFailed = false := by
    cases written with
    | done _ steady => exact steady.trans grown
    | undone _ _ _ why =>
      rcases why with tooLong | failed
      · exact absurd tooLong (by decide)
      · rw [quiet2] at failed
        cases failed
    | broken _ why =>
      rcases why with ⟨-, tooLong⟩ | failed
      · exact absurd tooLong (by decide)
      · rw [quiet2] at failed
        cases failed
  have isThree : r = 3 := agrees grown2
  subst isThree
  exact ⟨s, t, fs2, reached, atT, exec⟩

/-! ## The overflow of `bytes_to_sectors` -/

/-- Writing the last byte that `off_t` can address. -/
theorem write_at_off_t_max_panics : ∃ (s : FS × ByteArrays) (call : InodeCall),
      Reachable Init next (Calls fun _ => True) s ∧ s.2.Permits call ∧ call.exec s.1 = none := by
  obtain ⟨s, V, t, reached, isNew, models, found, handle, -⟩ :=
    exists_created (fun _ => True) (show 0 ≤ 1000 by decide) trivial
  refine ⟨s, .writeAt t (fun _ => 7) 1 (2 ^ 31 - 2), reached, ⟨?_, by decide⟩, ?_⟩
  · rw [isNew, update_self]
    rfl
  rw [InodeCall.exec, (models.inodeWriteAt_eq_none_iff found handle rfl (fun _ => 7) (by decide)
    (by decide) (by decide) (by decide)).mpr ⟨by decide, by decide, .inl (by decide)⟩]
  rfl

end InodeRun

end Pintos
