import Pintos.Filesys.Proofs.FilesysSpec
import Pintos.Filesys.Proofs.PathSplit
import Pintos.Userprog.Descriptors

/-!
# Descriptors of processes

The table names exactly the live descriptors. A process that is in a call on a descriptor
owns it, and nobody else can give it up in the meantime, so the `struct file` that the call
has read from the table is still there when it is used.
-/

namespace Pintos

open List Option FdTable

namespace Volume

variable {V : Volume} {cwd dir target : BlockSector}

/-- Names lead from an inode to another one, each through a directory. -/
inductive Leads (V : Volume) : BlockSector → List FileName → BlockSector → Prop
  | here (s : BlockSector) : Leads V s [] s
  | enter {dir next target : BlockSector} {first : FileName} {rest : List FileName} :
      V.isDir dir = true → V.lookup dir first = some next → Leads V next rest target →
      Leads V dir (first :: rest) target

theorem Leads.walk {before : List FileName} {fileName : FileName}
    (leads : V.Leads dir (before ++ [fileName]) target) :
    ∃ last, V.walk before dir = (true, last) ∧ V.lookup last fileName = some target := by
  induction before generalizing dir with
  | nil =>
    cases leads with
    | enter _ found rest =>
      cases rest
      exact ⟨dir, rfl, found⟩
  | cons first before ih =>
    cases leads with
    | @enter _ next _ _ _ _ found rest =>
      obtain ⟨last, walked, found'⟩ := ih rest
      have isDir : V.isDir next = true := by
        cases before <;> cases rest <;> assumption
      refine ⟨last, ?_, found'⟩
      rw [Volume.walk, found, Option.filter_some, isDir]
      exact walked

/-- `filesys_open` finds what a name leads to, unless the name ends in a slash. -/
theorem Leads.resolve {name : List Byte}
    (leads : V.Leads (start cwd name) (parts slash name) target)
    (nonempty : name ≠ []) (isDir : V.isDir (start cwd name) = true)
    (noSlash : endsInSlash name = false ∨ isRootPath name = true) :
    V.resolve cwd name = some target := by
  unfold Volume.resolve
  rw [if_neg nonempty]
  cases isRoot : isRootPath name with
  | true =>
    have slashes : ∀ c ∈ name, c = slash := by simpa [isRootPath] using isRoot
    rw [parts_eq_nil_iff.mpr slashes] at leads
    cases leads
    rw [if_pos rfl, start, if_pos]
    rw [head?_eq_some_head nonempty, slashes _ (head_mem nonempty)]
  | false =>
    have spec := pathSplit_spec name false
    have ends := noSlash.resolve_right (by simp [isRoot])
    rw [if_neg Bool.false_ne_true]
    cases split : pathSplit name false with
    | none =>
      rw [split] at spec
      rcases spec with none | ⟨-, slashed⟩
      · have all : isRootPath name = true := by simpa [isRootPath] using parts_eq_nil_iff.mp none
        exact absurd (all.symm.trans isRoot) (by decide)
      · exact absurd (slashed.symm.trans ends) (by decide)
    | some path =>
      obtain ⟨pathName, fileName⟩ := path
      rw [split] at spec
      obtain ⟨-, -, -, before, components, tokens⟩ := spec
      rw [components] at leads
      obtain ⟨last, walked, found⟩ := leads.walk
      have isTokens : pathTokens pathName = _ := tokens
      have reaches : V.walk (pathTokens pathName) (start cwd name) = (true, last) := by
        rw [isTokens]
        split
        · next single =>
          obtain ⟨n, node, -⟩ := isDir_iff.mp isDir
          rw [single.1] at walked
          rw [Volume.walk, Volume.lookup, node, bind_eq_bind, bind_some, if_pos rfl,
            Option.filter_some, isDir]
          exact walked
        · exact walked
      simp only [reaches, found]

end Volume

namespace FdSystem

/-- What a process may rely on at its place. -/
def Stands (s : FdSystem) (t : ThreadId) : FdPlace → Prop
  | .outside => True
  | .opening ptr => ptr < s.nextFile ∧ (s.file ptr).isSome ∧ (∀ d ∈ s.live, d.ptr ≠ ptr) ∧
      ∀ u, s.place u = .opening ptr → u = t
  | .tested fd => ∃ ptr, ⟨t, fd, ptr⟩ ∈ s.live
  | .found _ fd ptr => ⟨t, fd, ptr⟩ ∈ s.live
  | .closed fd => ∃ ptr, ⟨t, fd, ptr⟩ ∈ s.live

/-- The invariant. -/
structure Sound (s : FdSystem) : Prop where
  aligned : s.table.Aligned
  live_iff : ∀ {t fd ptr}, ⟨t, fd, ptr⟩ ∈ s.live ↔
    s.table.fdOwner fd = some t ∧ s.table.fdEntry fd = some ptr
  nodup : (s.live.map Descriptor.fd).Nodup
  ptrs : ∀ {d e}, d ∈ s.live → e ∈ s.live → d.ptr = e.ptr → d = e
  old : ∀ {d}, d ∈ s.live → d.ptr < s.nextFile
  held : ∀ {d}, d ∈ s.live → s.place d.owner ≠ .closed d.fd → (s.file d.ptr).isSome
  stands : ∀ t, s.Stands t (s.place t)

namespace Sound

variable {s s' : FdSystem} {t : ThreadId} {fd ptr : Nat} {call : FdCall}

theorem find_live (sound : s.Sound) {fd : Int} (found : s.table.find t fd = some ptr) :
    ⟨t, fd.toNat, ptr⟩ ∈ s.live :=
  sound.live_iff.mpr (find_eq_some.mp found).2.2

attribute [local grind =] Function.update_apply

/-- `Stands` by the kind of place. -/
theorem stands_iff {place : FdPlace} : s.Stands t place ↔
    (∀ ptr, place = .opening ptr → ptr < s.nextFile ∧ (s.file ptr).isSome ∧
      (∀ d ∈ s.live, d.ptr ≠ ptr) ∧ ∀ u, s.place u = .opening ptr → u = t) ∧
    (∀ fd, place = .tested fd ∨ place = .closed fd → ∃ ptr, ⟨t, fd, ptr⟩ ∈ s.live) ∧
    ∀ call fd ptr, place = .found call fd ptr → ⟨t, fd, ptr⟩ ∈ s.live := by
  cases place <;> simp [Stands]

section

variable (sound : s.Sound)
include sound

/-- A process that is not opening a file and not closing one moves. Other processes do not
    notice. -/
theorem goto {place : FdPlace} (notClosed : ∀ fd, s.place t ≠ .closed fd)
    (stands : s.Stands t place) (notOpening : ∀ ptr, place ≠ .opening ptr) :
    (s.goto t place).Sound := by
  have all := fun u => stands_iff.mp (sound.stands u)
  have held := @sound.held
  rw [stands_iff] at stands
  refine ⟨sound.aligned, sound.live_iff, sound.nodup, sound.ptrs, sound.old, ?_, ?_⟩ <;>
    simp only [FdSystem.goto, stands_iff] <;> grind

theorem congr_eax (eax : ThreadId → Int) : ({ s with eax } : FdSystem).Sound :=
  ⟨sound.aligned, sound.live_iff, sound.nodup, sound.ptrs, sound.old, sound.held, sound.stands⟩

theorem congr_fs (fs : FS) : ({ s with fs } : FdSystem).Sound :=
  ⟨sound.aligned, sound.live_iff, sound.nodup, sound.ptrs, sound.old, sound.held, sound.stands⟩

theorem ret (notClosed : ∀ fd, s.place t ≠ .closed fd) (result : Int) : (s.ret t result).Sound :=
  (sound.goto notClosed (show s.Stands t .outside from trivial) nofun).congr_eax _

/-- A `struct file` is made or changed. -/
theorem setFile (ptr : Nat) (file : File) : (s.setFile ptr (some file)).Sound := by
  have all := fun u => stands_iff.mp (sound.stands u)
  have held := @sound.held
  refine ⟨sound.aligned, sound.live_iff, sound.nodup, sound.ptrs, sound.old, ?_, ?_⟩ <;>
    simp only [FdSystem.setFile, stands_iff] <;> grind

/-- `filesys_open` returns a new `struct file`. -/
theorem open_begin (outside : s.place t = .outside) (file : File) :
    (({ s with nextFile := s.nextFile + 1 }.setFile s.nextFile (some file)).goto t
      (.opening s.nextFile)).Sound := by
  have all := fun u => stands_iff.mp (sound.stands u)
  have held := @sound.held
  have old := @sound.old
  refine ⟨sound.aligned, sound.live_iff, sound.nodup, sound.ptrs, ?_, ?_, ?_⟩ <;>
    simp only [FdSystem.setFile, FdSystem.goto, stands_iff] <;> grind

/-- The `struct file` of a failed `open_` is freed. -/
theorem free_opening (opening : s.place t = .opening ptr)
    (result : Int) : ((s.setFile ptr none).ret t result).Sound := by
  have all := fun u => stands_iff.mp (sound.stands u)
  have held := @sound.held
  refine ⟨sound.aligned, sound.live_iff, sound.nodup, sound.ptrs, sound.old, ?_, ?_⟩ <;>
    simp only [FdSystem.setFile, FdSystem.ret, stands_iff] <;> grind

/-- `open_` takes a descriptor for its file. -/
theorem alloc {table : FdTable Nat}
    (opening : s.place t = .opening ptr) (run : s.table.alloc t ptr = (some fd, table))
    (result : Int) :
    ({ s with table, live := ⟨t, fd, ptr⟩ :: s.live }.ret t result : FdSystem).Sound := by
  obtain ⟨low, -, free, rfl⟩ := alloc_some run
  have unowned : s.table.fdOwner fd = none := by
    by_contra owned
    rw [(sound.aligned.owner fd low).mpr owned] at free
    cases free
  have aligned : (s.table.set fd (some t) (some ptr)).Aligned := sound.aligned.set low (by simp)
  have all := fun u => stands_iff.mp (sound.stands u)
  have live := @sound.live_iff
  have ptrs := @sound.ptrs
  have old := @sound.old
  have held := @sound.held
  have fresh : ∀ d ∈ s.live, d.fd ≠ fd := by
    rintro d isLive rfl
    rw [(sound.live_iff.mp isLive).1] at unowned
    cases unowned
  refine ⟨aligned, ?_, by simpa [FdSystem.ret, sound.nodup] using fresh, ?_, ?_, ?_, ?_⟩ <;>
    simp only [FdSystem.ret, stands_iff, FdTable.set] <;> grind

/-- The `struct file` of a descriptor is freed; its process is in `close_`. -/
theorem free
    (found : s.place t = .found call fd ptr) : ((s.setFile ptr none).goto t (.closed fd)).Sound := by
  have all := fun u => stands_iff.mp (sound.stands u)
  have ptrs := @sound.ptrs
  have held := @sound.held
  refine ⟨sound.aligned, sound.live_iff, sound.nodup, sound.ptrs, sound.old, ?_, ?_⟩ <;>
    simp only [FdSystem.setFile, FdSystem.goto, stands_iff] <;> grind

/-- `close_` gives the descriptor up. -/
theorem clear (closed : s.place t = .closed fd) : ({ s with
      table := s.table.clear fd
      live := s.live.filter fun d => ¬ (d.owner = t ∧ d.fd = fd) }.ret t 0 : FdSystem).Sound := by
  have all := fun u => stands_iff.mp (sound.stands u)
  have live := @sound.live_iff
  have ptrs := @sound.ptrs
  have old := @sound.old
  have held := @sound.held
  obtain ⟨ptr, isLive⟩ := (all t).2.1 fd (.inr closed)
  obtain ⟨owner, entry⟩ := sound.live_iff.mp isLive
  have low : 2 ≤ fd := sound.aligned.two_le (by simp [owner])
  refine ⟨sound.aligned.set low (by simp), ?_, sound.nodup.sublist (List.filter_sublist.map _), ?_,
    ?_, ?_, ?_⟩ <;> simp only [FdSystem.ret, stands_iff, FdTable.clear, FdTable.set] <;> grind

theorem openBegin (outside : s.place t = .outside) {name : List Byte}
    (run : s.openBegin t name = some s') : s'.Sound := by
  have notClosed : ∀ fd, s.place t ≠ .closed fd := by simp [outside]
  unfold FdSystem.openBegin at run
  split at run
  · cases run
    exact sound.ret notClosed _
  split at run
  · cases run
  · next fs _ =>
    cases run
    exact (sound.congr_fs fs).ret notClosed _
  next file fs _ =>
  cases run
  exact (sound.congr_fs fs).open_begin outside file

theorem openEnd (opening : s.place t = .opening ptr) (run : s.openEnd t ptr = some s') : s'.Sound := by
  unfold FdSystem.openEnd at run
  split at run
  · simp only [bind_eq_bind, bind_eq_some_iff, some.injEq] at run
    obtain ⟨file, -, fs, -, rfl⟩ := run
    exact (sound.congr_fs fs).free_opening opening _
  next isAlloc =>
  cases run
  exact sound.alloc opening isAlloc _

theorem begin (outside : s.place t = .outside) (call : FdCall) (fd : Int) :
    (s.begin t call fd).Sound := by
  have notClosed : ∀ fd, s.place t ≠ .closed fd := by simp [outside]
  unfold FdSystem.begin
  cases found : s.table.find t fd with
  | none => exact sound.ret notClosed _
  | some ptr =>
    have live := sound.find_live found
    cases call with
    | readdir => exact sound.goto notClosed (show s.Stands t (.tested _) from ⟨ptr, live⟩) nofun
    | _ => exact sound.goto notClosed (show s.Stands t (.found _ _ ptr) from live) nofun

theorem fetch (tested : s.place t = .tested fd)
    (entry : s.table.fdEntry fd = some ptr) : (s.goto t (.found .readdir fd ptr)).Sound := by
  have stands := sound.stands t
  rw [tested] at stands
  obtain ⟨ptr', live⟩ := stands
  have owner := (sound.live_iff.mp live).1
  have isLive : s.Stands t (.found .readdir fd ptr) := sound.live_iff.mpr ⟨owner, entry⟩
  exact sound.goto (by simp [tested]) isLive nofun

theorem use (found : s.place t = .found call fd ptr)
    (run : s.use t call fd ptr = some s') : s'.Sound := by
  simp only [FdSystem.use, bind_eq_bind, bind_eq_some_iff] at run
  obtain ⟨file, -, ⟨result, file', fs⟩, -, run⟩ := run
  cases call with
  | close =>
    cases run
    exact (sound.congr_fs fs).free found
  | _ =>
    cases run
    exact ((sound.congr_fs fs).setFile ptr file').ret (by simp [FdSystem.setFile, found]) _

theorem step {step : FdStep} (run : s.next step = some s') : s'.Sound := by
  cases step with
  | other fs =>
    cases run
    exact sound.congr_fs fs
  | openBegin t name =>
    simp only [FdSystem.next] at run
    split at run
    · next outside => exact sound.openBegin outside run
    · cases run
  | openEnd t =>
    simp only [FdSystem.next] at run
    split at run
    · next opening => exact sound.openEnd opening run
    · cases run
  | begin t call fd =>
    simp only [FdSystem.next] at run
    split at run
    · next outside =>
      cases run
      exact sound.begin outside call fd
    · cases run
  | fetch t =>
    simp only [FdSystem.next] at run
    split at run
    · next tested =>
      obtain ⟨ptr, entry, ⟨⟩⟩ := bind_eq_some_iff.mp run
      exact sound.fetch tested entry
    · cases run
  | use t =>
    simp only [FdSystem.next] at run
    split at run
    · next found => exact sound.use found run
    · cases run
  | clear t =>
    simp only [FdSystem.next] at run
    split at run
    · next closed =>
      cases run
      exact sound.clear closed
    · cases run

end

end Sound

/-- The state after `syscall_init` over a file system; all processes are in the root directory. -/
def boot (fs : FS) : FdSystem where
  fs := fs
  table := .syscallInit
  file _ := none
  nextFile := 0
  cwd _ := rootDirSector
  place _ := .outside
  eax _ := 0
  live := []

theorem initial_boot (fs : FS) : (boot fs).Initial := ⟨rfl, fun _ => rfl, fun _ => rfl, rfl⟩

end FdSystem

end Pintos
