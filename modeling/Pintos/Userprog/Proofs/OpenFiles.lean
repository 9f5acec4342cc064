import Mathlib.Data.Set.Card
import Pintos.Filesys.Proofs.OpenCount
import Pintos.Userprog.OpenFiles
import Pintos.Userprog.Proofs.Descriptors

/-!
# Descriptors and open counts

As long as a process closes its descriptors before it ends, every `struct file` is used by a
process that is there, and `open_cnt` of an inode is the number of its files.
-/

namespace Pintos

open Function List Option FdSystem FdTable

variable {name : List Byte} {u : ThreadId} {fd : Nat}

/-- The inodes of the `struct file`s below `n`. -/
def inodesOf (file : Nat → Option File) (n : Nat) : List BlockSector :=
  (List.range n).filterMap fun ptr => (file ptr).map File.inode

section InodesOf

variable {file : Nat → Option File} {ptr n : Nat} {f f' : File}

theorem inodesOf_succ (file : Nat → Option File) (n : Nat) :
    inodesOf file (n + 1) = inodesOf file n ++ ((file n).map File.inode).toList := by
  unfold inodesOf
  rw [range_succ, filterMap_append]
  cases isFile : file n <;> simp [isFile]

/-- Only the pointers below `n` matter. -/
theorem inodesOf_update_ge (large : n ≤ ptr) (entry : Option File) :
    inodesOf (update file ptr entry) n = inodesOf file n := by
  apply filterMap_congr
  intro p small
  rw [update_of_ne]
  have := mem_range.mp small
  omega

/-- A new `struct file`. -/
theorem inodesOf_new (file : Nat → Option File) (n : Nat) (f : File) :
    (inodesOf (update file n (some f)) (n + 1)).Perm (f.inode :: inodesOf file n) := by
  rw [inodesOf_succ, inodesOf_update_ge (Nat.le_refl n), update_self]
  exact perm_append_singleton ..

/-- A `struct file` is freed. -/
theorem inodesOf_free (small : ptr < n) (there : file ptr = some f) :
    (inodesOf file n).Perm (f.inode :: inodesOf (update file ptr none) n) := by
  induction n with
  | zero => cases small
  | succ n ih =>
    rw [inodesOf_succ, inodesOf_succ]
    by_cases last : ptr = n
    · rw [last] at there ⊢
      rw [inodesOf_update_ge (Nat.le_refl n), update_self, there]
      simp
    · rw [update_of_ne (Ne.symm last)]
      exact (ih (by omega)).append_right _

/-- A `struct file` changes and stays a file of its inode. -/
theorem inodesOf_change (there : file ptr = some f) (same : f'.inode = f.inode) :
    inodesOf (update file ptr (some f')) n = inodesOf file n := by
  apply filterMap_congr
  intro p _
  by_cases this : p = ptr
  · rw [this, update_self, there, map_some, map_some, same]
  · rw [update_of_ne this]

theorem count_inodesOf (file : Nat → Option File) (sector : BlockSector) (n : Nat) :
    (inodesOf file n).count sector =
      {ptr | ptr < n ∧ (file ptr).map File.inode = some sector}.ncard := by
  have counted : (inodesOf file n).count sector =
      Nat.count (fun ptr => (file ptr).map File.inode = some sector) n := by
    induction n with
    | zero => rfl
    | succ n ih =>
      rw [inodesOf_succ, count_append, ih, Nat.count_succ]
      cases file n <;> simp [count_singleton]
  rw [counted, Nat.count_eq_card_filter_range, ← Set.ncard_coe_finset]
  congr 1
  ext ptr
  simp

end InodesOf

theorem loadReads_keeps (file : File) (reads : List (Int × Int)) (fs : FS) :
    Yields (FS.Keeps fs) (loadReads file reads fs) := by
  induction reads generalizing file fs with
  | nil => exact FS.Keeps.refl fs
  | cons read rest ih =>
    apply Yields.bind_eq
    intro file' _
    apply (FS.fileRead_keeps fs file' _).bind
    intro (_, _, file'', fs') keeps
    exact (ih file'' fs').mono fun _ later => keeps.trans later

namespace OpenFiles

variable {s s' : OpenFiles} {t : ThreadId}

/-- What a process may rely on at its place. -/
def Stands (table : FdTable Nat) (t : ThreadId) : FdPlace → Prop
  | .outside => True
  | .opening _ => True
  | .tested _ => False
  | .found call fd ptr => call = .close ∧ table.fdOwner fd = some t ∧ table.fdEntry fd = some ptr
  | .closed fd => table.fdOwner fd = some t

/-- The invariant. -/
structure Accounted (s : OpenFiles) : Prop where
  aligned : s.sys.table.Aligned
  stands : ∀ t, Stands s.sys.table t (s.sys.place t)
  running : ∀ t, s.sys.place t ≠ .outside → ∃ execFile, s.phase t = .running execFile
  owners : ∀ fd t, s.sys.table.fdOwner fd = some t → ∃ execFile, s.phase t = .running execFile
  used : ∀ ptr, (s.sys.file ptr).isSome → ∃ t, s.Uses t ptr
  old : ∀ ptr, (s.sys.file ptr).isSome → ptr < s.sys.nextFile
  counts : s.sys.fs.Counts (freeMapSector :: inodesOf s.sys.file s.sys.nextFile)

theorem Initial.accounted (init : s.Initial) : s.Accounted where
  aligned := by
    rw [init.sys.table]
    exact aligned_syscallInit
  stands t := by
    rw [init.sys.place]
    trivial
  running t busy := absurd (init.sys.place t) busy
  owners fd t owned := by
    rw [init.sys.table] at owned
    cases owned
  used ptr there := by simp [init.sys.file] at there
  old ptr there := by simp [init.sys.file] at there
  counts := by
    have none : inodesOf s.sys.file s.sys.nextFile = [] := by
      simp [inodesOf, init.sys.file]
    rw [none]
    exact init.counts

namespace Accounted

variable {fs : FS} {ptr : Nat} {file : File}

/-- The counts after a `struct file` was freed. -/
theorem closed (accounted : s.Accounted) (there : s.sys.file ptr = some file)
    (closed : s.sys.fs.fileClose file = some fs) :
    fs.Counts (freeMapSector :: inodesOf (update s.sys.file ptr none) s.sys.nextFile) := by
  have small := accounted.old ptr (by rw [there]; rfl)
  have counts := accounted.counts.perm (.cons _ (inodesOf_free small there))
  exact ((counts.perm (.swap ..)).fileClose file).of_eq closed

/-- The counts after a `struct file` was allocated. -/
theorem opened (accounted : s.Accounted) {cwd : BlockSector}
    (opened : s.sys.fs.filesysOpen cwd name = some (some file, fs)) :
    fs.Counts (freeMapSector ::
      inodesOf (update s.sys.file s.sys.nextFile (some file)) (s.sys.nextFile + 1)) := by
  have counts := (accounted.counts.filesysOpen cwd name).of_eq opened
  exact counts.perm ((List.Perm.swap ..).trans (.cons _ (inodesOf_new ..).symm))

attribute [local grind =] update_apply

/-- What a step of `t` does to the others. -/
structure Alone (t : ThreadId) (s s' : OpenFiles) : Prop where
  phase : ∀ u, u ≠ t → s'.phase u = s.phase u
  place : ∀ u, u ≠ t → s'.sys.place u = s.sys.place u
  table : ∀ u, u ≠ t → ∀ fd, (s'.sys.table.fdOwner fd = some u ↔ s.sys.table.fdOwner fd = some u) ∧
    (s.sys.table.fdOwner fd = some u → s'.sys.table.fdEntry fd = s.sys.table.fdEntry fd)

theorem Alone.stands (alone : Alone t s s') (other : u ≠ t) {place : FdPlace}
    (stands : Stands s.sys.table u place) : Stands s'.sys.table u place := by
  have table := alone.table u other
  cases place <;> grind [Stands]

theorem Alone.uses (alone : Alone t s s') (other : u ≠ t) (uses : s.Uses u ptr) :
    s'.Uses u ptr := by
  have table := alone.table u other
  have phase := alone.phase u other
  have place := alone.place u other
  grind [Uses]

/-- A step is accounted for if `t` uses the files that it leaves. -/
theorem step (accounted : s.Accounted) (alone : Alone t s s') (aligned : s'.sys.table.Aligned)
    (stands : Stands s'.sys.table t (s'.sys.place t))
    (runs : s'.sys.place t ≠ .outside → ∃ execFile, s'.phase t = .running execFile)
    (owners : ∀ fd, s'.sys.table.fdOwner fd = some t → ∃ execFile, s'.phase t = .running execFile)
    (new : ∀ ptr, (s'.sys.file ptr).isSome → s'.Uses t ptr ∨ (s.sys.file ptr).isSome)
    (mine : ∀ ptr, (s'.sys.file ptr).isSome → s.Uses t ptr → s'.Uses t ptr)
    (old : ∀ ptr, (s'.sys.file ptr).isSome → ptr < s'.sys.nextFile)
    (counts : s'.sys.fs.Counts (freeMapSector :: inodesOf s'.sys.file s'.sys.nextFile)) :
    s'.Accounted where
  aligned := aligned
  stands u := by
    by_cases same : u = t
    · rwa [same]
    · rw [alone.place u same]
      exact alone.stands same (accounted.stands u)
  running u := by
    have before := accounted.running u
    cases alone
    grind
  owners fd u := by
    have before := accounted.owners fd u
    cases alone
    grind
  used ptr there := by
    rcases new ptr there with uses | before
    · exact ⟨t, uses⟩
    obtain ⟨u, uses⟩ := accounted.used ptr before
    by_cases same : u = t
    · exact ⟨t, mine ptr there (same ▸ uses)⟩
    · exact ⟨u, alone.uses same uses⟩
  old := old
  counts := counts

/-! ## Descriptors -/

variable {execFile : Option Nat} {sys : FdSystem} {p : Nat}

/-- The files of a running process at `place`. -/
def Holds (table : FdTable Nat) (place : FdPlace) (execFile : Option Nat) (t : ThreadId)
    (ptr : Nat) : Prop :=
  execFile = some ptr ∨ place = .opening ptr ∨
    ∃ fd, table.fdOwner fd = some t ∧ table.fdEntry fd = some ptr ∧ place ≠ .closed fd

theorem uses_running (phase : s.phase t = .running execFile) :
    s.Uses t ptr ↔ Holds s.sys.table (s.sys.place t) execFile t ptr := by
  simp [Uses, Holds, phase]

section

variable (accounted : s.Accounted)
include accounted

/-- A step of a running process on descriptors: what is left to show. -/
theorem call (phase : s.phase t = .running execFile)
    (place : ∀ u, u ≠ t → sys.place u = s.sys.place u)
    (table : ∀ u, u ≠ t → ∀ fd, (sys.table.fdOwner fd = some u ↔ s.sys.table.fdOwner fd = some u) ∧
      (s.sys.table.fdOwner fd = some u → sys.table.fdEntry fd = s.sys.table.fdEntry fd))
    (aligned : sys.table.Aligned) (stands : Stands sys.table t (sys.place t))
    (new : ∀ ptr, (sys.file ptr).isSome →
      Holds sys.table (sys.place t) execFile t ptr ∨ (s.sys.file ptr).isSome)
    (mine : ∀ ptr, (sys.file ptr).isSome → Holds s.sys.table (s.sys.place t) execFile t ptr →
      Holds sys.table (sys.place t) execFile t ptr)
    (old : ∀ ptr, (sys.file ptr).isSome → ptr < sys.nextFile)
    (counts : sys.fs.Counts (freeMapSector :: inodesOf sys.file sys.nextFile)) :
    ({ s with sys } : OpenFiles).Accounted := by
  have phase' : ({ s with sys } : OpenFiles).phase t = .running execFile := phase
  have alone : Alone t s { s with sys } := ⟨fun _ _ => rfl, place, table⟩
  refine accounted.step alone aligned stands (fun _ => ⟨_, phase⟩) (fun _ _ => ⟨_, phase⟩) ?_ ?_ old
    counts
  · intro ptr there
    rw [uses_running phase']
    exact new ptr there
  intro ptr there
  rw [uses_running phase', uses_running phase]
  exact mine ptr there

theorem ret (phase : s.phase t = .running execFile)
    (outside : s.sys.place t = .outside) (result : Int) :
    ({ s with sys := s.sys.ret t result } : OpenFiles).Accounted := by
  refine accounted.call phase ?_ ?_ accounted.aligned ?_ ?_ ?_ accounted.old accounted.counts <;>
    simp only [FdSystem.ret] <;> grind [Stands, Holds]

theorem congr_fs (counts : fs.Counts (freeMapSector :: inodesOf s.sys.file s.sys.nextFile)) :
    ({ s with sys := { s.sys with fs } } : OpenFiles).Accounted :=
  ⟨accounted.aligned, accounted.stands, accounted.running, accounted.owners, accounted.used,
    accounted.old, counts⟩

section

variable (phase : s.phase t = .running execFile)
include phase

theorem openBegin (outside : s.sys.place t = .outside)
    (run : s.sys.openBegin t name = some sys) : ({ s with sys } : OpenFiles).Accounted := by
  have old := accounted.old
  unfold FdSystem.openBegin at run
  split at run
  · cases run
    exact accounted.ret phase outside _
  split at run
  · cases run
  · next fs opened =>
    cases run
    have counts := (accounted.counts.filesysOpen _ _).of_eq opened
    exact (accounted.congr_fs counts).ret phase outside _
  next file fs opened =>
  cases run
  refine accounted.call phase ?_ ?_ accounted.aligned ?_ ?_ ?_ ?_ (accounted.opened opened) <;>
    simp only [goto, setFile] <;> grind [Stands, Holds]

theorem openEnd (opening : s.sys.place t = .opening ptr) (run : s.sys.openEnd t ptr = some sys) :
    ({ s with sys } : OpenFiles).Accounted := by
  have old := accounted.old
  unfold FdSystem.openEnd at run
  split at run
  · simp only [bind_eq_bind, bind_eq_some_iff, some.injEq] at run
    obtain ⟨file, there, fs, closed, rfl⟩ := run
    refine accounted.call phase ?_ ?_ accounted.aligned ?_ ?_ ?_ ?_ (accounted.closed there closed) <;>
      simp only [FdSystem.ret, FdSystem.setFile] <;> grind [Stands, Holds]
  next fd table alloc =>
  cases run
  obtain ⟨low, -, free, rfl⟩ := alloc_some alloc
  have noOwner : s.sys.table.fdOwner fd = none := by
    by_contra owned
    rw [(accounted.aligned.owner fd low).mpr owned] at free
    cases free
  have mine : Holds (s.sys.table.set fd (some t) (some ptr)) .outside execFile t ptr :=
    .inr (.inr ⟨fd, FdTable.set_fdOwner_self .., FdTable.set_fdEntry_self .., by simp⟩)
  refine accounted.call phase ?_ ?_ (accounted.aligned.set low (by simp)) ?_ ?_ ?_ old
    accounted.counts <;> simp only [FdSystem.ret, FdTable.set] at mine ⊢ <;> grind [Stands, Holds]

theorem closeBegin (outside : s.sys.place t = .outside) (fd : Int) :
    ({ s with sys := s.sys.begin t .close fd } : OpenFiles).Accounted := by
  unfold begin
  split
  · exact accounted.ret phase outside _
  next ptr found =>
  obtain ⟨-, -, owner, entry⟩ := find_eq_some.mp found
  refine accounted.call phase ?_ ?_ accounted.aligned ?_ ?_ ?_ accounted.old accounted.counts <;>
    simp only [goto] <;> grind [Stands, Holds]

theorem closeFile {call : FdCall} (found : s.sys.place t = .found call fd ptr)
    (run : s.sys.use t call fd ptr = some sys) : ({ s with sys } : OpenFiles).Accounted := by
  have stands := accounted.stands t
  rw [found] at stands
  obtain ⟨rfl, owner, entry⟩ := stands
  simp only [use, FdCall.serve, bind_eq_bind, bind_eq_some_iff,
    some.injEq, Prod.exists, Prod.mk.injEq] at run
  obtain ⟨file, there, _, _, fs, ⟨_, closed, rfl, rfl, rfl⟩, rfl⟩ := run
  have old := accounted.old
  refine accounted.call phase ?_ ?_ accounted.aligned ?_ ?_ ?_ ?_ (accounted.closed there closed) <;>
    simp only [goto, setFile] <;> grind [Stands, Holds]

theorem closeEnd (closed : s.sys.place t = .closed fd) (live : List Descriptor) :
    ({ s with sys := { s.sys with table := s.sys.table.clear fd, live }.ret t 0 } :
      OpenFiles).Accounted := by
  have owner : s.sys.table.fdOwner fd = some t := by
    have stands := accounted.stands t
    rwa [closed] at stands
  have low := accounted.aligned.two_le (by rw [owner]; nofun)
  refine accounted.call phase ?_ ?_ (accounted.aligned.set low (by simp)) ?_ ?_ ?_ accounted.old
    accounted.counts <;> simp only [FdSystem.ret, FdTable.clear, FdTable.set] <;>
    grind [Stands, Holds]

end

end

/-! ## Processes -/

section

variable (accounted : s.Accounted)
include accounted

theorem absent (phase : ∀ execFile, s.phase t ≠ .running execFile) :
    s.sys.place t = .outside ∧ ∀ fd, s.sys.table.fdOwner fd ≠ some t := by
  constructor
  · by_contra busy
    obtain ⟨execFile, runs⟩ := accounted.running t busy
    exact phase execFile runs
  intro fd owned
  obtain ⟨execFile, runs⟩ := accounted.owners fd t owned
  exact phase execFile runs

theorem setPhase {phase : Phase} (outside : s.sys.place t = .outside)
    (none : ∀ fd, s.sys.table.fdOwner fd ≠ some t)
    (place : sys.place = s.sys.place) (table : sys.table = s.sys.table)
    (new : ∀ p, (sys.file p).isSome →
      phase = .loading p ∨ phase = .running (some p) ∨ (s.sys.file p).isSome)
    (mine : ∀ p, (sys.file p).isSome → s.phase t = .loading p ∨ s.phase t = .running (some p) →
      phase = .loading p ∨ phase = .running (some p))
    (old : ∀ p, (sys.file p).isSome → p < sys.nextFile)
    (counts : sys.fs.Counts (freeMapSector :: inodesOf sys.file sys.nextFile)) :
    (({ s with sys } : OpenFiles).setPhase t phase).Accounted := by
  have alone : Alone t s (({ s with sys } : OpenFiles).setPhase t phase) := by
    refine ⟨fun u other => update_of_ne other .., fun u _ => congrFun place u, ?_⟩
    simp only [OpenFiles.setPhase, table]
    grind
  refine accounted.step alone (table ▸ accounted.aligned) ?_ ?_ ?_ ?_ ?_ old counts
  · simp only [OpenFiles.setPhase, place, outside, Stands]
  · exact fun busy => absurd ((congrFun place t).trans outside) busy
  · simp only [OpenFiles.setPhase, table]
    grind
  · simp only [Uses, OpenFiles.setPhase, update_self]
    grind
  · simp only [Uses, OpenFiles.setPhase, update_self]
    grind

theorem processExit (phase : s.phase t = .running execFile)
    (outside : s.sys.place t = .outside) (none : ∀ fd, s.sys.table.fdOwner fd ≠ some t)
    (run : s.processExit t execFile = some s') : s'.Accounted := by
  have old := accounted.old
  cases execFile with
  | none =>
    cases run
    refine accounted.setPhase outside none rfl rfl ?_ ?_ old accounted.counts <;> grind
  | some ptr =>
    simp only [OpenFiles.processExit, bind_eq_bind, bind_eq_some_iff, some.injEq] at run
    obtain ⟨file, there, fs, closed, rfl⟩ := run
    refine accounted.setPhase outside none rfl rfl ?_ ?_ ?_ (accounted.closed there closed) <;>
      simp only [setFile] <;> grind

theorem execute (unborn : s.phase u = .unborn)
    (run : s.execute t u name = some s') : s'.Accounted := by
  obtain ⟨outside, none⟩ := accounted.absent (t := u) (by simp [unborn])
  have old := accounted.old
  unfold OpenFiles.execute at run
  split at run
  · cases run
  · next fs opened =>
    cases run
    have counts := (accounted.counts.filesysOpen _ _).of_eq opened
    refine accounted.setPhase outside none rfl rfl ?_ ?_ old counts <;> grind
  next file fs opened =>
  cases run
  refine accounted.setPhase outside none rfl rfl ?_ ?_ ?_ (accounted.opened opened) <;>
    simp only [setFile] <;> grind

theorem load (loading : s.phase t = .loading ptr)
    {reads : List (Int × Int)} {success : Bool} (run : s.load t ptr reads success = some s') :
    s'.Accounted := by
  obtain ⟨outside, none⟩ := accounted.absent (t := t) (by simp [loading])
  have old := accounted.old
  simp only [OpenFiles.load, bind_eq_bind, bind_eq_some_iff] at run
  obtain ⟨file, there, fs1, read, run⟩ := run
  have counts := accounted.counts.keep ((loadReads_keeps ..).of_eq read)
  cases success with
  | true =>
    simp only [if_true, bind_eq_some_iff, some.injEq, Prod.exists] at run
    obtain ⟨file', fs2, denied, rfl⟩ := run
    obtain ⟨counts2, same⟩ := (counts.fileDenyWrite file).of_eq denied
    rw [← inodesOf_change there same] at counts2
    refine accounted.setPhase outside none rfl rfl ?_ ?_ ?_ counts2 <;>
      simp only [setFile] <;> grind
  | false =>
    simp only [Bool.false_eq_true, if_false, bind_eq_some_iff, some.injEq] at run
    obtain ⟨fs2, closed, rfl⟩ := run
    have after := (accounted.congr_fs counts).closed there closed
    refine accounted.setPhase outside none rfl rfl ?_ ?_ ?_ after <;> simp only [setFile] <;> grind

end

theorem of_call {step : FdStep} (run : s.call t step = some s')
    (keep : ∀ execFile sys, s.phase t = .running execFile → s.sys.next step = some sys →
      ({ s with sys } : OpenFiles).Accounted) : s'.Accounted := by
  unfold OpenFiles.call at run
  split at run
  · next execFile phase =>
    simp only [bind_eq_bind, bind_eq_some_iff, some.injEq] at run
    obtain ⟨sys, next, rfl⟩ := run
    exact keep execFile sys phase next
  · cases run

theorem exit (accounted : s.Accounted) (none : ∀ fd, s.sys.table.fdOwner fd ≠ some t)
    (run : s.exit t = some s') : s'.Accounted := by
  unfold OpenFiles.exit at run
  split at run
  · next execFile phase outside => exact accounted.processExit phase outside none run
  · cases run

theorem next (accounted : s.Accounted) {step : OpenStep} (closes : s.ClosesFirst step)
    (run : s.next step = some s') : s'.Accounted := by
  cases step with
  | execute t u name =>
    simp only [OpenFiles.next] at run
    split at run
    · next unborn => exact accounted.execute unborn run
    · cases run
  | load u reads success =>
    simp only [OpenFiles.next] at run
    split at run
    · next loading => exact accounted.load loading run
    · cases run
  | openBegin t name =>
    apply of_call run
    intro execFile sys phase next
    simp only [FdSystem.next] at next
    split at next
    · next outside => exact accounted.openBegin phase outside next
    · cases next
  | openEnd t =>
    apply of_call run
    intro execFile sys phase next
    simp only [FdSystem.next] at next
    split at next
    · next opening => exact accounted.openEnd phase opening next
    · cases next
  | closeBegin t fd =>
    apply of_call run
    intro execFile sys phase next
    simp only [FdSystem.next] at next
    split at next
    · next outside =>
      cases next
      exact accounted.closeBegin phase outside fd
    · cases next
  | closeFile t =>
    apply of_call run
    intro execFile sys phase next
    simp only [FdSystem.next] at next
    split at next
    · next found => exact accounted.closeFile phase found next
    · cases next
  | closeEnd t =>
    apply of_call run
    intro execFile sys phase next
    simp only [FdSystem.next] at next
    split at next
    · next closed =>
      cases next
      exact accounted.closeEnd phase closed _
    · cases next
  | exit t | kill t => exact accounted.exit closes run

theorem openCnt_eq (accounted : s.Accounted) (sector : BlockSector) :
    s.sys.fs.openCnt sector = {ptr | (∃ t, s.Live t ∧ s.Uses t ptr) ∧ s.IsOn ptr sector}.ncard +
      [freeMapSector].count sector := by
  have files : {ptr | (∃ t, s.Live t ∧ s.Uses t ptr) ∧ s.IsOn ptr sector} =
      {ptr | ptr < s.sys.nextFile ∧ (s.sys.file ptr).map File.inode = some sector} := by
    ext ptr
    constructor
    · intro ⟨_, isOn⟩
      refine ⟨accounted.old ptr ?_, isOn⟩
      rw [← isSome_map, isOn]
      rfl
    intro ⟨_, isOn⟩
    refine ⟨?_, isOn⟩
    obtain ⟨t, uses⟩ := accounted.used ptr (by rw [← isSome_map, isOn]; rfl)
    refine ⟨t, ?_, uses⟩
    rcases uses with loading | ⟨execFile, runs, -⟩
    · simp [Live, loading]
    · simp [Live, runs]
  rw [files, ← count_inodesOf, accounted.counts sector, count_cons, count_singleton]
  split <;> simp

end Accounted

/-- If every process closes its descriptors before it ends, the owner of an allocated descriptor
    is there, a process that is not there owns none, and `open_cnt` of an inode is the number of
    files that processes which are there, or the kernel, have open on it. -/
theorem descriptors_owned_by_live {s : OpenFiles}
    (reached : Reachable Initial OpenFiles.next ClosesFirst s) :
    (∀ fd, 2 ≤ fd → s.sys.table.fdTable.bits fd = true →
      ∃ t, s.sys.table.fdOwner fd = some t ∧ s.Live t) ∧
    (∀ t, ¬s.Live t → ∀ fd, s.sys.table.fdOwner fd ≠ some t) ∧
    ∀ sector, s.sys.fs.openCnt sector =
      {ptr | (∃ t, s.Live t ∧ s.Uses t ptr) ∧ s.IsOn ptr sector}.ncard +
        [freeMapSector].count sector := by
  have accounted : s.Accounted := by
    refine reached.invariant (fun _ initial => initial.accounted) ?_
    intro s step s' accounted closes run
    exact accounted.next closes run
  have live : ∀ {t fd}, s.sys.table.fdOwner fd = some t → s.Live t := by
    intro t fd owner
    obtain ⟨execFile, running⟩ := accounted.owners fd t owner
    simp [Live, running]
  refine ⟨?_, fun t gone fd owner => gone (live owner), accounted.openCnt_eq⟩
  intro fd low allocated
  obtain ⟨t, owner⟩ := ne_none_iff_exists'.mp ((accounted.aligned.owner fd low).mp allocated)
  exact ⟨t, owner, live owner⟩

/-! ## Processes that open the root directory -/

/-- Threads 1 and 2 run, over a file system. -/
def twoProcesses (fs : FS) : OpenFiles where
  sys := boot fs
  phase t := if t = 1 ∨ t = 2 then .running none else .unborn

/-- Process 1 is about to get a descriptor for the root directory. -/
def rootOpening (fs : FS) : OpenFiles :=
  { twoProcesses fs with
    sys := ({ boot fs with nextFile := 1 }.setFile 0 (some (fileOpen rootDirSector))).goto 1
      (.opening 0) }

/-- It has got descriptor 2. -/
def rootOpened (fs : FS) : OpenFiles :=
  { rootOpening fs with
    sys := { (rootOpening fs).sys with
      table := syscallInit.set 2 (some 1) (some 0)
      live := [⟨1, 2, 0⟩] }.ret 1 2 }

theorem exists_rootOpened (cond : OpenFiles → OpenStep → Prop)
    (opens : ∀ s t name, cond s (.openBegin t name) ∧ cond s (.openEnd t)) :
    ∃ fs, Reachable Initial OpenFiles.next cond (rootOpened fs) ∧ fs.openCnt rootDirSector = 1 := by
  obtain ⟨fs, formatted, -⟩ := exists_formatted
  obtain ⟨fs', opened, -⟩ := formatted.models.inodeOpen_opened formattedVolume_node
  have counts := formatted.models.counts formattedVolume_handle
  have init : (twoProcesses fs).Initial := by
    refine ⟨initial_boot fs, fun t => ?_, counts⟩
    by_cases runs : t = 1 ∨ t = 2
    · exact .inr (if_pos runs)
    · exact .inl (if_neg runs)
  have run : fs.filesysOpen rootDirSector [slash] = some (some (fileOpen rootDirSector), fs') := by
    simp [FS.filesysOpen, isRootPath, opened]
  have step1 : (twoProcesses fs).next (.openBegin 1 [slash]) = some (rootOpening fs') := by
    simp [OpenFiles.next, OpenFiles.call, twoProcesses, rootOpening, FdSystem.next,
      FdSystem.openBegin, FdSystem.boot, run]
  have reached0 : Reachable Initial OpenFiles.next cond (twoProcesses fs) := .start init
  have reached1 := reached0.step (opens ..).1 step1
  have step2 : (rootOpening fs').next (.openEnd 1) = some (rootOpened fs') := rfl
  refine ⟨fs', reached1.step (opens _ 1 []).2 step2, ?_⟩
  have count := counts.inodeOpen.of_eq opened rootDirSector
  rw [count]
  decide

theorem rootOpened_fdOwner {fs : FS}
    (owner : (rootOpened fs).sys.table.fdOwner fd = some t) : fd = 2 ∧ t = 1 := by
  by_cases same : fd = 2
  · subst same
    cases owner
    exact ⟨rfl, rfl⟩
  rw [show (rootOpened fs).sys.table.fdOwner fd = none from set_fdOwner_of_ne same ..] at owner
  cases owner

/-- Process 1 has a descriptor, process 2 exits without one. -/
theorem descriptors_owned_by_live_opened :
    ∃ s : OpenFiles, Reachable Initial OpenFiles.next ClosesFirst s ∧ s.phase 2 = .dead ∧
      (∃ t, s.sys.table.fdOwner 2 = some t ∧ s.Live t) ∧
      s.sys.fs.openCnt rootDirSector =
        {ptr | (∃ t, s.Live t ∧ s.Uses t ptr) ∧ s.IsOn ptr rootDirSector}.ncard +
          [freeMapSector].count rootDirSector := by
  obtain ⟨fs, reached, -⟩ := exists_rootOpened ClosesFirst fun _ _ _ => ⟨trivial, trivial⟩
  have closes : ClosesFirst (rootOpened fs) (.exit 2) := by
    intro fd owner
    exact absurd (rootOpened_fdOwner owner).2 (by decide)
  have step : (rootOpened fs).next (.exit 2) = some ((rootOpened fs).setPhase 2 .dead) := rfl
  have reached' := reached.step closes step
  obtain ⟨owners, -, counts⟩ := descriptors_owned_by_live reached'
  exact ⟨_, reached', rfl, owners 2 (Nat.le_refl 2) rfl, counts rootDirSector⟩

/-- A process opens the root directory and exits: the descriptor stays allocated, and the inode
    stays open although no process that is there uses a file. -/
theorem exit_leaves_descriptor : ∃ s : OpenFiles, Reachable Initial OpenFiles.next AnyStep s ∧
      s.sys.table.fdTable.bits 2 = true ∧ s.sys.table.fdOwner 2 = some 1 ∧ ¬s.Live 1 ∧
      s.sys.fs.openCnt rootDirSector = 1 ∧ ∀ t ptr, s.Live t → ¬s.Uses t ptr := by
  obtain ⟨fs, reached, count⟩ := exists_rootOpened AnyStep fun _ _ _ => ⟨trivial, trivial⟩
  have step : (rootOpened fs).next (.exit 1) = some ((rootOpened fs).setPhase 1 .dead) := rfl
  refine ⟨_, reached.step trivial step, rfl, rfl, fun live => live.2 rfl, count, ?_⟩
  intro t ptr live uses
  have other : t ≠ 1 := by
    rintro rfl
    exact live.2 rfl
  have phase : ((rootOpened fs).setPhase 1 .dead).phase t =
      if t = 1 ∨ t = 2 then .running none else .unborn := update_of_ne other ..
  have place : (rootOpened fs).sys.place t = .outside :=
    (ret_place_of_ne _ other _).trans (goto_place_of_ne _ other _)
  rcases uses with loading | ⟨execFile, running, rfl | opening | ⟨fd, owner, -⟩⟩
  · grind
  · grind
  · cases place.symm.trans opening
  · exact other (rootOpened_fdOwner owner).2

end OpenFiles

end Pintos
