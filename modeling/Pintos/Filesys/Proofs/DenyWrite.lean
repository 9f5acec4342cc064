import Pintos.Filesys.Proofs.OpenCount
import Pintos.Misc.Transition

/-!
# Files that deny writes

Every `struct file` has its own `deny_write`; the inode that several of them share counts those
that have set it (`file.c:119-141`, `inode.c:735-757`).
-/

namespace Pintos

open List Option

/-- The file system, and the files that are open. -/
structure FileSystem where
  fs : FS
  files : List File

/-- The calls; `allocated` says whether `calloc` gets a `struct file`. -/
inductive FileCall
  | fileOpen (sector : BlockSector) (allocated : Bool)
  | fileReopen (file : File) (allocated : Bool)
  | fileDenyWrite (file : File)
  | fileAllowWrite (file : File)
  | fileClose (file : File)

namespace FileSystem

variable {s s' : FileSystem} {fs : FS} {files : List File} {held : List BlockSector}
  {sector : BlockSector} {file : File}

/-- The end of `file_open`, which closes the inode if it gets no memory (`file.c:20-33`). -/
def opened (files : List File) (sector : BlockSector) (allocated : Bool) (fs : FS) :
    Option FileSystem :=
  if allocated then some ⟨fs, fileOpen sector :: files⟩
  else do
    let fs ← fs.inodeClose sector
    some ⟨fs, files⟩

/-- One call. -/
def next (s : FileSystem) : FileCall → Option FileSystem
  | .fileOpen sector allocated => do
      let fs ← s.fs.inodeOpen sector
      opened s.files sector allocated fs
  | .fileReopen file allocated =>
      if file ∈ s.files then do
        let (_, fs) ← s.fs.fileReopen file
        opened s.files file.inode allocated fs
      else none
  | .fileDenyWrite file =>
      if file ∈ s.files then do
        let (file', fs) ← s.fs.fileDenyWrite file
        some ⟨fs, file' :: s.files.erase file⟩
      else none
  | .fileAllowWrite file =>
      if file ∈ s.files then do
        let fs ← s.fs.fileAllowWrite file
        some ⟨fs, { file with denyWrite := false } :: s.files.erase file⟩
      else none
  | .fileClose file =>
      if file ∈ s.files then do
        let fs ← s.fs.fileClose file
        some ⟨fs, s.files.erase file⟩
      else none

/-- No file is open; inodes may be open for other reasons. -/
def Initial (s : FileSystem) : Prop :=
  s.files = [] ∧ ∀ sector inode, s.fs.openInodes sector = some inode →
    inode.denyWriteCnt = 0 ∧ 0 ≤ inode.openCnt

/-- How many files on the inode deny writes. -/
def denials (files : List File) (sector : BlockSector) : Nat :=
  files.countP fun file => file.inode = sector ∧ file.denyWrite = true

/-! ## The balance -/

/-- The openers of an inode are the files on it and those that `held` lists. -/
def openers (files : List File) (held : List BlockSector) (sector : BlockSector) : Nat :=
  (files.countP fun file => file.inode = sector) + held.count sector

/-- The counts of an inode with `n` openers and `d` files that deny writes. -/
def Agrees (n d : Nat) : Option Inode → Prop
  | none => n = 0
  | some inode => inode.denyWriteCnt = d ∧ (n : Int) ≤ inode.openCnt

/-- `deny_write_cnt` is the number of files that deny writes. -/
def Balanced (fs : FS) (files : List File) (held : List BlockSector) : Prop :=
  ∀ sector, Agrees (openers files held sector) (denials files sector) (fs.openInodes sector)

theorem denials_le_openers (files : List File) (held : List BlockSector) (sector : BlockSector) :
    denials files sector ≤ openers files held sector :=
  (countP_mono_left fun _ _ both => by simp_all).trans (Nat.le_add_right ..)

theorem openers_cons : openers (file :: files) held sector =
    openers files held sector + if file.inode = sector then 1 else 0 := by
  simp only [openers, countP_cons, decide_eq_true_eq]
  omega

theorem denials_cons : denials (file :: files) sector =
    denials files sector + if file.inode = sector ∧ file.denyWrite = true then 1 else 0 := by
  simp [denials, countP_cons]

namespace Balanced

theorem perm {files' : List File} (balanced : Balanced fs files held) (same : files.Perm files') :
    Balanced fs files' held := by
  intro sector
  have agrees := balanced sector
  rwa [openers, denials, same.countP_eq, same.countP_eq] at agrees

theorem keep {fs' : FS} (balanced : Balanced fs files held) (keeps : FS.Keeps fs fs') :
    Balanced fs' files held := by
  intro sector
  rw [keeps]
  exact balanced sector

theorem setInode {files' : List File} {held' : List BlockSector} {inode : Option Inode}
    (balanced : Balanced fs files held)
    (others : ∀ s, s ≠ sector → openers files' held' s = openers files held s ∧
      denials files' s = denials files s)
    (this : Agrees (openers files' held' sector) (denials files' sector) inode) :
    Balanced (fs.setInode sector inode) files' held' := by
  intro s
  by_cases same : s = sector
  · rw [same, FS.setInode_self]
    exact this
  · rw [FS.setInode_of_ne _ _ same, (others s same).1, (others s same).2]
    exact balanced s

theorem openers_held (files : List File) {s : BlockSector} (ne : s ≠ sector) :
    openers files (sector :: held) s = openers files held s := by
  simp [openers, count_cons_of_ne ne.symm]

theorem inodeOpen (balanced : Balanced fs files held) :
    Yields (Balanced · files (sector :: held)) (fs.inodeOpen sector) := by
  apply (FS.inodeOpen_keeps fs sector).mono
  intro fs' ⟨inode, keeps, cases⟩
  refine (balanced.setInode (fun s ne => ⟨openers_held files ne, rfl⟩) ?_).keep keeps
  have agrees := balanced sector
  have few := denials_le_openers files held sector
  rcases cases with ⟨found, once, none⟩ | ⟨old, found, rfl⟩ <;>
    simp only [found, Agrees, openers, count_cons_self] at agrees few ⊢ <;> omega

theorem inodeClose (balanced : Balanced fs files (sector :: held)) :
    Yields (Balanced · files held) (fs.inodeClose sector) := by
  apply (FS.inodeClose_keeps fs sector).mono
  intro fs' ⟨inode, found, keeps⟩
  refine (balanced.setInode (fun s ne => ⟨(openers_held files ne).symm, rfl⟩) ?_).keep keeps
  have agrees := balanced sector
  simp only [found, Agrees, openers, count_cons_self] at agrees
  split <;> simp only [Agrees, openers] <;> omega

/-! ### The calls on a file -/

variable {rest : List File}

section

variable (balanced : Balanced fs (file :: rest) held)
include balanced

theorem found : ∃ inode, fs.openInodes file.inode = some inode ∧
      inode.denyWriteCnt = denials (file :: rest) file.inode ∧
      (openers rest held file.inode : Int) < inode.openCnt := by
  have agrees := balanced file.inode
  cases found : fs.openInodes file.inode with
  | none => simp [found, Agrees, openers] at agrees
  | some inode =>
    simp only [found, Agrees, openers_cons, if_true] at agrees
    exact ⟨inode, rfl, agrees.1, by omega⟩

theorem setFlag (inode : Inode) {flag : Bool}
    (more : (openers rest held file.inode : Int) < inode.openCnt)
    (count : inode.denyWriteCnt = denials ({ file with denyWrite := flag } :: rest) file.inode) :
    Balanced (fs.setInode file.inode (some inode)) ({ file with denyWrite := flag } :: rest)
      held := by
  apply balanced.setInode
  · intro s ne
    simp [openers_cons, denials_cons, ne.symm]
  · simp only [Agrees, openers_cons, if_true]
    exact ⟨count, by omega⟩

theorem fileDenyWrite : ∃ r, fs.fileDenyWrite file = some r ∧ Balanced r.2 (r.1 :: rest) held := by
  obtain ⟨inode, found, count, more⟩ := balanced.found
  have few := denials_le_openers rest held file.inode
  unfold FS.fileDenyWrite
  cases denied : file.denyWrite with
  | true => exact ⟨_, rfl, balanced⟩
  | false =>
    simp only [denials_cons, denied, Bool.false_eq_true, and_false, if_false] at count
    refine ⟨({ file with denyWrite := true }, _), ?_, balanced.setFlag { inode with
      denyWriteCnt := inode.denyWriteCnt + 1 } more ?_⟩
    · have enough : inode.denyWriteCnt + 1 ≤ inode.openCnt := by omega
      simp only [FS.inodeDenyWrite, found, Option.bind_eq_bind, Option.bind_some, if_pos enough]
      rfl
    · simp [denials_cons, count]

theorem fileAllowWrite : ∃ fs', fs.fileAllowWrite file = some fs' ∧
      Balanced fs' ({ file with denyWrite := false } :: rest) held := by
  obtain ⟨inode, found, count, more⟩ := balanced.found
  have few := denials_le_openers rest held file.inode
  unfold FS.fileAllowWrite
  cases denied : file.denyWrite with
  | false =>
    refine ⟨fs, rfl, ?_⟩
    rwa [← denied]
  | true =>
    simp only [denials_cons, denied, and_self, if_true] at count
    refine ⟨_, ?_, balanced.setFlag { inode with
      denyWriteCnt := inode.denyWriteCnt - 1 } more ?_⟩
    · simp [FS.inodeAllowWrite, found,
        show 0 < inode.denyWriteCnt ∧ inode.denyWriteCnt ≤ inode.openCnt by omega]
    · simp [denials_cons, count]

end

theorem cons_iff (allows : file.denyWrite = false) :
    Balanced fs (file :: rest) held ↔ Balanced fs rest (file.inode :: held) := by
  refine forall_congr' fun sector => ?_
  have same : openers (file :: rest) held sector = openers rest (file.inode :: held) sector := by
    rw [openers_cons, openers, openers, count_cons]
    simp only [beq_iff_eq]
    omega
  have none : denials (file :: rest) sector = denials rest sector := by
    simp [denials_cons, allows]
  rw [same, none]

theorem fileClose (balanced : Balanced fs (file :: rest) held) :
    Yields (Balanced · rest held) (fs.fileClose file) := by
  obtain ⟨fs', allow, balanced'⟩ := balanced.fileAllowWrite
  unfold FS.fileClose
  rw [allow]
  exact ((cons_iff rfl).mp balanced').inodeClose

theorem opened (balanced : Balanced fs files (sector :: held)) (allocated : Bool) :
    Yields (fun s => Balanced s.fs s.files held) (opened files sector allocated fs) := by
  apply Yields.ite
  · intro _
    exact (cons_iff rfl).mpr balanced
  · intro _
    exact balanced.inodeClose.bind fun _ closed => closed

end Balanced

theorem Balanced.next (balanced : Balanced s.fs s.files []) (call : FileCall) :
    Yields (fun s' => Balanced s'.fs s'.files []) (s.next call) := by
  cases call with
  | fileOpen sector allocated =>
    exact balanced.inodeOpen.bind fun _ isOpen => isOpen.opened allocated
  | fileReopen file allocated =>
    apply Yields.ite
    · intro mem
      obtain ⟨inode, found, -⟩ := (balanced.perm (perm_cons_erase mem)).found
      have isOpen : Yields (Balanced · s.files [file.inode]) (s.fs.inodeOpen file.inode) :=
        balanced.inodeOpen
      rw [FS.inodeOpen, found] at isOpen
      simp only [FS.fileReopen, found, bind_eq_bind, bind_some]
      exact isOpen.opened allocated
    · intro _
      trivial
  | fileDenyWrite file =>
    apply Yields.ite
    · intro mem
      obtain ⟨r, run, balanced'⟩ := (balanced.perm (perm_cons_erase mem)).fileDenyWrite
      rw [run]
      exact balanced'
    · intro _
      trivial
  | fileAllowWrite file =>
    apply Yields.ite
    · intro mem
      obtain ⟨fs', run, balanced'⟩ := (balanced.perm (perm_cons_erase mem)).fileAllowWrite
      rw [run]
      exact balanced'
    · intro _
      trivial
  | fileClose file =>
    apply Yields.ite
    · intro mem
      exact (balanced.perm (perm_cons_erase mem)).fileClose.bind fun _ closed => closed
    · intro _
      trivial

theorem Initial.balanced (init : s.Initial) : Balanced s.fs s.files [] := by
  intro sector
  rw [init.1]
  cases found : s.fs.openInodes sector with
  | none => rfl
  | some inode => exact init.2 sector inode found

/-- `deny_write_cnt` is the number of open files that deny writes, and at most `open_cnt`; both
    flags can be set without a failed assertion, and a write through a file is refused exactly
    while a file on the same inode denies it. -/
theorem deny_write_cnt_balanced (reach : Reachable Initial next AnyStep s) :
    (∀ sector inode, s.fs.openInodes sector = some inode →
      inode.denyWriteCnt = denials s.files sector ∧ inode.denyWriteCnt ≤ inode.openCnt) ∧
    ∀ file ∈ s.files, (∃ r, s.fs.fileDenyWrite file = some r) ∧
      (∃ fs, s.fs.fileAllowWrite file = some fs) ∧
      ((∃ f ∈ s.files, f.inode = file.inode ∧ f.denyWrite = true) → ∀ buffer size offset,
        s.fs.inodeWriteAt file.inode buffer size offset = some (0, s.fs)) ∧
      ((∀ f ∈ s.files, f.inode = file.inode → f.denyWrite = false) →
        ∃ inode, s.fs.openInodes file.inode = some inode ∧ inode.denyWriteCnt = 0) := by
  have balanced : Balanced s.fs s.files [] :=
    reach.invariant (P := fun s => Balanced s.fs s.files []) (fun _ => Initial.balanced)
      fun _ call _ balanced _ run => (balanced.next call).of_eq run
  refine ⟨fun sector inode found => ?_, fun file mem => ?_⟩
  · have agrees := balanced sector
    have few := denials_le_openers s.files [] sector
    simp only [found, Agrees] at agrees
    exact ⟨agrees.1, by omega⟩
  have first := balanced.perm (perm_cons_erase mem)
  obtain ⟨inode, found, count, -⟩ := first.found
  rw [denials, ← (perm_cons_erase mem).countP_eq] at count
  refine ⟨?_, ?_, ?_, ?_⟩
  · obtain ⟨r, run, -⟩ := first.fileDenyWrite
    exact ⟨r, run⟩
  · obtain ⟨fs, run, -⟩ := first.fileAllowWrite
    exact ⟨fs, run⟩
  · intro ⟨f, isOpen, same, denies⟩ buffer size offset
    have pos : 0 < s.files.countP fun f => f.inode = file.inode ∧ f.denyWrite = true :=
      countP_pos_iff.mpr ⟨f, isOpen, by simp [same, denies]⟩
    simp [FS.inodeWriteAt, found, show inode.denyWriteCnt ≠ 0 by omega]
  intro allows
  refine ⟨inode, found, ?_⟩
  rw [count, countP_eq_zero.mpr fun f isOpen => ?_]
  · rfl
  · simpa using allows f isOpen

/-- The inode 5 is open; two files are opened on it, and one of them denies writes. -/
theorem deny_write_cnt_balanced_two : ∃ s : FileSystem, Reachable Initial next AnyStep s ∧
    s.fs.inodeWriteAt 5 (fun _ => 0) 1 0 = some (0, s.fs) := by
  have init : Initial ⟨(bootFS 0 fun _ _ => 0).setInode 5 (some ⟨1, false, 0, newInode 0 false 0⟩),
      []⟩ := by
    refine ⟨rfl, fun sector inode found => ?_⟩
    by_cases same : sector = 5
    · rw [same, FS.setInode_self] at found
      cases found
      decide
    · rw [FS.setInode_of_ne _ _ same] at found
      cases found
  obtain ⟨s, reach, mem⟩ := reachable_of_run next AnyStep init
    [.fileOpen 5 true, .fileReopen (fileOpen 5) true, .fileDenyWrite (fileOpen 5)]
    (fun s => { fileOpen 5 with denyWrite := true } ∈ s.files) (by rfl)
  exact ⟨s, reach, ((deny_write_cnt_balanced reach).2 _ mem).2.2.1 ⟨_, mem, rfl, rfl⟩ _ _ _⟩

end FileSystem

end Pintos
