import Pintos.Filesys.Proofs.InodeClose
import Pintos.Filesys.Proofs.Tree

/-!
# The operations on directories

The functions of `directory.c` on a state that holds a volume: each of them returns,
its result is what the volume says, and the new state holds the new volume.
-/

namespace Pintos

open Option Volume

namespace Models

variable {R : List BlockSector} {fs : FS} {V : Volume} {dir s t : BlockSector} {n : Node} {o : Handle}

/-! ## Opening and closing -/

theorem inodeOpen_opened (models : Models fs V R) (found : V.node s = some n) :
    ∃ fs', fs.inodeOpen s = some fs' ∧ Steady 0 fs fs' ∧ Models fs' (V.opened s) R := by
  obtain ⟨fs', run, steady, models'⟩ := models.inodeOpen found
  refine ⟨fs', run, steady, ?_⟩
  unfold opened setHandle
  rwa [found]

/-- Closing an inode that was opened gives it the handle that it had. -/
theorem inodeClose_reopened (models : Models fs V R) {h : Option Handle} (found : V.node s = some n)
    (handle : V.handle s = some (Handle.reopen h)) (counted : ∀ o, h = some o → 1 ≤ o.openCnt) :
    ∃ fs', fs.inodeClose s = some fs' ∧ Steady 0 fs fs' ∧ Models fs' (V.setHandle s h) R := by
  obtain ⟨fs', run, steady, models'⟩ := models.inodeClose found handle
  rw [Node.close_reopen counted, Handle.close_reopen counted] at models'
  refine ⟨fs', run, steady, ?_⟩
  unfold setHandle
  rwa [found]

theorem inodeClose_opened (models : Models fs (V.opened s) R) (tree : V.Tree)
    (found : V.node s = some n) :
    ∃ fs', fs.inodeClose s = some fs' ∧ Steady 0 fs fs' ∧ Models fs' V R := by
  have found' : (V.opened s).node s = some n := by rw [opened_node, found]
  obtain ⟨fs', run, steady, models'⟩ :=
    models.inodeClose_reopened found' opened_handle_self tree.counted_handle
  rw [opened, setHandle_setHandle, setHandle_handle] at models'
  exact ⟨fs', run, steady, models'⟩

/-- Two inodes are opened and the first one is closed; they may be the same. -/
theorem inodeClose_first (models : Models fs ((V.opened s).opened t) R) (tree : V.Tree)
    (found : V.node s = some n) :
    ∃ fs', fs.inodeClose s = some fs' ∧ Steady 0 fs fs' ∧ Models fs' (V.opened t) R := by
  have found' : ((V.opened s).opened t).node s = some n := by
    rw [opened_node, opened_node, found]
  by_cases same : t = s
  · subst same
    have some? : (V.node t).isSome := by
      rw [found]
      rfl
    exact models.inodeClose_opened (tree.opened some?) (by rw [opened_node, found])
  have handle : ((V.opened s).opened t).handle s = some (Handle.reopen (V.handle s)) := by
    rw [opened_handle_of_ne fun eq => same eq.symm, opened_handle_self]
  obtain ⟨fs', run, steady, models'⟩ :=
    models.inodeClose_reopened found' handle tree.counted_handle
  rw [opened_opened_setHandle same] at models'
  exact ⟨fs', run, steady, models'⟩

/-! ## Searching a directory -/

section

variable (models : Models fs V R) (found : V.node dir = some n) (handle : V.handle dir = some o)
include models found handle

theorem readEntry {i : Nat} (inside : i ≤ n.content.entryCnt) :
    ∃ fs', fs.inodeReadAt dir entrySize ((entrySize * i : Nat) : Int) =
        some (n.content.read entrySize (entrySize * i), fs') ∧
      Steady 0 fs fs' ∧ Models fs' V R ∧
      ((n.content.read entrySize (entrySize * i)).length = entrySize ↔ i < n.content.entryCnt) := by
  have small := models.content_small found
  unfold FileBytes.entryCnt maxSectors at *
  have low : entrySize * i < 2 ^ 31 := by
    simp only [entrySize] at inside ⊢
    omega
  obtain ⟨fs', run, steady, models'⟩ := models.inodeReadAt found handle entrySize low
  refine ⟨fs', run, steady, models', ?_⟩
  rw [FileBytes.length_read]
  simp only [entrySize] at inside ⊢
  omega

theorem lookupLoop (name : FileName) {i bound : Nat}
    (inside : i ≤ n.content.entryCnt) (enough : n.content.entryCnt - i < bound) :
    ∃ fs', lookupLoop dir name bound (entrySize * i) fs =
        some (((List.range' i (n.content.entryCnt - i)).find? fun j =>
          (n.content.entry j).isNamed name).map fun j => (n.content.entryBytes j, entrySize * j),
          fs') ∧
      Steady 0 fs fs' ∧ Models fs' V R := by
  induction bound generalizing i fs with
  | zero => omega
  | succ bound ih =>
    obtain ⟨fs1, run1, steady1, models1, full⟩ := models.readEntry found handle inside
    unfold Pintos.lookupLoop
    rw [run1, bind_eq_bind, bind_some]
    dsimp only
    by_cases more : i < n.content.entryCnt
    · rw [if_pos (full.mpr more),
        show n.content.entryCnt - i = n.content.entryCnt - (i + 1) + 1 by omega,
        List.range'_succ, List.find?_cons]
      cases named : (n.content.entry i).isNamed name with
      | true =>
        refine ⟨fs1, ?_, steady1, models1⟩
        exact if_pos named
      | false =>
        obtain ⟨fs2, run2, steady2, models2⟩ := ih models1 more (by omega)
        refine ⟨fs2, ?_, steady1.trans steady2, models2⟩
        rw [← run2]
        exact if_neg fun isNamed => Bool.false_ne_true (named.symm.trans isNamed)
    · rw [if_neg fun isFull => more (full.mp isFull), show n.content.entryCnt - i = 0 by omega]
      exact ⟨fs1, rfl, steady1, models1⟩

/-- The loop of `dir_add` stops at the free slot. -/
theorem freeSlotLoop {i bound : Nat} (e : EntryBytes)
    (inside : i ≤ n.content.entryCnt) (enough : n.content.entryCnt - i < bound) :
    ∃ e' fs', freeSlotLoop dir bound (entrySize * i) e fs =
        some (entrySize * ((List.range' i (n.content.entryCnt - i)).find? fun j =>
          !(n.content.entry j).inUse).getD n.content.entryCnt, e', fs') ∧
      Steady 0 fs fs' ∧ Models fs' V R := by
  induction bound generalizing i e fs with
  | zero => omega
  | succ bound ih =>
    obtain ⟨fs1, run1, steady1, models1, full⟩ := models.readEntry found handle inside
    unfold Pintos.freeSlotLoop
    rw [run1, bind_eq_bind, bind_some]
    dsimp only
    by_cases more : i < n.content.entryCnt
    · have filled : (e.fill (n.content.read entrySize (entrySize * i))).decode =
          n.content.entry i := by
        apply EntryBytes.decode_congr
        intro k low
        exact if_pos (by rw [full.mpr more]; exact low)
      rw [filled, show n.content.entryCnt - i = n.content.entryCnt - (i + 1) + 1 by omega,
        List.range'_succ, List.find?_cons]
      cases used : (n.content.entry i).inUse with
      | true =>
        rw [if_pos ⟨full.mpr more, rfl⟩]
        obtain ⟨e', fs2, run2, steady2, models2⟩ :=
          ih models1 (e.fill (n.content.read entrySize (entrySize * i))) more (by omega)
        exact ⟨e', fs2, run2, steady1.trans steady2, models2⟩
      | false =>
        rw [if_neg (by simp)]
        exact ⟨_, fs1, rfl, steady1, models1⟩
    obtain rfl : i = n.content.entryCnt := by omega
    rw [if_neg fun isFull => more (full.mp isFull.1), Nat.sub_self]
    exact ⟨_, fs1, rfl, steady1, models1⟩

theorem entryBound : fs.entryBound dir = some (n.content.entryCnt + 1) := by
  unfold FS.entryBound
  rw [models.inodeLength found handle]
  rfl

/-- `lookup` finds the entry that the volume has. -/
theorem lookup (name : FileName) (stack : EntryBytes) :
    ∃ r fs', fs.lookup dir name stack = some (r, fs') ∧ Steady 0 fs fs' ∧ Models fs' V R ∧
      (r.map fun at? => at?.1.decode.inodeSector) = V.lookup dir name ∧
      (name ≠ dotName → name ≠ dotDotName →
        r = (n.content.find name).map fun i => (n.content.entryBytes i, entrySize * i)) := by
  have leads : V.lookup dir name = if name = dotName then some dir
      else if name = dotDotName then some n.parent
      else (n.content.find name).map fun i => (n.content.entry i).inodeSector := by
    unfold Volume.lookup
    rw [found]
    rfl
  rw [leads]
  unfold FS.lookup
  by_cases dot : name = dotName
  · rw [if_pos dot, if_pos dot]
    exact ⟨_, fs, rfl, Steady.refl fs, models, by simp, fun other => absurd dot other⟩
  rw [if_neg dot, if_neg dot]
  by_cases dotDot : name = dotDotName
  · rw [if_pos dotDot, if_pos dotDot, models.inodeGetParent found handle]
    exact ⟨_, fs, rfl, Steady.refl fs, models, by simp, fun _ other => absurd dotDot other⟩
  rw [if_neg dotDot, if_neg dotDot, models.entryBound found handle]
  obtain ⟨fs', run, steady, models'⟩ := models.lookupLoop found handle name (Nat.zero_le _)
    (show n.content.entryCnt - 0 < n.content.entryCnt + 1 by omega)
  refine ⟨_, fs', run, steady, models', ?_, fun _ _ => ?_⟩
  · rw [map_map, Nat.sub_zero, ← List.range_eq_range']
    rfl
  · rw [Nat.sub_zero, ← List.range_eq_range']
    rfl

end

/-! ## Following a path -/

theorem dirOpen_of_dir (models : Models fs V R) (found : V.node s = some n)
    (handle : V.handle s = some o) (isDir : n.isDir = true) : fs.dirOpen s = some (some s, fs) := by
  unfold FS.dirOpen
  rw [models.inodeIsDir found handle, isDir]
  rfl

theorem dirOpen_of_file (models : Models fs (V.opened s) R) (tree : V.Tree)
    (found : V.node s = some n) (file : n.isDir = false) :
    ∃ fs', fs.dirOpen s = some (none, fs') ∧ Steady 0 fs fs' ∧ Models fs' V R := by
  obtain ⟨fs', run, steady, models'⟩ := models.inodeClose_opened tree found
  refine ⟨fs', ?_, steady, models'⟩
  unfold FS.dirOpen
  rw [models.inodeIsDir (by rw [opened_node, found]) opened_handle_self, file,
    bind_eq_bind, bind_some, if_neg Bool.false_ne_true, run]
  rfl

theorem dirLookup (models : Models fs V R) (tree : V.Tree) (isDir : V.isDir dir = true)
    (handle : V.handle dir = some o) (name : FileName) :
    ∃ fs', fs.dirLookup dir name = some (V.lookup dir name, fs') ∧ Steady 0 fs fs' ∧
      (V.lookup dir name = none → Models fs' V R) ∧
      ∀ s, V.lookup dir name = some s → Models fs' (V.opened s) R := by
  obtain ⟨n, found, -⟩ := isDir_iff.mp isDir
  obtain ⟨r, fs1, run1, steady1, models1, leads, -⟩ := models.lookup found handle name fun _ => 0
  unfold FS.dirLookup
  rw [run1, bind_eq_bind, bind_some, ← leads]
  cases r with
  | none => exact ⟨fs1, rfl, steady1, fun _ => models1, fun s isSome => nomatch isSome⟩
  | some at? =>
    obtain ⟨e, ofs⟩ := at?
    obtain ⟨-, m, isNode⟩ := tree.lookup isDir leads.symm
    obtain ⟨fs2, run2, steady2, models2⟩ := models1.inodeOpen_opened isNode
    refine ⟨fs2, ?_, steady1.trans steady2, ?_, ?_⟩
    · dsimp only
      rw [run2]
      rfl
    · intro isNone
      cases isNone
    intro s isS
    obtain rfl := some.inj isS
    exact models2

/-- `dir_walk` ends in the directory in which the path ends. -/
theorem dirWalk (tree : V.Tree) (tokens : List FileName) (isDir : V.isDir dir = true)
    (models : Models fs (V.opened dir) R) :
    ∃ fs', dirWalk tokens dir fs = some ((V.walk tokens dir).1, (V.walk tokens dir).2, fs') ∧
      Steady 0 fs fs' ∧ Models fs' (V.opened (V.walk tokens dir).2) R := by
  induction tokens generalizing dir fs with
  | nil => exact ⟨fs, rfl, Steady.refl fs, models⟩
  | cons token rest ih =>
    obtain ⟨n, found, isDirN⟩ := isDir_iff.mp isDir
    have some? : (V.node dir).isSome := by
      rw [found]
      rfl
    have found' : (V.opened dir).node dir = some n := by rw [opened_node, found]
    unfold Pintos.dirWalk Volume.walk
    by_cases dot : token = dotName
    · have leads : V.lookup dir token = some dir := by
        unfold Volume.lookup
        rw [found]
        exact if_pos dot
      rw [if_pos dot, leads, filter_some_pos isDir]
      exact ih isDir models
    rw [if_neg dot]
    by_cases dotDot : token = dotDotName
    · have leads : V.lookup dir token = some n.parent := by
        unfold Volume.lookup
        rw [found]
        exact (if_neg dot).trans (if_pos dotDot)
      have isDirP := (tree.parent found isDirN).1
      obtain ⟨p, foundP, isDirP'⟩ := Volume.isDir_iff.mp isDirP
      obtain ⟨fs1, run1, steady1, models1⟩ :=
        models.inodeOpen_opened (by rw [opened_node, foundP])
      have run2 := models1.dirOpen_of_dir
        (by rw [opened_node, opened_node, foundP]) opened_handle_self isDirP'
      obtain ⟨fs3, run3, steady3, models3⟩ := models1.inodeClose_first tree found
      obtain ⟨fs4, run4, steady4, models4⟩ := ih isDirP models3
      rw [if_pos dotDot, leads, filter_some_pos isDirP,
        models.inodeGetParent found' opened_handle_self]
      refine ⟨fs4, ?_, (steady1.trans steady3).trans steady4, models4⟩
      simp only [bind_eq_bind, bind_some, run1, run2, FS.dirClose, run3, run4]
    rw [if_neg dotDot]
    obtain ⟨fs1, run1, steady1, absent, present⟩ := models.dirLookup (tree.opened some?)
      (by rwa [opened_isDir]) opened_handle_self token
    rw [opened_lookup] at run1 absent present
    rw [run1, bind_eq_bind, bind_some]
    cases leads : V.lookup dir token with
    | none => exact ⟨fs1, rfl, steady1, absent leads⟩
    | some t =>
      have models1 := present t leads
      obtain ⟨-, m, foundT⟩ := tree.lookup isDir leads
      cases isDirT : m.isDir with
      | false =>
        have notDir : V.isDir t = false := by
          unfold Volume.isDir
          rw [foundT]
          exact isDirT
        obtain ⟨fs2, run2, steady2, models2⟩ := models1.dirOpen_of_file (tree.opened some?)
          (by rw [Volume.opened_node, foundT]) isDirT
        rw [filter_some_neg (by rw [notDir])]
        refine ⟨fs2, ?_, steady1.trans steady2, models2⟩
        simp only [run2, bind_some]
      | true =>
        have isDirT' : V.isDir t = true := isDir_iff.mpr ⟨m, foundT, isDirT⟩
        have run2 := models1.dirOpen_of_dir
          (by rw [opened_node, opened_node, foundT]) opened_handle_self isDirT
        obtain ⟨fs3, run3, steady3, models3⟩ := models1.inodeClose_first tree found
        obtain ⟨fs4, run4, steady4, models4⟩ := ih isDirT' models3
        rw [filter_some_pos isDirT']
        refine ⟨fs4, ?_, (steady1.trans steady3).trans steady4, models4⟩
        simp only [run2, bind_eq_bind, bind_some, FS.dirClose, run3, run4]

/-! ## Adding an entry -/

/-- The bytes name the inode `s` in the entry of a directory. -/
structure Names (e : EntryBytes) (name : FileName) (s : BlockSector) : Prop where
  inUse : e.decode.inUse = true
  inodeSector : e.decode.inodeSector = s
  name : 0 ∉ name → e.decode.name = name

theorem dirAdd_refused (models : Models fs V R) (found : V.node dir = some n)
    (handle : V.handle dir = some o) {name : FileName}
    (refused : validName name = false ∨ n.content.find name ≠ none) (t : BlockSector)
    (stack : EntryBytes) :
    ∃ fs', fs.dirAdd dir name t stack = some (false, fs') ∧ Steady 0 fs fs' ∧ Models fs' V R := by
  unfold FS.dirAdd
  cases valid : validName name with
  | false => exact ⟨fs, rfl, Steady.refl fs, models⟩
  | true =>
    have present : n.content.find name ≠ none := by
      rcases refused with invalid | present
      · rw [valid] at invalid
        cases invalid
      · exact present
    simp only [validName, Bool.and_eq_true, decide_eq_true_eq] at valid
    obtain ⟨i, at?⟩ := ne_none_iff_exists'.mp present
    obtain ⟨r, fs1, run1, steady1, models1, -, entry⟩ := models.lookup found handle name stack
    rw [entry valid.1.2 valid.2, at?] at run1
    refine ⟨fs1, ?_, steady1, models1⟩
    rw [if_pos rfl, run1]
    rfl

/-- A new name goes to the free slot. What is left of `dir_add` is the write. -/
theorem dirAdd_new (models : Models fs V R) (found : V.node dir = some n)
    (handle : V.handle dir = some o) {name : FileName} (valid : validName name = true)
    (absent : n.content.find name = none) (t : BlockSector) (stack : EntryBytes) :
    ∃ e fs1, Names e name t ∧ Steady 0 fs fs1 ∧ Models fs1 V R ∧
      fs.dirAdd dir name t stack = (do
        let (written, fs) ← fs1.inodeWriteAt dir e entrySize
          ((entrySize * n.content.freeSlot : Nat) : Int)
        let fs ← fs.inodeUpdateFileCnt dir 1
        some (decide (written = entrySize), fs)) := by
  have checks := valid
  simp only [validName, Bool.and_eq_true, decide_eq_true_eq] at checks
  obtain ⟨⟨⟨-, short⟩, notDot⟩, notDotDot⟩ := checks
  obtain ⟨r, fs1, run1, steady1, models1, -, entry⟩ := models.lookup found handle name stack
  rw [entry notDot notDotDot, absent] at run1
  obtain ⟨e, fs2, run2, steady2, models2⟩ := models1.freeSlotLoop found handle stack (Nat.zero_le _)
    (show n.content.entryCnt - 0 < n.content.entryCnt + 1 by omega)
  rw [Nat.sub_zero, ← List.range_eq_range'] at run2
  have run2 : Pintos.freeSlotLoop dir (n.content.entryCnt + 1) 0 stack fs1 =
      some (entrySize * n.content.freeSlot, e, fs2) := run2
  refine ⟨((e.setInUse true).setName name).setInodeSector t, fs2, ⟨by simp, by simp, ?_⟩,
    steady1.trans steady2, models2, ?_⟩
  · intro noNull
    rw [EntryBytes.name_setInodeSector, EntryBytes.name_setName _ short noNull]
  unfold FS.dirAdd
  rw [valid, if_pos rfl, run1]
  simp only [bind_eq_bind, bind_some, map_none, models1.entryBound found handle, run2]

/-- The number of files in a directory is changed, on disk and in memory. -/
theorem Standing.inodeUpdateFileCnt (standing : Standing fs V R dir o) (found : (V.node dir).isSome)
    (delta : BitVec 32) :
    ∃ fs', fs.inodeUpdateFileCnt dir delta = some fs' ∧ Standing fs' V R dir o := by
  obtain ⟨⟨F, h, on, held⟩, freeMapFile, ⟨inode, isOpen, isHandle⟩, notFile⟩ := standing
  obtain ⟨c, content⟩ := isSome_iff_exists.mp (held dir (Or.inr found))
  obtain ⟨fs1, run1, on1, same1⟩ := on.readInode content
  obtain ⟨d, isData⟩ : ∃ d, d = { InodeDisk.ofSector c with
    fileCnt := (InodeDisk.ofSector c).fileCnt + delta } := ⟨_, rfl⟩
  have on2 : On F h (fs1.setData dir inode d) :=
    on1.congr rfl rfl rfl (fs1.setInode_of_ne _ notFile.symm)
  obtain ⟨fs3, run3, on3, same3⟩ := on2.writeInode content d
  refine ⟨fs3, ?_, ⟨F, _, on3, ?_⟩, ?_, ⟨{ inode with data := d }, ?_, isHandle⟩, notFile⟩
  · simp only [FS.inodeUpdateFileCnt, isOpen, run1, bind_eq_bind, bind_some]
    rw [← isData]
    exact run3
  · intro t isHeld
    by_cases same : t = dir
    · rw [same, Function.update_self]
      rfl
    · rw [Function.update_of_ne same]
      exact held t isHeld
  · rw [same3.freeMapFile]
    exact same1.freeMapFile.trans freeMapFile
  · rw [same3.openInodes]
    exact fs1.setInode_self dir _

/-- `inode_update_file_cnt` leaves the free map alone. -/
theorem steady_of_inodeUpdateFileCnt {fs' : FS} {delta : BitVec 32}
    (run : fs.inodeUpdateFileCnt s delta = some fs') : Steady 0 fs fs' := by
  simp only [FS.inodeUpdateFileCnt, FS.readInode, FS.writeInode, FS.cacheRead, FS.cacheWrite,
    FS.setData, FS.setInode, bind_eq_bind, bind_eq_some_iff, some.injEq] at run
  obtain ⟨inode, -, ⟨data, fs1⟩, ⟨⟨bytes, fs0⟩, ⟨store, -, isFs0⟩, isFs1⟩, store', -, rfl⟩ := run
  cases isFs1
  cases isFs0
  exact ⟨⟨Nat.le_refl _, Or.inl, id, id, rfl⟩, rfl⟩

/-- What `dir_add` makes of a directory: the name is refused, or it is entered, or the entry
    could not be written. -/
inductive DirAdded (fs' : FS) (V : Volume) (R : List BlockSector) (dir : BlockSector) (n : Node)
    (o : Handle) (name : FileName) (t : BlockSector) : Bool → Prop
  | refused (models : Models fs' V R) (why : validName name = false ∨ n.content.find name ≠ none) :
      DirAdded fs' V R dir n o name t false
  | added {e : EntryBytes} (names : Names e name t)
      (models : Models fs' (V.put dir (some { n with
        content := n.content.setEntry n.content.freeSlot e
        fileCnt := n.fileCnt + 1 }) (some o)) R) : DirAdded fs' V R dir n o name t true
  | failed (why : 512 * (maxSectors - 1) < n.content.length ∨ fs'.allocFailed = true) :
      DirAdded fs' V R dir n o name t false

/-- `dir_add` returns and leaves the directory standing. -/
theorem dirAdd (models : Models fs V R) (found : V.node dir = some n)
    (handle : V.handle dir = some o) (allowed : o.denyWriteCnt = 0) (name : FileName)
    (t : BlockSector) (stack : EntryBytes) :
    ∃ ok fs', fs.dirAdd dir name t stack = some (ok, fs') ∧ Costs 131 fs fs' ∧
      Standing fs' V R dir o ∧ DirAdded fs' V R dir n o name t ok := by
  by_cases refused : validName name = false ∨ n.content.find name ≠ none
  · obtain ⟨fs', run, steady, models'⟩ := models.dirAdd_refused found handle refused t stack
    exact ⟨false, fs', run, steady.toCosts.mono (Nat.zero_le _), models'.standing found handle,
      .refused models' refused⟩
  simp only [not_or, Bool.not_eq_false, ne_eq, Decidable.not_not] at refused
  obtain ⟨valid, absent⟩ := refused
  obtain ⟨e, fs1, names, steady1, models1, run1⟩ :=
    models.dirAdd_new found handle valid absent t stack
  have slot : entrySize * n.content.freeSlot ≤ n.content.length := by
    have le := FileBytes.freeSlot_le (b := n.content)
    unfold FileBytes.entryCnt at le
    simp only [entrySize] at le ⊢
    omega
  have size : entrySize = 36 := rfl
  have small := models.content_small found
  unfold maxSectors at small
  obtain ⟨r, fs2, run2, costs2, written, standing2, -⟩ := models1.inodeWriteAt_room found handle
    allowed e (show entrySize * n.content.freeSlot + entrySize ≤ 2 ^ 31 - 512 by omega)
  obtain ⟨fs3, run3, standing3⟩ := standing2.inodeUpdateFileCnt (by rw [found]; rfl) 1
  have steady3 := steady_of_inodeUpdateFileCnt run3
  refine ⟨decide (r = entrySize), fs3, ?_, ((steady1.toCosts.trans costs2).trans
    steady3.toCosts).mono (by omega), standing3, ?_⟩
  · rw [run1, run2]
    simp only [bind_eq_bind, bind_some, run3]
  cases written with
  | done models2 _ =>
    obtain ⟨fs4, run4, -, models4⟩ := models2.inodeUpdateFileCnt put_node_self put_handle_self 1
    rw [put_put] at models4
    obtain rfl := some.inj (run3.symm.trans run4)
    rw [decide_eq_true rfl]
    exact .added names models4
  | undone _ _ _ why =>
    refine .failed (why.imp ?_ steady3.allocFailed)
    intro tooLong
    unfold maxSectors at tooLong ⊢
    omega
  | broken _ why => exact .failed (why.imp And.left steady3.allocFailed)

end Models

end Pintos
