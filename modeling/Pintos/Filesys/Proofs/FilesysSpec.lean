import Pintos.Filesys.File
import Pintos.Filesys.Proofs.DirSpec
import Pintos.Filesys.Proofs.Format

/-!
# The file system on a volume

What the functions of `filesys.c` and `file.c` do to a state that holds a volume whose
directories are a tree. `filesys_open` finds the inode to which the name leads, and
`filesys_create` enters a new inode in the directory to which the path leads. It returns
also where an allocation fails and the directory is left behind without index blocks.
-/

namespace Pintos

open Option Volume FileBytes Node

variable {file : File} {size k : Nat} {name pathName : List Byte} {fileName : FileName}
  {isDir : Bool} {d t : BlockSector} {n n' : Node}

namespace Volume

variable (V : Volume)

/-- The directory at which a path starts. -/
def start (cwd : BlockSector) (name : List Byte) : BlockSector :=
  if name.head? = some slash then rootDirSector else cwd

/-- The inode to which a name leads. -/
def resolve (cwd : BlockSector) (name : List Byte) : Option BlockSector :=
  if name = [] then none
  else if isRootPath name then some rootDirSector
  else
    match pathSplit name false with
    | none => none
    | some (pathName, fileName) =>
        match V.walk (pathTokens pathName) (start cwd name) with
        | (false, _) => none
        | (true, dir) => V.lookup dir fileName

variable {V} {cwd : BlockSector}

theorem start_isDir (tree : V.Tree) (isDir : V.isDir cwd = true) (name : List Byte) :
    V.isDir (start cwd name) = true := by
  unfold start
  split
  · exact tree.root_isDir
  · exact isDir

end Volume

namespace Models

variable {R : List BlockSector} {fs : FS} {V : Volume} {cwd dir s : BlockSector} {n : Node}
  {o : Handle}

/-! ## Opening a file -/

section

variable (models : Models fs V R)
include models

theorem dirOpenFor (tree : V.Tree) (isDir : V.isDir cwd = true) (name : List Byte) :
    ∃ fs', fs.dirOpenFor cwd name = some (some (start cwd name), fs') ∧ Steady 0 fs fs' ∧
      Models fs' (V.opened (start cwd name)) R := by
  obtain ⟨n, found, isDirN⟩ := isDir_iff.mp (start_isDir tree isDir name)
  obtain ⟨fs1, run1, steady1, models1⟩ := models.inodeOpen_opened found
  have found1 : (V.opened (start cwd name)).node (start cwd name) = some n := by
    rw [opened_node, found]
  have run2 := models1.dirOpen_of_dir found1 opened_handle_self isDirN
  refine ⟨fs1, ?_, steady1, models1⟩
  unfold start at run1 run2 ⊢
  simp only [FS.dirOpenFor, run1, run2, bind_eq_bind, bind_some]

theorem dirOpen_walk (tree : V.Tree) (isDir : V.isDir cwd = true) (name pathName : List Byte) :
    ∃ fs1 fs2 ok dir, fs.dirOpenFor cwd name = some (some (start cwd name), fs1) ∧
      Pintos.dirWalk (pathTokens pathName) (start cwd name) fs1 = some (ok, dir, fs2) ∧
      V.walk (pathTokens pathName) (start cwd name) = (ok, dir) ∧ V.isDir dir = true ∧
      Steady 0 fs fs2 ∧ Models fs2 (V.opened dir) R := by
  obtain ⟨fs1, run1, steady1, models1⟩ := models.dirOpenFor tree isDir name
  have isStart := start_isDir tree isDir name
  obtain ⟨fs2, run2, steady2, models2⟩ := dirWalk tree (pathTokens pathName) isStart models1
  exact ⟨fs1, fs2, _, _, run1, run2, rfl, walk_isDir _ isStart, steady1.trans steady2, models2⟩

/-- `filesys_open` opens the inode to which the name leads. -/
theorem filesysOpen (tree : V.Tree) (isDir : V.isDir cwd = true) (name : List Byte) :
    ∃ fs', fs.filesysOpen cwd name = some ((V.resolve cwd name).map fileOpen, fs') ∧
      Steady 0 fs fs' ∧ (V.resolve cwd name = none → Models fs' V R) ∧
      ∀ s, V.resolve cwd name = some s → Models fs' (V.opened s) R := by
  unfold FS.filesysOpen resolve
  by_cases empty : name = []
  · rw [if_pos empty, if_pos empty]
    exact ⟨fs, rfl, Steady.refl fs, fun _ => models, by simp⟩
  rw [if_neg empty, if_neg empty]
  by_cases root : isRootPath name = true
  · rw [if_pos root, if_pos root]
    obtain ⟨n, found, -⟩ := tree.root
    obtain ⟨fs', run, steady, models'⟩ := models.inodeOpen_opened found
    rw [run]
    refine ⟨fs', rfl, steady, by simp, fun s isS => ?_⟩
    rwa [← some.inj isS]
  rw [if_neg root, if_neg root]
  cases pathSplit name false with
  | none => exact ⟨fs, rfl, Steady.refl fs, fun _ => models, by simp⟩
  | some parts =>
    obtain ⟨pathName, fileName⟩ := parts
    obtain ⟨fs1, fs2, ok, dir, run1, run2, leads, isDir2, steady2, models2⟩ :=
      models.dirOpen_walk tree isDir name pathName
    obtain ⟨n, found, isDirN⟩ := isDir_iff.mp isDir2
    simp only [run1, run2, leads, bind_eq_bind, bind_some]
    cases ok with
    | false =>
      obtain ⟨fs3, run3, steady3, models3⟩ := models2.inodeClose_opened tree found
      refine ⟨fs3, ?_, steady2.trans steady3, fun _ => models3, by simp⟩
      simp only [FS.dirClose, run3, bind_some]
      rfl
    | true =>
      have some? : (V.node dir).isSome := by
        rw [found]
        rfl
      obtain ⟨fs3, run3, steady3, absent3, present3⟩ := models2.dirLookup (tree.opened some?)
        (by rwa [opened_isDir]) opened_handle_self fileName
      rw [opened_lookup] at run3 absent3 present3
      dsimp only
      cases isS : V.lookup dir fileName with
      | none =>
        obtain ⟨fs4, run4, steady4, models4⟩ := (absent3 isS).inodeClose_opened tree found
        refine ⟨fs4, ?_, (steady2.trans steady3).trans steady4, fun _ => models4, by simp⟩
        simp only [run3, isS, FS.dirClose, run4, bind_some]
      | some s =>
        obtain ⟨fs4, run4, steady4, models4⟩ := (present3 s isS).inodeClose_first tree found
        refine ⟨fs4, ?_, (steady2.trans steady3).trans steady4, by simp, fun s' isS' => ?_⟩
        · simp only [run3, isS, FS.dirClose, run4, bind_some]
        · rwa [← some.inj isS']

/-! ## Open files -/

theorem setInode (found : V.node s = some n) (handle : V.handle s = some o) :
    ∃ inode, fs.openInodes s = some inode ∧ inode.handle = o ∧ ∀ inode', inode'.data = inode.data →
        Models (fs.setInode s (some inode')) (V.put s (some n) (some inode'.handle)) R := by
  obtain ⟨F, h, G, rep⟩ := models
  obtain ⟨inode, L, opened, isHandle, layout, node⟩ := rep.open_data found handle
  refine ⟨inode, opened, isHandle, fun inode' same => ⟨F, h, G, ?_⟩⟩
  apply rep.setInode found (some inode')
  intro inode'' isInode
  rw [← some.inj isInode, same]
  exact node.disk

end

/-! ## Creating a file -/

/-- The handle that the walk leaves on the directory does not deny writes. -/
theorem opened_allowed (tree : V.Tree) (found : V.node dir = some n) (isDir : n.isDir = true) :
    (V.opened dir).node dir = some n ∧ (Handle.reopen (V.handle dir)).denyWriteCnt = 0 := by
  have found' : (V.opened dir).node dir = some n := by rw [opened_node, found]
  have some? : (V.node dir).isSome := by
    rw [found]
    rfl
  exact ⟨found', ((tree.opened some?).handles opened_handle_self).2.2 n found' isDir⟩

/-- `filesys_create` after the walk. -/
theorem filesysCreate_walk (models : Models fs V R) (tree : V.Tree) (cwdDir : V.isDir cwd = true)
    (split : pathSplit name isDir = some (pathName, fileName)) (size : Int) (stack : EntryBytes) :
    ∃ fs1 fs2 ok dir, fs.dirOpenFor cwd name = some (some (start cwd name), fs1) ∧
      Pintos.dirWalk (pathTokens pathName) (start cwd name) fs1 = some (ok, dir, fs2) ∧
      V.walk (pathTokens pathName) (start cwd name) = (ok, dir) ∧
      V.isDir dir = true ∧ Steady 0 fs fs2 ∧ Models fs2 (V.opened dir) R ∧
      fs.filesysCreate cwd name size isDir stack =
        (match ok with
        | false => do
            let fs ← fs2.dirClose dir
            some (false, fs)
        | true => do
            let (ok, inodeSector, fs) ← fs2.createIn dir fileName size isDir stack
            let fs ← fs.createUndo ok inodeSector
            let fs ← fs.dirClose dir
            some (ok, fs)) := by
  obtain ⟨fs1, fs2, ok, dir, run1, run2, leads, isDir2, steady, models2⟩ :=
    models.dirOpen_walk tree cwdDir name pathName
  refine ⟨fs1, fs2, ok, dir, run1, run2, leads, isDir2, steady, models2, ?_⟩
  unfold FS.filesysCreate
  rw [split]
  simp only [run1, run2, bind_eq_bind, bind_some]
  cases ok <;> rfl

end Models

namespace Models.Standing

variable {R : List BlockSector} {fs : FS} {V : Volume} {dir t : BlockSector} {o : Handle}

theorem freeMapRelease (standing : Standing fs V R dir o) (found : t ∈ R ∨ (V.node t).isSome) :
    ∃ fs', fs.freeMapRelease t = some fs' ∧ Steady 0 fs fs' ∧ Standing fs' empty [] dir o := by
  obtain ⟨⟨F, h, on, held⟩, freeMapFile, ⟨inode, isOpen, isHandle⟩, notFile⟩ := standing
  obtain ⟨c, content⟩ := isSome_iff_exists.mp (held t found)
  obtain ⟨fs', run, on', same⟩ := on.freeMapRelease freeMapFile content
  refine ⟨fs', run, Steady.of_update on on' same, ⟨F, _, on', ?_⟩, ?_, ⟨inode, ?_, isHandle⟩,
    notFile⟩
  · rintro s (reserved | node)
    · cases reserved
    · cases node
  · exact same.freeMapFile.trans freeMapFile
  · rw [same.openInodes, isOpen]

theorem dirClose (standing : Standing fs V R dir o) (kept : o.removed = false) :
    ∃ fs', fs.dirClose dir = some fs' ∧ Steady 0 fs fs' := by
  obtain ⟨⟨F, h, on, held⟩, -, ⟨inode, isOpen, rfl⟩, notFile⟩ := standing
  have kept : inode.removed = false := kept
  unfold FS.dirClose FS.inodeClose
  rw [isOpen, bind_eq_bind, bind_some]
  by_cases last : inode.openCnt - 1 = 0
  · have on2 := on.setInode notFile none
    obtain ⟨fs3, run3, on3, same⟩ := on2.cacheFlush
    refine ⟨fs3, ?_, (Steady.setInode fs dir none).trans (Steady.of_same on2 on3 same fun _ => id)⟩
    rw [if_pos last, run3, bind_eq_bind, bind_some, kept]
    rfl
  · exact ⟨_, if_neg last, Steady.setInode fs dir _⟩

end Models.Standing

namespace Models

variable {R : List BlockSector} {fs : FS} {V : Volume} {cwd dir t : BlockSector} {n : Node}
  {o : Handle}

/-- What `filesys_create` makes in a directory that it reaches: nothing is left but sectors that
    no inode has, or the new inode is entered, or an entry could not be written. -/
inductive Created (fs' : FS) (V : Volume) (R : List BlockSector) (n : Node) (fileName : FileName)
    (size : Nat) (entered : EntryBytes → BlockSector → Volume) : Bool → Prop
  | undone (models : Models fs' V R)
      (why : (validName fileName = false ∨ n.content.find fileName ≠ none) ∨
        512 * maxSectors < size ∨ fs'.allocFailed = true) :
      Created fs' V R n fileName size entered false
  | entered {e : EntryBytes} {t : BlockSector} (names : Names e fileName t)
      (fresh : V.node t = none) (models : Models fs' (entered e t) R) :
      Created fs' V R n fileName size entered true
  | failed (why : 512 * (maxSectors - 1) < n.content.length ∨ fs'.allocFailed = true) :
      Created fs' V R n fileName size entered false

/-- The part of `filesys_create` with the directory open. -/
theorem createIn (models : Models fs V R) (found : V.node dir = some n)
    (handle : V.handle dir = some o) (allowed : o.denyWriteCnt = 0) (fileName : FileName)
    (bound : size ≤ 2 ^ 31 - 512) (isDir : Bool) (stack : EntryBytes) :
    ∃ ok t fs1 fs2, fs.createIn dir fileName size isDir stack = some (ok, t, fs1) ∧
      fs1.createUndo ok t = some fs2 ∧ Costs ((size + 511) / 512 + 262) fs fs2 ∧
      (∃ V' R', Standing fs2 V' R' dir o) ∧
      Created fs2 V R n fileName size (fun e t =>
        (V.put t (some (new isDir dir size)) none).put dir (some { n with
          content := n.content.setEntry n.content.freeSlot e
          fileCnt := n.fileCnt + 1 }) (some o)) ok := by
  obtain ⟨r, fsA, runA, steadyA, effectA⟩ := models.freeMapAllocate
  unfold FS.createIn
  rw [runA, bind_eq_bind, bind_some]
  cases r with
  | none =>
    exact ⟨false, 0, fsA, fsA, rfl, if_neg fun undo => undo.2 rfl, steadyA.toCosts.mono (by omega),
      ⟨V, R, effectA.2.standing found handle⟩, .undone effectA.2 (.inr (.inr effectA.1))⟩
  | some t =>
    have modelsA : Models fsA V (t :: R) := effectA
    obtain ⟨fresh, -, closed⟩ := modelsA.of_reserved List.mem_cons_self
    have ne : dir ≠ t := by
      rintro rfl
      rw [fresh] at found
      cases found
    have notZero : t ≠ 0 := (modelsA.of_reserved List.mem_cons_self).2.1
    obtain ⟨ok, fsB, runB, costsB, success, failure⟩ := modelsA.inodeCreate bound isDir dir
    have costsB := steadyA.toCosts.trans costsB
    dsimp only
    rw [runB, bind_eq_bind, bind_some]
    cases ok with
    | false =>
      obtain ⟨modelsB, -, why⟩ := failure rfl
      obtain ⟨fsC, runC, steadyC, modelsC⟩ := modelsB.freeMapRelease
      exact ⟨false, t, fsB, fsC, rfl, (if_pos ⟨rfl, notZero⟩).trans runC,
        (costsB.trans steadyC.toCosts).mono (by omega), ⟨V, R, modelsC.standing found handle⟩,
        .undone modelsC (.inr (why.imp_right steadyC.allocFailed))⟩
    | true =>
      obtain ⟨ok, fsC, runC, costsC, standingC, added⟩ := (success rfl).2.dirAdd
        ((put_node_of_ne ne).trans found)
        ((put_handle_of_ne ne).trans handle) allowed fileName t stack
      have costsC := costsB.trans costsC
      dsimp only
      rw [runC, bind_some]
      cases added with
      | refused modelsC why =>
        obtain ⟨fsD, runD, steadyD, modelsD⟩ :=
          modelsC.freeMapRelease_node put_node_self put_handle_self
        rw [put_put, put_of_eq fresh closed] at modelsD
        exact ⟨false, t, fsC, fsD, rfl, (if_pos ⟨rfl, notZero⟩).trans runD,
          (costsC.trans steadyD.toCosts).mono (by omega), ⟨V, R, modelsD.standing found handle⟩,
          .undone modelsD (.inl why)⟩
      | added names modelsC =>
        exact ⟨true, t, fsC, fsC, rfl, if_neg (fun undo => nomatch undo.1),
          costsC.mono (by omega), ⟨_, R, standingC⟩, .entered names fresh modelsC⟩
      | failed why =>
        obtain ⟨fsD, runD, steadyD, standingD⟩ := standingC.freeMapRelease (t := t)
          (.inr (by rw [put_node_self]; rfl))
        exact ⟨false, t, fsC, fsD, rfl, (if_pos ⟨rfl, notZero⟩).trans runD,
          (costsC.trans steadyD.toCosts).mono (by omega), ⟨_, _, standingD⟩,
          .failed (why.imp_right steadyD.allocFailed)⟩

/-- `filesys_create` in a directory that the path reaches. -/
theorem filesysCreate_in (models : Models fs V R) (tree : V.Tree) (cwdDir : V.isDir cwd = true)
    (split : pathSplit name isDir = some (pathName, fileName))
    (leads : V.walk (pathTokens pathName) (start cwd name) = (true, dir))
    (found : V.node dir = some n) (bound : size ≤ 2 ^ 31 - 512) (stack : EntryBytes) :
    ∃ ok fs', fs.filesysCreate cwd name size isDir stack = some (ok, fs') ∧
      Costs ((size + 511) / 512 + 262) fs fs' ∧ Created fs' V R n fileName size
        (fun e t => V.link dir n e t (new isDir dir size)) ok := by
  obtain ⟨-, fs2, ok, dir', -, -, leads', isDir2, steady2, models2, create⟩ :=
    models.filesysCreate_walk tree cwdDir split size stack
  obtain ⟨rfl, rfl⟩ := Prod.mk.inj (leads.symm.trans leads')
  have isDirN : n.isDir = true := by
    obtain ⟨m, found', isDirM⟩ := isDir_iff.mp isDir2
    rwa [some.inj (found.symm.trans found')]
  obtain ⟨found2, allowed⟩ := opened_allowed tree found isDirN
  obtain ⟨ok, t, fs3, fs4, run3, run4, costs4, ⟨V', R', standing⟩, created⟩ :=
    models2.createIn found2 opened_handle_self allowed fileName bound isDir stack
  have costs4 := steady2.toCosts.trans costs4
  suffices closes : ∃ fs5, fs4.dirClose dir = some fs5 ∧ Steady 0 fs4 fs5 ∧ Created fs5 V R n fileName
      size (fun e t => V.link dir n e t (new isDir dir size)) ok by
    obtain ⟨fs5, run5, steady5, created5⟩ := closes
    refine ⟨ok, fs5, ?_, (costs4.trans steady5.toCosts).mono (by omega), created5⟩
    simp only [create, run3, run4, run5, bind_eq_bind, bind_some]
  cases created with
  | undone models4 why =>
    obtain ⟨fs5, run5, steady5, models5⟩ := models4.inodeClose_opened tree found
    exact ⟨fs5, run5, steady5, .undone models5 (why.imp_right (Or.imp_right steady5.allocFailed))⟩
  | failed why =>
    have kept := (tree.opened (by rw [found]; rfl)).removed found2 isDirN _ opened_handle_self
    obtain ⟨fs5, run5, steady5⟩ := standing.dirClose kept
    exact ⟨fs5, run5, steady5, .failed (why.imp_right steady5.allocFailed)⟩
  | @entered e t names fresh models4 =>
    obtain ⟨fs5, run5, steady5, models5⟩ := models4.inodeClose_reopened put_node_self
      put_handle_self tree.counted_handle
    rw [opened_node] at fresh
    have ne : dir ≠ t := by
      rintro rfl
      rw [found] at fresh
      cases fresh
    have isLink : (((V.opened dir).put t (some (new isDir dir size)) none).put dir
        (some { n with content := n.content.setEntry n.content.freeSlot e
                       fileCnt := n.fileCnt + 1 })
        (some (Handle.reopen (V.handle dir)))).setHandle dir (V.handle dir) =
        V.link dir n e t (new isDir dir size) := by
      unfold Volume.setHandle Volume.link
      rw [Volume.put_put, Volume.put_node_self]
      apply Volume.ext
      · rw [Volume.opened, Volume.setHandle]
        simp only [Volume.put, Function.update_eq_self]
      · simp only [Volume.put, Volume.opened, Volume.setHandle]
        rw [Function.update_comm ne, Function.update_idem, Function.update_comm ne.symm]
    rw [isLink] at models5
    exact ⟨fs5, run5, steady5, .entered names fresh models5⟩

/-- Enough free sectors for an operation that takes at most `k`. -/
theorem not_allocFailed {fs' : FS} (costs : Costs k fs fs') (quiet : fs.allocFailed = false)
    (room : k < fs.freeCount) : fs'.allocFailed = false := by
  cases failed : fs'.allocFailed with
  | false => rfl
  | true =>
    rcases costs.quiet failed with old | few
    · rw [quiet] at old
      cases old
    · omega

end Models

/-! ## The formatted volume -/

theorem FileBytes.inUse_zeros (length i : Nat) : ((zeros length).entry i).inUse = false := by
  show ((zeros length).entryBytes i 35 != 0) = false
  rw [entryBytes_of_lt (by decide)]
  rfl

theorem formattedVolume_node :
    formattedVolume.node rootDirSector = some (new true rootDirSector 576) :=
  put_node_self

theorem formattedVolume_handle (s : BlockSector) : formattedVolume.handle s = none := by
  by_cases same : s = rootDirSector
  · rw [same]
    exact put_handle_self
  · exact put_handle_of_ne same

theorem formattedVolume_tree : formattedVolume.Tree := by
  have only : ∀ {s n}, formattedVolume.node s = some n →
      s = rootDirSector ∧ n = new true rootDirSector 576 := by
    intro s n found
    by_cases same : s = rootDirSector
    · subst same
      exact ⟨rfl, (some.inj (formattedVolume_node.symm.trans found)).symm⟩
    · rw [formattedVolume, put_node_of_ne same] at found
      cases found
  have kept : ∀ s, formattedVolume.Kept s := by
    intro s o handle
    rw [formattedVolume_handle] at handle
    cases handle
  have empty : ∀ {d i s}, ¬formattedVolume.Entry d i s := by
    rintro d i s ⟨n, found, -, -, used, -⟩
    rw [(only found).2] at used
    have unused : ((new true rootDirSector 576).content.entry i).inUse = false :=
      inUse_zeros 576 i
    rw [unused] at used
    cases used
  refine ⟨⟨_, formattedVolume_node, rfl, rfl⟩, fun entry => absurd entry empty,
    fun entry => absurd entry empty, ?_, fun _ _ => kept _, ?_, ?_⟩
  · intro s n found _
    rw [(only found).1]
    exact .root
  · intro d n found _
    rw [(only found).2]
    exact (usedCnt_eq_zero.mpr (inUse_zeros 576)).symm
  intro s o handle
  rw [formattedVolume_handle] at handle
  cases handle

theorem Volume.lookup_link {V : Volume} {e : EntryBytes}
    {name : FileName} (valid : validName name = true) (noNull : 0 ∉ name)
    (absent : n.content.find name = none) (names : Models.Names e name t) :
    (V.link d n e t n').lookup d name = some t := by
  simp only [validName, Bool.and_eq_true, decide_eq_true_eq] at valid
  have named : e.decode.isNamed name = true := by
    simp [DirEntry.isNamed, names.inUse, names.name noNull]
  unfold lookup
  rw [link_node_dir, bind_eq_bind, bind_some, if_neg valid.1.2, if_neg valid.2]
  simp only [find_setEntry absent named, map_some, entry_setEntry_self, names.inodeSector]

/-- The file name `a`. -/
def nameA : FileName := [0x61]

/-- The directory in which `a` is created. -/
theorem formattedVolume_walk_nameA :
    formattedVolume.walk (pathTokens dotName) (start rootDirSector nameA) =
      (true, rootDirSector) := by
  have tokens : pathTokens dotName = [dotName] := by decide
  have start : start rootDirSector nameA = rootDirSector := by decide
  have dot : formattedVolume.lookup rootDirSector dotName = some rootDirSector := by
    unfold lookup
    rw [formattedVolume_node]
    rfl
  rw [tokens, start, walk, dot, filter_some, if_pos formattedVolume_tree.root_isDir]
  rfl

/-- There is a file system with one file, `a`, in its root directory. -/
theorem exists_file_a : ∃ fs V t, Models fs V [] ∧ V.Tree ∧
    V.lookup rootDirSector nameA = some t ∧ V.node t = some (new false rootDirSector 0) ∧
    ∀ s, V.handle s = none := by
  obtain ⟨fs, formatted, quiet, -, -, count⟩ := exists_formatted
  have room : (0 + 511) / 512 + 262 < fs.freeCount := by omega
  have isRoot : formattedVolume.isDir rootDirSector = true := formattedVolume_tree.root_isDir
  have valid : validName nameA = true := by decide
  have absent : (new true rootDirSector 576).content.find nameA = none := by
    rw [find_eq_none]
    intro i
    have unused : ((new true rootDirSector 576).content.entry i).inUse = false :=
      inUse_zeros 576 i
    simp [DirEntry.isNamed, unused]
  obtain ⟨ok, fs', -, costs, created⟩ := formatted.models.filesysCreate_in formattedVolume_tree isRoot
    (show pathSplit nameA false = some (dotName, nameA) by decide) formattedVolume_walk_nameA
    formattedVolume_node (show 0 ≤ 2 ^ 31 - 512 by decide) fun _ => 0
  have quiet' := Models.not_allocFailed costs quiet room
  obtain ⟨t, e, names, fresh, models⟩ : ∃ t e, Models.Names e nameA t ∧
      formattedVolume.node t = none ∧ Models fs' (formattedVolume.link rootDirSector
        (new true rootDirSector 576) e t (new false rootDirSector 0)) [] := by
    cases created with
    | undone _ why => simp [valid, absent, quiet'] at why
    | failed why => simp [quiet', new, zeros, maxSectors] at why
    | entered names fresh models => exact ⟨_, _, names, fresh, models⟩
  have ne : t ≠ rootDirSector := by
    rintro rfl
    rw [formattedVolume_node] at fresh
    cases fresh
  refine ⟨fs', _, t, models, ?_, lookup_link valid (by decide) absent names, link_node_new ne, ?_⟩
  · exact formattedVolume_tree.link formattedVolume_node rfl fresh names.inUse names.inodeSector rfl
      (usedCnt_eq_zero.mpr (inUse_zeros 0)) rfl
      (show 576 < 2 ^ 32 - 1 by decide)
  · intro s
    rw [link_handle (formattedVolume_handle t), formattedVolume_handle]

end Pintos
