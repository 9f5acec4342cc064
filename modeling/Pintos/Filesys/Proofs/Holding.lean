import Pintos.Filesys.Filesys
import Pintos.Misc.Outcome

/-!
# What the walk over directories changes

Looking up names reads through the cache and opens and closes inodes, and nothing else.
`Holding` is for statements about the state and the list of the inodes that are held open: one
that survives reading, opening and closing survives `dir_walk` and the calls around it.
-/

namespace Pintos

namespace FS

/-- Nothing but the cache changed. -/
def OnlyCache (fs fs' : FS) : Prop := fs' = { fs with store := fs'.store }

namespace OnlyCache

variable {fs fs' fs'' : FS}

theorem refl (fs : FS) : OnlyCache fs fs := rfl

theorem trans (first : OnlyCache fs fs') (second : OnlyCache fs' fs'') : OnlyCache fs fs'' := by
  unfold OnlyCache at first second ⊢
  rw [second, first]

theorem freeMap (only : OnlyCache fs fs') : fs'.freeMap = fs.freeMap := by rw [only]

theorem openInodes (only : OnlyCache fs fs') : fs'.openInodes = fs.openInodes := by rw [only]

end OnlyCache

/-! ## Functions that change the cache only -/

/-- Some sectors were read through the cache. -/
def Reads : FS → FS → Prop :=
  Relation.ReflTransGen fun fs fs' =>
    ∃ sector size offset bytes, fs.cacheRead sector size offset = some (bytes, fs')

theorem Reads.refl (fs : FS) : Reads fs fs := Relation.ReflTransGen.refl

theorem Reads.trans {fs fs' fs'' : FS} (first : Reads fs fs') (second : Reads fs' fs'') :
    Reads fs fs'' := Relation.ReflTransGen.trans first second

section OnlyCache

variable (fs : FS) (sector : BlockSector)

theorem cacheRead_onlyCache (size offset : Nat) :
    Yields (fun r => OnlyCache fs r.2) (fs.cacheRead sector size offset) :=
  .bind_eq fun _ _ => rfl

theorem cacheWrite_onlyCache (src : Nat → Byte) (size offset : Nat) :
    Yields (OnlyCache fs) (fs.cacheWrite sector src size offset) :=
  .bind_eq fun _ _ => rfl

theorem cacheFree_onlyCache : Yields (OnlyCache fs) (fs.cacheFree sector) := .bind_eq fun _ _ => rfl

theorem cacheFlush_onlyCache : Yields (OnlyCache fs) fs.cacheFlush := .bind_eq fun _ _ => rfl

theorem Reads.onlyCache {fs fs' : FS} (reads : Reads fs fs') : OnlyCache fs fs' := by
  induction reads with
  | refl => exact OnlyCache.refl _
  | tail _ step ih =>
    obtain ⟨sector, size, offset, bytes, run⟩ := step
    exact ih.trans ((cacheRead_onlyCache _ sector size offset).of_eq run)

theorem cacheRead_reads (size offset : Nat) :
    Yields (fun r => Reads fs r.2) (fs.cacheRead sector size offset) := by
  cases run : fs.cacheRead sector size offset with
  | none => trivial
  | some r => exact Relation.ReflTransGen.single ⟨sector, size, offset, r.1, run⟩

theorem readInode_reads : Yields (fun r => Reads fs r.2) (fs.readInode sector) :=
  (cacheRead_reads ..).bind fun _ reads => reads

theorem readIndirect_reads : Yields (fun r => Reads fs r.2) (fs.readIndirect sector) :=
  (cacheRead_reads ..).bind fun _ reads => reads

theorem indirectLookup_reads (pos : Int) :
    Yields (fun r => Reads fs r.2) (fs.indirectLookup sector pos) := by
  apply Yields.ite
  · intro _
    exact Reads.refl _
  intro _
  apply (readIndirect_reads fs sector).bind
  intro (ib, fs') reads
  dsimp only
  split
  · exact reads
  · trivial

theorem doublyIndirectLookup_reads (pos : Int) :
    Yields (fun r => Reads fs r.2) (fs.doublyIndirectLookup sector pos) := by
  apply Yields.ite
  · intro _
    exact Reads.refl _
  intro _
  apply (readIndirect_reads fs sector).bind
  intro (ib, fs') reads
  dsimp only
  split
  · exact (indirectLookup_reads ..).mono fun _ later => reads.trans later
  · trivial

theorem byteToSectorUnlocked_reads (data : InodeDisk) (pos : Int) :
    Yields (fun r => Reads fs r.2) (fs.byteToSectorUnlocked data pos) := by
  apply Yields.ite
  · intro _
    dsimp only
    split
    · exact Reads.refl _
    · trivial
  intro _
  apply Yields.ite
  · intro _
    exact indirectLookup_reads ..
  intro _
  apply Yields.ite
  · intro _
    exact doublyIndirectLookup_reads ..
  · intro _
    exact Reads.refl _

theorem readLoop_reads (data : InodeDisk) (size offset : Int) :
    Yields (fun r => Reads fs r.2) (readLoop data size offset fs) := by
  fun_induction readLoop data size offset fs with
  | case1 size offset fs pos ih =>
    apply (byteToSectorUnlocked_reads fs data offset).bind
    intro (found, fs') reads
    apply Yields.ite
    · intro _
      exact reads
    intro _
    dsimp only
    split
    · exact reads
    next isChunk =>
    apply (cacheRead_reads fs' found _ _).bind
    intro (bytes, fs1) reads1
    apply (byteToSectorUnlocked_reads fs1 data _).bind
    intro (_, fs2) reads2
    apply (ih isChunk fs2).bind
    intro (more, fs3) reads3
    exact ((reads.trans reads1).trans reads2).trans reads3
  | case2 => exact Reads.refl _

theorem writeLoop_onlyCache (data : InodeDisk) (buffer : Nat → Byte) (size offset : Int)
    (written : Nat) :
    Yields (fun r => OnlyCache fs r.2) (writeLoop data buffer size offset written fs) := by
  fun_induction writeLoop data buffer size offset written fs with
  | case1 size offset written fs pos ih =>
    apply (byteToSectorUnlocked_reads fs data offset).bind
    intro (found, fs') reads
    have only := reads.onlyCache
    apply Yields.ite
    · intro _
      trivial
    intro _
    dsimp only
    split
    · exact only
    next isChunk =>
    apply (cacheWrite_onlyCache fs' found _ _ _).bind
    intro fs1 only1
    exact (ih isChunk fs1).mono fun _ only2 => (only.trans only1).trans only2
  | case2 => exact OnlyCache.refl _

theorem inodeReadAt_reads (size offset : Int) :
    Yields (fun r => Reads fs r.2) (fs.inodeReadAt sector size offset) :=
  .bind_eq fun inode _ => readLoop_reads fs inode.data size offset

theorem lookupLoop_reads (dir : BlockSector) (name : FileName) (bound ofs : Nat) :
    Yields (fun r => Reads fs r.2) (lookupLoop dir name bound ofs fs) := by
  induction bound generalizing ofs fs with
  | zero => trivial
  | succ bound ih =>
    apply (inodeReadAt_reads fs dir _ _).bind
    intro (bytes, fs') reads
    apply Yields.ite
    · intro _
      apply Yields.ite
      · intro _
        exact reads
      · intro _
        exact (ih fs' _).mono fun _ later => reads.trans later
    · intro _
      exact reads

theorem lookup_reads (dir : BlockSector) (name : FileName) (stack : EntryBytes) :
    Yields (fun r => Reads fs r.2) (fs.lookup dir name stack) := by
  apply Yields.ite
  · intro _
    exact Reads.refl _
  intro _
  apply Yields.ite
  · intro _
    exact .bind_eq fun _ _ => Reads.refl _
  · intro _
    exact .bind_eq fun _ _ => lookupLoop_reads ..

end OnlyCache

/-! ## Inodes that are held -/

/-- The statement `I` about the inodes that are held open and the state goes along with reading,
    opening and closing. -/
structure Holding (I : List BlockSector → FS → Prop) : Prop where
  only : ∀ {held fs fs'}, I held fs → OnlyCache fs fs' → I held fs'
  perm : ∀ {held held' fs}, I held fs → held.Perm held' → I held' fs
  inodeOpen : ∀ {held fs} (sector : BlockSector), I held fs →
    Yields (I (sector :: held)) (fs.inodeOpen sector)
  inodeClose : ∀ {held fs} (sector : BlockSector), I (sector :: held) fs →
    Yields (I held) (fs.inodeClose sector)

namespace Holding

variable {I : List BlockSector → FS → Prop} {fs : FS} {held : List BlockSector}
  {sector dir : BlockSector}

/-- `dir_open` keeps the inode or closes it. -/
theorem dirOpen (holding : Holding I) (holds : I (sector :: held) fs) :
    Yields (fun r => I (r.1.toList ++ held) r.2 ∧ ∀ d ∈ r.1, d = sector) (fs.dirOpen sector) := by
  apply Yields.bind_eq
  intro isDir _
  apply Yields.ite
  · intro _
    exact ⟨holds, by simp⟩
  intro _
  apply (holding.inodeClose sector holds).bind
  intro fs' closed
  exact ⟨closed, by simp⟩

theorem dirLookup (holding : Holding I) (holds : I held fs) (name : FileName) :
    Yields (fun r => I (r.1.toList ++ held) r.2) (fs.dirLookup dir name) := by
  apply (lookup_reads fs dir name _).bind
  rintro ⟨_ | ⟨e, ofs⟩, fs'⟩ reads
  · exact holding.only holds reads.onlyCache
  apply (holding.inodeOpen _ (holding.only holds reads.onlyCache)).bind
  intro fs1 opened
  exact opened

theorem dirOpenFor (holding : Holding I) (holds : I held fs) (cwd : BlockSector)
    (name : List Byte) : Yields (fun r => I (r.1.toList ++ held) r.2) (fs.dirOpenFor cwd name) := by
  apply (holding.inodeOpen _ holds).bind
  intro fs' opened
  exact (holding.dirOpen opened).mono fun _ result => result.1

/-- `dir_walk` holds one directory at a time. -/
theorem dirWalk (holding : Holding I) (tokens : List FileName) (holds : I (dir :: held) fs) :
    Yields (fun r => I (r.2.1 :: held) r.2.2) (dirWalk tokens dir fs) := by
  induction tokens generalizing dir fs with
  | nil => exact holds
  | cons token rest ih =>
    -- the directory on which the walk goes on is open before the old one is closed
    have go : ∀ {fs : FS} {new : BlockSector} {next}, I (new :: dir :: held) fs →
        (∀ fs', next (none, fs') = some (false, dir, fs')) →
        (∀ newDir fs', next (some newDir, fs') = (fs'.dirClose dir).bind (dirWalk rest newDir)) →
        Yields (fun r => I (r.2.1 :: held) r.2.2) (fs.dirOpen new >>= next) := by
      intro fs new next holds isNone isSome
      apply (holding.dirOpen holds).bind
      rintro ⟨_ | newDir, fs'⟩ ⟨holds', isNew⟩
      · rw [isNone]
        exact holds'
      rw [isSome]
      apply (holding.inodeClose dir (holding.perm holds' (.swap ..))).bind
      intro fs'' closed
      exact ih closed
    apply Yields.ite
    · intro _
      exact ih holds
    intro _
    apply Yields.ite
    · intro _
      apply Yields.bind_eq
      intro parent _
      apply (holding.inodeOpen parent holds).bind
      intro fs' opened
      exact go opened (fun _ => rfl) fun _ _ => rfl
    intro _
    apply (holding.dirLookup holds token).bind
    rintro ⟨_ | inode, fs'⟩ holds'
    · exact holds'
    · exact go holds' (fun _ => rfl) fun _ _ => rfl

end Holding

end FS

end Pintos
