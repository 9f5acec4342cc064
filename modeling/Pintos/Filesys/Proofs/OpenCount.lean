import Pintos.Filesys.File
import Pintos.Filesys.Proofs.Holding
import Pintos.Filesys.Proofs.Represents

/-!
# Open counts

`open_cnt` of every inode is the number of times that it is held open. The rules below say, for
any state of the file system, what a function that returns does to the list of the inodes that
are held.
-/

namespace Pintos

open List

variable {fs fs' fs'' : FS} {inode inode' : Inode} {V : Volume} {R : List BlockSector}

namespace FS

/-- `open_inodes` is as it was. -/
def Keeps (fs fs' : FS) : Prop := fs'.openInodes = fs.openInodes

theorem Keeps.refl (fs : FS) : Keeps fs fs := rfl

theorem Keeps.trans (first : Keeps fs fs') (second : Keeps fs' fs'') :
    Keeps fs fs'' := Eq.trans second first

theorem OnlyCache.keeps (only : OnlyCache fs fs') : Keeps fs fs' := only.openInodes

/-- Nothing but the cache and the free map in memory changed. -/
def OnlyMap (fs fs' : FS) : Prop := fs' = { fs with store := fs'.store, freeMap := fs'.freeMap }

namespace OnlyMap

variable {fs fs' fs'' : FS}

theorem refl (fs : FS) : OnlyMap fs fs := rfl

theorem trans (first : OnlyMap fs fs') (second : OnlyMap fs' fs'') : OnlyMap fs fs'' := by
  unfold OnlyMap at first second ⊢
  rw [second, first]

theorem keeps (only : OnlyMap fs fs') : Keeps fs fs' := by
  unfold Keeps
  rw [only]

end OnlyMap

theorem OnlyCache.onlyMap (only : OnlyCache fs fs') : OnlyMap fs fs' := by
  unfold OnlyMap
  rw [only]

/-! ## Functions that leave `open_inodes` alone -/

section Keeps

variable (fs : FS) (sector : BlockSector)

theorem fileRead_keeps (file : File) (size : Int) :
    Yields (fun r => Keeps fs r.2.2.2) (fs.fileRead file size) := by
  apply Yields.bind_eq
  intro isDir _
  apply Yields.ite
  · intro _
    exact Keeps.refl _
  intro _
  apply (inodeReadAt_reads fs file.inode size file.pos).bind
  intro _ reads
  exact reads.onlyCache.keeps

theorem bitmapWrite_onlyMap : Yields (fun r => OnlyMap fs r.2) fs.bitmapWrite := by
  apply Yields.bind_eq
  intro inode _
  generalize (bitmapFileSize fs.freeMap : Int) = size
  dsimp only
  generalize int32 size = last
  apply Yields.ite
  · intro _
    exact OnlyMap.refl _
  intro _
  apply Yields.ite
  · intro _
    trivial
  intro _
  apply (writeLoop_onlyCache fs inode.data _ _ _ _).bind
  intro _ only
  exact only.onlyMap

theorem freeMapRelease_onlyMap : Yields (OnlyMap fs) (fs.freeMapRelease sector) := by
  apply Yields.ite
  · intro _
    apply Yields.ite
    · intro _
      apply (bitmapWrite_onlyMap _).bind
      intro _ only
      have marked : OnlyMap fs { fs with freeMap := _ } := rfl
      exact marked.trans only
    · intro _
      trivial
  · intro _
    trivial

theorem releaseSector_onlyMap : Yields (OnlyMap fs) (fs.releaseSector sector) :=
  (cacheFree_onlyCache fs sector).bind fun fs' only =>
    (freeMapRelease_onlyMap fs' sector).mono fun _ later => only.onlyMap.trans later

theorem closeSlots_onlyMap {n : Nat} (slots : Fin n → BlockSector) (list : List (Fin n)) :
    Yields (OnlyMap fs) (closeSlots slots list fs) := by
  induction list generalizing fs with
  | nil => exact OnlyMap.refl _
  | cons i rest ih =>
    apply Yields.ite
    · intro _
      apply (releaseSector_onlyMap fs (slots i)).bind
      intro fs' only
      exact (ih fs').mono fun _ later => only.trans later
    · intro _
      exact ih fs

theorem inodeIndirectClose_onlyMap : Yields (OnlyMap fs) (fs.inodeIndirectClose sector) := by
  apply (readIndirect_reads fs sector).bind
  intro (ib, fs1) reads1
  apply (closeSlots_onlyMap fs1 ib _).bind
  intro fs2 only2
  exact (releaseSector_onlyMap fs2 sector).mono fun _ only3 =>
    (reads1.onlyCache.onlyMap.trans only2).trans only3

theorem closeDoubly_onlyMap (dib : IndirectBlock) (list : List (Fin 128)) :
    Yields (OnlyMap fs) (closeDoubly dib list fs) := by
  induction list generalizing fs with
  | nil => exact OnlyMap.refl _
  | cons i rest ih =>
    apply Yields.ite
    · intro _
      apply (inodeIndirectClose_onlyMap fs (dib i)).bind
      intro fs' only
      exact (ih fs').mono fun _ later => only.trans later
    · intro _
      exact ih fs

theorem inodeDeallocate_onlyMap (data : InodeDisk) :
    Yields (OnlyMap fs) (fs.inodeDeallocate sector data) := by
  apply (closeSlots_onlyMap fs data.direct _).bind
  intro fs1 only1
  have indirect : Yields (OnlyMap fs1) (fs1.closeIndirect data.indirect) :=
    .ite (fun _ => inodeIndirectClose_onlyMap ..) fun _ => OnlyMap.refl _
  apply indirect.bind
  intro fs2 only2
  have doubly : Yields (OnlyMap fs2) (fs2.closeDoublyIndirect data.doublyIndirect) := by
    apply Yields.ite
    · intro _
      apply (readIndirect_reads fs2 _).bind
      intro (dib, fs3) reads3
      apply (closeDoubly_onlyMap fs3 dib _).bind
      intro fs4 only4
      exact (releaseSector_onlyMap fs4 _).mono fun _ only5 =>
        (reads3.onlyCache.onlyMap.trans only4).trans only5
    · intro _
      exact OnlyMap.refl _
  apply doubly.bind
  intro fs3 only3
  exact (releaseSector_onlyMap fs3 sector).mono fun _ only4 =>
    ((only1.trans only2).trans only3).trans only4

/-- `inode_close` drops one opener of the inode, and the inode with the last one. -/
theorem inodeClose_keeps : Yields (fun fs' => ∃ inode, fs.openInodes sector = some inode ∧
    Keeps (fs.setInode sector (if inode.openCnt - 1 = 0 then none
      else some { inode with openCnt := inode.openCnt - 1 })) fs') (fs.inodeClose sector) := by
  apply Yields.bind_eq
  intro inode found
  apply Yields.ite
  · intro last
    apply (cacheFlush_onlyCache _).bind
    intro fs' only
    apply Yields.ite
    · intro _
      apply (inodeDeallocate_onlyMap ..).mono
      intro _ later
      exact ⟨inode, found, by rw [if_pos last]; exact only.keeps.trans later.keeps⟩
    · intro _
      exact ⟨inode, found, by rw [if_pos last]; exact only.keeps⟩
  · intro more
    exact ⟨inode, found, by rw [if_neg more]; exact Keeps.refl _⟩

/-- `inode_open` adds one opener, to an inode that nobody denies to write if it was not open. -/
theorem inodeOpen_keeps : Yields (fun fs' => ∃ inode, Keeps (fs.setInode sector (some inode)) fs' ∧
    ((fs.openInodes sector = none ∧ inode.openCnt = 1 ∧ inode.denyWriteCnt = 0) ∨
      ∃ old, fs.openInodes sector = some old ∧
        inode = { old with openCnt := old.openCnt + 1 })) (fs.inodeOpen sector) := by
  unfold FS.inodeOpen
  cases found : fs.openInodes sector with
  | some old => exact ⟨_, Keeps.refl _, .inr ⟨old, rfl, rfl⟩⟩
  | none =>
    apply (readInode_reads fs sector).bind
    intro (data, fs') reads
    refine ⟨⟨1, false, 0, data⟩, ?_, .inl ⟨rfl, rfl, rfl⟩⟩
    have same : fs'.openInodes = fs.openInodes := reads.onlyCache.keeps
    simp only [Keeps, FS.setInode, same]

end Keeps

/-! ## Inodes that are held -/

namespace Counts

variable {fs fs' : FS} {held held' : List BlockSector} {sector dir : BlockSector}

section

variable (counts : fs.Counts held)
include counts

theorem keep (keeps : Keeps fs fs') : fs'.Counts held := by
  intro sector
  rw [← counts sector, openCnt, openCnt, keeps]

theorem perm (same : held.Perm held') : fs.Counts held' := by
  intro sector
  rw [counts sector, same.count_eq]

/-- The inode has the given count afterwards, and the others have theirs. -/
theorem setInode {inode : Option Inode} (others : ∀ s, s ≠ sector → held'.count s = held.count s)
    (this : (match inode with | none => 0 | some inode => inode.openCnt) = (held'.count sector : Int)) :
    (fs.setInode sector inode).Counts held' := by
  intro s
  unfold openCnt
  by_cases same : s = sector
  · rw [same, setInode_self]
    exact this
  · rw [setInode_of_ne _ _ same, others s same]
    exact counts s

theorem openCnt_eq
    (opened : fs.openInodes sector = some inode) : inode.openCnt = held.count sector := by
  have count := counts sector
  rwa [openCnt, opened] at count

theorem inodeOpen : Yields (Counts · (sector :: held)) (fs.inodeOpen sector) := by
  apply (inodeOpen_keeps fs sector).mono
  intro fs' ⟨inode, keeps, cases⟩
  refine (counts.setInode ?_ ?_).keep keeps
  · intro s ne
    rw [count_cons_of_ne ne.symm]
  have count := counts sector
  rcases cases with ⟨found, once, -⟩ | ⟨old, found, rfl⟩ <;>
    simp only [openCnt, found, count_cons_self] at count ⊢ <;> omega

theorem setInode_same
    (opened : fs.openInodes sector = some inode) (same : inode'.openCnt = inode.openCnt) :
    (fs.setInode sector (some inode')).Counts held :=
  counts.setInode (fun _ _ => rfl) (by simp [same, counts.openCnt_eq opened])

end

theorem inodeClose (counts : fs.Counts (sector :: held)) :
    Yields (Counts · held) (fs.inodeClose sector) := by
  apply (inodeClose_keeps fs sector).mono
  intro fs' ⟨inode, found, keeps⟩
  have count := counts.openCnt_eq found
  rw [count_cons_self, Int.natCast_add, Int.natCast_one] at count
  refine (counts.setInode ?_ ?_).keep keeps
  · intro s ne
    rw [count_cons_of_ne ne.symm]
  · by_cases last : inode.openCnt - 1 = 0 <;> simp only [last, if_true, if_false] <;> omega

theorem holding : Holding fun held fs => fs.Counts held where
  only counts only := counts.keep only.keeps
  perm := perm
  inodeOpen _ := inodeOpen
  inodeClose _ := inodeClose

theorem filesysOpen (counts : fs.Counts held) (cwd : BlockSector) (name : List Byte) :
    Yields (fun r => r.2.Counts (r.1.toList.map File.inode ++ held)) (fs.filesysOpen cwd name) := by
  apply Yields.ite
  · intro _
    exact counts
  intro _
  apply Yields.ite
  · intro _
    apply counts.inodeOpen.bind
    intro fs' opened
    exact opened
  intro _
  split
  · exact counts
  next pathName fileName _ =>
  apply (holding.dirOpenFor counts cwd name).bind
  rintro ⟨_ | dir, fs1⟩ counts1
  · trivial
  apply (holding.dirWalk (pathTokens pathName) counts1).bind
  rintro ⟨_ | _, dir', fs2⟩ counts2
  · apply counts2.inodeClose.bind
    intro fs3 closed
    exact closed
  apply (holding.dirLookup counts2 fileName).bind
  intro (inode, fs3) counts3
  apply (counts3.perm perm_middle).inodeClose.bind
  intro fs4 closed
  cases inode <;> exact closed

theorem fileClose (file : File) (counts : fs.Counts (file.inode :: held)) :
    Yields (Counts · held) (fs.fileClose file) := by
  have allow : Yields (Counts · (file.inode :: held)) (fs.fileAllowWrite file) := by
    apply Yields.ite
    · intro _
      apply Yields.bind_eq
      intro inode opened
      apply Yields.ite
      · intro _
        exact counts.setInode_same opened rfl
      · intro _
        trivial
    · intro _
      exact counts
  exact allow.bind fun _ counts => counts.inodeClose

theorem fileDenyWrite (file : File) (counts : fs.Counts held) :
    Yields (fun r => r.2.Counts held ∧ r.1.inode = file.inode) (fs.fileDenyWrite file) := by
  apply Yields.ite
  · intro _
    exact ⟨counts, rfl⟩
  intro _
  have deny : Yields (Counts · held) (fs.inodeDenyWrite file.inode) := by
    apply Yields.bind_eq
    intro inode opened
    apply Yields.ite
    · intro _
      exact counts.setInode_same opened rfl
    · intro _
      trivial
  exact deny.bind fun _ counts => ⟨counts, rfl⟩

end Counts

end FS

/-- Of the inodes of a volume those with a handle are open; the kernel has the file of the free
    map. -/
theorem Models.openCnt_freeMap (models : Models fs V R) : fs.openCnt freeMapSector = 1 := by
  obtain ⟨F, h, G, represents⟩ := models
  obtain ⟨g, on⟩ := represents.on
  obtain ⟨inode, L, -, file, -⟩ := on.file represents.opened
  rw [FS.openCnt, file.opened]
  exact file.once

theorem Models.counts (models : Models fs V R)
    (closed : ∀ s, V.handle s = none) : fs.Counts [freeMapSector] := by
  intro sector
  by_cases same : sector = freeMapSector
  · rw [same, models.openCnt_freeMap]
    simp
  obtain ⟨F, h, G, represents⟩ := models
  have handle := represents.handle sector same
  rw [closed, eq_comm, Option.map_eq_none_iff] at handle
  rw [FS.openCnt, handle, count_cons_of_ne (Ne.symm same)]
  rfl

end Pintos
