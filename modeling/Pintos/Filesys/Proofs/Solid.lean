import Pintos.Filesys.Proofs.FilesysSpec
import Pintos.Filesys.Proofs.OpenCount

/-!
# The walk to the directory of a new file

`filesys_create` opens and closes the directories on the path before it allocates anything. None of
them is deleted on the way, so the free map is the same where the walk ends.
-/

namespace Pintos

open List Option
open Function (update update_of_ne update_self)

variable {fs fs' fs1 fs2 : FS} {V : Volume} {R F : List BlockSector} {t start cwd dir : BlockSector}
  {G : BlockSector → Option Layout} {c : SectorData} {h : Heap} {name : List Byte} {ok : Bool}

namespace FS

/-- The free map is `b`, and closing the inodes that are held deletes no inode. -/
structure Solid (b : Bitmap) (held : List BlockSector) (fs : FS) : Prop where
  freeMap : fs.freeMap = b
  kept : ∀ s inode, fs.openInodes s = some inode → inode.removed = true →
    (held.count s : Int) < inode.openCnt

namespace Solid

variable {b : Bitmap} {held held' : List BlockSector} {sector : BlockSector}

theorem only (solid : Solid b held fs) (only : OnlyCache fs fs') : Solid b held fs' where
  freeMap := only.freeMap.trans solid.freeMap
  kept s inode opened := solid.kept s inode (only.openInodes ▸ opened)

theorem setInode (solid : Solid b held fs) {inode : Option Inode}
    (others : ∀ s, s ≠ sector → held'.count s = held.count s)
    (this : ∀ inode', inode = some inode' → inode'.removed = true →
      (held'.count sector : Int) < inode'.openCnt) : Solid b held' (fs.setInode sector inode) where
  freeMap := solid.freeMap
  kept s inode' opened removed := by
    by_cases same : s = sector
    · rw [same, setInode_self] at opened
      rw [same]
      exact this inode' opened removed
    rw [setInode_of_ne _ _ same] at opened
    rw [others s same]
    exact solid.kept s inode' opened removed

theorem inodeOpen (solid : Solid b held fs) :
    Yields (Solid b (sector :: held)) (fs.inodeOpen sector) := by
  have others : ∀ s, s ≠ sector → (sector :: held).count s = held.count s := fun s ne =>
    count_cons_of_ne ne.symm
  unfold FS.inodeOpen
  cases opened : fs.openInodes sector with
  | some inode =>
    apply solid.setInode others
    rintro _ ⟨⟩ removed
    have := solid.kept sector inode opened removed
    simp only [count_cons_self]
    omega
  | none =>
    apply (readInode_reads fs sector).bind
    intro (data, fs') reads
    apply (solid.only reads.onlyCache).setInode others
    rintro _ ⟨⟩ removed
    cases removed

theorem inodeClose (solid : Solid b (sector :: held) fs) :
    Yields (Solid b held) (fs.inodeClose sector) := by
  have others : ∀ s, s ≠ sector → held.count s = (sector :: held).count s := fun s ne =>
    (count_cons_of_ne ne.symm).symm
  apply Yields.bind_eq
  intro inode opened
  have kept := solid.kept sector inode opened
  simp only [count_cons_self] at kept
  have gone : Solid b held (fs.setInode sector none) := by
    apply solid.setInode others
    intro inode' impossible
    cases impossible
  apply Yields.ite
  · intro last
    apply (cacheFlush_onlyCache _).bind
    intro fs' only
    apply Yields.ite
    · intro removed
      have := kept removed
      omega
    · intro _
      exact gone.only only
  intro _
  apply solid.setInode others
  rintro _ ⟨⟩ removed
  have := kept removed
  simp only
  omega

theorem holding (b : Bitmap) : Holding (Solid b) where
  only := only
  perm solid same := ⟨solid.freeMap, fun s inode opened removed => by
    rw [← same.count_eq]
    exact solid.kept s inode opened removed⟩
  inodeOpen _ := inodeOpen
  inodeClose _ := inodeClose

end Solid

end FS

theorem Models.solid (models : Models fs V R) (tree : V.Tree) : FS.Solid fs.freeMap [] fs := by
  refine ⟨rfl, ?_⟩
  intro s inode opened removed
  rw [count_nil]
  by_cases file : s = freeMapSector
  · have once := models.openCnt_freeMap
    rw [← file, FS.openCnt, opened] at once
    simp only at once
    omega
  obtain ⟨F, h, G, rep⟩ := models
  have handle := rep.handle s file
  rw [opened] at handle
  have := (tree.handles handle).2.1
  simp only [Inode.handle] at this
  omega

end Pintos
