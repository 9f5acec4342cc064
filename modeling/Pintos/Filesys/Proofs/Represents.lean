import Pintos.Filesys.Proofs.GrowSpec
import Pintos.Filesys.Volume

/-!
# The volume that a file system represents

`Represents` relates the state of the file system to a volume: every inode of the
volume has a layout on disk, the sectors of different inodes are apart, and an
open inode has in memory what is on disk. `Represents.replace` is the one place
where it is shown that changing an inode leaves the other ones alone.
-/

namespace Pintos

open List Option

open Function (update update_of_ne update_self)

/-- The inode `n` is at sector `s`, as `d` with layout `L`. -/
structure NodeAt (h : Heap) (s : BlockSector) (d : InodeDisk) (L : Layout) (n : Node) : Prop where
  disk : h s = some d.toSector
  maps : Maps h d L
  owns : Owns h (s :: L.sectors)
  tight : L.Tight
  isDir : (d.isDir != 0) = n.isDir
  fileCnt : d.fileCnt = n.fileCnt
  parent : d.parent = n.parent
  length : d.length.toInt = n.content.length
  size : L.data.length = (n.content.length + 511) / 512
  bytes : ∀ k, fileByte h L.data k = n.content.byte k

/-- The part of an open inode that is not on disk. -/
def Inode.handle (inode : Inode) : Handle := ⟨inode.openCnt, inode.removed, inode.denyWriteCnt⟩

@[simp] theorem FS.setInode_self (fs : FS) (s : BlockSector) (x : Option Inode) :
    (fs.setInode s x).openInodes s = x := update_self ..

theorem FS.setInode_of_ne (fs : FS) {s t : BlockSector} (x : Option Inode) (ne : t ≠ s) :
    (fs.setInode s x).openInodes t = fs.openInodes t := update_of_ne ne ..

/-- The state `fs` with heap `h` holds the volume `V`, each inode in the layout that
    `G` gives; the sectors `R` are allocated and belong to no inode. -/
structure Represents (F : List BlockSector) (h : Heap) (G : BlockSector → Option Layout) (fs : FS)
    (V : Volume) (R : List BlockSector) : Prop where
  on : On F h fs
  opened : fs.freeMapFile = true
  nodeAt : ∀ s n, V.node s = some n → ∃ d L, G s = some L ∧ NodeAt h s d L n
  layout : ∀ s L, G s = some L → (V.node s).isSome
  apart : ∀ s t L M, G s = some L → G t = some M → s ≠ t →
    ∀ x ∈ s :: L.sectors, x ∉ t :: M.sectors
  handle : ∀ s, s ≠ freeMapSector → V.handle s = (fs.openInodes s).map Inode.handle
  memory : ∀ s inode, s ≠ freeMapSector → fs.openInodes s = some inode →
    h s = some inode.data.toSector ∧ (V.node s).isSome
  raw : ∀ r ∈ R, (h r).isSome ∧ ∀ s L, G s = some L → r ∉ s :: L.sectors
  nodup : R.Nodup

/-- The state holds the volume `V`, with the sectors `R` reserved. -/
def Models (fs : FS) (V : Volume) (R : List BlockSector) : Prop :=
  ∃ F h G, Represents F h G fs V R

namespace NodeAt

variable {h h' : Heap} {s : BlockSector} {d : InodeDisk} {L : Layout} {n : Node}
  (node : NodeAt h s d L n)
include node

theorem congr (same : ∀ x ∈ s :: L.sectors, h' x = h x) : NodeAt h' s d L n where
  disk := (same s mem_cons_self).trans node.disk
  maps := node.maps.congr fun x hx =>
    same x (mem_cons_of_mem _ (mem_append_right _ hx))
  owns := ⟨node.owns.nodup, fun x hx => by
    rw [same x hx]
    exact node.owns.held x hx⟩
  tight := node.tight
  isDir := node.isDir
  fileCnt := node.fileCnt
  parent := node.parent
  length := node.length
  size := node.size
  bytes k := by
    rw [fileByte_congr (fun x hx => same x (mem_cons_of_mem _ (mem_append_left _ hx))) k]
    exact node.bytes k

theorem owns_layout : Owns h L.sectors :=
  ⟨(nodup_cons.mp node.owns.nodup).2, fun x hx => node.owns.held x (mem_cons_of_mem _ hx)⟩

theorem fits : n.content.length ≤ 512 * L.data.length := by
  have := node.size
  omega

theorem small : n.content.length ≤ 512 * maxSectors := by
  have := node.fits
  have := node.maps.small
  omega

theorem data_unique {d' : InodeDisk} (disk : h s = some d'.toSector) : d' = d := by
  have same : d'.toSector = d.toSector := some.inj (disk.symm.trans node.disk)
  rw [← InodeDisk.ofSector_toSector d', same, InodeDisk.ofSector_toSector]

end NodeAt

namespace Represents

variable {F R : List BlockSector} {h h' : Heap} {G : BlockSector → Option Layout} {fs fs' : FS}
  {V : Volume} {s : BlockSector} {n : Node}

theorem ne_freeMap (rep : Represents F h G fs V R) (found : V.node s = some n) :
    s ≠ freeMapSector := by
  rintro rfl
  obtain ⟨d, L, -, node⟩ := rep.nodeAt _ _ found
  obtain ⟨g, on⟩ := rep.on
  obtain ⟨inode, M, rfl, -⟩ := on.file rep.opened
  exact (on.held_iff.mp node.disk).1 mem_cons_self

theorem open_data (rep : Represents F h G fs V R) {o : Handle} (found : V.node s = some n)
    (handle : V.handle s = some o) :
    ∃ inode L, fs.openInodes s = some inode ∧ inode.handle = o ∧ G s = some L ∧
      NodeAt h s inode.data L n := by
  have notFile := rep.ne_freeMap found
  rw [rep.handle s notFile, map_eq_some_iff] at handle
  obtain ⟨inode, opened, isHandle⟩ := handle
  obtain ⟨d, L, layout, node⟩ := rep.nodeAt s n found
  have same := node.data_unique (rep.memory s inode notFile opened).1
  exact ⟨inode, L, opened, isHandle, layout, same ▸ node⟩

/-- One inode is replaced. Its old sectors `old` and sectors that were free are all that changed. -/
theorem replace (rep : Represents F h G fs V R) (s : BlockSector) (n' : Option Node)
    (L' : Option Layout) (old : List BlockSector) {R' : List BlockSector} (on' : On F h' fs')
    (opened' : fs'.freeMapFile = true)
    (others : ∀ t M, t ≠ s → G t = some M → ∀ x ∈ t :: M.sectors, x ∉ old)
    (raws : ∀ r ∈ R', r ∈ R ∧ r ∉ old) (nodup' : R'.Nodup)
    (frame : ∀ x, (h x).isSome → x ∉ old → h' x = h x)
    (node' : ∀ n, n' = some n → ∃ d L, L' = some L ∧ NodeAt h' s d L n)
    (layout' : ∀ L, L' = some L → n'.isSome ∧ ∀ x ∈ s :: L.sectors, x ∈ old ∨ h x = none)
    (opens : ∀ t, t ≠ s → fs'.openInodes t = fs.openInodes t)
    (self : ∀ inode, fs'.openInodes s = some inode → h' s = some inode.data.toSector ∧ n'.isSome) :
    Represents F h' (update G s L') fs' (V.put s n' ((fs'.openInodes s).map Inode.handle)) R' := by
  have keep : ∀ t M, t ≠ s → G t = some M → ∀ x ∈ t :: M.sectors, h' x = h x := by
    intro t M ne layout x hx
    obtain ⟨n, found⟩ := isSome_iff_exists.mp (rep.layout t M layout)
    obtain ⟨d, M', layout', node⟩ := rep.nodeAt t n found
    obtain rfl : M = M' := some.inj (layout.symm.trans layout')
    exact frame x (node.owns.held x hx) (others t M ne layout x hx)
  -- a sector of another inode is none of the new ones
  have clear : ∀ t M L, t ≠ s → G t = some M → L' = some L → ∀ x ∈ t :: M.sectors,
      x ∉ s :: L.sectors := by
    intro t M L ne layout isNew x hx mem
    rcases (layout' L isNew).2 x mem with isOld | free
    · exact others t M ne layout x hx isOld
    obtain ⟨n, found⟩ := isSome_iff_exists.mp (rep.layout t M layout)
    obtain ⟨d, M', layout', node⟩ := rep.nodeAt t n found
    obtain rfl : M = M' := some.inj (layout.symm.trans layout')
    have held := node.owns.held x hx
    rw [free] at held
    cases held
  refine ⟨on', opened', ?_, ?_, ?_, ?_, ?_, ?_, nodup'⟩
  · intro t n found
    by_cases same : t = s
    · subst same
      rw [Volume.put_node_self] at found
      rw [update_self]
      exact node' n found
    rw [Volume.put_node_of_ne same] at found
    rw [update_of_ne same]
    obtain ⟨d, M, layout, node⟩ := rep.nodeAt t n found
    exact ⟨d, M, layout, node.congr (keep t M same layout)⟩
  · intro t M layout
    by_cases same : t = s
    · subst same
      rw [update_self] at layout
      rw [Volume.put_node_self]
      exact (layout' M layout).1
    rw [update_of_ne same] at layout
    rw [Volume.put_node_of_ne same]
    exact rep.layout t M layout
  · intro t u L M layoutT layoutU ne x hx
    by_cases sameT : t = s
    · subst sameT
      rw [update_self] at layoutT
      rw [update_of_ne ne.symm] at layoutU
      exact fun mem => clear u M L ne.symm layoutU layoutT x mem hx
    rw [update_of_ne sameT] at layoutT
    by_cases sameU : u = s
    · subst sameU
      rw [update_self] at layoutU
      exact clear t L M sameT layoutT layoutU x hx
    · rw [update_of_ne sameU] at layoutU
      exact rep.apart t u L M layoutT layoutU ne x hx
  · intro t notFile
    by_cases same : t = s
    · subst same
      rw [Volume.put_handle_self]
    · rw [Volume.put_handle_of_ne same, opens t same]
      exact rep.handle t notFile
  · intro t inode notFile opened
    by_cases same : t = s
    · subst same
      rw [Volume.put_node_self]
      exact self inode opened
    rw [opens t same] at opened
    obtain ⟨disk, some?⟩ := rep.memory t inode notFile opened
    rw [Volume.put_node_of_ne same]
    obtain ⟨n, found⟩ := isSome_iff_exists.mp some?
    obtain ⟨d, M, layout, node⟩ := rep.nodeAt t n found
    exact ⟨(keep t M same layout t mem_cons_self).trans disk, some?⟩
  intro r hr
  obtain ⟨mem, notOld⟩ := raws r hr
  obtain ⟨held, outside⟩ := rep.raw r mem
  refine ⟨by rwa [frame r held notOld], ?_⟩
  intro t M layout
  by_cases same : t = s
  · subst same
    rw [update_self] at layout
    intro inside
    rcases (layout' M layout).2 r inside with isOld | free
    · exact notOld isOld
    · rw [free] at held
      cases held
  · rw [update_of_ne same] at layout
    exact outside t M layout

end Represents

end Pintos
