import Pintos.Filesys.Proofs.Represents

/-!
# The operations on inodes refine those on volumes

One theorem for each function of `inode.c` that leaves the number of inodes alone:
if the state holds a volume, the function returns, its result is the one that the
volume gives, and the new state holds the new volume.
-/

namespace Pintos

open List Option Volume

open Function (update update_eq_self update_of_ne update_self)

variable {offset size target : Nat} {L L' : Layout} {d' d d1 d2 : InodeDisk} {inode : Inode}
  {ys zs : List BlockSector}

/-! ## Reading and writing the data of a layout -/

namespace On

variable {F : List BlockSector} {h : Heap} {fs : FS} {d : InodeDisk} {L : Layout} {len : Nat}

theorem readLoop (on : On F h fs) (maps : Maps h d L) (owns : Owns h L.sectors)
    (length : d.length.toInt = len) (fits : len ≤ 512 * L.data.length) (size : Nat)
    (small : offset < 2 ^ 31) :
    ∃ fs', readLoop d size offset fs =
        some ((List.range (min size (len - offset))).map fun k => fileByte h L.data (offset + k),
          fs') ∧
      On F h fs' ∧ Same fs fs' := by
  obtain ⟨g, on⟩ := on
  have lift : ∀ x, (h x).isSome → g x = h x := by
    intro x held
    obtain ⟨c, content⟩ := isSome_iff_exists.mp held
    rw [content, (on.held_iff.mp content).2]
  have dataHeld : ∀ x ∈ L.data, (h x).isSome := fun x hx =>
    owns.held x (mem_append_left _ hx)
  have mapsG : Maps g d L := maps.congr fun x hx => lift x (owns.index x hx)
  obtain ⟨store, run, stored⟩ := readLoop_spec mapsG
    (fun x hx => by rw [lift x (dataHeld x hx)]; exact dataHeld x hx) length fits size on.stored small
  refine ⟨{ fs with store }, ?_, ⟨g, ?_⟩, Same.store fs store⟩
  · rw [run]
    congr 3
    funext k
    exact fileByte_congr (fun x hx => lift x (dataHeld x hx)) _
  · rw [on.heap]
    exact on.of_store stored fun _ _ => rfl

theorem writeLoop (on : On F h fs) (maps : Maps h d L) (owns : Owns h L.sectors)
    (length : d.length.toInt = len) (fits : len ≤ 512 * L.data.length) (buffer : Nat → Byte)
    (inside : offset + size ≤ len) :
    ∃ fs' h', writeLoop d buffer size offset 0 fs = some ((size : Int), fs') ∧ On F h' fs' ∧
      Same fs fs' ∧ (∀ x, x ∉ L.data → h' x = h x) ∧ (∀ x ∈ L.data, (h' x).isSome) ∧
      ∀ k, fileByte h' L.data k =
        if offset ≤ k ∧ k < offset + size then buffer (k - offset) else fileByte h L.data k := by
  obtain ⟨g, on⟩ := on
  have lift : ∀ x, (h x).isSome → x ∉ F ∧ g x = h x := by
    intro x held
    obtain ⟨c, content⟩ := isSome_iff_exists.mp held
    rw [content]
    exact on.held_iff.mp content
  have dataHeld : ∀ x ∈ L.data, (h x).isSome := fun x hx =>
    owns.held x (mem_append_left _ hx)
  have mapsG : Maps g d L := maps.congr fun x hx => (lift x (owns.index x hx)).2
  obtain ⟨store, g', run, stored, others, bytes⟩ := writeLoop_spec owns.nodup length fits buffer size
    offset 0 on.stored mapsG
    (fun x hx => by rw [(lift x (dataHeld x hx)).2]; exact dataHeld x hx) inside
  have outside : ∀ x ∈ L.data, x ∉ F := fun x hx => (lift x (dataHeld x hx)).1
  have on' := on.of_store stored fun x hx => others x fun inData => outside x inData hx
  have inHeap : ∀ x ∈ L.data, Heap.without g' F x = g' x := by
    intro x hx
    unfold Heap.without
    rw [if_neg (outside x hx)]
  refine ⟨{ fs with store }, g'.without F, ?_, ⟨g', on'⟩, Same.store fs store, ?_, ?_, ?_⟩
  · rw [run, Nat.zero_add]
  · intro x notData
    rw [on.heap]
    unfold Heap.without
    rw [others x notData]
  · intro x hx
    have used : (On F (g'.without F) { fs with store }) := ⟨g', on'⟩
    rw [used.used_iff]
    have old : On F h fs := ⟨g, on⟩
    exact old.used_iff.mp (dataHeld x hx)
  intro k
  rw [fileByte_congr inHeap, bytes k, Nat.zero_add]
  split
  · rfl
  · exact fileByte_congr (fun x hx => (lift x (dataHeld x hx)).2) _

theorem writeLoop_eq_none_iff (on : On F h fs) (maps : Maps h d L) (owns : Owns h L.sectors)
    (length : d.length.toInt = len) (buffer : Nat → Byte) (low : offset < 2 ^ 31) (pos : 0 < size)
    (behind : 512 * L.data.length < offset + size) :
    Pintos.writeLoop d buffer size offset 0 fs = none ↔
      512 * L.data.length ≤ max offset len := by
  obtain ⟨g, on⟩ := on
  have lift : ∀ x, (h x).isSome → g x = h x := by
    intro x held
    obtain ⟨c, content⟩ := isSome_iff_exists.mp held
    rw [content, (on.held_iff.mp content).2]
  refine Pintos.writeLoop_eq_none_iff owns.nodup length buffer size offset 0 on.stored
    (maps.congr fun x hx => lift x (owns.index x hx)) (fun x hx => ?_) low pos behind
  have held := owns.held x (mem_append_left _ hx)
  rwa [lift x held]

theorem setInode (on : On F h fs) {s : BlockSector} (notFile : s ≠ freeMapSector)
    (inode : Option Inode) : On F h (fs.setInode s inode) :=
  on.congr rfl rfl rfl (update_of_ne notFile.symm ..)

end On

/-! ## Steps that keep the heap or the handles -/

namespace Represents

variable {F R : List BlockSector} {h h' : Heap} {G : BlockSector → Option Layout} {fs fs' : FS}
  {V : Volume} {s : BlockSector} {n : Node} (rep : Represents F h G fs V R)
include rep

theorem of_frame (on' : On F h' fs') (after : After fs fs')
    (frame : ∀ x, (h x).isSome → h' x = h x) : Represents F h' G fs' V R where
  on := on'
  opened := after.freeMapFile.trans rep.opened
  nodeAt s n found := by
    obtain ⟨d, L, layout, node⟩ := rep.nodeAt s n found
    exact ⟨d, L, layout, node.congr fun x hx => frame x (node.owns.held x hx)⟩
  layout := rep.layout
  apart := rep.apart
  handle s notFile := by
    rw [after.openInodes]
    exact rep.handle s notFile
  memory s inode notFile opened := by
    obtain ⟨disk, some?⟩ := rep.memory s inode notFile (after.openInodes ▸ opened)
    exact ⟨(frame s (by rw [disk]; rfl)).trans disk, some?⟩
  raw r hr := by
    obtain ⟨held, outside⟩ := rep.raw r hr
    exact ⟨by rwa [frame r held], outside⟩
  nodup := rep.nodup

theorem of_after (on' : On F h fs') (after : After fs fs') :
    Represents F h G fs' V R := rep.of_frame on' after fun _ _ => rfl

theorem of_same (on' : On F h fs') (same : Same fs fs') :
    Represents F h G fs' V R := rep.of_after on' same.toLater.after

/-- The open inode of a sector is replaced by one with the same content. -/
theorem setInode (found : V.node s = some n) (x : Option Inode)
    (disk : ∀ inode, x = some inode → h s = some inode.data.toSector) :
    Represents F h G (fs.setInode s x) (V.put s (some n) (x.map Inode.handle)) R := by
  have notFile := rep.ne_freeMap found
  obtain ⟨d, L, layout, node⟩ := rep.nodeAt s n found
  have on' := rep.on.setInode notFile x
  have replaced := rep.replace s (some n) (G s) (s :: L.sectors) on' rep.opened ?_ ?_ rep.nodup ?_
    ?_ ?_ ?_ ?_
  · rwa [update_eq_self, FS.setInode_self] at replaced
  · intro t M ne layoutT y hy
    exact rep.apart t s M L layoutT layout ne y hy
  · intro r hr
    exact ⟨hr, (rep.raw r hr).2 s L layout⟩
  · exact fun _ _ _ => rfl
  · intro m isNode
    obtain rfl : n = m := some.inj isNode
    exact ⟨d, L, layout, node⟩
  · intro M layoutM
    obtain rfl : L = M := some.inj (layout.symm.trans layoutM)
    exact ⟨rfl, fun y hy => .inl hy⟩
  · intro t ne
    exact fs.setInode_of_ne x ne
  intro inode opened
  rw [FS.setInode_self] at opened
  exact ⟨disk inode opened, rfl⟩

end Represents

theorem Steady.setInode (fs : FS) (s : BlockSector) (x : Option Inode) :
    Steady 0 fs (fs.setInode s x) := ⟨⟨Nat.le_refl _, .inl, id, id, rfl⟩, rfl⟩

namespace Represents

variable {F R : List BlockSector} {h : Heap} {G : BlockSector → Option Layout} {fs : FS}
  {V : Volume} {s : BlockSector} {n : Node} {h1 : Heap} {fs1 : FS}

theorem store (rep : Represents F h G fs V R) (inode : Inode)
    {n' : Node} (found : V.node s = some n) (layout : G s = some L) (on1 : On F h1 fs1)
    (opens1 : fs1.openInodes = fs.openInodes) (file1 : fs1.freeMapFile = fs.freeMapFile)
    (held : (h1 s).isSome) (frame : ∀ x, (h x).isSome → x ∉ s :: L.sectors → h1 x = h x)
    (fresh : ∀ x ∈ L'.sectors, x ∈ L.sectors ∨ h x = none)
    (node' : NodeAt (update h1 s (some d'.toSector)) s d' L' n') :
    ∃ fs2, (fs1.setData s inode d').writeInode s d' = some fs2 ∧ Steady 0 fs1 fs2 ∧
      fs2.openInodes s = some { inode with data := d' } ∧
      Represents F (update h1 s (some d'.toSector)) (update G s (some L')) fs2
        (V.put s (some n') (some inode.handle)) R := by
  have notFile := rep.ne_freeMap found
  have onSet : On F h1 (fs1.setData s inode d') := by
    apply on1.congr
    · rfl
    · rfl
    · rfl
    · exact fs1.setInode_of_ne _ notFile.symm
  obtain ⟨c, content⟩ := isSome_iff_exists.mp held
  obtain ⟨fs2, run, on2, same2⟩ := onSet.writeInode content d'
  have used : ∀ x, (update h1 s (some d'.toSector) x).isSome → (h1 x).isSome := by
    intro x some?
    by_cases same : x = s
    · exact same ▸ held
    · rwa [update_of_ne same] at some?
  have self2 : fs2.openInodes s = some { inode with data := d' } := by
    rw [same2.openInodes]
    exact fs1.setInode_self s _
  refine ⟨fs2, run, (Steady.setInode fs1 s _).trans (Steady.of_same onSet on2 same2 used), self2, ?_⟩
  have replaced := rep.replace s (some n') (some L') (s :: L.sectors) on2
    (same2.freeMapFile.trans (file1.trans rep.opened)) ?_ ?_ rep.nodup ?_ ?_ ?_ ?_ ?_
  · rwa [self2] at replaced
  · exact fun t M ne layoutT x hx => rep.apart t s M L layoutT layout ne x hx
  · exact fun r hr => ⟨hr, (rep.raw r hr).2 s L layout⟩
  · intro x some? notOld
    rw [update_of_ne fun same : x = s => notOld (same ▸ mem_cons_self)]
    exact frame x some? notOld
  · intro m isNode
    obtain rfl := some.inj isNode
    exact ⟨d', L', rfl, node'⟩
  · intro M layoutM
    obtain rfl : L' = M := some.inj layoutM
    refine ⟨rfl, ?_⟩
    intro x hx
    rcases mem_cons.mp hx with rfl | hx
    · exact .inl mem_cons_self
    · exact (fresh x hx).imp_left (mem_cons_of_mem _)
  · intro t ne
    rw [same2.openInodes, FS.setData, fs1.setInode_of_ne _ ne, opens1]
  intro inode' isInode
  obtain rfl := some.inj (self2.symm.trans isInode)
  exact ⟨node'.disk, rfl⟩

theorem overwrite (rep : Represents F h G fs V R) (layout : G s = some L)
    (opened : fs.openInodes s = some inode) (node : NodeAt h s inode.data L n) (buffer : Nat → Byte)
    (inside : offset + size ≤ n.content.length) :
    ∃ fs', writeLoop inode.data buffer size offset 0 fs = some ((size : Int), fs') ∧
      Steady 0 fs fs' ∧
      Models fs' (V.put s (some { n with content := n.content.write buffer size offset })
        (some inode.handle)) R := by
  obtain ⟨fs', h', run, on', same, others, held, bytes⟩ :=
    rep.on.writeLoop node.maps node.owns_layout node.length node.fits buffer inside
  have used : ∀ x, (h' x).isSome → (h x).isSome := by
    intro x some?
    by_cases inData : x ∈ L.data
    · exact node.owns.held x (mem_cons_of_mem _ (mem_append_left _ inData))
    · rwa [others x inData] at some?
  refine ⟨fs', run, Steady.of_same rep.on on' same used, F, h', update G s (some L), ?_⟩
  have sNotData : s ∉ L.data := fun mem =>
    (nodup_cons.mp node.owns.nodup).1 (mem_append_left _ mem)
  have opened' : fs'.openInodes s = some inode := by rw [same.openInodes, opened]
  have node' : NodeAt h' s inode.data L
      { n with content := n.content.write buffer size offset } := by
    have nodup := (nodup_append.mp node.owns_layout.nodup).2.2
    refine ⟨(others s sNotData).trans node.disk, ?_, ?_, node.tight, node.isDir, node.fileCnt,
      node.parent, ?_, ?_, ?_⟩
    · exact node.maps.congr fun x hx => others x fun inData => nodup x inData x hx rfl
    · refine ⟨node.owns.nodup, ?_⟩
      intro x hx
      by_cases inData : x ∈ L.data
      · exact held x inData
      · rw [others x inData]
        exact node.owns.held x hx
    · rw [node.length, FileBytes.write_length, Nat.max_eq_left inside]
    · rw [node.size, FileBytes.write_length, Nat.max_eq_left inside]
    · intro k
      rw [bytes k, node.bytes k, FileBytes.write_byte]
  have replaced := rep.replace s (some { n with content := n.content.write buffer size offset })
    (some L) (s :: L.sectors) on' (same.freeMapFile.trans rep.opened) ?_ ?_ rep.nodup ?_ ?_ ?_ ?_ ?_
  · rwa [opened'] at replaced
  · exact fun t M ne layoutT x hx => rep.apart t s M L layoutT layout ne x hx
  · exact fun r hr => ⟨hr, (rep.raw r hr).2 s L layout⟩
  · intro x _ notOld
    exact others x fun inData => notOld (mem_cons_of_mem _ (mem_append_left _ inData))
  · intro m isNode
    obtain rfl := some.inj isNode
    exact ⟨inode.data, L, rfl, node'⟩
  · intro M layoutM
    obtain rfl : L = M := some.inj layoutM
    exact ⟨rfl, fun x hx => .inl hx⟩
  · intro t _
    rw [same.openInodes]
  intro inode' isInode
  obtain rfl : inode = inode' := some.inj (opened'.symm.trans isInode)
  exact ⟨node'.disk, rfl⟩

/-- An inode that has grown to `target` bytes, all the new ones zero. -/
theorem extended (owns : Owns h (s :: L.sectors)) (isDir : (d.isDir != 0) = n.isDir)
    (fileCnt : d.fileCnt = n.fileCnt)
    (parent : d.parent = n.parent) (bytes : ∀ k, fileByte h L.data k = n.content.byte k)
    (grows : Grows F h fs d L h1 fs1 d1 ys zs)
    (tight : (L.extend ys zs).Tight) (longer : n.content.length ≤ target)
    (count : L.data.length + ys.length = (target + 511) / 512) (bound : target < 2 ^ 31)
    (isNew : d2 = { d1 with length := BitVec.ofInt 32 target }) :
    NodeAt (update h1 s (some d2.toSector)) s d2 (L.extend ys zs)
      { n with content := n.content.extend target } := by
  have usedS : (h s).isSome := owns.held s mem_cons_self
  have notNew : s ∉ ys ++ zs := grows.added.notMem_of_held usedS
  have notOld : s ∉ L.sectors := (nodup_cons.mp owns.nodup).1
  have notIn : s ∉ (L.extend ys zs).sectors := by
    simp only [Layout.sectors, Layout.extend, mem_append, not_or] at notOld notNew ⊢
    exact ⟨⟨notOld.1, notNew.1⟩, notOld.2, notNew.2⟩
  have others : ∀ (c : Option SectorData), ∀ x ∈ (L.extend ys zs).sectors, update h1 s c x = h1 x :=
    fun c x hx => update_of_ne (fun same : x = s => notIn (same ▸ hx)) _ _
  have ownsLayout : Owns h L.sectors :=
    ⟨(nodup_cons.mp owns.nodup).2, fun x hx => owns.held x (mem_cons_of_mem _ hx)⟩
  have owns1 := grows.owns ownsLayout
  have pointers : Maps h1 d2 (L.extend ys zs) := by
    subst isNew
    exact grows.maps.of_pointers rfl rfl rfl
  refine ⟨update_self .., pointers.congr fun x hx => others _ x (mem_append_right _ hx),
    ⟨nodup_cons.mpr ⟨notIn, owns1.nodup⟩, ?_⟩, tight, ?_, ?_, ?_, ?_, ?_, ?_⟩
  · intro x hx
    rcases mem_cons.mp hx with rfl | hx
    · rw [update_self]
      rfl
    · rw [others _ x hx]
      exact owns1.held x hx
  · rw [isNew]
    show (d1.isDir != 0) = n.isDir
    rw [grows.attrs.isDir, isDir]
  · rw [isNew]
    exact grows.attrs.fileCnt.trans fileCnt
  · rw [isNew]
    exact grows.attrs.parent.trans parent
  · rw [isNew]
    show (BitVec.ofInt 32 (target : Int)).toInt = ((max n.content.length target : Nat) : Int)
    rw [BitVec.toInt_ofInt, Nat.max_eq_right longer]
    exact int32_of_bounds (by omega) (by omega)
  · show (L.data ++ ys).length = (max n.content.length target + 511) / 512
    rw [length_append, Nat.max_eq_right longer, count]
  intro k
  rw [fileByte_congr fun x hx => others _ x (mem_append_left _ hx)]
  show fileByte h1 (L.data ++ ys) k = n.content.byte k
  rw [fileByte_append_zero grows.added.zero, ← bytes k]
  have nodup := (nodup_append.mp ownsLayout.nodup).2.2
  apply fileByte_congr
  intro x hx
  apply grows.added.keep (ownsLayout.held x (mem_append_left _ hx))
  exact fun index => nodup x hx x index rfl

theorem held (rep : Represents F h G fs V R) {t : BlockSector} (isHeld : t ∈ R ∨ (V.node t).isSome) :
    (h t).isSome := by
  rcases isHeld with reserved | some?
  · exact (rep.raw t reserved).1
  obtain ⟨m, isNode⟩ := isSome_iff_exists.mp some?
  obtain ⟨d, M, -, node⟩ := rep.nodeAt t m isNode
  rw [node.disk]
  rfl

/-- An inode that has grown is written to its sector, and then the data. -/
theorem writeGrown (rep : Represents F h G fs V R)
    (found : V.node s = some n) (layout : G s = some L)
    (node : NodeAt h s inode.data L n) (grows : Grows F h fs inode.data L h1 fs1 d1 ys zs)
    (tight : (L.extend ys zs).Tight) (buffer : Nat → Byte)
    (longer : n.content.length ≤ offset + size)
    (count : L.data.length + ys.length = (offset + size + 511) / 512)
    (bound : offset + size ≤ 2 ^ 31 - 512) :
    ∃ fs3, (do
        let data := { d1 with length := BitVec.ofInt 32 ((offset : Int) + size) }
        let fs ← (fs1.setData s inode data).writeInode s data
        writeLoop data buffer size offset 0 fs) = some ((size : Int), fs3) ∧ Steady 0 fs1 fs3 ∧
      Models fs3 (V.put s (some { n with content := n.content.write buffer size offset })
        (some inode.handle)) R := by
  obtain ⟨d2, isNew⟩ : ∃ d2, d2 = { d1 with length := BitVec.ofInt 32 (offset + size : Nat) } :=
    ⟨_, rfl⟩
  have node2 := Represents.extended node.owns node.isDir node.fileCnt node.parent node.bytes grows
    tight longer count (by omega) isNew
  obtain ⟨fs2, run2, costs2, opened2, rep2⟩ := rep.store inode found layout grows.added.on
    grows.added.same.openInodes grows.added.same.freeMapFile
    (grows.added.isSome (node.owns.held s mem_cons_self))
    (fun x used notIn => grows.added.keep used fun index =>
      notIn (mem_cons_of_mem _ (mem_append_right _ index)))
    (fun x hx => grows.fresh_or hx) node2
  have inside : offset + size ≤ (n.content.extend (offset + size)).length := Nat.le_max_right _ _
  obtain ⟨fs3, run3, costs3, models3⟩ :=
    rep2.overwrite (update_self ..) opened2 node2 buffer inside
  refine ⟨fs3, ?_, costs2.trans costs3, ?_⟩
  · rw [← Int.natCast_add, ← isNew]
    simp only [run2, bind_eq_bind, bind_some]
    exact run3
  · rwa [put_put, FileBytes.extend_write] at models3

end Represents

/-! ## Opening and the attributes -/

namespace Models

variable {R : List BlockSector} {fs : FS} {V : Volume} {s : BlockSector} {n : Node} {o : Handle}
  {offset size : Nat}

section

variable (models : Models fs V R) (found : V.node s = some n)
include models found

theorem inodeReopen (handle : V.handle s = some o) :
    ∃ inode, fs.openInodes s = some inode ∧ Steady 0 fs (fs.inodeReopen s inode) ∧
      Models (fs.inodeReopen s inode) (V.put s (some n) (some (Handle.reopen (some o)))) R := by
  obtain ⟨F, h, G, rep⟩ := models
  obtain ⟨inode, L, opened, rfl, layout, node⟩ := rep.open_data found handle
  refine ⟨inode, opened, Steady.setInode _ _ _, F, h, G, ?_⟩
  apply rep.setInode found (some { inode with openCnt := inode.openCnt + 1 })
  intro inode' isInode
  obtain rfl := some.inj isInode
  exact node.disk

theorem inodeOpen : ∃ fs', fs.inodeOpen s = some fs' ∧ Steady 0 fs fs' ∧
      Models fs' (V.put s (some n) (some (Handle.reopen (V.handle s)))) R := by
  unfold FS.inodeOpen
  cases handle : V.handle s with
  | some o =>
    obtain ⟨inode, opened, costs, models'⟩ := models.inodeReopen found handle
    rw [opened]
    exact ⟨_, rfl, costs, models'⟩
  | none =>
    obtain ⟨F, h, G, rep⟩ := models
    have closed : fs.openInodes s = none := by
      rw [rep.handle s (rep.ne_freeMap found)] at handle
      exact map_eq_none_iff.mp handle
    obtain ⟨d, L, layout, node⟩ := rep.nodeAt s n found
    obtain ⟨fs1, run, on1, same1⟩ := rep.on.readInode node.disk
    rw [InodeDisk.ofSector_toSector] at run
    rw [closed]
    dsimp only
    rw [run]
    have costs := (Steady.of_same rep.on on1 same1 fun _ held => held).trans (Steady.setInode fs1 s
        (some { openCnt := 1, removed := false, denyWriteCnt := 0, data := d }))
    refine ⟨_, rfl, costs, F, h, G, (rep.of_same on1 same1).setInode found _ ?_⟩
    intro inode isInode
    obtain rfl := some.inj isInode
    exact node.disk

theorem inodeGetParent (handle : V.handle s = some o) : fs.inodeGetParent s = some n.parent := by
  obtain ⟨F, h, G, rep⟩ := models
  obtain ⟨inode, L, opened, -, -, node⟩ := rep.open_data found handle
  simp [FS.inodeGetParent, opened, node.parent]

theorem inodeIsDir (handle : V.handle s = some o) : fs.inodeIsDir s = some n.isDir := by
  obtain ⟨F, h, G, rep⟩ := models
  obtain ⟨inode, L, opened, -, -, node⟩ := rep.open_data found handle
  simp only [FS.inodeIsDir, opened, bind_eq_bind, bind_some, node.isDir]

theorem inodeLength
    (handle : V.handle s = some o) : fs.inodeLength s = some (n.content.length : Int) := by
  obtain ⟨F, h, G, rep⟩ := models
  obtain ⟨inode, L, opened, -, -, node⟩ := rep.open_data found handle
  simp [FS.inodeLength, opened, node.length]

theorem inodeUpdateFileCnt (handle : V.handle s = some o) (delta : BitVec 32) :
    ∃ fs', fs.inodeUpdateFileCnt s delta = some fs' ∧ Steady 0 fs fs' ∧
      Models fs' (V.put s (some { n with fileCnt := n.fileCnt + delta }) (some o)) R := by
  obtain ⟨F, h, G, rep⟩ := models
  obtain ⟨inode, L, opened, isHandle, layout, node⟩ := rep.open_data found handle
  obtain ⟨fs1, run, on1, same1⟩ := rep.on.readInode node.disk
  rw [InodeDisk.ofSector_toSector] at run
  have sNotIn : s ∉ L.sectors := (nodup_cons.mp node.owns.nodup).1
  have others : ∀ (c : Option SectorData), ∀ x ∈ L.sectors, update h s c x = h x :=
    fun c x hx => update_of_ne (fun same : x = s => sNotIn (same ▸ hx)) _ _
  obtain ⟨d', isNew⟩ : ∃ d', d' = { inode.data with fileCnt := inode.data.fileCnt + delta } := ⟨_, rfl⟩
  have pointers : Maps h d' L := by
    subst isNew
    exact node.maps.of_pointers rfl rfl rfl
  have node' : NodeAt (update h s (some d'.toSector)) s d' L
      { n with fileCnt := n.fileCnt + delta } := by
    refine ⟨update_self .., pointers.congr fun x hx => others _ x (mem_append_right _ hx),
      ⟨node.owns.nodup, ?_⟩, node.tight, isNew ▸ node.isDir, ?_, isNew ▸ node.parent,
      isNew ▸ node.length, node.size, ?_⟩
    · intro x hx
      rcases mem_cons.mp hx with rfl | hx
      · rw [update_self]
        rfl
      · rw [others _ x hx]
        exact node.owns.held x (mem_cons_of_mem _ hx)
    · rw [isNew, node.fileCnt]
    intro k
    rw [fileByte_congr fun x hx => others _ x (mem_append_left _ hx)]
    exact node.bytes k
  obtain ⟨fs2, run2, costs2, -, rep2⟩ := rep.store inode found layout on1 same1.openInodes
    same1.freeMapFile (by rw [node.disk]; rfl) (fun _ _ _ => rfl) (fun x hx => .inl hx) node'
  refine ⟨fs2, ?_, (Steady.of_same rep.on on1 same1 fun _ held => held).trans costs2, F, _, _,
    isHandle ▸ rep2⟩
  simp only [FS.inodeUpdateFileCnt, opened, run, bind_eq_bind, bind_some]
  rw [← isNew, run2]

end

/-! ## The content -/

theorem inodeReadAt (models : Models fs V R) (found : V.node s = some n)
    (handle : V.handle s = some o) (size : Nat) (small : offset < 2 ^ 31) :
    ∃ fs', fs.inodeReadAt s size offset = some (n.content.read size offset, fs') ∧
      Steady 0 fs fs' ∧ Models fs' V R := by
  obtain ⟨F, h, G, rep⟩ := models
  obtain ⟨inode, L, opened, -, layout, node⟩ := rep.open_data found handle
  obtain ⟨fs', run, on', same⟩ :=
    rep.on.readLoop node.maps node.owns_layout node.length node.fits size small
  refine ⟨fs', ?_, Steady.of_same rep.on on' same fun _ held => held, F, h, G, rep.of_same on' same⟩
  simp only [FS.inodeReadAt, opened, bind_eq_bind, bind_some]
  rw [run]
  simp only [FileBytes.read, node.bytes]

/-- What is left of an open inode and of the volume in any case: the inode is open as it
    was, and the sectors of the inodes and the reserved ones are allocated. -/
structure Standing (fs : FS) (V : Volume) (R : List BlockSector) (s : BlockSector) (o : Handle) :
    Prop where
  heap : ∃ F h, On F h fs ∧ ∀ t, t ∈ R ∨ (V.node t).isSome → (h t).isSome
  freeMapFile : fs.freeMapFile = true
  opened : ∃ inode, fs.openInodes s = some inode ∧ inode.handle = o
  notFile : s ≠ freeMapSector

theorem standing (models : Models fs V R) (found : V.node s = some n)
    (handle : V.handle s = some o) : Standing fs V R s o := by
  obtain ⟨F, h, G, rep⟩ := models
  obtain ⟨inode, L, opened, isHandle, -⟩ := rep.open_data found handle
  exact ⟨⟨F, h, rep.on, fun _ => rep.held⟩, rep.opened, ⟨inode, opened, isHandle⟩,
    rep.ne_freeMap found⟩

theorem Standing.put {n' : Option Node} {o' : Option Handle}
    (standing : Standing fs (V.put s n' o') R s o)
    (some? : n'.isSome) : Standing fs V R s o := by
  obtain ⟨⟨F, h, on, held⟩, freeMapFile, opened, notFile⟩ := standing
  refine ⟨⟨F, h, on, ?_⟩, freeMapFile, opened, notFile⟩
  rintro t (reserved | isNode)
  · exact held t (.inl reserved)
  apply held t
  right
  by_cases same : t = s
  · subst same
    rwa [put_node_self]
  · rwa [put_node_of_ne same]

/-- The outcomes of writing to an inode. -/
inductive Written (fs fs' : FS) (V : Volume) (R : List BlockSector) (s : BlockSector) (n : Node)
    (o : Handle) (buffer : Nat → Byte) (size offset : Nat) : Int → Prop
  | done (models : Models fs' (V.put s
        (some { n with content := n.content.write buffer size offset }) (some o)) R)
      (steady : fs'.growFailed = fs.growFailed) :
      Written fs fs' V R s n o buffer size offset size
  | undone (models : Models fs' V R) (failed : fs'.growFailed = true)
      (longer : n.content.length < offset + size)
      (why : 512 * maxSectors < offset + size ∨ fs'.allocFailed = true) :
      Written fs fs' V R s n o buffer size offset 0
  | broken (failed : fs'.growFailed = true)
      (why : 512 * (maxSectors - 1) < n.content.length ∧ 512 * maxSectors < offset + size ∨
        fs'.allocFailed = true) :
      Written fs fs' V R s n o buffer size offset 0

variable (models : Models fs V R) (found : V.node s = some n)
include models found

/-- Moreover a write is cut short only where the inode would get too large or where
    there are few free sectors. -/
theorem inodeWriteAt_room
    (handle : V.handle s = some o) (allowed : o.denyWriteCnt = 0) (buffer : Nat → Byte)
    (bound : offset + size ≤ 2 ^ 31 - 512) :
    ∃ r fs', fs.inodeWriteAt s buffer size offset = some (r, fs') ∧
      Costs ((offset + size + 511) / 512 - (n.content.length + 511) / 512 + 130) fs fs' ∧
      Written fs fs' V R s n o buffer size offset r ∧ Standing fs' V R s o ∧
      (r ≠ size → 512 * maxSectors < offset + size ∨
        fs.freeCount ≤ (offset + size + 511) / 512 - (n.content.length + 511) / 512 + 130) := by
  obtain ⟨F, h, G, rep⟩ := models
  obtain ⟨inode, L, opened, rfl, layout, node⟩ := rep.open_data found handle
  have allowed : inode.denyWriteCnt = 0 := allowed
  have target : int32 ((offset : Int) + size) = (offset + size : Nat) :=
    int32_of_bounds (by omega) (by omega)
  have small := node.small
  unfold maxSectors at small
  unfold FS.inodeWriteAt
  rw [opened]
  simp only [bind_eq_bind, bind_some, target, node.length]
  rw [if_neg (by omega)]
  by_cases longer : n.content.length < offset + size
  swap
  · obtain ⟨fs', run, costs, models'⟩ := rep.overwrite layout opened node buffer
      (show offset + size ≤ n.content.length by omega)
    rw [if_neg (by omega), run]
    exact ⟨_, fs', rfl, (costs.mono (Nat.zero_le _)).toCosts, .done models' costs.steady,
      (models'.standing put_node_self put_handle_self).put rfl,
      fun short => absurd rfl short⟩
  rw [if_pos (by omega), bytesToSectors_of_bounds bound,
    bytesToSectors_of_bounds (show n.content.length ≤ 2 ^ 31 - 512 by omega)]
  obtain ⟨sectors, isCount⟩ : ∃ sectors,
      sectors = (offset + size + 511) / 512 - (n.content.length + 511) / 512 := ⟨_, rfl⟩
  rw [int32_of_bounds (by omega) (by omega),
    show (((offset + size + 511) / 512 : Nat) : Int) - ((n.content.length + 511) / 512 : Nat) =
      (sectors : Nat) by omega, ← isCount]
  obtain ⟨ok, d1, fs1, run1, costs1, growth⟩ := inodeGrowUnlocked_spec sectors rep.on rep.opened
    node.maps node.owns_layout node.tight
  have short : ok = false → 512 * maxSectors < offset + size ∨ fs.freeCount ≤ sectors + 130 := by
    rintro rfl
    apply (inodeGrowUnlocked_fails rep.on node.maps node.owns_layout node.tight run1).imp_left
    have sized := node.size
    omega
  rw [run1]
  simp only [bind_some]
  have sized := node.size
  cases growth with
  | grown grows count tight =>
    rename_i h1 ys zs
    obtain ⟨fs3, run3, costs3, models3⟩ := rep.writeGrown found layout node grows tight buffer
      (Nat.le_of_lt longer) (by omega) bound
    refine ⟨size, fs3, ?_, costs1.trans costs3.toCosts, .done models3
      (costs3.steady.trans grows.added.same.growFailed),
      (models3.standing put_node_self put_handle_self).put rfl,
      fun short => absurd rfl short⟩
    rw [if_pos rfl]
    exact run3
  | undone on after failed why =>
    have models1 : Models (fs1.setData s inode inode.data) V R := by
      have rep1 : Represents F h G fs1 V R := rep.of_after on after
      have rep2 :=
        rep1.setInode found (some { inode with data := inode.data }) (fun inode' isInode => by
        obtain rfl := some.inj isInode
        exact node.disk)
      have unchanged : V.put s (some n) (some inode.handle) = V := put_of_eq found handle
      rw [map_some] at rep2
      exact ⟨F, h, G, unchanged ▸ rep2⟩
    refine ⟨0, fs1.setData s inode inode.data, by rw [if_neg (by simp)],
      costs1.trans (Steady.setInode fs1 s _).toCosts, .undone models1 failed longer ?_,
      models1.standing found handle, fun _ => short rfl⟩
    apply why.imp_left
    intro tooLong
    omega
  | broken pos on after failed why frame =>
    refine ⟨0, fs1.setData s inode d1, by rw [if_neg (by simp)],
      costs1.trans (Steady.setInode fs1 s _).toCosts, .broken failed ?_, ?_, fun _ => short rfl⟩
    · apply why.imp_left
      intro full
      unfold maxSectors at full ⊢
      omega
    -- only index blocks of this inode are lost
    have notFile := rep.ne_freeMap found
    refine ⟨⟨F, _, on.setInode notFile _, ?_⟩,
      after.freeMapFile.trans rep.opened, ⟨{ inode with data := d1 }, fs1.setInode_self s _, rfl⟩, notFile⟩
    intro t isHeld
    have outside : t ∉ L.index := by
      intro index
      have inL : t ∈ s :: L.sectors := mem_cons_of_mem _ (mem_append_right _ index)
      rcases isHeld with reserved | some?
      · exact (rep.raw t reserved).2 s L layout inL
      obtain ⟨m, isNode⟩ := isSome_iff_exists.mp some?
      obtain ⟨d, M, layoutT, nodeT⟩ := rep.nodeAt t m isNode
      by_cases same : t = s
      · subst same
        exact (nodup_cons.mp node.owns.nodup).1 (mem_append_right _ index)
      · exact rep.apart t s M L layoutT layout same t mem_cons_self inL
    rw [frame t (rep.held isHeld) outside]
    exact rep.held isHeld

theorem inodeWriteAt
    (handle : V.handle s = some o) (allowed : o.denyWriteCnt = 0) (buffer : Nat → Byte)
    (bound : offset + size ≤ 2 ^ 31 - 512) :
    ∃ r fs', fs.inodeWriteAt s buffer size offset = some (r, fs') ∧
      Costs ((offset + size + 511) / 512 - (n.content.length + 511) / 512 + 130) fs fs' ∧
      Written fs fs' V R s n o buffer size offset r := by
  obtain ⟨r, fs', run, costs, written, -, -⟩ :=
    models.inodeWriteAt_room found handle allowed buffer bound
  exact ⟨r, fs', run, costs, written⟩

theorem content_small : n.content.length ≤ 512 * maxSectors := by
  obtain ⟨F, h, G, rep⟩ := models
  obtain ⟨d, L, -, node⟩ := rep.nodeAt s n found
  exact node.small

/-! ## Writes near the end of `off_t` -/

section

variable {size offset : Int}

omit models found in
/-- A write of nothing only lets the inode grow. -/
theorem inodeWriteAt_nonpos (nonpos : size ≤ 0) (buffer : Nat → Byte) :
    fs.inodeWriteAt s buffer size offset = fs.inodeWriteAt s buffer 0 (offset + size) := by
  have loop (d : InodeDisk) (fs : FS) :
      writeLoop d buffer size offset 0 fs = writeLoop d buffer 0 (offset + size) 0 fs := by
    rw [writeLoop, writeLoop, if_neg (by omega), if_neg (by omega)]
  unfold FS.inodeWriteAt
  simp only [loop, Int.add_zero]

/-- An extending write that ends there allocates nothing. -/
theorem inodeWriteAt_overflow (handle : V.handle s = some o) (allowed : o.denyWriteCnt = 0)
    (buffer : Nat → Byte) (low : 2 ^ 31 - 512 < offset + size) (high : offset + size < 2 ^ 31) :
    ∃ F h d L fs', On F h fs' ∧ Maps h d L ∧ Owns h L.sectors ∧
      d.length.toInt = ((offset + size).toNat : Int) ∧
      L.data.length = (n.content.length + 511) / 512 ∧
      fs.inodeWriteAt s buffer size offset = writeLoop d buffer size offset 0 fs' := by
  obtain ⟨F, h, G, rep⟩ := models
  obtain ⟨inode, L, opened, rfl, layout, node⟩ := rep.open_data found handle
  have allowed : inode.denyWriteCnt = 0 := allowed
  have short := node.small
  unfold maxSectors at short
  have length := node.length
  obtain ⟨target, isTarget⟩ : ∃ target : Nat, offset + size = target := ⟨_, (Int.toNat_of_nonneg
    (by omega)).symm⟩
  rw [isTarget] at low high ⊢
  have old : bytesToSectors inode.data.length.toInt = ((n.content.length + 511) / 512 : Nat) := by
    rw [length]
    exact bytesToSectors_of_bounds (by omega)
  obtain ⟨least, negative⟩ := bytesToSectors_overflow (show 2 ^ 31 - 512 < target by omega)
    (by omega)
  have nonpos : int32 (bytesToSectors target - bytesToSectors inode.data.length.toInt) ≤ 0 := by
    rw [old, int32_of_bounds (by omega) (by omega)]
    omega
  obtain ⟨d', isNew⟩ : ∃ d', d' = { inode.data with length := BitVec.ofInt 32 target } := ⟨_, rfl⟩
  have onSet : On F h (fs.setData s inode d') := rep.on.setInode (rep.ne_freeMap found) _
  obtain ⟨fs', run, on', -⟩ := onSet.writeInode node.disk d'
  have others : ∀ x ∈ L.sectors, update h s (some d'.toSector) x = h x := fun x hx =>
    update_of_ne (fun same : x = s => (nodup_cons.mp node.owns.nodup).1 (same ▸ hx)) _ _
  have pointers : Maps h d' L := by
    subst isNew
    exact node.maps.of_pointers rfl rfl rfl
  refine ⟨F, _, d', L, fs', on', pointers.congr fun x hx => others x (mem_append_right _ hx),
    ⟨node.owns_layout.nodup, fun x hx => ?_⟩, ?_, node.size, ?_⟩
  · rw [others x hx]
    exact node.owns_layout.held x hx
  · rw [isNew, Int.toNat_natCast]
    exact (BitVec.toInt_ofInt ..).trans (Int.bmod_eq_of_le (by omega) (by omega))
  unfold FS.inodeWriteAt
  rw [opened, bind_eq_bind, bind_some, if_neg (by rw [allowed]; simp), isTarget,
    int32_of_bounds (by omega) high, if_pos (by rw [length]; omega)]
  dsimp only
  rw [inodeGrowUnlocked_nonpos inode.data nonpos fs, bind_eq_bind, bind_some]
  dsimp only
  rw [if_pos rfl, ← isNew, run, bind_eq_bind, bind_some]

theorem inodeWriteAt_zero (handle : V.handle s = some o) (allowed : o.denyWriteCnt = 0)
    (buffer : Nat → Byte) (low : -2 ^ 31 ≤ offset) (high : offset < 2 ^ 31) :
    fs.inodeWriteAt s buffer 0 offset ≠ none := by
  by_cases negative : offset < 0
  · obtain ⟨F, h, G, rep⟩ := models
    obtain ⟨inode, L, opened, rfl, layout, node⟩ := rep.open_data found handle
    have allowed : inode.denyWriteCnt = 0 := allowed
    unfold FS.inodeWriteAt
    rw [opened, bind_eq_bind, bind_some, if_neg (by omega), Int.add_zero, int32_of_bounds low high,
      node.length, if_neg (by omega), writeLoop, if_neg (by decide)]
    simp
  by_cases inRange : offset ≤ 2 ^ 31 - 512
  · obtain ⟨r, fs', run, -⟩ := models.inodeWriteAt found handle allowed buffer
      (show offset.toNat + 0 ≤ 2 ^ 31 - 512 by omega)
    rw [Int.toNat_of_nonneg (by omega)] at run
    simp [show fs.inodeWriteAt s buffer 0 offset = _ from run]
  · obtain ⟨_, _, d, -, fs', -, -, -, -, -, run⟩ := models.inodeWriteAt_overflow found handle
      allowed buffer (show 2 ^ 31 - 512 < offset + 0 by omega) (by omega)
    rw [run, writeLoop, if_neg (by decide)]
    simp

/-- The kernel stops in a write exactly if it comes to a sector that is missing: the end of the
    write is near that of `off_t`, or behind it and the inode fills its last sector or ends before
    that of the first byte. -/
theorem inodeWriteAt_eq_none_iff (handle : V.handle s = some o) (allowed : o.denyWriteCnt = 0)
    (buffer : Nat → Byte) (low : 0 ≤ offset) (high : offset < 2 ^ 31) (least : -2 ^ 31 ≤ size)
    (most : size < 2 ^ 31) :
    fs.inodeWriteAt s buffer size offset = none ↔ 0 < size ∧ 2 ^ 31 - 512 < offset + size ∧
      (offset + size < 2 ^ 31 ∨
        512 * ((n.content.length + 511) / 512) ≤ max offset.toNat n.content.length) := by
  have short := models.content_small found
  unfold maxSectors at short
  obtain ⟨at', rfl⟩ : ∃ at' : Nat, offset = at' := ⟨_, (Int.toNat_of_nonneg low).symm⟩
  rw [Int.toNat_natCast]
  by_cases pos : 0 < size
  swap
  · refine iff_of_false ?_ fun h => pos h.1
    rw [inodeWriteAt_nonpos (by omega)]
    exact models.inodeWriteAt_zero found handle allowed buffer (by omega) (by omega)
  obtain ⟨count, rfl⟩ : ∃ count : Nat, size = count := ⟨_, (Int.toNat_of_nonneg (by omega)).symm⟩
  by_cases inRange : at' + count ≤ 2 ^ 31 - 512
  · obtain ⟨r, fs', run, -⟩ := models.inodeWriteAt found handle allowed buffer inRange
    rw [run]
    exact iff_of_false (by simp) (by omega)
  simp only [pos, show 2 ^ 31 - 512 < (at' : Int) + count by omega, true_and]
  by_cases near : at' + count < 2 ^ 31
  · obtain ⟨F, h, d, L, fs', on, maps, owns, length, sectors, run⟩ :=
      models.inodeWriteAt_overflow found handle allowed buffer
        (show 2 ^ 31 - 512 < (at' : Int) + count by omega) (by omega)
    refine iff_of_true ?_ (.inl (by omega))
    rw [run, on.writeLoop_eq_none_iff maps owns length buffer (by omega) (by omega) (by omega)]
    omega
  rw [or_iff_right (by omega)]
  obtain ⟨F, h, G, rep⟩ := models
  obtain ⟨inode, L, opened, rfl, layout, node⟩ := rep.open_data found handle
  have allowed : inode.denyWriteCnt = 0 := allowed
  -- the sum wraps around, and the inode does not grow
  have negative : int32 ((at' : Int) + count) < 0 := by
    unfold int32
    rw [Int.bmod_def]
    omega
  have run : fs.inodeWriteAt s buffer count at' = writeLoop inode.data buffer count at' 0 fs := by
    unfold FS.inodeWriteAt
    rw [opened, bind_eq_bind, bind_some, if_neg (by omega), if_neg (by rw [node.length]; omega)]
  have sectors := node.size
  rw [run, rep.on.writeLoop_eq_none_iff node.maps node.owns_layout node.length buffer (by omega)
    (by omega) (by omega), sectors]

end

end Models

end Pintos
