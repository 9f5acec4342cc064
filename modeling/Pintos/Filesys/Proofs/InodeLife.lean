import Pintos.Filesys.Proofs.InodeSpec

/-!
# Creating and deleting inodes

A sector is reserved, an inode is created in it, and when a removed inode is closed
for the last time all its sectors are released.
-/

namespace Pintos

open List Option Layout

open Function (update update_eq_self update_of_ne update_self)

variable {h1 h : Heap} {fs1 fs fs' : FS} {d : InodeDisk} {ys zs F : List BlockSector}
  {t parent : BlockSector} {length : Nat}

/-! ## Reserving and releasing one sector -/

namespace Represents

variable {F R : List BlockSector} {h : Heap} {G : BlockSector → Option Layout} {fs fs' : FS}
  {V : Volume} {s t : BlockSector} {n : Node}

theorem reserve (rep : Represents F h G fs V R) (free : h t = none) {c : SectorData}
    (on' : On F (update h t (some c)) fs') (same : Same fs fs') :
    Represents F (update h t (some c)) G fs' V (t :: R) := by
  have frame : ∀ x, (h x).isSome → update h t (some c) x = h x := by
    intro x held
    apply update_of_ne
    rintro rfl
    rw [free] at held
    cases held
  have kept := rep.of_frame on' same.toLater.after frame
  refine ⟨kept.on, kept.opened, kept.nodeAt, kept.layout, kept.apart, kept.handle, kept.memory, ?_,
    nodup_cons.mpr ⟨?_, rep.nodup⟩⟩
  · intro r hr
    rcases mem_cons.mp hr with rfl | hr
    · refine ⟨by rw [update_self]; rfl, ?_⟩
      intro s L layout mem
      obtain ⟨n, found⟩ := isSome_iff_exists.mp (rep.layout s L layout)
      obtain ⟨d, L', layout', node⟩ := rep.nodeAt s n found
      obtain rfl : L = L' := some.inj (layout.symm.trans layout')
      have held := node.owns.held r mem
      rw [free] at held
      cases held
    · exact kept.raw r hr
  intro mem
  have held := (rep.raw t mem).1
  rw [free] at held
  cases held

theorem of_raw (rep : Represents F h G fs V R) (reserved : t ∈ R) :
    V.node t = none ∧ t ≠ freeMapSector ∧ fs.openInodes t = none ∧ V.handle t = none := by
  obtain ⟨held, outside⟩ := rep.raw t reserved
  have noNode : V.node t = none := by
    cases found : V.node t with
    | none => rfl
    | some n =>
      obtain ⟨d, L, layout, node⟩ := rep.nodeAt t n found
      exact absurd mem_cons_self (outside t L layout)
  have notFile : t ≠ freeMapSector := by
    rintro rfl
    obtain ⟨c, content⟩ := isSome_iff_exists.mp held
    obtain ⟨g, on⟩ := rep.on
    obtain ⟨inode, M, rfl, -⟩ := on.file rep.opened
    exact (on.held_iff.mp content).1 mem_cons_self
  have closed : fs.openInodes t = none := by
    cases opened : fs.openInodes t with
    | none => rfl
    | some inode =>
      have some? := (rep.memory t inode notFile opened).2
      rw [noNode] at some?
      cases some?
  refine ⟨noNode, notFile, closed, ?_⟩
  rw [rep.handle t notFile, closed]
  rfl

theorem unreserve (rep : Represents F h G fs V (t :: R)) (same : Same fs fs')
    (on' : On F (update h t none) fs') :
    Represents F (update h t none) G fs' V R := by
  obtain ⟨noNode, notFile, closed, noHandle⟩ := rep.of_raw mem_cons_self
  obtain ⟨notIn, nodup⟩ := nodup_cons.mp rep.nodup
  have noLayout : G t = none := by
    cases layout : G t with
    | none => rfl
    | some L =>
      have some? := rep.layout t L layout
      rw [noNode] at some?
      cases some?
  have closed' : fs'.openInodes t = none := by rw [same.openInodes, closed]
  have replaced := rep.replace t none none [t] on' (same.freeMapFile.trans rep.opened) ?_ ?_ nodup
    ?_ ?_ ?_ ?_ ?_
  · rw [closed', map_none, Volume.put_of_eq noNode noHandle] at replaced
    rwa [show update G t none = G by rw [← noLayout, update_eq_self]] at replaced
  · intro u M _ layout x hx inOld
    obtain rfl := mem_singleton.mp inOld
    exact (rep.raw x mem_cons_self).2 u M layout hx
  · intro r hr
    refine ⟨mem_cons_of_mem _ hr, ?_⟩
    intro inOld
    exact notIn (mem_singleton.mp inOld ▸ hr)
  · intro x _ notOld
    exact update_of_ne (fun same : x = t => notOld (mem_singleton.mpr same)) _ _
  · intro n impossible
    cases impossible
  · intro L impossible
    cases impossible
  · intro u _
    rw [same.openInodes]
  intro inode impossible
  rw [closed'] at impossible
  cases impossible

theorem addNode (rep : Represents F h G fs V (t :: R))
    (on' : On F (update h1 t (some d.toSector)) fs')
    (after : After fs fs') (added : Added F h fs h1 fs1 ys zs [])
    (node : NodeAt (update h1 t (some d.toSector)) t d (empty.extend ys zs) n) :
    Represents F (update h1 t (some d.toSector))
      (update G t (some (empty.extend ys zs))) fs' (V.put t (some n) none) R := by
  obtain ⟨-, -, closed, -⟩ := rep.of_raw mem_cons_self
  obtain ⟨notIn, nodup⟩ := nodup_cons.mp rep.nodup
  have closed' : fs'.openInodes t = none := by rw [after.openInodes, closed]
  have replaced := rep.replace t (some n) (some (empty.extend ys zs)) [t] on'
    (after.freeMapFile.trans rep.opened) ?_ ?_ nodup ?_ ?_ ?_ ?_ ?_
  · rwa [closed', map_none] at replaced
  · intro u M _ layout x hx inOld
    obtain rfl := mem_singleton.mp inOld
    exact (rep.raw x mem_cons_self).2 u M layout hx
  · intro r hr
    refine ⟨mem_cons_of_mem _ hr, ?_⟩
    intro inOld
    exact notIn (mem_singleton.mp inOld ▸ hr)
  · intro x used notOld
    rw [update_of_ne fun same : x = t => notOld (mem_singleton.mpr same)]
    exact added.keep used not_mem_nil
  · intro m isNode
    obtain rfl := some.inj isNode
    exact ⟨d, _, rfl, node⟩
  · intro L layout
    obtain rfl := some.inj layout
    refine ⟨rfl, ?_⟩
    intro x hx
    rcases mem_cons.mp hx with rfl | hx
    · exact Or.inl (mem_singleton.mpr rfl)
    · exact Or.inr (added.fresh x hx)
  · intro u _
    rw [after.openInodes]
  intro inode impossible
  rw [closed'] at impossible
  cases impossible

theorem dropNode (rep : Represents F h G fs V R) (found : V.node t = some n)
    (closed : fs.openInodes t = none) (same : Same fs fs') (on' : On F (update h t none) fs') :
    Represents F (update h t none) (update G t none) fs' (V.put t none none) R := by
  obtain ⟨d, L, layout, node⟩ := rep.nodeAt t n found
  have closed' : fs'.openInodes t = none := by rw [same.openInodes, closed]
  have replaced := rep.replace t none none (t :: L.sectors) on' (same.freeMapFile.trans rep.opened)
    ?_ ?_ rep.nodup ?_ ?_ ?_ ?_ ?_
  · rwa [closed', map_none] at replaced
  · exact fun u M ne layoutU x hx => rep.apart u t M L layoutU layout ne x hx
  · exact fun r hr => ⟨hr, (rep.raw r hr).2 t L layout⟩
  · intro x _ notOld
    exact update_of_ne (fun same : x = t => notOld (same ▸ mem_cons_self)) _ _
  · intro n impossible
    cases impossible
  · intro L impossible
    cases impossible
  · intro u _
    rw [same.openInodes]
  intro inode impossible
  rw [closed'] at impossible
  cases impossible

end Represents

theorem Steady.of_update (on : On F h fs) (on' : On F (update h t none) fs') (same : Same fs fs') :
    Steady 0 fs fs' := by
  apply Steady.of_same on on' same
  intro x held
  by_cases isT : x = t
  · subst isT
    rw [update_self] at held
    cases held
  · rwa [update_of_ne isT] at held

namespace Models

variable {R : List BlockSector} {fs : FS} {V : Volume} {t : BlockSector} {n : Node}

theorem freeMapAllocate (models : Models fs V R) :
    ∃ r fs', fs.freeMapAllocate = some (r, fs') ∧ Steady 1 fs fs' ∧
      match r with
      | none => fs'.allocFailed = true ∧ Models fs' V R
      | some t => Models fs' V (t :: R) := by
  obtain ⟨F, h, G, rep⟩ := models
  obtain ⟨r, fs', run, costs, effect⟩ := rep.on.allocate_costs
  refine ⟨r, fs', run, costs, ?_⟩
  cases r with
  | none =>
    have refused : Refused F h fs fs' := effect
    exact ⟨refused.failed, F, h, G, rep.of_after refused.on refused.later.after⟩
  | some t =>
    obtain ⟨same, free, c, on'⟩ := effect
    exact ⟨F, _, G, rep.reserve free on' same⟩

theorem of_reserved (models : Models fs V R) (reserved : t ∈ R) :
    V.node t = none ∧ t ≠ freeMapSector ∧ V.handle t = none := by
  obtain ⟨F, h, G, rep⟩ := models
  obtain ⟨noNode, notFile, -, noHandle⟩ := rep.of_raw reserved
  exact ⟨noNode, notFile, noHandle⟩

theorem freeMapRelease (models : Models fs V (t :: R)) :
    ∃ fs', fs.freeMapRelease t = some fs' ∧ Steady 0 fs fs' ∧ Models fs' V R := by
  obtain ⟨F, h, G, rep⟩ := models
  obtain ⟨c, content⟩ := isSome_iff_exists.mp (rep.raw t mem_cons_self).1
  obtain ⟨fs', run, on', same⟩ := rep.on.freeMapRelease rep.opened content
  exact ⟨fs', run, Steady.of_update rep.on on' same, F, _, G, rep.unreserve same on'⟩

theorem freeMapRelease_node (models : Models fs V R) (found : V.node t = some n)
    (closed : V.handle t = none) :
    ∃ fs', fs.freeMapRelease t = some fs' ∧ Steady 0 fs fs' ∧ Models fs' (V.put t none none) R := by
  obtain ⟨F, h, G, rep⟩ := models
  obtain ⟨d, L, layout, node⟩ := rep.nodeAt t n found
  obtain ⟨fs', run, on', same⟩ := rep.on.freeMapRelease rep.opened node.disk
  rw [rep.handle t (rep.ne_freeMap found), map_eq_none_iff] at closed
  exact ⟨fs', run, Steady.of_update rep.on on' same, F, _, _, rep.dropNode found closed same on'⟩

end Models

/-! ## Creating an inode -/

theorem Maps.newInode (h : Heap) (length : Int) (isDir : Bool) (parent : BlockSector) :
    Maps h (newInode length isDir parent) empty :=
  .of_direct Holds.empty rfl rfl (Nat.zero_le _)

theorem FileBytes.extend_zeros (length : Nat) : (zeros 0).extend length = zeros length := by
  apply FileBytes.ext
  · exact Nat.zero_max length
  · rfl

/-- A new inode that has grown to its length is written to its sector. -/
theorem Grows.writeNew {isDir : Bool}
    (grows : Grows F h fs (newInode length isDir parent) empty h1 fs1 d ys zs)
    (held : (h t).isSome) (count : ys.length = (length + 511) / 512)
    (tight : (empty.extend ys zs).Tight) (bound : length < 2 ^ 31) :
    ∃ fs2, fs1.writeInode t d = some fs2 ∧ On F (update h1 t (some d.toSector)) fs2 ∧
      Same fs1 fs2 ∧ Steady 0 fs1 fs2 ∧
      NodeAt (update h1 t (some d.toSector)) t d (empty.extend ys zs)
        (Node.new isDir parent length) := by
  have owns : Owns h (t :: empty.sectors) := by
    refine ⟨nodup_singleton t, ?_⟩
    intro x hx
    rwa [mem_singleton.mp hx]
  have attrs : d.length = BitVec.ofInt 32 (length : Nat) := grows.attrs.length
  have isDirBit : ((newInode length isDir parent).isDir != 0) = isDir := by
    cases isDir <;> rfl
  have node : NodeAt (update h1 t (some d.toSector)) t d (empty.extend ys zs)
      ⟨isDir, 0, parent, (FileBytes.zeros 0).extend length⟩ :=
    Represents.extended owns (n := ⟨isDir, 0, parent, .zeros 0⟩) isDirBit rfl rfl
      (fun k => fileByte_past [] (Nat.zero_le k)) grows tight (Nat.zero_le length)
      (by rw [count]; exact Nat.zero_add _) (by omega) (by rw [← attrs])
  rw [FileBytes.extend_zeros] at node
  obtain ⟨c, content⟩ := isSome_iff_exists.mp (grows.added.isSome held)
  obtain ⟨fs2, run, on, same⟩ := grows.added.on.writeInode content d
  refine ⟨fs2, run, on, same, Steady.of_same grows.added.on on same ?_, node⟩
  intro x some?
  by_cases isT : x = t
  · rw [isT, content]
    rfl
  · rwa [update_of_ne isT] at some?

theorem Owns.empty (h : Heap) : Owns h empty.sectors := by
  refine ⟨nodup_nil, ?_⟩
  intro x hx
  cases hx

namespace Models

variable {R : List BlockSector} {fs : FS} {V : Volume} {t : BlockSector}

theorem inodeCreate (models : Models fs V (t :: R)) (bound : length ≤ 2 ^ 31 - 512)
    (isDir : Bool) (parent : BlockSector) :
    ∃ ok fs', fs.inodeCreate t length isDir parent = some (ok, fs') ∧
      Costs ((length + 511) / 512 + 130) fs fs' ∧
      (ok = true → fs'.growFailed = fs.growFailed ∧
        Models fs' (V.put t (some (Node.new isDir parent length)) none) R) ∧
      (ok = false → Models fs' V (t :: R) ∧ fs'.growFailed = true ∧
        (512 * maxSectors < length ∨ fs'.allocFailed = true)) := by
  obtain ⟨F, h, G, rep⟩ := models
  obtain ⟨noNode, notFile, closed, noHandle⟩ := rep.of_raw mem_cons_self
  have usedT : (h t).isSome := (rep.raw t mem_cons_self).1
  obtain ⟨ok, d1, fs1, run1, costs1, growth⟩ := inodeGrowUnlocked_spec ((length + 511) / 512) rep.on
    rep.opened (Maps.newInode h length isDir parent) (Owns.empty h) (Eq.refl 0)
  unfold FS.inodeCreate
  rw [if_neg (by omega), bytesToSectors_of_bounds bound, run1]
  simp only [bind_eq_bind, bind_some]
  cases growth with
  | grown grows count tight =>
    obtain ⟨fs2, run2, on2, same2, costs2, node⟩ := grows.writeNew usedT count tight (by omega)
    refine ⟨true, fs2, by rw [if_pos rfl, run2]; rfl, costs1.trans costs2.toCosts, ?_, by simp⟩
    intro _
    refine ⟨costs2.steady.trans grows.added.same.growFailed, ?_⟩
    exact ⟨F, _, _, rep.addNode on2 (grows.added.same.trans same2.toLater).after grows.added node⟩
  | undone on after failed why =>
    refine ⟨false, fs1, rfl, costs1, by simp, fun _ => ⟨⟨F, h, G, rep.of_after on after⟩, failed, ?_⟩⟩
    apply why.imp_left
    intro tooLong
    have : empty.data.length = 0 := rfl
    omega
  | broken pos on after failed why frame =>
    refine ⟨false, fs1, rfl, costs1, by simp, fun _ =>
      ⟨⟨F, _, G, rep.of_frame on after fun x used => frame x used not_mem_nil⟩, failed, ?_⟩⟩
    rcases why with impossible | failed
    · have : empty.data.length = 0 := rfl
      rw [this] at impossible
      cases impossible
    · exact Or.inr failed

end Models

end Pintos
