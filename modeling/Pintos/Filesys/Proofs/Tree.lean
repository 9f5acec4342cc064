import Pintos.Filesys.Proofs.Entries

/-!
# Changes of the directory tree

Opening and closing inodes, writing to files, entering a new inode in a directory
and removing an inode keep the directories a tree. For the last two it is said first
which entries there are afterwards; all the rest follows from that.
-/

namespace Pintos

open Function Option FileBytes Handle

variable {h o' : Option Handle}

namespace Handle

/-- An inode that was opened and is closed again has the handle that it had. -/
theorem close_reopen (counted : ∀ o, h = some o → 1 ≤ o.openCnt) : (reopen h).close = h := by
  cases h with
  | none => rfl
  | some o =>
    have pos := counted o rfl
    unfold reopen close
    dsimp only
    rw [if_neg (by omega), Int.add_sub_cancel]

end Handle

theorem Node.close_reopen (counted : ∀ o, h = some o → 1 ≤ o.openCnt) (n : Node) :
    n.close (reopen h) = some n := by
  cases h with
  | none => rfl
  | some o =>
    have pos := counted o rfl
    unfold reopen Node.close
    dsimp only
    rw [if_neg (by omega)]

namespace Volume

variable {V V' : Volume} {d s t : BlockSector} {i : Nat} {n n' : Node} {o : Option Handle}

/-! ## Handles -/

@[simp] theorem setHandle_node : (V.setHandle s o).node = V.node := update_eq_self ..

@[simp] theorem setHandle_handle_self : (V.setHandle s o).handle s = o := put_handle_self

theorem setHandle_handle_of_ne (ne : t ≠ s) : (V.setHandle s o).handle t = V.handle t :=
  put_handle_of_ne ne

@[simp] theorem opened_node : (V.opened s).node = V.node := setHandle_node

@[grind =] theorem opened_handle : (V.opened s).handle t =
    if t = s then some (reopen (V.handle s)) else V.handle t := put_handle

@[simp] theorem opened_handle_self :
    (V.opened s).handle s = some (reopen (V.handle s)) := setHandle_handle_self

theorem opened_handle_of_ne (ne : t ≠ s) : (V.opened s).handle t = V.handle t :=
  setHandle_handle_of_ne ne

@[simp] theorem opened_isDir : (V.opened s).isDir = V.isDir := by
  unfold isDir
  rw [opened_node]

@[simp] theorem opened_lookup : (V.opened s).lookup = V.lookup := by
  unfold lookup
  rw [opened_node]

theorem setHandle_setHandle : (V.setHandle s o).setHandle s o' = V.setHandle s o' := by
  unfold setHandle
  rw [put_put, put_node_self]

theorem setHandle_handle : V.setHandle s (V.handle s) = V := put_self

theorem setHandle_comm (ne : t ≠ s) :
    (V.setHandle s o).setHandle t o' = (V.setHandle t o').setHandle s o := by
  apply Volume.ext
  · simp only [setHandle_node]
  · exact update_comm ne.symm ..

theorem opened_opened_setHandle (ne : t ≠ s) :
    ((V.opened s).opened t).setHandle s (V.handle s) = V.opened t := by
  rw [opened, opened_handle_of_ne ne, opened, setHandle_comm ne, setHandle_setHandle,
    ← setHandle_handle_of_ne ne.symm, setHandle_handle]
  rfl

theorem kept_opened : (V.opened s).Kept t ↔ V.Kept t := by
  unfold Kept
  by_cases same : t = s
  · subst same
    rw [opened_handle_self]
    cases V.handle t with
    | none => simp [reopen, first]
    | some o => simp [reopen]
  · rw [opened_handle_of_ne same]

/-! ## Entries -/

theorem entry_iff (found : V.node d = some n) : V.Entry d i s ↔
    n.isDir = true ∧ (n.content.entry i).inUse = true ∧ (n.content.entry i).inodeSector = s := by
  constructor
  · rintro ⟨m, isNode, isDir, -, used, sector⟩
    obtain rfl := some.inj (found.symm.trans isNode)
    exact ⟨isDir, used, sector⟩
  · rintro ⟨isDir, used, sector⟩
    exact ⟨n, found, isDir, lt_entryCnt used, used, sector⟩

theorem Entry.isDir (entry : V.Entry d i s) : ∃ n, V.node d = some n ∧ n.isDir = true := by
  obtain ⟨n, found, isDir, -⟩ := entry
  exact ⟨n, found, isDir⟩

theorem InTree.mono (inTree : V.InTree s) (entries : ∀ {d i s}, V.Entry d i s → V'.Entry d i s) :
    V'.InTree s := by
  induction inTree with
  | root => exact .root
  | child _ entry ih => exact .child ih (entries entry)

theorem isDir_iff : V.isDir s = true ↔ ∃ n, V.node s = some n ∧ n.isDir = true := by
  unfold isDir
  cases V.node s <;> simp

/-! ## What a tree says -/

namespace Tree

theorem counted_handle (tree : V.Tree) : ∀ o, V.handle s = some o → 1 ≤ o.openCnt :=
  fun _ handle => (tree.handles handle).2.1

theorem parent (tree : V.Tree) (found : V.node s = some n) (isDir : n.isDir = true) :
    V.isDir n.parent = true ∧ (s ≠ rootDirSector → ∃ i, V.Entry n.parent i s) := by
  cases tree.named found (tree.removed found isDir) with
  | root =>
    obtain ⟨m, isNode, isRootDir, isParent⟩ := tree.root
    obtain rfl := some.inj (found.symm.trans isNode)
    rw [isParent]
    exact ⟨isDir_iff.mpr ⟨n, found, isDir⟩, fun notRoot => absurd rfl notRoot⟩
  | child _ entry =>
    rename_i d i _
    obtain ⟨-, -, m, isNode, isParent⟩ := tree.target entry
    obtain rfl := some.inj (found.symm.trans isNode)
    rw [isParent isDir]
    exact ⟨isDir_iff.mpr entry.isDir, fun _ => ⟨i, entry⟩⟩

theorem lookup (tree : V.Tree) {name : FileName} (isDir : V.isDir d = true)
    (leads : V.lookup d name = some s) : V.Kept s ∧ ∃ n, V.node s = some n := by
  obtain ⟨n, found, isDirN⟩ := isDir_iff.mp isDir
  unfold Volume.lookup at leads
  rw [found, bind_eq_bind, bind_some] at leads
  by_cases dot : name = dotName
  · rw [if_pos dot] at leads
    obtain rfl := some.inj leads
    exact ⟨tree.removed found isDirN, n, found⟩
  rw [if_neg dot] at leads
  by_cases dotDot : name = dotDotName
  · rw [if_pos dotDot] at leads
    obtain rfl := some.inj leads
    obtain ⟨p, isNode, isDirP⟩ := isDir_iff.mp (tree.parent found isDirN).1
    exact ⟨tree.removed isNode isDirP, p, isNode⟩
  rw [if_neg dotDot, map_eq_some_iff] at leads
  obtain ⟨i, at?, sector⟩ := leads
  have used := (Bool.and_eq_true_iff.mp (find_eq_some.mp at?).1).1
  obtain ⟨-, kept, m, isNode, -⟩ := tree.target ((entry_iff found).mpr ⟨isDirN, used, sector⟩)
  exact ⟨kept, m, isNode⟩

theorem root_isDir (tree : V.Tree) : V.isDir rootDirSector = true := by
  obtain ⟨n, found, isDir, -⟩ := tree.root
  exact isDir_iff.mpr ⟨n, found, isDir⟩

end Tree

theorem walk_isDir (tokens : List FileName) (isDir : V.isDir d = true) :
    V.isDir (V.walk tokens d).2 = true := by
  induction tokens generalizing d with
  | nil => exact isDir
  | cons token rest ih =>
    unfold walk
    cases next : (V.lookup d token).filter V.isDir with
    | none => exact isDir
    | some next' => exact ih (filter_eq_some_iff.mp next).2

/-! ## Changes that name nothing new -/

/-- The inodes of `V'` are inodes of `V` with the same attributes; only files and the
    entries of directories may differ. -/
structure Shrinks (V V' : Volume) : Prop where
  node : ∀ {s n'}, V'.node s = some n' → ∃ n, V.node s = some n ∧ n'.isDir = n.isDir ∧
    n'.parent = n.parent
  root : (V'.node rootDirSector).isSome
  entry : ∀ {d i s}, V'.Entry d i s → V.Entry d i s ∧ V'.Kept s ∧ (V'.node s).isSome
  named : ∀ {s n}, V'.node s = some n → V'.Kept s → V'.InTree s
  removed : ∀ {s n}, V'.node s = some n → n.isDir = true → V'.Kept s
  counted : ∀ {d n}, V'.node d = some n → n.isDir = true → n.fileCnt.toNat = n.content.usedCnt
  handles : ∀ {s o}, V'.handle s = some o → (V'.node s).isSome ∧ 1 ≤ o.openCnt ∧
    ∀ n, V'.node s = some n → n.isDir = true → o.denyWriteCnt = 0

namespace Tree

theorem shrink (tree : V.Tree) (shrinks : Shrinks V V') : V'.Tree where
  root := by
    have root := tree.root
    have node := @shrinks.node
    have some? := isSome_iff_exists.mp shrinks.root
    grind
  target := by
    intro d i s entry'
    obtain ⟨entry, kept, some?⟩ := shrinks.entry entry'
    obtain ⟨n', found'⟩ := isSome_iff_exists.mp some?
    have target := tree.target entry
    have node := @shrinks.node
    grind
  once entry entry' := tree.once (shrinks.entry entry).1 (shrinks.entry entry').1
  named := shrinks.named
  removed := shrinks.removed
  counted := shrinks.counted
  handles := shrinks.handles

theorem of_alike (tree : V.Tree)
    (alike : ∀ s, V'.node s = V.node s ∨ ∃ n n', V.node s = some n ∧ V'.node s = some n' ∧
      n.isDir = false ∧ n'.isDir = false ∧ n'.parent = n.parent)
    (kept : ∀ s, V'.Kept s ↔ V.Kept s)
    (handles : ∀ {s o}, V'.handle s = some o → (V.node s).isSome ∧ 1 ≤ o.openCnt ∧
      ∀ n, V.node s = some n → n.isDir = true → o.denyWriteCnt = 0) : V'.Tree := by
  have dir : ∀ {s n}, n.isDir = true → (V'.node s = some n ↔ V.node s = some n) := by grind
  have some? : ∀ s, (V'.node s).isSome ↔ (V.node s).isSome := by grind
  have entries : ∀ {d i s}, V'.Entry d i s ↔ V.Entry d i s := by grind [Entry]
  apply tree.shrink
  refine ⟨by grind, ?_, ?_, ?_, ?_, ?_, ?_⟩
  · obtain ⟨n, found, -⟩ := tree.root
    simp [some?, found]
  · intro d i s entry'
    have target := tree.target (entries.mp entry')
    grind
  · intro s n' found' isKept
    obtain ⟨n, found⟩ := isSome_iff_exists.mp ((some? s).mp (by simp [found']))
    exact (tree.named found ((kept s).mp isKept)).mono entries.mpr
  · intro s n found isDir
    exact (kept s).mpr (tree.removed ((dir isDir).mp found) isDir)
  · intro d n found isDir
    exact tree.counted ((dir isDir).mp found) isDir
  · grind

theorem opened (tree : V.Tree) (found : (V.node s).isSome) : (V.opened s).Tree := by
  apply tree.of_alike (fun t => Or.inl (congrFun opened_node t)) fun _ => kept_opened
  have handles := @tree.handles
  intro t o handle
  cases old : V.handle s <;> grind [reopen, first]

end Tree

/-! ## Entering a new inode -/

section Link

variable {e : EntryBytes}

theorem link_node_dir : (V.link d n e s n').node d = some { n with
    content := n.content.setEntry n.content.freeSlot e
    fileCnt := n.fileCnt + 1 } := put_node_self

theorem link_node_new (ne : s ≠ d) : (V.link d n e s n').node s = some n' :=
  (put_node_of_ne ne).trans put_node_self

theorem link_node_of_ne (notD : t ≠ d) (notS : t ≠ s) : (V.link d n e s n').node t = V.node t :=
  (put_node_of_ne notD).trans (put_node_of_ne notS)

theorem link_handle (closed : V.handle s = none) : (V.link d n e s n').handle = V.handle := by
  unfold link put
  dsimp only
  rw [← closed, update_eq_self, update_eq_self]

theorem link_entry_iff (found : V.node d = some n) (isDir : n.isDir = true) (fresh : V.node s = none)
    (used : e.decode.inUse = true) (sector : e.decode.inodeSector = s)
    (empty : n'.content.usedCnt = 0) {x : BlockSector} :
    (V.link d n e s n').Entry x i t ↔ V.Entry x i t ∨ x = d ∧ i = n.content.freeSlot ∧ t = s := by
  have ne : s ≠ d := by grind
  by_cases isD : x = d
  · subst isD
    rw [entry_iff link_node_dir, entry_iff found]
    by_cases isSlot : i = n.content.freeSlot
    · subst isSlot
      simp [entry_setEntry_self, inUse_freeSlot, used, sector, isDir, eq_comm]
    · simp [entry_setEntry_of_ne isSlot, isSlot]
  by_cases isS : x = s
  · subst isS
    rw [entry_iff (link_node_new ne), usedCnt_eq_zero.mp empty]
    simp [Entry, fresh, isD]
  · have same : (V.link d n e s n').node x = V.node x := link_node_of_ne isD isS
    simp [Entry, same, isD]

theorem Tree.link (tree : V.Tree) (found : V.node d = some n) (isDir : n.isDir = true)
    (fresh : V.node s = none) (used : e.decode.inUse = true) (sector : e.decode.inodeSector = s)
    (parent : n'.parent = d) (empty : n'.content.usedCnt = 0) (zero : n'.fileCnt = 0)
    (small : n.content.length < 2 ^ 32 - 1) : (V.link d n e s n').Tree := by
  have handles := @tree.handles
  have closed : V.handle s = none := by
    cases handle : V.handle s with
    | none => rfl
    | some o => simpa [fresh] using (tree.handles handle).1
  have entries : ∀ {x i t}, (V.link d n e s n').Entry x i t ↔
      V.Entry x i t ∨ x = d ∧ i = n.content.freeSlot ∧ t = s :=
    link_entry_iff found isDir fresh used sector empty
  have kept : ∀ {t}, (V.link d n e s n').Kept t ↔ V.Kept t := by
    simp only [Kept, link_handle closed, implies_true]
  -- the inodes are the old ones, of which the directory has a new content, and the new one
  have node : ∀ {t}, (V.link d n e s n').node t = if t = d then some { n with
        content := n.content.setEntry n.content.freeSlot e, fileCnt := n.fileCnt + 1 }
      else if t = s then some n' else V.node t := by grind [Volume.link]
  have inTree : ∀ {t}, V.InTree t → (V.link d n e s n').InTree t :=
    fun inTree => inTree.mono fun entry => entries.mpr (Or.inl entry)
  have count := usedCnt_setEntry_used (i := n.content.freeSlot) inUse_freeSlot used
  have le := usedCnt_le (b := n.content)
  have root := tree.root
  have target := @tree.target
  have once := @tree.once
  have removed := @tree.removed
  have counted := @tree.counted
  refine ⟨?_, ?_, ?_, ?_, ?_, ?_, ?_⟩
  · grind
  · grind [Kept]
  · grind
  · intro t m isNode isKept
    by_cases isS : t = s
    · rw [isS]
      exact .child (inTree (tree.named found (tree.removed found isDir)))
        (entries.mpr (Or.inr ⟨rfl, rfl, rfl⟩))
    · have named := @tree.named
      grind
  · grind [Kept]
  · grind
  intro t o handle
  rw [link_handle closed] at handle
  grind

end Link

end Volume

end Pintos
