import Pintos.Userprog.Proofs.MmapPages

/-!
# The bytes of a mapped file

A mapped file and the pages that it is mapped to hold the bytes that were last written through
the mapping: a page in a frame has the current bytes, and so has the file wherever no page in a
frame is dirty. An eviction or `munmap_` writes a dirty page back before it goes, and a load finds
the current bytes in the file.
-/

namespace Pintos

open Function List Option

variable {i' j i addr upage esp size ofs : Nat} {target f : FileId} {q : PageId} {pg' new : Page}
  {user notPresent denyWrite : Bool}

/-- The page is one of a mapping of the file. -/
structure Page.MapsTo (pg : Page) (file : FileId) : Prop where
  type : pg.type = .file
  file : pg.file = some file

/-- The page is a whole page of a file of `len` bytes, or what there is of the last one. -/
structure Page.PartOf (pg : Page) (len : Nat) : Prop where
  aligned : pg.ofs % pgSize = 0
  inside : pg.ofs < len
  readBytes : pg.readBytes = min pgSize (len - pg.ofs)
  writable : pg.writable = true

/-- The byte of the file at this offset is in the page. -/
def Page.Covers (pg : Page) (j : Nat) : Prop := pg.ofs ≤ j ∧ j < pg.ofs + pg.readBytes

section Pages

variable {pg pg' : Page} {file : FileId} {len j : Nat} {i : Nat}

theorem Page.MapsTo.kin (mapsTo : pg'.MapsTo file) (kin : pg.Kin pg') : pg.MapsTo file :=
  ⟨kin.file.mp mapsTo.type, (congrArg PageArgs.file kin.args).symm.trans mapsTo.file⟩

variable (part : pg.PartOf len)
include part

theorem Page.PartOf.kin (kin : pg.Kin pg') : pg'.PartOf len := by
  obtain ⟨aligned, inside, readBytes, writable⟩ := part
  constructor <;> rw [kin.args] <;> assumption

theorem Page.PartOf.lt_len (small : i < pg.readBytes) : pg.ofs + i < len := by
  have readBytes := part.readBytes
  omega

theorem Page.PartOf.lt_pgSize (small : i < pg.readBytes) : i < pgSize := by
  have readBytes := part.readBytes
  omega

theorem Page.PartOf.ofs_eq_of_add (part' : pg'.PartOf len)
    (inPage : i < pgSize) (inPage' : i' < pgSize) (same : pg.ofs + i = pg'.ofs + i') :
    pg.ofs = pg'.ofs := by
  have aligned : pg.ofs % 4096 = 0 := part.aligned
  have aligned' : pg'.ofs % 4096 = 0 := part'.aligned
  have inPage : i < 4096 := inPage
  have inPage' : i' < 4096 := inPage'
  omega

theorem Page.PartOf.ofs_eq (part' : pg'.PartOf len) (covers : pg.Covers j)
    (covers' : pg'.Covers j) : pg.ofs = pg'.ofs := by
  apply part.ofs_eq_of_add part' (part.lt_pgSize (Nat.sub_lt_left_of_lt_add covers.1 covers.2))
    (part'.lt_pgSize (Nat.sub_lt_left_of_lt_add covers'.1 covers'.2))
  rw [Nat.add_sub_cancel' covers.1, Nat.add_sub_cancel' covers'.1]

end Pages

namespace Vm

variable {vm vm' : Vm} {file : FileId} {len : Nat} {bytes bytes' : Nat → Byte} {p : PageId}
  {pg : Page} {k : KPage} {saved : Vm} {victim : Option FrameId} {success : Bool}

/-- The byte at `j` is in a page in a frame that was written. -/
def DirtyAt (vm : Vm) (file : FileId) (j : Nat) (p : PageId) (pg : Page) : Prop :=
  vm.page p = some pg ∧ pg.MapsTo file ∧ pg.kpage ≠ none ∧
    (vm.pte pg.owner pg.upage).dirty = true ∧ pg.Covers j

/-- The file, which has `len` bytes, and its pages hold `bytes`. -/
structure Mirrors (vm : Vm) (file : FileId) (len : Nat) (bytes : Nat → Byte) : Prop where
  allowed : (vm.file file).denyWrite = false
  length : vm.fileLength file = len
  part : ∀ {p pg}, vm.page p = some pg → pg.MapsTo file → pg.PartOf len
  apart : ∀ {p q pg pg'}, vm.page p = some pg → vm.page q = some pg' → pg.MapsTo file →
    pg'.MapsTo file → pg.ofs = pg'.ofs → p = q
  held : ∀ {p pg k}, vm.page p = some pg → pg.MapsTo file → pg.kpage = some k →
    ∀ i < pg.readBytes, (vm.memory k).byte i = bytes (pg.ofs + i)
  saved : ∀ j < len, (vm.file file).bytes.byte j = bytes j ∨ ∃ p pg, vm.DirtyAt file j p pg

namespace Mirrors

variable (mirrors : vm.Mirrors file len bytes)
include mirrors

theorem of_back (allowed : (vm'.file file).denyWrite = false) (length : vm'.fileLength file = len)
    (back : ∀ {p pg'}, vm'.page p = some pg' → pg'.MapsTo file → ∃ pg, vm.page p = some pg ∧ pg.Kin
      pg')
    (held : ∀ {p pg' k}, vm'.page p = some pg' → pg'.MapsTo file → pg'.kpage = some k → ∀ i <
      pg'.readBytes, (vm'.memory k).byte i = bytes' (pg'.ofs + i))
    (saved : ∀ j < len, (vm'.file file).bytes.byte j = bytes' j ∨ ∃ p pg, vm'.DirtyAt file j p pg) :
      vm'.Mirrors file len bytes' where
  allowed := allowed
  length := length
  part isPage mapsTo := by
    obtain ⟨pg, wasPg, kin⟩ := back isPage mapsTo
    exact (mirrors.part wasPg (mapsTo.kin kin)).kin kin
  apart isP isQ mapsToP mapsToQ sameOfs := by
    obtain ⟨pgP, wasP, kinP⟩ := back isP mapsToP
    obtain ⟨pgQ, wasQ, kinQ⟩ := back isQ mapsToQ
    apply mirrors.apart wasP wasQ (mapsToP.kin kinP) (mapsToQ.kin kinQ)
    rw [← congrArg PageArgs.ofs kinP.args, ← congrArg PageArgs.ofs kinQ.args, sameOfs]
  held := held
  saved := saved

/-- The pages of the file, what they hold and the file stay as they were. -/
theorem congr (allowed : (vm'.file file).denyWrite = false)
    (sameBytes : (vm'.file file).bytes = (vm.file file).bytes)
    (forth : ∀ {p pg}, vm.page p = some pg → pg.MapsTo file → vm'.page p = some pg)
    (back : ∀ {p pg}, vm'.page p = some pg → pg.MapsTo file → vm.page p = some pg)
    (memory : ∀ {p pg k}, vm.page p = some pg → pg.MapsTo file → pg.kpage = some k →
      vm'.memory k = vm.memory k)
    (entry : ∀ {p pg}, vm.page p = some pg → pg.MapsTo file → pg.kpage ≠ none →
      vm'.pte pg.owner pg.upage = vm.pte pg.owner pg.upage) : vm'.Mirrors file len bytes := by
  apply mirrors.of_back allowed
  · unfold fileLength
    rw [sameBytes]
    exact mirrors.length
  · exact fun isPage mapsTo => ⟨_, back isPage mapsTo, .refl _⟩
  · intro p pg k isPage mapsTo sits i small
    rw [memory (back isPage mapsTo) mapsTo sits]
    exact mirrors.held (back isPage mapsTo) mapsTo sits i small
  intro j inside
  rw [sameBytes]
  rcases mirrors.saved j inside with same | ⟨p, pg, isPage, mapsTo, seated, dirty, covers⟩
  · exact .inl same
  refine .inr ⟨p, pg, forth isPage mapsTo, mapsTo, seated, ?_, covers⟩
  rw [entry isPage mapsTo seated]
  exact dirty

/-- A page whose entry is not dirty, or that has no frame, has its bytes in the file. -/
theorem byte_of_clean (isPage : vm.page p = some pg) (mapsTo : pg.MapsTo file)
    (clean : pg.kpage = none ∨ (vm.pte pg.owner pg.upage).dirty = false)
    (covers : pg.Covers j) : (vm.file file).bytes.byte j = bytes j := by
  have part := mirrors.part isPage mapsTo
  have inside : j < len := by
    have bound := part.lt_len (Nat.sub_lt_left_of_lt_add covers.1 covers.2)
    rwa [Nat.add_sub_cancel' covers.1] at bound
  rcases mirrors.saved j inside with same | ⟨q, pg', isQ, mapsTo', seated, dirty, covers'⟩
  · exact same
  -- the dirty page would be this one
  have samePage := mirrors.apart isQ isPage mapsTo' mapsTo
    ((mirrors.part isQ mapsTo').ofs_eq part covers' covers)
  rw [samePage, isPage, some.injEq] at isQ
  subst isQ
  rcases clean with unseated | clean
  · exact absurd unseated seated
  · rw [clean] at dirty
    cases dirty

theorem byte_of_unmapped
    (unmapped : ∀ p pg, vm.page p = some pg → ¬ pg.MapsTo file) (inside : j < len) :
    (vm.file file).bytes.byte j = bytes j := by
  rcases mirrors.saved j inside with same | ⟨p, pg, isPage, mapsTo, -⟩
  · exact same
  · exact absurd mapsTo (unmapped p pg isPage)

end Mirrors

/-! ## Writing back -/

/-- `file_write_at` to a file that may be written. -/
theorem fileWriteAt_byte (allowed : (vm.file file).denyWrite = false) (d : PageData)
    (size ofs j : Nat) :
    ((vm.fileWriteAt file d size ofs).file file).bytes.byte j =
      if ofs ≤ j ∧ j < ofs + size then d.byte (j - ofs) else (vm.file file).bytes.byte j := by
  unfold fileWriteAt
  rw [allowed, if_neg Bool.false_ne_true]
  dsimp only
  rw [update_self]
  rfl

theorem fileWriteAt_other (ne : file ≠ target) (d : PageData)
    (size ofs : Nat) : (vm.fileWriteAt target d size ofs).file file = vm.file file := by
  unfold fileWriteAt
  split
  · rfl
  · exact update_of_ne ne ..

theorem Mirrors.writtenBack_byte (mirrors : vm.Mirrors file len bytes)
    (isPage : vm.page p = some pg) (mapsTo : pg.MapsTo file) (sits : pg.kpage = some k) (j : Nat) :
    ((vm.fileWriteAt file (vm.memory k) pg.readBytes pg.ofs).file file).bytes.byte j =
      if pg.ofs ≤ j ∧ j < pg.ofs + pg.readBytes then bytes j
      else (vm.file file).bytes.byte j := by
  rw [fileWriteAt_byte mirrors.allowed]
  by_cases covers : pg.ofs ≤ j ∧ j < pg.ofs + pg.readBytes
  · rw [if_pos covers, if_pos covers, mirrors.held isPage mapsTo sits _
      (Nat.sub_lt_left_of_lt_add covers.1 covers.2), Nat.add_sub_cancel' covers.1]
  · rw [if_neg covers, if_neg covers]

theorem Mirrors.writtenBack_length (mirrors : vm.Mirrors file len bytes)
    (isPage : vm.page p = some pg) (mapsTo : pg.MapsTo file) (d : PageData) :
    (vm.fileWriteAt file d pg.readBytes pg.ofs).fileLength file = len := by
  have inside := (mirrors.part isPage mapsTo).inside
  have readBytes := (mirrors.part isPage mapsTo).readBytes
  refine (congrArg Prod.fst (fileWriteAt_extent ?_ d file)).trans mirrors.length
  rw [mirrors.length]
  omega

/-! ## Evictions -/

theorem Good.alone_of_mapsTo (good : vm.Good)
    (isPage : vm.page p = some pg) (isQ : vm.page q = some pg') (sits : pg.kpage = some k)
    (sitsQ : pg'.kpage = some k) (isFile : pg.type = .file) : q = p := by
  by_contra ne
  have isAlloc := (good.contents.shared isPage isQ (Ne.symm ne) sits sitsQ).1
  rw [isFile] at isAlloc
  cases isAlloc

section

variable (mirrors : vm.Mirrors file len bytes)
include mirrors

/-- The file after its victim is saved: the bytes of a dirty page of the victim are in it, and
    nothing else has changed. -/
theorem Mirrors.saved_byte (saves : vm.Saved k saved) (j : Nat) :
    (saved.file file).bytes.byte j = (vm.file file).bytes.byte j ∨
      (saved.file file).bytes.byte j = bytes j := by
  cases saves with
  | swapped isPage sits only isAlloc writable run => exact .inl rfl
  | clean unwritten => exact .inl rfl
  | kept isFile unwritten => exact .inl rfl
  | @writtenBack q pg target isPage sits isFile dirty hasFile =>
    show ((vm.fileWriteAt target _ _ _).file file).bytes.byte j = _ ∨
      ((vm.fileWriteAt target _ _ _).file file).bytes.byte j = _
    by_cases same : file = target
    · subst same
      rw [mirrors.writtenBack_byte isPage ⟨isFile isPage sits, hasFile⟩ sits]
      split
      · exact .inr rfl
      · exact .inl rfl
    · rw [fileWriteAt_other same]
      exact .inl rfl

theorem Mirrors.saved_byte_of_dirty (good : vm.Good) (saves : vm.Saved k saved)
    (dirtyAt : vm.DirtyAt file j p pg)
    (sits : pg.kpage = some k) : (saved.file file).bytes.byte j = bytes j := by
  obtain ⟨isPage, mapsTo, -, dirty, covers⟩ := dirtyAt
  cases saves with
  | swapped isQ sitsQ only isAlloc writable run =>
    rw [only isPage sits, isQ, some.injEq] at isPage
    rw [isPage, mapsTo.type] at isAlloc
    cases isAlloc
  | clean unwritten =>
    have isAlloc := (unwritten isPage sits).1
    rw [mapsTo.type] at isAlloc
    cases isAlloc
  | kept isFile unwritten =>
    rw [unwritten isPage sits] at dirty
    cases dirty
  | @writtenBack q pg' target isQ sitsQ isFile dirtyQ hasFile =>
    have same := good.alone_of_mapsTo isPage isQ sits sitsQ mapsTo.type
    rw [same, isPage, some.injEq] at isQ
    subst isQ
    have sameFile : target = file := some.inj (hasFile.symm.trans mapsTo.file)
    subst sameFile
    exact (mirrors.writtenBack_byte isPage mapsTo sits j).trans (if_pos covers)

theorem Mirrors.saved_length (saves : vm.Saved k saved) : saved.fileLength file = len := by
  cases saves with
  | swapped isPage sits only isAlloc writable run => exact mirrors.length
  | clean unwritten => exact mirrors.length
  | kept isFile unwritten => exact mirrors.length
  | @writtenBack q pg target isPage sits isFile dirty hasFile =>
    show (vm.fileWriteAt target _ _ _).fileLength file = len
    by_cases same : file = target
    · subst same
      exact mirrors.writtenBack_length isPage ⟨isFile isPage sits, hasFile⟩ _
    unfold fileLength
    rw [fileWriteAt_other same]
    exact mirrors.length

theorem Mirrors.evicts (good : vm.Good) (evicts : vm.Evicts vm') : vm'.Mirrors file len bytes := by
  have kin := evicts.kinPages good
  cases evicts with
  | nothing => exact mirrors
  | @victim f saved mem unpinned saves =>
    generalize (vm.table.frame f).kpage = k at saves kin
    obtain ⟨change, departs⟩ := good.departs saves
    apply mirrors.of_back
    · exact (saves.denyWrite file).trans mirrors.allowed
    · show saved.fileLength file = len
      exact mirrors.saved_length saves
    · exact fun isPage _ => kin.back isPage
    · intro p pg' k' isPage mapsTo sits i small
      have isChange : changeAt vm.page k change p = some pg' := departs.page ▸ isPage
      obtain ⟨pg, wasPg, ⟨-, rfl⟩ | ⟨elsewhere, rfl⟩⟩ := changeAt_eq_some isChange
      · rw [departs.leaves] at sits
        cases sits
      have ne : k' ≠ k := fun same => elsewhere (same ▸ sits)
      show (update saved.memory k _ k').byte i = _
      rw [update_of_ne ne, saves.keeps.memory]
      exact mirrors.held wasPg mapsTo sits i small
    intro j inside
    show (saved.file file).bytes.byte j = bytes j ∨ _
    rcases mirrors.saved j inside with same | ⟨p, pg, dirtyAt⟩
    · left
      rcases mirrors.saved_byte saves j with unchanged | written
      · exact unchanged.trans same
      · exact written
    by_cases sits : pg.kpage = some k
    · exact .inl (mirrors.saved_byte_of_dirty good saves dirtyAt sits)
    obtain ⟨isPage, mapsTo, seated, dirty, covers⟩ := dirtyAt
    refine .inr ⟨p, pg, ?_, mapsTo, seated, ?_, covers⟩
    · show changeAt saved.page k _ p = some pg
      rw [departs.page]
      exact changeAt_of_elsewhere isPage sits
    show (clearAt saved.pte k pg.owner pg.upage).dirty = true
    rw [good.entry_of_elsewhere saves isPage seated sits]
    exact dirty

end

/-! ## Loads -/

theorem initialData_byte (mapsTo : pg.MapsTo file) (small : i < pg.readBytes)
    (inPage : i < pgSize) :
    (vm.initialData pg).byte i = (vm.file file).bytes.byte (pg.ofs + i) := by
  unfold PageData.byte
  rw [dif_pos inPage]
  unfold initialData
  dsimp only
  rw [if_pos small, mapsTo.file]

theorem Mirrors.loaded (mirrors : vm.Mirrors file len bytes) (good : vm.Good)
    (isPage : vm.page p = some pg) (unseated : pg.kpage = none) (loaded : vm.Loaded p pg vm') :
    vm'.Mirrors file len bytes := by
  have kin := loaded.kinPages good isPage unseated
  obtain ⟨k, spec⟩ := good.loadedAt unseated loaded
  apply mirrors.of_back
  · rw [spec.file]
    exact mirrors.allowed
  · unfold fileLength
    rw [spec.file]
    exact mirrors.length
  · exact fun isNew _ => kin.back isNew
  · intro q pg' k' isNew mapsTo sits i small
    by_cases same : q = p
    · rw [spec.page, same, update_self, some.injEq] at isNew
      subst isNew
      cases sits
      have mapsToBefore : pg.MapsTo file := by
        refine ⟨?_, mapsTo.file⟩
        have isFile := mapsTo.type
        cases isType : pg.type <;> simp [isType] at isFile ⊢
      have part := mirrors.part isPage mapsToBefore
      have notAlloc : pg.type ≠ .alloc := by
        rw [mapsToBefore.type]
        exact nofun
      rw [spec.loads part.writable, data_of_unread unseated notAlloc,
        initialData_byte mapsToBefore small (part.lt_pgSize small)]
      apply mirrors.byte_of_clean isPage mapsToBefore (.inl unseated)
      exact ⟨Nat.le_add_right .., Nat.add_lt_add_left small _⟩
    rw [spec.page, update_of_ne same] at isNew
    rw [spec.others isNew sits]
    exact mirrors.held isNew mapsTo sits i small
  intro j inside
  rw [spec.file]
  rcases mirrors.saved j inside with same | ⟨q, pg', isQ, mapsTo, seated, dirty, covers⟩
  · exact .inl same
  have ne : q ≠ p := by
    rintro rfl
    rw [isPage, some.injEq] at isQ
    exact seated (isQ ▸ unseated)
  refine .inr ⟨q, pg', ?_, mapsTo, seated, ?_, covers⟩
  · rw [spec.page, update_of_ne ne]
    exact isQ
  · rw [spec.pte, good.entry_of_ne spec.absent isQ seated]
    exact dirty

/-! ## Freed pages -/

/-- `page_free` of a page whose bytes are in the file, or of a page that is not mapped to it. -/
theorem Mirrors.freed (mirrors : vm.Mirrors file len bytes) (good : vm.Good)
    (isPage : vm.page p = some pg) {mid : Vm} (freed : vm.Freed p pg mid)
    (flushed : pg.MapsTo file → ∀ j, pg.Covers j → (vm.file file).bytes.byte j = bytes j) :
    (mid.dropPage p pg).Mirrors file len bytes := by
  have goodAfter := good.freed isPage freed
  have sameFile : (mid.dropPage p pg).file = vm.file := by
    cases freed <;> rfl
  apply mirrors.of_back
  · rw [sameFile]
    exact mirrors.allowed
  · exact (congrArg Prod.fst (freed.extent file)).trans mirrors.length
  · exact fun isQ _ => ⟨_, (freed.page_eq_some.mp isQ).2, .refl _⟩
  · intro q pg' k isQ mapsTo sits i small
    show (mid.memory k).byte i = _
    rw [freed.memory goodAfter isQ sits]
    exact mirrors.held (freed.page_eq_some.mp isQ).2 mapsTo sits i small
  intro j inside
  rw [sameFile]
  rcases mirrors.saved j inside with same | ⟨q, pg', isQ, mapsTo, seated, dirty, covers⟩
  · exact .inl same
  by_cases same : q = p
  · rw [same, isPage, some.injEq] at isQ
    subst isQ
    exact .inl (flushed mapsTo j covers)
  refine .inr ⟨q, pg', freed.page_eq_some.mpr ⟨same, isQ⟩, mapsTo, seated, ?_, covers⟩
  show (mid.pte pg'.owner pg'.upage).dirty = true
  rw [good.entry_of_freed isPage freed same isQ seated]
  exact dirty

/-! ## New pages -/

theorem Mirrors.addPage (mirrors : vm.Mirrors file len bytes) (good : vm.Good)
    (other : ¬ new.MapsTo file) : (vm.addPage new).Mirrors file len bytes := by
  refine Mirrors.congr mirrors mirrors.allowed rfl ?_ ?_ ?_ ?_
  · exact fun isPage _ => addPage_page good isPage new
  · intro p pg isPage mapsTo
    rcases addPage_eq_some isPage with ⟨-, rfl⟩ | wasPage
    · exact absurd mapsTo other
    · exact wasPage
  · exact fun _ _ _ => rfl
  · exact fun _ _ _ => rfl

/-! ## Stores -/

section Store

variable {addr : Nat} (b : Byte) (good : vm.Good) (isPage : vm.page p = some pg)
  (sits : pg.kpage = some (vm.pte pg.owner (addr / pgSize)).kpage)
  (isUpage : pg.upage = addr / pgSize)
include good isPage sits

/-- A store to another page leaves the memory of a mapped page alone. -/
theorem Good.memory_store (ne : q ≠ p)
    (isQ : vm.page q = some pg') (isFile : pg'.type = .file) (sitsQ : pg'.kpage = some k) :
    (vm.store pg.owner addr b).memory k = vm.memory k := by
  apply update_of_ne
  rintro rfl
  exact ne (good.alone_of_mapsTo isQ isPage sitsQ sits isFile).symm

include isUpage

theorem Good.pte_store (ne : q ≠ p) (isQ : vm.page q = some pg') (seated : pg'.kpage ≠ none) :
    (vm.store pg.owner addr b).pte pg'.owner pg'.upage = vm.pte pg'.owner pg'.upage :=
  good.setEntry_other isPage sits isUpage ne isQ seated _

theorem Mirrors.store_other (mirrors : vm.Mirrors file len bytes) (other : ¬ pg.MapsTo file) :
    (vm.store pg.owner addr b).Mirrors file len bytes := by
  have ne : ∀ {q pg'}, vm.page q = some pg' → pg'.MapsTo file → q ≠ p := by
    rintro q pg' isQ mapsTo rfl
    rw [isPage, some.injEq] at isQ
    exact other (isQ ▸ mapsTo)
  refine Mirrors.congr mirrors mirrors.allowed rfl ?_ ?_ ?_ ?_
  · exact fun isQ _ => isQ
  · exact fun isQ _ => isQ
  · exact fun isQ mapsTo sitsQ =>
      good.memory_store b isPage sits (ne isQ mapsTo) isQ mapsTo.type sitsQ
  · exact fun isQ mapsTo seated =>
      good.pte_store b isPage sits isUpage (ne isQ mapsTo) isQ seated

theorem Mirrors.store_self (mirrors : vm.Mirrors file len bytes) (mapsTo : pg.MapsTo file) :
    (vm.store pg.owner addr b).Mirrors file len (update bytes (pg.ofs + addr % pgSize) b) := by
  have part := mirrors.part isPage mapsTo
  have inPage : addr % pgSize < pgSize := Nat.mod_lt _ (by decide)
  -- the byte is in no other page
  have elsewhere : ∀ {q pg' i}, vm.page q = some pg' → pg'.MapsTo file → q ≠ p →
      i < pg'.readBytes → pg'.ofs + i ≠ pg.ofs + addr % pgSize := by
    intro q pg' i isQ mapsToQ ne small same
    have partQ := mirrors.part isQ mapsToQ
    exact ne (mirrors.apart isQ isPage mapsToQ mapsTo
      (partQ.ofs_eq_of_add part (partQ.lt_pgSize small) inPage same))
  refine Mirrors.of_back mirrors mirrors.allowed mirrors.length ?_ ?_ ?_
  · exact fun isQ _ => ⟨_, isQ, .refl _⟩
  · intro q pg' k isQ mapsToQ sitsQ i small
    by_cases same : q = p
    · rw [same, show (vm.store pg.owner addr b).page p = some pg from isPage, some.injEq] at isQ
      subst same isQ
      rw [sits, some.injEq] at sitsQ
      subst sitsQ
      have inFrame := part.lt_pgSize small
      have old := mirrors.held isPage mapsTo sits i small
      unfold PageData.byte at old ⊢
      rw [dif_pos inFrame] at old ⊢
      rw [show (vm.store pg.owner addr b).memory _ = _ from update_self ..]
      dsimp only
      by_cases here : i = addr % pgSize
      · rw [if_pos here, here, update_self]
      · rw [if_neg here, update_of_ne (by omega)]
        exact old
    rw [good.memory_store b isPage sits same isQ mapsToQ.type sitsQ,
      update_of_ne (elsewhere isQ mapsToQ same small)]
    exact mirrors.held isQ mapsToQ sitsQ i small
  intro j inside
  have seated : pg.kpage ≠ none := sits.trans_ne (some_ne_none _)
  have dirty : ((vm.store pg.owner addr b).pte pg.owner pg.upage).dirty = true := by
    rw [isUpage, show (vm.store pg.owner addr b).pte pg.owner (addr / pgSize) = _ from
      setEntry_self ..]
  by_cases here : j = pg.ofs + addr % pgSize
  · refine .inr ⟨p, pg, isPage, mapsTo, seated, dirty, ?_⟩
    have readBytes := part.readBytes
    unfold Page.Covers
    omega
  rw [update_of_ne here]
  rcases mirrors.saved j inside with same | ⟨q, pg', isQ, mapsToQ, seatedQ, dirtyQ, covers⟩
  · exact .inl same
  refine .inr ⟨q, pg', isQ, mapsToQ, seatedQ, ?_, covers⟩
  by_cases same : q = p
  · rw [same, isPage, some.injEq] at isQ
    rw [← isQ]
    exact dirty
  · rw [good.pte_store b isPage sits isUpage same isQ seatedQ]
    exact dirtyQ

end Store

/-! ## Page faults -/

variable {t : ThreadId}

section

variable (mirrors : vm.Mirrors file len bytes) (good : vm.Good)
include mirrors good

theorem Mirrors.pageFullLoad
    (run : vm.pageFullLoad t addr victim = .ok (success, vm')) : vm'.Mirrors file len bytes := by
  rcases good.pageFullLoad run with ⟨-, rfl⟩ | ⟨-, p, pg, evicted, -, isPage, unseated, evicts, loaded⟩
  · exact mirrors
  · exact (mirrors.evicts good evicts).loaded (good.evicts evicts)
      (evicts.page_of_unseated good isPage unseated) unseated loaded

theorem Mirrors.pageFullLoadStack (run : vm.pageFullLoadStack t upage victim = .ok (success, vm')) :
    vm'.Mirrors file len bytes := by
  have added := good.lazyStack t upage
  have mirrorsAdded : (vm.pageLazyLoad t (stackArgs upage) .unalloc).Mirrors file len bytes :=
    mirrors.addPage good fun mapsTo => nomatch mapsTo.file
  obtain ⟨-, evicted, evicts, loaded⟩ := added.pageFullLoadStack run
  exact (mirrorsAdded.evicts added evicts).loaded (added.evicts evicts)
    (stackPage_of_evicts added evicts) rfl loaded

theorem Mirrors.pageFault
    (run : vm.pageFault t addr esp user notPresent victim = .ok (success, vm')) :
    vm'.Mirrors file len bytes := by
  unfold Vm.pageFault at run
  split at run
  · exact mirrors.pageFullLoadStack good run
  split at run
  · split at run
    · exact mirrors.pageFullLoad good run
    · cases run
      exact mirrors
  split at run
  · exact mirrors.pageFullLoad good run
  · cases run
    exact mirrors

end

/-! ## `munmap_` -/

section

variable (mirrors : vm.Mirrors file len bytes)
include mirrors

theorem Mirrors.ofFile {files : FileId → VmFile} (allowed : (files file).denyWrite = false)
    (sameBytes : (files file).bytes = (vm.file file).bytes) :
    Mirrors { vm with file := files } file len bytes :=
  mirrors.congr allowed sameBytes (fun isPage _ => isPage) (fun isPage _ => isPage)
    (fun _ _ _ => rfl) fun _ _ _ => rfl

theorem Mirrors.setFile {new : VmFile} (allowed : file = f → new.denyWrite = false)
    (sameBytes : file = f → new.bytes = (vm.file file).bytes) :
    Mirrors { vm with file := update vm.file f new } file len bytes := by
  by_cases same : file = f
  · subst same
    apply mirrors.ofFile <;> rw [update_self]
    · exact allowed rfl
    · exact sameBytes rfl
  · apply mirrors.ofFile <;> rw [update_of_ne same]
    exact mirrors.allowed

theorem Mirrors.fileWrite (other : file ≠ f) {buffer : Nat → Byte} :
    (vm.fileWrite f buffer size ofs).Mirrors file len bytes := by
  unfold Vm.fileWrite
  split
  · exact mirrors
  · exact mirrors.setFile (fun same => absurd same other) fun same => absurd same other

theorem Mirrors.fileWriteFails (f : FileId) :
    (vm.fileWriteFails f).Mirrors file len bytes := by
  unfold Vm.fileWriteFails
  split
  · exact mirrors
  · exact mirrors.setFile (fun same => same ▸ mirrors.allowed) fun same => same ▸ rfl

theorem Mirrors.setDenyWrite (allows : file = f → denyWrite = false) :
    (vm.setDenyWrite f denyWrite).Mirrors file len bytes :=
  mirrors.setFile allows fun same => same ▸ rfl

theorem Mirrors.writeBack (isPage : vm.page p = some pg)
    (mapsTo : pg.MapsTo file) (sits : pg.kpage = some k) :
    (vm.fileWriteAt file (vm.memory k) pg.readBytes pg.ofs).Mirrors file len bytes := by
  have byte := mirrors.writtenBack_byte isPage mapsTo sits
  have length := mirrors.writtenBack_length isPage mapsTo (vm.memory k)
  have allowed := (fileWriteAt_denyWrite vm file (vm.memory k) pg.readBytes pg.ofs file).trans
    mirrors.allowed
  rw [fileWriteAt_eq] at byte length allowed ⊢
  refine Mirrors.of_back mirrors allowed length (fun isQ _ => ⟨_, isQ, .refl _⟩) mirrors.held ?_
  intro j inside
  rcases mirrors.saved j inside with same | dirtyAt
  · left
    rw [byte]
    split
    · rfl
    · exact same
  · exact .inr dirtyAt

end

variable {d : MmapData} {n : Nat}

section

variable (mirrors : vm.Mirrors file len bytes)
include mirrors

/-- The page of the offset is written to its file if it is dirty. If it is a page of the file, the
    file then has its bytes. -/
theorem Mirrors.munmapWrite (isPage : vm.page p = some pg)
    (pageAt : d.PageAt n pg) (run : vm.munmapWrite d (n * pgSize) p = .ok vm') :
    vm'.Mirrors file len bytes ∧
      (pg.MapsTo file → ∀ j, pg.Covers j → (vm'.file file).bytes.byte j = bytes j) := by
  unfold Vm.munmapWrite at run
  rw [upage_of_offset, ← pageAt.owner, ← pageAt.upage] at run
  split at run
  · rw [isPage] at run
    dsimp only at run
    cases sits : pg.kpage with
    | none =>
      rw [sits] at run
      cases run
    | some k =>
      rw [sits, ← pageAt.ofs] at run
      cases run
      by_cases same : d.file = file
      · subst same
        have mapsTo : pg.MapsTo d.file := ⟨pageAt.type, pageAt.file⟩
        refine ⟨mirrors.writeBack isPage mapsTo sits, fun _ j covers => ?_⟩
        rw [mirrors.writtenBack_byte isPage mapsTo sits]
        exact if_pos covers
      have other : (vm.fileWriteAt d.file (vm.memory k) pg.readBytes pg.ofs).file file =
          vm.file file := fileWriteAt_other (Ne.symm same) ..
      constructor
      · rw [fileWriteAt_eq]
        apply mirrors.ofFile
        · rw [other]
          exact mirrors.allowed
        · rw [other]
      · exact fun mapsTo => absurd (some.inj (pageAt.file.symm.trans mapsTo.file)) same
  rename_i clean
  cases run
  refine ⟨mirrors, fun mapsTo j covers => ?_⟩
  exact mirrors.byte_of_clean isPage mapsTo (.inr (Bool.eq_false_iff.mpr clean)) covers

theorem Mirrors.munmapPage (good : vm.Good)
    (within : vm.Within) (mapped : vm.Mapped d n) (small : n < d.count)
    (run : vm.munmapPage d (n * pgSize) victim = .ok vm') :
    vm'.Mirrors file len bytes := by
  unfold Vm.munmapPage at run
  rw [getPage_of_mapped good mapped small] at run
  obtain ⟨loaded, load, run⟩ := Except.bind_eq_ok.mp run
  obtain ⟨written, write, free⟩ := Except.bind_eq_ok.mp run
  have settles := munmapLoad_settles good within mapped small victim
  rw [load] at settles
  obtain ⟨goodLoaded, drops, pg, isPage, seated⟩ := settles
  have mappedLoaded := mapped.drops drops (Nat.le_refl n) fun _ _ => id
  have mirrorsLoaded : loaded.Mirrors file len bytes := by
    unfold munmapLoad at load
    split at load
    · obtain ⟨⟨success, _⟩, fullLoad, isLoaded⟩ := Except.bind_eq_ok.mp load
      cases isLoaded
      exact mirrors.pageFullLoad good fullLoad
    · cases load
      exact mirrors
  obtain ⟨-, pg', isPage', pageAt⟩ := mappedLoaded.pages (Nat.le_refl n) small
  cases isPage.symm.trans isPage'
  have settles := munmapWrite_settles goodLoaded (within.drops drops) mappedLoaded small isPage seated
  rw [write] at settles
  obtain ⟨goodWritten, -, samePage⟩ := settles
  obtain ⟨mirrorsWritten, flushed⟩ := mirrorsLoaded.munmapWrite isPage pageAt write
  rw [← samePage] at isPage
  have outcome := goodWritten.pageFree isPage
  rw [if_neg fun both => seated both.2] at outcome
  obtain ⟨mid, freed, isFreed⟩ := outcome
  cases free.symm.trans isFreed
  exact mirrorsWritten.freed goodWritten isPage freed flushed

/-- The loop of `munmap_`. -/
theorem Mirrors.munmapPages (good : vm.Good)
    (within : vm.Within) (mapped : vm.Mapped d 0) (victims : Nat → Option FrameId) :
    Settles Panic.Scarce (fun vm' => vm'.Mirrors file len bytes)
      ((List.range d.count).foldlM (fun vm k => vm.munmapPage d (k * pgSize) (victims k)) vm) := by
  apply (munmapPages_keeps (K := fun vm => vm.Mirrors file len bytes) good within mapped victims ?_
    mirrors).mono
  · exact fun _ both => both.2
  · exact fun good within mapped small mirrors run => mirrors.munmapPage good within mapped small run

/-! ## The pages of `page_list` -/

theorem Mirrors.freePages {pages : List PageId}
    (good : vm.Good) (anonymous : ∀ p ∈ pages, ∀ pg, vm.page p = some pg → pg.type ≠ .file)
    (run : pages.foldlM Vm.pageFree vm = .ok vm') : vm'.Mirrors file len bytes := by
  induction pages generalizing vm with
  | nil =>
    cases run
    exact mirrors
  | cons p pages ih =>
    rw [foldlM_cons] at run
    obtain ⟨after, first, run⟩ := Except.bind_eq_ok.mp run
    obtain ⟨pg, mid, isPage, freed, rfl⟩ := good.pageFree_ok first
    apply ih _ (good.freed isPage freed) _ run
    · apply mirrors.freed good isPage freed
      exact fun mapsTo => absurd mapsTo.type (anonymous p mem_cons_self pg isPage)
    · exact fun q mem pg' isQ =>
        anonymous q (mem_cons_of_mem _ mem) pg' (freed.page_eq_some.mp isQ).2

/-- `page_list` has no page of type `PAGE_FILE`. -/
theorem Mirrors.freePageList (good : vm.Good)
    (run : vm.freePageList t = .ok vm') : vm'.Mirrors file len bytes := by
  apply mirrors.freePages good _ run
  intro p mem pg isPage
  obtain ⟨pg', isPage', -, anonymous⟩ := good.registry.listed.mp mem
  rw [isPage, some.injEq] at isPage'
  exact isPage' ▸ anonymous

end

/-! ## `mmap_` -/

/-- The pages that the loop of `mmap_` makes. -/
theorem mmapPages_back
    (isPage : ((List.range n).foldl (fun vm k => vm.addPage (mmapPage d len k)) vm).page p =
      some pg) :
    vm.page p = some pg ∨ ∃ k < n, p = vm.nextPage + k ∧ pg = mmapPage d len k := by
  have nextPage : ∀ n, ((List.range n).foldl (fun vm k => vm.addPage (mmapPage d len k)) vm).nextPage =
      vm.nextPage + n := by
    intro n
    induction n with
    | zero => rfl
    | succ n ih =>
      rw [range_succ, foldl_append]
      exact congrArg (· + 1) ih
  induction n with
  | zero => exact .inl isPage
  | succ n ih =>
    rw [range_succ, foldl_append] at isPage
    rcases addPage_eq_some isPage with ⟨isNew, rfl⟩ | wasPage
    · exact .inr ⟨n, Nat.lt_succ_self n, isNew.trans (nextPage n), rfl⟩
    rcases ih wasPage with old | ⟨k, small, rest⟩
    · exact .inl old
    · exact .inr ⟨k, Nat.lt_succ_of_lt small, rest⟩

theorem mmapPage_partOf (d : MmapData) {k : Nat} (small : k < pageCnt len) :
    (mmapPage d len k).PartOf len where
  aligned := Nat.mul_mod_left k pgSize
  inside := offset_lt small
  readBytes := by
    show mmapReadBytes len (k * pgSize) = min pgSize (len - k * pgSize)
    have inside := offset_lt small
    unfold mmapReadBytes
    split <;> omega
  writable := rfl

theorem mirrors_of_mmapPages (allowed : (vm.file file).denyWrite = false)
    (unmapped : ∀ p pg, vm.page p = some pg → ¬ pg.MapsTo file)
    (added : ∀ {p pg}, vm'.page p = some pg → vm.page p = some pg ∨
        ∃ k < pageCnt (vm.fileLength file), p = vm.nextPage + k ∧
          pg = mmapPage d (vm.fileLength file) k) (sameFile : vm'.file = vm.file) :
    vm'.Mirrors file (vm.fileLength file) (vm.file file).bytes.byte := by
  have new : ∀ {p pg}, vm'.page p = some pg → pg.MapsTo file →
      ∃ k < pageCnt (vm.fileLength file), p = vm.nextPage + k ∧
        pg = mmapPage d (vm.fileLength file) k :=
    fun isPage mapsTo => (added isPage).resolve_left fun wasPg => unmapped _ _ wasPg mapsTo
  constructor
  case allowed => rw [sameFile, allowed]
  case length => rw [fileLength, fileLength, sameFile]
  case part =>
    intro p pg isPage mapsTo
    obtain ⟨k, small, -, rfl⟩ := new isPage mapsTo
    exact mmapPage_partOf d small
  case apart =>
    intro p q pg pg' isP isQ mapsTo mapsTo' sameOfs
    obtain ⟨k, -, rfl, rfl⟩ := new isP mapsTo
    obtain ⟨k', -, rfl, rfl⟩ := new isQ mapsTo'
    have sameOfs : k * pgSize = k' * pgSize := sameOfs
    rw [Nat.eq_of_mul_eq_mul_right (by decide) sameOfs]
  case held =>
    intro p pg k isPage mapsTo sits
    obtain ⟨_, -, -, rfl⟩ := new isPage mapsTo
    cases sits
  case saved => exact fun j _ => .inl (by rw [sameFile])

/-- The loop of `mmap_` for another file. -/
theorem Mirrors.mmapPages (mirrors : vm.Mirrors file len bytes) (good : vm.Good)
    (first : d.firstPage = vm.nextPage) (other : d.file ≠ file)
    (small : n ≤ pageCnt (vm.fileLength d.file))
    (free : ∀ k < n, vm.getPage d.owner (d.uaddr / pgSize + k) = none) :
    ((List.range n).foldl (fun vm' k =>
      vm'.addPage (mmapPage d (vm.fileLength d.file) k)) vm).Mirrors file len bytes := by
  induction n with
  | zero => exact mirrors
  | succ n ih =>
    have freeBefore := fun k early => free k (Nat.lt_succ_of_lt early)
    have goodBefore := (Adds.loop good first (Nat.le_of_lt small) freeBefore).good
    rw [range_succ, foldl_append]
    apply (ih (Nat.le_of_lt small) freeBefore).addPage goodBefore
    exact fun mapsTo => other (some.inj mapsTo.file)

end Vm

end Pintos
