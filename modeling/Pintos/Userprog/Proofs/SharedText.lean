import Pintos.Userprog.SharedText
import Pintos.Vm.Proofs.Memory

/-!
# What a page of an executable is loaded with

A frame that is filled from the file of its page has the right contents. A frame that is shared has
those of the page that it was filled for, so they are right if that page is of the same part of the
same file and the file was not written since.
-/

namespace Pintos.Vm

open Function List Option

variable {cur : Page} {step : TextStep} {vm vm' : Vm} {p : PageId} {pg pg' : Page} {k : KPage}
  {file : FileId} {success : Bool} {victim : Option FrameId} {t : ThreadId} {addr : Nat}

/-! ## The two ways to load a page -/

/-- `page_full_load` with a frame to share takes it as it is. -/
theorem Good.loadShared_ok (good : vm.Good) (isPage : vm.page p = some pg) {q : PageId}
    (isCur : vm.page q = some cur) (readOnly : pg.writable = false)
    (run : vm.loadShared p pg cur = .ok (success, vm')) :
    ∃ k, cur.kpage = some k ∧ LoadedAt vm p pg k vm' ∧ vm'.memory = vm.memory := by
  unfold Vm.loadShared at run
  split at run
  · rename_i k sits _
    obtain ⟨f, mem, rfl, table, share, finish⟩ := good.finishLoad_share isPage isCur sits
    obtain ⟨-, run⟩ := (ite_eq_iff.mp run).resolve_right fun stops => nomatch stops.2
    rw [share] at run
    obtain ⟨-, stops⟩ | ⟨absent, run⟩ := ite_eq_iff.mp (finish.symm.trans run)
    · cases stops
    cases run
    refine ⟨_, sits, ⟨rfl, rfl, eq_false_of_ne_true absent, rfl, rfl, fun _ => rfl,
      fun _ _ => rfl, ?_⟩, rfl⟩
    intro writable
    rw [readOnly] at writable
    cases writable
  · cases run

/-- `page_full_load` from the file. -/
theorem Good.loadFile_ok (good : vm.Good) (isPage : vm.page p = some pg)
    (unseated : pg.kpage = none) (notAlloc : pg.type ≠ .alloc)
    (run : vm.loadFile p pg victim = .ok (success, vm')) :
    ∃ evicted k, vm.Evicts evicted ∧ evicted.ReadsAll pg ∧ LoadedAt evicted p pg k vm' ∧
      vm'.memory k = evicted.initialData pg := by
  unfold Vm.loadFile at run
  obtain ⟨granted, alloc, run⟩ := Except.bind_eq_ok.mp run
  rcases good.frameAlloc false (o := ownerRecord p pg) true victim (inUser_of_frameAlloc alloc) with
    ⟨e, stops, -⟩ | ⟨evicted, k, evicts, free, alloc'⟩
  · rw [stops] at alloc
    cases alloc
  rw [alloc'] at alloc
  cases alloc
  have goodAfter := good.evicts evicts
  have isPageAfter := evicts.page_of_unseated good isPage unseated
  obtain ⟨found, owned⟩ := goodAfter.owned_of_free free false true (ownerRecord p pg)
  by_cases readsAll : evicted.ReadsAll pg
  · have finish := goodAfter.finishLoad_grant isPageAfter free
      (update evicted.memory k (evicted.initialData pg)) evicted.swap
    obtain ⟨-, stops⟩ | ⟨absent, run⟩ :=
      ite_eq_iff.mp (finish.symm.trans ((if_pos readsAll).symm.trans run))
    · cases stops
    cases run
    refine ⟨evicted, k, evicts, readsAll, ⟨rfl, rfl, eq_false_of_ne_true absent, rfl, rfl,
      fun _ => rfl, ?_, ?_⟩, update_self ..⟩
    · intro q other k' isQ sits
      apply update_of_ne
      rintro rfl
      exact goodAfter.kpage_ne_of_free free isQ sits
    intro _
    rw [data_of_unread unseated notAlloc]
    exact update_self ..
  have run := (if_neg readsAll).symm.trans run
  rw [failLoad_of_owned found owned] at run
  cases run

/-! ## Pages that are shared -/

/-- The page has the bytes of its file. -/
structure HoldsFile (vm : Vm) (pg : Page) : Prop where
  reads : vm.ReadsAll pg
  data : ∀ k, pg.kpage = some k → vm.memory k = vm.initialData pg

/-- What holds of the pages whose frame can be shared. -/
def Texts (vm : Vm) : Prop :=
  ∀ p ∈ vm.supPageTable, ∀ pg, vm.page p = some pg → pg.IsText → vm.HoldsFile pg

/-- The files of the page hold the same. -/
def SameFile (vm vm' : Vm) (pg : Page) : Prop :=
  ∀ file ∈ pg.file, (vm'.file file).bytes = (vm.file file).bytes ∧
    (vm'.file file).readEnd = (vm.file file).readEnd

theorem SameFile.of_eq (same : vm'.file = vm.file) (pg : Page) : SameFile vm vm' pg :=
  fun _ _ => by simp [same]

theorem SameFile.readsAll (same : SameFile vm vm' pg) (args : pg'.toPageArgs = pg.toPageArgs)
    (reads : vm.ReadsAll pg) : vm'.ReadsAll pg' := by
  unfold ReadsAll at reads ⊢
  rw [args]
  rcases reads with none | ⟨file, isFile, inside⟩
  · exact .inl none
  · obtain ⟨bytes, readEnd⟩ := same file isFile
    exact .inr ⟨file, isFile, by rwa [VmFile.readable, bytes, readEnd]⟩

theorem SameFile.initialData (same : SameFile vm vm' pg) (args : pg'.toPageArgs = pg.toPageArgs) :
    vm'.initialData pg' = vm.initialData pg :=
  initialData_congr args fun file isFile => (same file isFile).1

theorem HoldsFile.congr (holds : vm.HoldsFile pg) (same : SameFile vm vm' pg)
    (memory : ∀ k, pg.kpage = some k → vm'.memory k = vm.memory k) : vm'.HoldsFile pg := by
  refine ⟨same.readsAll rfl holds.reads, fun k sits => ?_⟩
  rw [memory k sits, holds.data k sits]
  exact (same.initialData rfl).symm

theorem KeepsTexts.of_file {mid : Vm} (keeps : vm.KeepsTexts vm') (same : vm'.file = mid.file) :
    vm.KeepsTexts mid := by
  unfold KeepsTexts
  rw [← same]
  exact keeps

section

variable (texts : vm.Texts)
include texts

theorem Texts.ofFile {files : FileId → VmFile}
    (same : ∀ p ∈ vm.supPageTable, ∀ pg, vm.page p = some pg → pg.IsText →
      SameFile vm { vm with file := files } pg) :
    Texts { vm with file := files } := fun p mem pg isPage isText =>
  (texts p mem pg isPage isText).congr (same p mem pg isPage isText) fun _ _ => rfl

theorem Texts.fileWrite {buffer : Nat → Byte} {size ofs : Nat}
    (keeps : vm.KeepsTexts (vm.fileWrite file buffer size ofs)) :
    (vm.fileWrite file buffer size ofs).Texts := by
  unfold Vm.fileWrite at keeps ⊢
  split at keeps
  · rename_i denied
    rw [if_pos denied]
    exact texts
  rename_i allowed
  rw [if_neg allowed]
  apply texts.ofFile
  intro p mem pg isPage isText target isFile
  rcases keeps p mem pg isPage isText target isFile with denied | kept
  · have ne : target ≠ file := by
      rintro rfl
      exact allowed denied
    simp only [update_of_ne ne, and_self]
  · exact kept

theorem Texts.setDenyWrite (file : FileId) (denyWrite : Bool) :
    (vm.setDenyWrite file denyWrite).Texts := by
  apply texts.ofFile
  intro p mem pg isPage isText target isFile
  by_cases same : target = file
  · rw [same]
    simp only [update_self, and_self]
  · simp only [update_of_ne same, and_self]

theorem Texts.addPage (good : vm.Good) (notAlloc : pg.type ≠ .alloc) : (vm.addPage pg).Texts := by
  intro q mem other isQ isText
  rcases addPage_eq_some isQ with ⟨-, rfl⟩ | wasQ
  · exact absurd isText.1 notAlloc
  have listed := (mem_addPage_of_ne (good.registry.old wasQ).ne).mp mem
  exact (texts q listed other wasQ isText).congr (.of_eq rfl other) fun _ _ => rfl

theorem Texts.evicts (good : vm.Good) (keeps : vm.KeepsTexts vm') (evicts : vm.Evicts vm') :
    vm'.Texts := by
  have goodAfter := good.evicts evicts
  cases evicts with
  | nothing => exact texts
  | @victim f saved mem unpinned saves =>
    generalize (vm.table.frame f).kpage = k at saves goodAfter
    obtain ⟨change, departs⟩ := good.departs saves
    have same := saves.keeps
    intro q listed other isQ isText
    have isChange : changeAt vm.page k change q = some other := departs.page ▸ isQ
    obtain ⟨pg, wasPg, ⟨sits, rfl⟩ | ⟨elsewhere, rfl⟩⟩ := changeAt_eq_some isChange
    · -- the page has no frame now, so it is in a slot and not read-only
      have writable := ((goodAfter.contents.fits isQ).alloc isText.1 (departs.leaves pg)).1
      rw [isText.2] at writable
      cases writable
    have listedBefore : q ∈ vm.supPageTable := same.supPageTable ▸ listed
    refine (texts q listedBefore other wasPg isText).congr (fun file isFile => ?_) fun k' sits => ?_
    · rcases keeps q listedBefore other wasPg isText file isFile with denied | kept
      · rw [show (saved.vacate f k).file file = vm.file file from saves.file_of_denied denied]
        exact ⟨rfl, rfl⟩
      · exact kept
    show update saved.memory k _ k' = _
    rw [update_of_ne, same.memory]
    rintro rfl
    exact elsewhere sits

end

theorem Texts.loadedAt (texts : vm.Texts) (spec : LoadedAt vm p pg k vm')
    (fits : pg.type = .alloc → pg.writable = true)
    (holds : pg.type = .unalloc → pg.writable = false →
      vm.ReadsAll pg ∧ vm'.memory k = vm.initialData pg) : vm'.Texts := by
  have same : ∀ pg, SameFile vm vm' pg := .of_eq spec.file
  intro q mem other isQ isText
  rw [spec.page] at isQ
  rw [spec.supPageTable] at mem
  by_cases isP : q = p
  · rw [isP, update_self, some.injEq] at isQ
    subst isQ
    have isUnalloc : pg.type = .unalloc := by
      cases isType : pg.type with
      | unalloc => rfl
      | alloc => exact absurd ((fits isType).symm.trans isText.2) nofun
      | file =>
        have isAlloc := isText.1
        dsimp only at isAlloc
        rw [isType] at isAlloc
        cases isAlloc
    obtain ⟨reads, data⟩ := holds isUnalloc isText.2
    refine ⟨(same pg).readsAll rfl reads, ?_⟩
    rintro k' ⟨⟩
    exact data.trans ((same pg).initialData rfl).symm
  rw [update_of_ne isP] at isQ
  exact (texts q mem other isQ isText).congr (same other) fun k' sits => spec.others isQ sits

theorem Texts.freed (texts : vm.Texts) (good : vm.Good) (isPage : vm.page p = some pg) {mid : Vm}
    (freed : vm.Freed p pg mid) : (mid.dropPage p pg).Texts := by
  have goodAfter := good.freed isPage freed
  have sameFile : mid.file = vm.file := by cases freed <;> rfl
  intro q mem other isQ isText
  have memory := fun k sits => freed.memory goodAfter isQ (k := k) sits
  have listed : q ∈ vm.supPageTable := by
    rw [freed.supPageTable isPage] at mem
    cases found : vm.getPage pg.owner pg.upage with
    | none => rwa [found] at mem
    | some r =>
      rw [found] at mem
      exact mem_of_mem_erase mem
  exact (texts q listed other (freed.page_eq_some.mp isQ).2 isText).congr
    (.of_eq sameFile other) memory

/-- A process writes to a page that is not read-only, so it sits alone in its frame. -/
theorem Texts.store (texts : vm.Texts) (good : vm.Good) (b : Byte)
    (present : (vm.pte t (addr / pgSize)).present = true)
    (writable : (vm.pte t (addr / pgSize)).writable = true) : (vm.store t addr b).Texts := by
  obtain ⟨p, pg, isPage, rfl, sits, isUpage, entry⟩ := good.page_of_writable present writable
  intro q mem other isQ isText
  refine (texts q mem other isQ isText).congr (.of_eq rfl other) fun k' sitsQ => ?_
  apply update_of_ne
  rintro rfl
  by_cases same : p = q
  · rw [same, show vm.page q = some other from isQ, some.injEq] at isPage
    rw [← isPage, isText.2] at entry
    cases entry
  have readOnly := (good.contents.shared isPage isQ same sits sitsQ).2
  rw [readOnly] at entry
  cases entry

/-! ## `page_full_load` -/

/-- A page that was not loaded yet is in a frame now, with the bytes of its file. -/
structure Filled (vm' : Vm) (pg : Page) : Prop where
  present : (vm'.pte pg.owner pg.upage).present = true
  reads : vm'.ReadsAll pg
  data : vm'.memory (vm'.pte pg.owner pg.upage).kpage = vm'.initialData pg

theorem LoadedAt.filled (spec : LoadedAt vm p pg k vm') (reads : vm.ReadsAll pg)
    (data : vm'.memory k = vm.initialData pg) : vm'.Filled pg := by
  have entry : vm'.pte pg.owner pg.upage = ⟨true, k, pg.writable, pg.type = .alloc⟩ := by
    rw [spec.pte, setEntry_self]
  have same : SameFile vm vm' pg := .of_eq spec.file pg
  refine ⟨by rw [entry], same.readsAll rfl reads, ?_⟩
  rw [entry, data]
  exact (same.initialData rfl).symm

section Load

variable (texts : vm.Texts) (good : vm.Good) (isPage : vm.page p = some pg) {success : Bool}

include texts good isPage

theorem Texts.loadShared (alike : vm.Alike pg) (found : vm.sharedPage pg = some cur)
    (run : vm.loadShared p pg cur = .ok (success, vm')) :
    vm'.Texts ∧ vm'.Filled pg := by
  obtain ⟨isUnalloc, readOnly, q, listed, isCur, sharable⟩ := sharedPage_sharable found
  obtain ⟨sameFile, sameRead⟩ := alike isUnalloc readOnly q listed cur isCur sharable
  obtain ⟨k, sits, spec, memory⟩ := good.loadShared_ok isPage isCur readOnly run
  have holds := texts q listed cur isCur sharable.2.2
  have sameOfs : pg.ofs = cur.ofs := sharable.2.1
  have reads : vm.ReadsAll pg := by
    have reads := holds.reads
    unfold ReadsAll at reads ⊢
    rwa [sameFile, sameRead, ← sameOfs] at reads
  have data : vm'.memory k = vm.initialData pg := by
    rw [memory, holds.data k sits]
    unfold initialData
    rw [sameFile, sameRead, sameOfs]
  refine ⟨texts.loadedAt spec ?_ fun _ _ => ⟨reads, data⟩, spec.filled reads data⟩
  intro isAlloc
  rw [isUnalloc] at isAlloc
  cases isAlloc

theorem Texts.loadFile (keeps : vm.KeepsTexts vm') (unseated : pg.kpage = none)
    (notAlloc : pg.type ≠ .alloc)
    (run : vm.loadFile p pg victim = .ok (success, vm')) : vm'.Texts ∧ vm'.Filled pg := by
  obtain ⟨evicted, k, evicts, reads, spec, data⟩ := good.loadFile_ok isPage unseated notAlloc run
  have after := texts.evicts good (keeps.of_file spec.file) evicts
  exact ⟨after.loadedAt spec (fun isAlloc => absurd isAlloc notAlloc) fun _ _ => ⟨reads, data⟩,
    spec.filled reads data⟩

theorem Texts.loadPage (alike : vm.Alike pg) (keeps : vm.KeepsTexts vm')
    (run : vm.loadPage p pg victim = .ok (success, vm')) :
    vm'.Texts ∧ (pg.type ≠ .alloc → vm'.Filled pg) := by
  obtain ⟨unseated, -, evicted, evicts, loaded⟩ := good.loadPage isPage run
  by_cases isAlloc : pg.type = .alloc
  · -- a page that comes from a slot is not read-only
    obtain ⟨writable, -⟩ := (good.contents.fits isPage).alloc isAlloc unseated
    obtain ⟨k, spec⟩ := (good.evicts evicts).loadedAt unseated loaded
    refine ⟨(texts.evicts good (keeps.of_file spec.file) evicts).loadedAt spec (fun _ => writable) ?_,
      fun notAlloc => absurd isAlloc notAlloc⟩
    intro isUnalloc
    rw [isAlloc] at isUnalloc
    cases isUnalloc
  suffices both : vm'.Texts ∧ vm'.Filled pg from ⟨both.1, fun _ => both.2⟩
  unfold Vm.loadPage at run
  split at run
  · contradiction
  on_goal 3 => cases run
  all_goals
    split at run
    · rename_i cur found
      exact texts.loadShared good isPage alike found run
    · exact texts.loadFile good isPage keeps unseated isAlloc run

end Load

theorem Texts.pageFullLoad (texts : vm.Texts) (good : vm.Good)
    (alike : vm.LoadsAlike (.vm (.pageFullLoad t addr victim))) (keeps : vm.KeepsTexts vm')
    (run : vm.pageFullLoad t addr victim = .ok (success, vm')) :
    vm'.Texts ∧ (success = true → ∀ p ∈ vm.getPage t (addr / pgSize), ∀ pg ∈ vm.page p,
      pg.type ≠ .alloc → vm'.Filled pg) := by
  unfold Vm.pageFullLoad at run
  split at run
  · cases run
    exact ⟨texts, nofun⟩
  split at run
  · cases run
    exact ⟨texts, nofun⟩
  rename_i p found
  split at run
  · cases run
  rename_i pg isPage
  obtain ⟨textsAfter, filled⟩ := texts.loadPage good isPage (alike p found pg isPage) keeps run
  refine ⟨textsAfter, fun _ q isQ other isOther notAlloc => ?_⟩
  cases isQ.symm.trans found
  cases isOther.symm.trans isPage
  exact filled notAlloc

/-! ## Runs -/

theorem Texts.next (texts : vm.Texts) (good : vm.Good) {step : VmStep}
    (alike : vm.LoadsAlike (.vm step)) (keeps : vm.KeepsTexts vm')
    (taken : vm.next step = some vm') : vm'.Texts := by
  cases good.moves taken with
  | pageLazyLoad notAlloc hasFile => exact texts.addPage good notAlloc
  | notFound => exact texts
  | pageFullLoad =>
    -- which frame is shared is not in the moves
    obtain ⟨⟨success, after⟩, run, rfl⟩ := map_eq_some_iff.mp taken
    exact (texts.pageFullLoad good alike keeps (Except.toOption_eq_some.mp run)).1
  | @pageFullLoadStack t upage victim evicted vm' evicts loaded =>
    have goodBefore := good.lazyStack t upage
    obtain ⟨k, spec⟩ := (goodBefore.evicts evicts).loadedAt rfl loaded
    have textsBefore : (vm.pageLazyLoad t (stackArgs upage) .unalloc).Texts :=
      texts.addPage good nofun
    have keepsBefore : (vm.pageLazyLoad t (stackArgs upage) .unalloc).KeepsTexts evicted := by
      intro q listed cur isCur isText
      rcases addPage_eq_some isCur with ⟨-, rfl⟩ | wasCur
      · cases isText.1
      have listed := (mem_addPage_of_ne (good.registry.old wasCur).ne).mp listed
      exact keeps.of_file spec.file q listed cur wasCur isText
    exact (textsBefore.evicts goodBefore keepsBefore evicts).loadedAt spec (fun _ => rfl) nofun
  | pageFree isPage freed => exact texts.freed good isPage freed
  | frameEvict evicts => exact texts.evicts good keeps evicts
  | userWrite present writable => exact texts.store good _ present writable
  | rehash perm =>
    intro q mem other isQ isText
    exact (texts q (perm.subset mem) other isQ isText).congr (.of_eq rfl other) fun _ _ => rfl

theorem Good.ofFile (good : vm.Good) (files : FileId → VmFile) : Good { vm with file := files } :=
  ⟨good.seating, good.mapping, good.contents, good.registry⟩

theorem Good.nextText (good : vm.Good) (taken : vm.nextText step = some vm') : vm'.Good := by
  cases step with
  | vm step => exact good.next taken
  | fileWrite file buffer size ofs =>
    cases taken
    unfold Vm.fileWrite
    split
    · exact good
    · exact good.ofFile _
  | setDenyWrite file denyWrite =>
    cases taken
    exact good.ofFile _

theorem Texts.nextText (texts : vm.Texts) (good : vm.Good)
    (shares : vm.SharesAlike step) (taken : vm.nextText step = some vm') : vm'.Texts := by
  have keeps := shares.2 vm' taken
  cases step with
  | vm step => exact texts.next good shares.1 keeps taken
  | fileWrite file buffer size ofs =>
    cases taken
    exact texts.fileWrite keeps
  | setDenyWrite file denyWrite =>
    cases taken
    exact texts.setDenyWrite file denyWrite

theorem texts_of_reachable (reach : Reachable Initial nextText SharesAlike vm) :
    vm.Good ∧ vm.Texts := by
  refine reach.invariant (P := fun vm => vm.Good ∧ vm.Texts) (fun s init => ?_)
    fun s step s' holds shares taken =>
      ⟨holds.1.nextText taken, holds.2.nextText holds.1 shares taken⟩
  refine ⟨init.good, fun p mem => ?_⟩
  rw [init.supPageTable] at mem
  cases mem

/-- In every run in which only pages of the same part of the same file share a frame and no file is
    written whose pages can be shared, a load of a page that has a file and was not loaded yet
    leaves in the frame that is mapped at its address its `read_bytes` bytes of the file, all of
    which the file has, followed by zeros. -/
theorem page_full_load_maps_file_bytes (reached : Reachable Initial nextText SharesAlike vm)
    (shares : vm.SharesAlike (.vm (.pageFullLoad t addr victim)))
    (found : vm.getPage t (addr / pgSize) = some p) (isPage : vm.page p = some pg)
    (unread : pg.type ≠ .alloc) (isFile : pg.file = some file)
    (run : vm.pageFullLoad t addr victim = .ok (true, vm')) :
    (vm'.pte t (addr / pgSize)).present = true ∧
      (pg.readBytes = 0 ∨ pg.ofs + pg.readBytes ≤ (vm'.file file).bytes.length) ∧
      ∀ i < pgSize, (vm'.memory (vm'.pte t (addr / pgSize)).kpage).byte i =
        if i < pg.readBytes then (vm'.file file).bytes.byte (pg.ofs + i) else 0 := by
  obtain ⟨good, texts⟩ := texts_of_reachable reached
  have keeps := shares.2 vm' (show ((vm.pageFullLoad t addr victim).toOption.map Prod.snd) = _ by
    rw [run]; rfl)
  obtain ⟨present, reads, data⟩ :=
    (texts.pageFullLoad good shares.1 keeps run).2 rfl p found pg isPage unread
  obtain ⟨rfl, isUpage⟩ := (hasKey_iff isPage).mp (getPage_eq_some found).2
  rw [isUpage] at present data
  refine ⟨present, ?_, fun i small => ?_⟩
  · rcases reads with none | ⟨other, isOther, inside⟩
    · exact .inl none
    · cases isOther.symm.trans isFile
      exact .inr (inside.trans (Nat.min_le_left ..))
  rw [data]
  unfold PageData.byte
  rw [dif_pos small]
  unfold initialData
  rw [isFile]

/-- A read-only page at user page 8, all of which is in the file. -/
def textArgs (file : FileId) : PageArgs := { programArgs false with file := some file }

/-- File 1 begins with a 7, file 0 is all zeros. Process 1 has loaded the first page of `first`,
    process 2 has registered that of `second`. -/
def textSteps (first second : FileId) : List TextStep :=
  [.setDenyWrite 1 false, .fileWrite 1 (fun _ => 7) 1 0, .setDenyWrite 1 true,
    .vm (.pageLazyLoad 1 (textArgs first) .unalloc),
    .vm (.pageLazyLoad 2 (textArgs second) .unalloc),
    .vm (.pageFullLoad 1 (8 * pgSize) none)]

/-- The first byte that process 2 finds in the page when it has loaded it. -/
def secondFinds (vm : Vm) : Option Byte :=
  match vm.pageFullLoad 2 (8 * pgSize) none with
  | .ok (true, vm') => some ((vm'.memory (vm'.pte 2 8).kpage).byte 0)
  | _ => none

theorem of_secondFinds {b : Byte} (finds : vm.secondFinds = some b) :
    ∃ vm', vm.pageFullLoad 2 (8 * pgSize) none = .ok (true, vm') ∧
      (vm'.memory (vm'.pte 2 8).kpage).byte 0 = b := by
  unfold secondFinds at finds
  split at finds
  · rename_i vm' run
    exact ⟨vm', run, some.inj finds⟩
  · cases finds

/-- Writes to the files of the pages that can be shared are denied. -/
def TextsDenied (vm : Vm) : Prop :=
  ∀ q ∈ vm.supPageTable, ∀ cur ∈ vm.page q, cur.IsText → ∀ file ∈ cur.file,
    (vm.file file).denyWrite = true

instance (vm : Vm) : Decidable vm.TextsDenied :=
  inferInstanceAs (Decidable (∀ q ∈ vm.supPageTable, ∀ cur ∈ vm.page q, _ → ∀ file ∈ cur.file, _))

/-- Two processes that run the same program share its page. -/
theorem page_full_load_maps_file_bytes_shared :
    ∃ vm vm' : Vm, Reachable Initial nextText SharesAlike vm ∧
      vm.pageFullLoad 2 (8 * pgSize) none = .ok (true, vm') ∧
      (vm'.memory (vm'.pte 2 8).kpage).byte 0 = 7 ∧
      (vm'.file 1).bytes.byte 0 = (vm'.memory (vm'.pte 2 8).kpage).byte 0 := by
  have denied_shares : ∀ vm step, Vm.LoadsAlike vm step ∧ vm.TextsDenied → vm.SharesAlike step :=
    fun vm step ⟨alike, denied⟩ => ⟨alike, fun vm' _ q listed cur isCur isText file isFile =>
      .inl (denied q listed cur isCur isText file isFile)⟩
  obtain ⟨vm, reached, finds, shares, found, isPage⟩ :=
      reachable_of_run nextText (fun vm step => vm.LoadsAlike step ∧ vm.TextsDenied)
    (start_initial 2 0) (textSteps 1 1) (fun vm => vm.secondFinds = some 7 ∧
      (vm.LoadsAlike (.vm (.pageFullLoad 2 (8 * pgSize) none)) ∧ vm.TextsDenied) ∧
      vm.getPage 2 8 = some 1 ∧
      (vm.page 1).map (fun pg => (pg.type, pg.file, pg.readBytes, pg.ofs)) =
        some (.unalloc, some 1, pgSize, 0)) (by decide +kernel)
  obtain ⟨pg, isPage, fields⟩ := map_eq_some_iff.mp isPage
  obtain ⟨isType, isFile, isRead, isOfs⟩ :
      pg.type = .unalloc ∧ pg.file = some 1 ∧ pg.readBytes = pgSize ∧ pg.ofs = 0 := by
    simpa only [Prod.mk.injEq] using fields
  obtain ⟨vm', run, byte⟩ := of_secondFinds finds
  have reached := reached.mono denied_shares
  refine ⟨vm, vm', reached, run, byte, ?_⟩
  have law := page_full_load_maps_file_bytes reached (denied_shares _ _ shares) found isPage
    (by rw [isType]; exact nofun) isFile run
  have first := law.2.2 0 (by decide)
  rw [isRead, isOfs, if_pos (by decide)] at first
  exact first.symm

/-- Two processes with the same name run two programs: the second one finds the page of the
    first. -/
theorem other_program_shared :
    ∃ vm vm' : Vm, Reachable Initial nextText AnyStep vm ∧ vm.getPage 2 8 = some 1 ∧
      (vm.page 1).map (fun pg => (pg.file, pg.ofs, pg.readBytes)) = some (some 1, 0, pgSize) ∧
      vm.pageFullLoad 2 (8 * pgSize) none = .ok (true, vm') ∧
      (vm.file 1).bytes.byte 0 = 7 ∧ (vm'.memory (vm'.pte 2 8).kpage).byte 0 = 0 := by
  obtain ⟨vm, reached, finds, found, isPage, isByte⟩ :=
      reachable_of_run nextText AnyStep (start_initial 2 0)
    (textSteps 0 1) (fun vm => vm.secondFinds = some 0 ∧ vm.getPage 2 8 = some 1 ∧
      (vm.page 1).map (fun pg => (pg.file, pg.ofs, pg.readBytes)) = some (some 1, 0, pgSize) ∧
      (vm.file 1).bytes.byte 0 = 7) (by decide +kernel)
  obtain ⟨vm', run, byte⟩ := of_secondFinds finds
  exact ⟨vm, vm', reached, found, isPage, run, isByte, byte⟩

end Pintos.Vm
