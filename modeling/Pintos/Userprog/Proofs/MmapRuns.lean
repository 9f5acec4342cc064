import Pintos.Userprog.Proofs.Mmap

/-!
# Runs with memory mapped files

As long as no write makes a mapped file longer than its last page, `munmap_` and
`process_exit` free exactly the pages that `mmap_` made, and no assertion fails in them.
Otherwise `munmap_` goes on behind the mapping: an assertion fails there, or it frees the
pages of another mapping.
-/

namespace Pintos.Mmaps

open Function Option

variable {upage esp len size ofs : Nat} {user notPresent : Bool} {fd : Option FileId} {s s' : Mmaps}
  {vm' : Vm} {t : ThreadId} {victim : Option FrameId} {success : Bool} {addr : Nat}

/-! ## Page faults and the other operations -/

/-- `page_full_load_stack` at an address that no mapping has. -/
theorem Sound.pageFullLoadStack (sound : s.Sound)
    (run : s.vm.pageFullLoadStack t upage victim = .ok (success, vm'))
    (elsewhere : ∀ {d k}, d ∈ s.mmapTable → d.owner = t → k < d.count →
      upage ≠ d.uaddr / pgSize + k) :
    Sound { s with vm := vm' } ∧ vm'.getPage t upage ≠ none := by
  have soundAdded : Sound { s with vm := s.vm.pageLazyLoad t (Vm.stackArgs upage) .unalloc } :=
    sound.addPage rfl rfl rfl elsewhere
  have good := soundAdded.good
  obtain ⟨-, evicted, evicts, loaded⟩ := good.pageFullLoadStack run
  have goodEvicted := good.evicts evicts
  have isPg := Vm.stackPage_of_evicts good evicts
  have dropsEvicted := evicts.drops good soundAdded.within
  have dropsLoaded := loaded.drops goodEvicted isPg rfl
  constructor
  · exact (soundAdded.stays goodEvicted dropsEvicted).stays
      (goodEvicted.loaded isPg rfl loaded) dropsLoaded
  apply dropsLoaded.getPage _ fun _ _ _ => id
  apply dropsEvicted.getPage _ fun _ _ _ => id
  exact Vm.addPage_getPage_self sound.good _

theorem Sound.pageFullLoad (sound : s.Sound)
    (run : s.vm.pageFullLoad t addr victim = .ok (success, vm')) :
    Sound { s with vm := vm' } := by
  rcases sound.good.pageFullLoad run with ⟨-, rfl⟩ |
    ⟨-, p, pg, evicted, -, isPg, unseated, evicts, loaded⟩
  · exact sound
  have goodEvicted := sound.good.evicts evicts
  have isPageEvicted := evicts.page_of_unseated sound.good isPg unseated
  exact (sound.stays goodEvicted (evicts.drops sound.good sound.within)).stays
    (goodEvicted.loaded isPageEvicted unseated loaded)
    (loaded.drops goodEvicted isPageEvicted unseated)

theorem Sound.pageFault (sound : s.Sound)
    (run : s.vm.pageFault t addr esp user notPresent victim = .ok (success, vm')) :
    Sound { s with vm := vm' } := by
  unfold Vm.pageFault at run
  split at run
  · rename_i grows
    apply (sound.pageFullLoadStack run ?_).1
    intro d k mem isOwner small same
    -- the address is not registered, so no mapping has it
    obtain ⟨listed, pg, isPg, pageAt⟩ := (sound.mapped mem).pages (Nat.zero_le k) small
    apply Vm.getPage_ne_none.mpr ⟨_, pg, listed, isPg, pageAt.owner.trans isOwner,
      pageAt.upage.trans same.symm⟩
    exact grows.2.2.2
  split at run
  · split at run
    · exact sound.pageFullLoad run
    · cases run
      exact sound
  split at run
  · exact sound.pageFullLoad run
  · cases run
    exact sound

theorem Sound.start (sound : s.Sound) (loading : s.stage t = .loading)
    (stack : s.vm.getPage t (physBasePage - 1) ≠ none) :
    Sound { s with stage := update s.stage t .running } := by
  have stages : ∀ t', t' ≠ t → update s.stage t .running t' = s.stage t' :=
    fun t' other => update_of_ne other ..
  refine ⟨sound.good, sound.within, ?_, ?_, sound.mapped, sound.counted, sound.numbered, ?_,
    sound.keys, sound.apart⟩
  · intro p pg isPg alive
    apply sound.covered isPg
    by_cases same : pg.owner = t
    · rw [same, loading]
      exact nofun
    · rw [← stages _ same]
      exact alive
  · intro t' runs
    by_cases same : t' = t
    · rw [same]
      exact stack
    · exact sound.stack ((stages t' same).symm.trans runs)
  intro d mem
  dsimp only
  rw [stages]
  · exact sound.started mem
  intro same
  rw [← same] at loading
  exact sound.started mem loading

/-- A file changes but does not become shorter, and if it is mapped it keeps its pages. -/
theorem Sound.setFile (sound : s.Sound) {file : FileId} {new : VmFile}
    (longer : s.vm.fileLength file ≤ new.bytes.length)
    (counted : ∀ d ∈ s.mmapTable, d.file = file →
      pageCnt new.bytes.length = pageCnt (s.vm.fileLength file))
    (whole : ∀ d ∈ s.mmapTable, d.file = file → (s.vm.file file).readEnd = none →
      new.readEnd = none) :
    Sound { s with vm := { s.vm with file := update s.vm.file file new } } := by
  have fileAt : ∀ f, f = file ∧ update s.vm.file file new f = new ∨
      update s.vm.file file new f = s.vm.file f := by
    intro f
    by_cases same : f = file
    · exact .inl ⟨same, by rw [same, update_self]⟩
    · exact .inr (update_of_ne same ..)
  have longerAt : ∀ f, s.vm.fileLength f ≤ (update s.vm.file file new f).bytes.length := by
    intro f
    rcases fileAt f with ⟨same, isNew⟩ | isOld
    · rwa [isNew, same]
    · rw [isOld]
      rfl
  refine ⟨⟨sound.good.seating, sound.good.mapping, sound.good.contents, sound.good.registry⟩,
    ⟨fun isPg isFile hasFile => (sound.within.inside isPg isFile hasFile).trans (longerAt _)⟩,
    sound.covered, sound.stack, fun member => ?_, fun {d} member => ?_, sound.numbered,
    sound.started, sound.keys, sound.apart⟩
  · have old := sound.mapped member
    refine ⟨old.aligned, old.nonzero, old.user, old.pages, old.only, ?_⟩
    dsimp only
    rcases fileAt _ with ⟨same, isNew⟩ | isOld
    · rw [isNew]
      exact whole _ member same (same ▸ old.whole)
    · rw [isOld]
      exact old.whole
  · refine Eq.trans ?_ (sound.counted member)
    dsimp only [Vm.fileLength]
    rcases fileAt d.file with ⟨same, isNew⟩ | isOld
    · rw [isNew, counted d member same, same]
      rfl
    · rw [isOld]

theorem pageCnt_max (inside : size ≤ pageCnt len * pgSize) :
    pageCnt (max len size) = pageCnt len := by
  have inside : size ≤ (len + 4095) / 4096 * 4096 := inside
  show (max len size + 4095) / 4096 = (len + 4095) / 4096
  omega

theorem Sound.fileWrite (sound : s.Sound) {file : FileId} {buffer : Nat → Byte}
    (contained : s.Contained (.fileWrite file buffer size ofs)) :
    Sound { s with vm := s.vm.fileWrite file buffer size ofs } := by
  unfold Vm.fileWrite
  split
  · exact sound
  · exact sound.setFile (Nat.le_max_left ..)
      (fun d member same => pageCnt_max (contained.2 d member same)) fun _ _ _ => id

theorem Sound.fileWriteFails (sound : s.Sound) {file : FileId}
    (contained : s.Contained (.fileWriteFails file)) :
    Sound { s with vm := s.vm.fileWriteFails file } := by
  unfold Vm.fileWriteFails
  split
  · exact sound
  next long =>
  refine sound.setFile (Nat.le_refl _) (fun _ _ _ => rfl) fun d member same => ?_
  exact absurd (.inr (contained d member same)) long

theorem Sound.setDenyWrite (sound : s.Sound) (file : FileId) (denyWrite : Bool) :
    Sound { s with vm := s.vm.setDenyWrite file denyWrite } :=
  sound.setFile (Nat.le_refl _) (fun _ _ _ => rfl) fun _ _ _ => id

/-- `mmap_` does nothing, or its checks pass and it registers the mapping. -/
theorem mmap_cases (runs : s.stage t = .running) (user : addr + 4 ≤ physBasePage * pgSize) :
    s.mmap t fd addr = (none, s) ∨ ∃ file, fd = some file ∧ s.Accepts t file addr ∧
      s.mmap t fd addr = s.register t file addr := by
  unfold Mmaps.mmap
  cases fd with
  | none => exact .inl rfl
  | some file =>
    dsimp only
    split
    · exact .inl rfl
    rename_i passes
    obtain ⟨nonzero, aligned, -, free⟩ := by simpa only [not_or] using passes
    refine .inr ⟨file, rfl, ⟨runs, user, nonzero, not_not.mp aligned, ?_⟩, rfl⟩
    intro k small
    by_contra found
    apply free
    refine ⟨k, small, ?_⟩
    rwa [show (addr + k * pgSize) / pgSize = addr / pgSize + k from
      Nat.add_mul_div_right _ _ (by decide)]

section

variable (sound : s.Sound)
include sound

theorem Sound.mmap (runs : s.stage t = .running) (user : addr + 4 ≤ physBasePage * pgSize)
    (contained : s.Contained (.mmap t fd addr)) : (s.mmap t fd addr).2.Sound := by
  rcases mmap_cases runs user with isMmap | ⟨file, isFile, accepts, isMmap⟩
  · rw [isMmap]
    exact sound
  · rw [isMmap]
    exact sound.register accepts (contained file isFile)

theorem Sound.vmNext {step : VmStep} (taken : s.vm.next step = some vm')
    (drops : s.vm.Drops vm' fun _ => False) : Sound { s with vm := vm' } :=
  sound.stays (sound.good.next taken) drops

theorem Sound.frameEvict_drops
    (taken : s.vm.next (.frameEvict victim) = some vm') : s.vm.Drops vm' fun _ => False := by
  cases sound.good.moves taken with
  | frameEvict evicts => exact evicts.drops sound.good sound.within

theorem Sound.userWrite_drops {b : Byte}
    (taken : s.vm.next (.userWrite t addr b) = some vm') : s.vm.Drops vm' fun _ => False := by
  cases sound.good.moves taken with
  | userWrite present writable => exact Vm.drops_of_kin (.refl _) Iff.rfl fun _ => rfl

theorem Sound.rehash_drops {order : List PageId}
    (taken : s.vm.next (.rehash order) = some vm') : s.vm.Drops vm' fun _ => False := by
  cases sound.good.moves taken with
  | rehash perm => exact Vm.drops_of_kin (.refl _) perm.mem_iff fun _ => rfl

/-- Every operation whose writes stay inside the pages of mapped files keeps the invariant. -/
theorem Sound.next {step : MmapStep} (contained : s.Contained step)
    (taken : s.next step = some s') : s'.Sound := by
  -- a process that is loading has no mappings
  have noMapping : ∀ {t}, s.stage t = .loading → ∀ {d}, d ∈ s.mmapTable → d.owner ≠ t := by
    rintro t loading d mem rfl
    exact sound.started mem loading
  cases step with
  | loadSegment t args =>
    obtain ⟨loading, isAfter⟩ := ite_none_right_eq_some.mp taken
    obtain ⟨vm', step, rfl⟩ := map_eq_some_iff.mp isAfter
    obtain ⟨-, rfl⟩ := ite_some_none_eq_some.mp step
    apply sound.addPage rfl rfl rfl
    exact fun mem isOwner => absurd isOwner (noMapping loading mem)
  | setupStack t victim =>
    obtain ⟨loading, isAfter⟩ := ite_none_right_eq_some.mp taken
    obtain ⟨_, isMid, rfl⟩ := map_eq_some_iff.mp isAfter
    obtain ⟨vm', step, rfl⟩ := map_eq_some_iff.mp isMid
    obtain ⟨⟨success, _⟩, run, rfl⟩ := map_eq_some_iff.mp step
    obtain ⟨soundMid, stack⟩ := sound.pageFullLoadStack (Except.toOption_eq_some.mp run)
      fun mem isOwner => absurd isOwner (noMapping loading mem)
    exact soundMid.start loading stack
  | pageFault t addr esp user notPresent victim =>
    obtain ⟨-, isAfter⟩ := ite_none_right_eq_some.mp taken
    obtain ⟨vm', step, rfl⟩ := map_eq_some_iff.mp isAfter
    obtain ⟨⟨success, _⟩, run, rfl⟩ := map_eq_some_iff.mp step
    exact sound.pageFault (Except.toOption_eq_some.mp run)
  | frameEvict victim =>
    obtain ⟨vm', step, rfl⟩ := map_eq_some_iff.mp taken
    exact sound.vmNext step (sound.frameEvict_drops step)
  | userWrite t addr b =>
    obtain ⟨vm', step, rfl⟩ := map_eq_some_iff.mp taken
    exact sound.vmNext step (sound.userWrite_drops step)
  | rehash order =>
    obtain ⟨vm', step, rfl⟩ := map_eq_some_iff.mp taken
    exact sound.vmNext step (sound.rehash_drops step)
  | fileWrite file buffer size ofs =>
    cases taken
    exact sound.fileWrite contained
  | fileWriteFails file =>
    cases taken
    exact sound.fileWriteFails contained
  | setDenyWrite file denyWrite =>
    cases taken
    exact sound.setDenyWrite file denyWrite
  | mmap t fd addr =>
    obtain ⟨⟨runs, user⟩, rfl⟩ := ite_some_none_eq_some.mp taken
    exact sound.mmap runs user contained
  | munmap t mapping victims =>
    obtain ⟨-, isAfter⟩ := ite_none_right_eq_some.mp taken
    have settles := sound.munmap t mapping victims
    rw [Except.toOption_eq_some.mp isAfter] at settles
    exact settles.1
  | processExit t victims =>
    obtain ⟨-, isAfter⟩ := ite_none_right_eq_some.mp taken
    have settles := sound.processExit t victims
    rw [Except.toOption_eq_some.mp isAfter] at settles
    exact settles.1

end

theorem sound_of_reachable (reach : Reachable Initial next Contained s) : s.Sound :=
  reach.invariant (fun _ init => init.sound)
    fun _ _ _ sound contained taken => sound.next contained taken

/-! ## Unmapping -/

/-- In every run in which no write makes a mapped file longer than its last page, `munmap_` of a
    mapping and the implicit one of `process_exit` free the pages that `mmap_` made and no page of
    another mapping; the only way they can stop is that there is no frame or no swap slot. -/
theorem munmap_frees_mapping (reached : Reachable Initial next Contained s) (t : ThreadId) :
    (∀ mapping d victims, s.hashQuery mapping t = some d →
      (∀ p, d.HasPage p → p ∈ s.vm.supPageTable) ∧
      Settles Panic.Scarce (fun s' =>
          (∀ p, (s'.vm.page p).isSome ↔ (s.vm.page p).isSome ∧ ¬ d.HasPage p) ∧
          (∀ p, p ∈ s'.vm.supPageTable ↔ p ∈ s.vm.supPageTable ∧ ¬ d.HasPage p) ∧
          ∀ e ∈ s.mmapTable, e ≠ d → e ∈ s'.mmapTable ∧ ∀ p, e.HasPage p → p ∈ s'.vm.supPageTable)
        (s.munmap t mapping victims)) ∧
    ∀ victims, Settles Panic.Scarce (fun s' =>
        (∀ p, (s'.vm.page p).isSome ↔ (s.vm.page p).isSome ∧ p ∉ s.vm.pageList t ∧
          ∀ d ∈ s.mmapTable, d.owner = t → ¬ d.HasPage p) ∧
        ∀ e ∈ s.mmapTable, e.owner ≠ t → e ∈ s'.mmapTable ∧
          ∀ p, e.HasPage p → p ∈ s'.vm.supPageTable)
      (s.processExit t victims) := by
  have sound := sound_of_reachable reached
  have registered : ∀ {s : Mmaps}, s.Sound → ∀ {d}, d ∈ s.mmapTable → ∀ p, d.HasPage p →
      p ∈ s.vm.supPageTable := by
    intro s sound d member p hasPage
    obtain ⟨k, small, rfl⟩ := hasPage.offset
    exact ((sound.mapped member).pages (Nat.zero_le k) small).1
  constructor
  · intro mapping d victims found
    obtain ⟨member, isKey⟩ := hashQuery_eq_some found
    refine ⟨registered sound member, (sound.munmap t mapping victims).mono ?_⟩
    rintro s' ⟨sound', unmaps⟩
    have isGone : ∀ p, (∃ e ∈ s.mmapTable, (e.mapping = mapping ∧ e.owner = t) ∧ e.HasPage p) ↔
        d.HasPage p := by
      intro p
      constructor
      · rintro ⟨e, memberE, isKeyE, hasPage⟩
        rwa [← sound.keys memberE member (isKeyE.1.trans isKey.1.symm)
          (isKeyE.2.trans isKey.2.symm)]
      · exact fun hasPage => ⟨d, member, isKey, hasPage⟩
    have drops := unmaps.drops.congr isGone
    refine ⟨drops.isSome, fun p => drops.table, ?_⟩
    intro e memberE different
    have stays : e ∈ s'.mmapTable := by
      refine unmaps.table.mpr ⟨memberE, fun isKeyE => different ?_⟩
      exact sound.keys memberE member (isKeyE.1.trans isKey.1.symm) (isKeyE.2.trans isKey.2.symm)
    exact ⟨stays, registered sound' stays⟩
  intro victims
  apply (sound.processExit t victims).mono
  rintro s' ⟨sound', exits⟩
  refine ⟨fun p => exits.page, ?_⟩
  intro e member other
  have stays := exits.table.mpr ⟨member, other⟩
  exact ⟨stays, registered sound' stays⟩

/-- A machine with two frames on which no process was started. -/
def start : Mmaps := ⟨Vm.start 2 2, [], fun _ => 1, fun _ => .loading⟩

theorem start_initial : start.Initial :=
  ⟨Vm.start_initial 2 2, rfl, fun _ => rfl, fun _ => rfl⟩

/-- The same with other files. -/
def startWith (file : VmFile) : Mmaps :=
  { start with vm := { start.vm with file := fun _ => file } }

theorem startWith_initial (file : VmFile) : (startWith file).Initial :=
  ⟨⟨rfl, fun _ => rfl, fun _ => rfl, rfl, fun _ => rfl, fun _ _ => rfl, fun _ => rfl⟩, rfl,
    fun _ => rfl, fun _ => rfl⟩

/-- Process 1 is started, and maps a file of one page at user page 8. -/
def mapSteps : List MmapStep :=
  [.setupStack 1 none, .setDenyWrite 0 false, .mmap 1 (some 0) (8 * pgSize)]

/-- The file is written inside its page, and the mapping goes with its page. -/
theorem munmap_frees_mapping_written :
    ∃ s d s', Reachable Initial next Contained s ∧ s.hashQuery 1 1 = some d ∧ d.HasPage 1 ∧
      s.munmap 1 1 (fun _ => none) = .ok s' ∧ 1 ∉ s'.vm.supPageTable := by
  obtain ⟨s, reached, ⟨d, found, hasPage⟩, returns⟩ := reachable_of_run next Contained start_initial
    (mapSteps ++ [.fileWrite 0 (fun _ => 7) 5 4091])
    (fun s => (∃ d ∈ s.hashQuery 1 1, d.HasPage 1) ∧
      (s.munmap 1 1 fun _ => none).toOption.isSome) (by decide)
  obtain ⟨s', run⟩ := isSome_iff_exists.mp returns
  have run := Except.toOption_eq_some.mp run
  obtain ⟨-, settles⟩ := (munmap_frees_mapping reached 1).1 1 d (fun _ => none) found
  rw [run] at settles
  exact ⟨s, d, s', reached, found, hasPage, run, fun member => ((settles.2.1 1).mp member).2 hasPage⟩

/-- How a computation stops. -/
def stopsWith {α : Type} : Except Panic α → Option Panic
  | .ok _ => none
  | .error e => some e

theorem eq_error_of_stopsWith {α : Type} {x : Except Panic α} {e : Panic}
    (stops : stopsWith x = some e) : x = .error e := by
  cases x with
  | ok a => cases stops
  | error e' =>
    cases stops
    rfl

/-- A write makes the mapped file longer than its page. If there is nothing behind the mapping an
    assertion fails in `munmap_`; if there is another mapping, `munmap_` frees a page of it. An
    assertion also fails after a write that could not make a file of twelve sectors longer, and for
    a directory. -/
theorem munmap_after_growth : (∃ s, Reachable Initial next AnyStep s ∧
      s.munmap 1 1 (fun _ => none) = .error .assertion) ∧
    (∃ s s' e, Reachable Initial next AnyStep s ∧ s.munmap 1 1 (fun _ => none) = .ok s' ∧
      s.hashQuery 2 1 = some e ∧ ∃ p, e.HasPage p ∧ p ∈ s.vm.supPageTable ∧
        p ∉ s'.vm.supPageTable) ∧
    ∃ s s', (Reachable Initial next AnyStep s ∧ s.munmap 1 1 (fun _ => none) = .error .assertion) ∧
      Reachable Initial next AnyStep s' ∧ s'.munmap 1 1 (fun _ => none) = .error .assertion := by
  refine ⟨?_, ?_, ?_⟩
  · obtain ⟨s, reached, test⟩ := reachable_of_run next AnyStep start_initial
      (mapSteps ++ [.fileWrite 0 (fun _ => 7) 5 4092])
      (fun s => stopsWith (s.munmap 1 1 fun _ => none) = some .assertion) (by decide)
    exact ⟨s, reached, eq_error_of_stopsWith test⟩
  · obtain ⟨s, reached, ⟨e, found, hasPage⟩, member, s', run, gone⟩ :=
        reachable_of_run next AnyStep start_initial
      (mapSteps ++ [.mmap 1 (some 1) (9 * pgSize), .fileWrite 0 (fun _ => 7) 5 4092])
      (fun s => (∃ e ∈ s.hashQuery 2 1, e.HasPage 2) ∧ 2 ∈ s.vm.supPageTable ∧
        ∃ s' ∈ (s.munmap 1 1 fun _ => none).toOption, 2 ∉ s'.vm.supPageTable) (by decide)
    exact ⟨s, s', e, reached, Except.toOption_eq_some.mp run, found, 2, hasPage, member, gone⟩
  obtain ⟨s, reached, test⟩ := reachable_of_run next AnyStep
    (startWith_initial ⟨.zeros 5700, false, none⟩) (mapSteps ++ [.fileWriteFails 0])
    (fun s => stopsWith (s.munmap 1 1 fun _ => none) = some .assertion) (by decide)
  obtain ⟨s', reached', test'⟩ := reachable_of_run next AnyStep
    (startWith_initial ⟨.zeros 720, false, some 0⟩) mapSteps
    (fun s => stopsWith (s.munmap 1 1 fun _ => none) = some .assertion) (by decide)
  exact ⟨s, s', ⟨reached, eq_error_of_stopsWith test⟩, reached', eq_error_of_stopsWith test'⟩

end Pintos.Mmaps
