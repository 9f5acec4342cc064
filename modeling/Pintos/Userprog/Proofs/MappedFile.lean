import Pintos.Userprog.MappedFile
import Pintos.Userprog.Proofs.MappedBytes
import Pintos.Userprog.Proofs.MmapOwners

/-!
# What is written through a mapping reaches the file

As long as no mapped file becomes longer than its last page, a file that is mapped once has, after
`munmap_` or `process_exit`, at each offset the last byte that was stored through the mapping.
Otherwise `munmap_` of another mapping can free the pages of this one and write them to its own
file.
-/

namespace Pintos

open List Option

open Vm (Mirrors)

variable {p : PageId} {pg : Page} {j addr k len : Nat} {d : MmapData}

namespace Mmaps

variable {s s' : Mmaps} {t : ThreadId} {file : FileId} {len : Nat} {bytes : Nat → Byte}

/-- `munmap_` of any mapping. -/
theorem Sound.munmap_mirrors (sound : s.Sound) (mirrors : s.vm.Mirrors file len bytes)
    (t : ThreadId) (mapping : Nat) (victims : Nat → Option FrameId) :
    Settles Panic.Scarce (fun s' => s'.vm.Mirrors file len bytes) (s.munmap t mapping victims) := by
  unfold Mmaps.munmap
  cases found : s.hashQuery mapping t with
  | none => exact mirrors
  | some d =>
    obtain ⟨mem, -⟩ := hashQuery_eq_some found
    dsimp only
    rw [sound.counted mem]
    apply Settles.bind (mirrors.munmapPages sound.good sound.within (sound.mapped mem) victims)
    exact fun vm' mirrors' => mirrors'

theorem Sound.processExit_mirrors (sound : s.Sound) (mirrors : s.vm.Mirrors file len bytes)
    (t : ThreadId) (victims : Nat → Nat → Option FrameId) :
    Settles Panic.Scarce (fun s' => s'.vm.Mirrors file len bytes) (s.processExit t victims) := by
  apply (sound.processExit_keeps (K := fun s => s.vm.Mirrors file len bytes) t ?_ ?_).mono
  · rintro s' ⟨vm, after, -, -, mirrors', rfl⟩
    exact mirrors'
  · exact fun run => mirrors.freePageList sound.good run
  · exact fun sound mirrors => sound.munmap_mirrors mirrors t _ _

theorem Sound.mapping_of_mapsTo (sound : s.Sound) (backed : s.Backed)
    (isPg : s.vm.page p = some pg) (mapsTo : pg.MapsTo file) :
    ∃ d ∈ s.mmapTable, d.file = file ∧ ∃ k < d.count, d.PageAt k pg := by
  obtain ⟨d, mem, -, hasPage⟩ := backed isPg mapsTo.type
  obtain ⟨k, small, rfl⟩ := hasPage.offset
  obtain ⟨-, pg', isPg', pageAt⟩ := (sound.mapped mem).pages (Nat.zero_le k) small
  rw [isPg, some.injEq] at isPg'
  subst isPg'
  exact ⟨d, mem, some.inj (pageAt.file.symm.trans mapsTo.file), k, small, pageAt⟩

theorem Sound.byte_of_unmapped (sound : s.Sound) (backed : s.Backed)
    (mirrors : s.vm.Mirrors file len bytes) (unmapped : ∀ d ∈ s.mmapTable, d.file ≠ file)
    (inside : j < len) : (s.vm.file file).bytes.byte j = bytes j := by
  apply mirrors.byte_of_unmapped _ inside
  intro p pg isPg mapsTo
  obtain ⟨d, mem, isFile, -⟩ := sound.mapping_of_mapsTo backed isPg mapsTo
  exact unmapped d mem isFile

end Mmaps

/-! ## Stores to the mapping -/

theorem MmapData.offset_of_upage (aligned : d.uaddr % pgSize = 0)
    (isUpage : addr / pgSize = d.uaddr / pgSize + k) :
    d.uaddr ≤ addr ∧ addr - d.uaddr = k * pgSize + addr % pgSize := by
  have aligned : d.uaddr % 4096 = 0 := aligned
  have isUpage : addr / 4096 = d.uaddr / 4096 + k := isUpage
  show d.uaddr ≤ addr ∧ addr - d.uaddr = k * 4096 + addr % 4096
  omega

theorem MmapData.HasAddr.page {t : ThreadId}
    (hasAddr : d.HasAddr t addr) (aligned : d.uaddr % pgSize = 0) :
    ∃ k < d.count, addr / pgSize = d.uaddr / pgSize + k := by
  obtain ⟨-, lower, upper⟩ := hasAddr
  have aligned : d.uaddr % 4096 = 0 := aligned
  have upper : addr < d.uaddr + d.count * 4096 := upper
  refine ⟨(addr - d.uaddr) / 4096, ?_, ?_⟩
  · omega
  · show addr / 4096 = d.uaddr / 4096 + (addr - d.uaddr) / 4096
    omega

namespace MappedFile

variable {s s' : MappedFile} {file : FileId} {t : ThreadId} {addr : Nat} {b : Byte}

/-- The file is mapped once, and the file and its pages hold the bytes. -/
structure Tracks (file : FileId) (s : MappedFile) : Prop where
  sound : s.mmaps.Sound
  backed : s.mmaps.Backed
  sole : ∀ {d e}, d ∈ s.mmaps.mmapTable → e ∈ s.mmaps.mmapTable → d.file = file →
    e.file = file → d = e
  mirrors : s.IsMapped file → s.mmaps.vm.Mirrors file (s.mmaps.vm.fileLength file) s.bytes

section

variable (tracks : s.Tracks file)
include tracks

theorem Tracks.record_of_mapsTo (isPg : s.mmaps.vm.page p = some pg) (mapsTo : pg.MapsTo file)
    (isUpage : pg.upage = addr / pgSize) :
    s.record file (.userWrite pg.owner addr b) =
      Function.update s.bytes (pg.ofs + addr % pgSize) b := by
  obtain ⟨d, mem, isFile, k, small, pageAt⟩ :=
    tracks.sound.mapping_of_mapsTo tracks.backed isPg mapsTo
  obtain ⟨lower, isOffset⟩ := MmapData.offset_of_upage (tracks.sound.mapped mem).aligned
    (isUpage.symm.trans pageAt.upage)
  have hasAddr : d.HasAddr pg.owner addr := by
    refine ⟨pageAt.owner.symm, lower, ?_⟩
    have isOffset : addr - d.uaddr = k * 4096 + addr % 4096 := isOffset
    show addr < d.uaddr + d.count * 4096
    omega
  unfold record
  dsimp only
  cases found : s.mmaps.mmapTable.find? fun d => d.file = file ∧ d.HasAddr pg.owner addr with
  | none =>
    have missing := List.find?_eq_none.mp found d mem
    exact absurd (decide_eq_true ⟨isFile, hasAddr⟩) missing
  | some e =>
    have isKey := List.find?_some found
    obtain ⟨isFileE, -⟩ := of_decide_eq_true isKey
    cases tracks.sole (mem_of_find?_eq_some found) mem isFileE isFile
    dsimp only
    rw [isOffset, pageAt.ofs]

theorem Tracks.record_of_other (isPg : s.mmaps.vm.page p = some pg) (other : ¬ pg.MapsTo file)
    (isUpage : pg.upage = addr / pgSize) :
    s.record file (.userWrite pg.owner addr b) = s.bytes := by
  unfold record
  dsimp only
  cases found : s.mmaps.mmapTable.find? fun d => d.file = file ∧ d.HasAddr pg.owner addr with
  | none => rfl
  | some d =>
    -- the page would be the one of the mapping
    have isKey := List.find?_some found
    obtain ⟨isFile, hasAddr⟩ := of_decide_eq_true isKey
    have mapped := tracks.sound.mapped (mem_of_find?_eq_some found)
    obtain ⟨k, small, isAddr⟩ := hasAddr.page mapped.aligned
    have isP := mapped.only (Nat.zero_le k) small isPg hasAddr.1.symm (isUpage.trans isAddr)
    obtain ⟨-, pg', isPg', pageAt⟩ := mapped.pages (Nat.zero_le k) small
    rw [← isP, isPg, some.injEq] at isPg'
    subst isPg'
    exact absurd ⟨pageAt.type, isFile ▸ pageAt.file⟩ other

theorem Tracks.userWrite (mirrors : s.mmaps.vm.Mirrors file len s.bytes)
    (present : (s.mmaps.vm.pte t (addr / pgSize)).present = true) :
    (s.mmaps.vm.store t addr b).Mirrors file len (s.record file (.userWrite t addr b)) := by
  have good := tracks.sound.good
  obtain ⟨p, o, isSeat, rfl, isUpage⟩ := good.mapping.backed present
  obtain ⟨pg, isPg, sits, rfl⟩ := Vm.seat_eq_some.mp isSeat
  have isUpage : pg.upage = addr / pgSize := isUpage
  by_cases mapsTo : pg.MapsTo file
  · show (s.mmaps.vm.store pg.owner addr b).Mirrors file len
      (s.record file (.userWrite pg.owner addr b))
    rw [tracks.record_of_mapsTo isPg mapsTo isUpage]
    exact Mirrors.store_self b good isPg sits isUpage mirrors mapsTo
  show (s.mmaps.vm.store pg.owner addr b).Mirrors file len
    (s.record file (.userWrite pg.owner addr b))
  rw [tracks.record_of_other isPg mapsTo isUpage]
  exact Mirrors.store_other b good isPg sits isUpage mirrors mapsTo

/-! ## Steps -/

theorem Tracks.keep (sound : s'.mmaps.Sound) (backed : s'.mmaps.Backed)
    (table : ∀ {d}, d ∈ s'.mmaps.mmapTable → d.file = file → d ∈ s.mmaps.mmapTable)
    (keeps : s.IsMapped file → ∀ {len}, s.mmaps.vm.Mirrors file len s.bytes →
      s'.mmaps.vm.Mirrors file len s'.bytes) : s'.Tracks file where
  sound := sound
  backed := backed
  sole memberD memberE isFileD isFileE :=
    tracks.sole (table memberD isFileD) (table memberE isFileE) isFileD isFileE
  mirrors := by
    rintro ⟨d, mem, isFile⟩
    have wasMapped : s.IsMapped file := ⟨d, table mem isFile, isFile⟩
    have mirrors := keeps wasMapped (tracks.mirrors wasMapped)
    exact mirrors.length.symm ▸ mirrors

theorem Tracks.mmap {fd : Option FileId}
    (runs : s.mmaps.stage t = .running) (user : addr + 4 ≤ physBasePage * pgSize)
    (undisturbed : s.Undisturbed file (.mmap t fd addr))
    (sound : (s.mmaps.mmap t fd addr).2.Sound) (backed : (s.mmaps.mmap t fd addr).2.Backed) :
    Tracks file ⟨(s.mmaps.mmap t fd addr).2, s.record file (.mmap t fd addr)⟩ := by
  have undisturbed : fd = some file → _ ∧ _ := undisturbed
  obtain isMmap | ⟨f, rfl, accepts, isMmap⟩ :
      s.mmaps.mmap t fd addr = (none, s.mmaps) ∨ _ := Mmaps.mmap_cases runs user
  · -- nothing is mapped, so if the file is meant it is not mapped
    rw [isMmap] at sound backed ⊢
    refine ⟨sound, backed, tracks.sole, fun isMapped => ?_⟩
    have other : fd ≠ some file := fun same => (undisturbed same).2 isMapped
    rw [show s.record file (.mmap t fd addr) = s.bytes from if_neg other]
    exact tracks.mirrors isMapped
  rw [isMmap] at sound backed ⊢
  have isTable : (s.mmaps.register t f addr).2.mmapTable = s.mmaps.entered t f addr :: _ :=
    Mmaps.register_mmapTable tracks.sound
  by_cases same : f = file
  · subst same
    obtain ⟨allowed, unmapped⟩ := undisturbed rfl
    have only : ∀ {d}, d ∈ (s.mmaps.register t f addr).2.mmapTable → d.file = f →
        d = s.mmaps.entered t f addr := by
      intro d member isFile
      rw [isTable] at member
      rcases mem_cons.mp member with isNew | member
      · exact isNew
      · exact absurd ⟨d, member, isFile⟩ unmapped
    refine ⟨sound, backed, ?_, fun _ => ?_⟩
    · exact fun memberD memberE isFileD isFileE =>
        (only memberD isFileD).trans (only memberE isFileE).symm
    rw [show s.record f (.mmap t (some f) addr) = (s.mmaps.vm.file f).bytes.byte from if_pos rfl]
    have sameFile : (s.mmaps.register t f addr).2.vm.file = s.mmaps.vm.file :=
      (Mmaps.register_adds tracks.sound accepts).file
    have mirrors : (s.mmaps.register t f addr).2.vm.Mirrors f (s.mmaps.vm.fileLength f)
        (s.mmaps.vm.file f).bytes.byte := by
      apply Vm.mirrors_of_mmapPages (d := s.mmaps.entered t f addr) allowed ?_ ?_ sameFile
      · intro p pg isPg mapsTo
        obtain ⟨d, member, isFile, -⟩ :=
          tracks.sound.mapping_of_mapsTo tracks.backed isPg mapsTo
        exact unmapped ⟨d, member, isFile⟩
      · exact fun isPg => Vm.mmapPages_back isPg
    exact mirrors.length.symm ▸ mirrors
  have other : s.record file (.mmap t (some f) addr) = s.bytes :=
    if_neg fun isSome => same (some.inj isSome)
  rw [other]
  apply tracks.keep sound backed
  · intro d member isFile
    replace member : d ∈ (s.mmaps.register t f addr).2.mmapTable := member
    rw [isTable] at member
    rcases mem_cons.mp member with rfl | member
    · exact absurd isFile same
    · exact member
  · exact fun _ _ mirrors => mirrors.mmapPages (d := s.mmaps.entered t f addr) tracks.sound.good rfl
      same (Nat.le_refl _) accepts.free

theorem Tracks.next {step : MmapStep} (apart : s.Apart file step)
    (taken : s.next file step = some s') : s'.Tracks file := by
  obtain ⟨undisturbed, contained⟩ := apart
  obtain ⟨mmaps, isNext, rfl⟩ := map_eq_some_iff.mp taken
  have sound := tracks.sound.next contained isNext
  have backed : mmaps.Backed := tracks.sound.next_backed tracks.backed isNext
  have good := tracks.sound.good
  cases step with
  | loadSegment t args =>
    obtain ⟨-, isAfter⟩ := ite_none_right_eq_some.mp isNext
    obtain ⟨vm', step, rfl⟩ := map_eq_some_iff.mp isAfter
    obtain ⟨-, rfl⟩ := ite_some_none_eq_some.mp step
    exact tracks.keep sound backed (fun mem _ => mem) fun _ _ mirrors =>
      mirrors.addPage good fun mapsTo => nomatch mapsTo.type
  | setupStack t victim =>
    obtain ⟨-, isAfter⟩ := ite_none_right_eq_some.mp isNext
    obtain ⟨_, isMid, rfl⟩ := map_eq_some_iff.mp isAfter
    obtain ⟨vm', step, rfl⟩ := map_eq_some_iff.mp isMid
    obtain ⟨⟨success, _⟩, run, rfl⟩ := map_eq_some_iff.mp step
    exact tracks.keep sound backed (fun mem _ => mem) fun _ _ mirrors =>
      mirrors.pageFullLoadStack good (Except.toOption_eq_some.mp run)
  | pageFault t addr esp user notPresent victim =>
    obtain ⟨-, isAfter⟩ := ite_none_right_eq_some.mp isNext
    obtain ⟨vm', step, rfl⟩ := map_eq_some_iff.mp isAfter
    obtain ⟨⟨success, _⟩, run, rfl⟩ := map_eq_some_iff.mp step
    exact tracks.keep sound backed (fun mem _ => mem) fun _ _ mirrors =>
      mirrors.pageFault good (Except.toOption_eq_some.mp run)
  | frameEvict victim =>
    obtain ⟨vm', step, rfl⟩ := map_eq_some_iff.mp isNext
    cases good.moves step with
    | frameEvict evicts =>
      exact tracks.keep sound backed (fun mem _ => mem) fun _ _ mirrors =>
        mirrors.evicts good evicts
  | userWrite t addr b =>
    obtain ⟨vm', step, rfl⟩ := map_eq_some_iff.mp isNext
    cases good.moves step with
    | userWrite present writable =>
      exact tracks.keep sound backed (fun mem _ => mem) fun _ _ mirrors =>
        tracks.userWrite mirrors present
  | rehash order =>
    obtain ⟨vm', step, rfl⟩ := map_eq_some_iff.mp isNext
    cases good.moves step with
    | rehash perm =>
      refine tracks.keep sound backed (fun mem _ => mem) fun _ _ mirrors => ?_
      exact mirrors.congr mirrors.allowed rfl (fun isPg _ => isPg) (fun isPg _ => isPg)
        (fun _ _ _ => rfl) fun _ _ _ => rfl
  | fileWrite f buffer size ofs =>
    cases isNext
    exact tracks.keep sound backed (fun mem _ => mem) fun isMapped _ mirrors =>
      mirrors.fileWrite fun same => undisturbed same.symm isMapped
  | fileWriteFails f =>
    cases isNext
    exact tracks.keep sound backed (fun mem _ => mem) fun _ _ mirrors => mirrors.fileWriteFails f
  | setDenyWrite f denyWrite =>
    cases isNext
    exact tracks.keep sound backed (fun mem _ => mem) fun isMapped _ mirrors =>
      mirrors.setDenyWrite fun same =>
        Bool.eq_false_iff.mpr fun denied => undisturbed same.symm denied isMapped
  | mmap t fd addr =>
    obtain ⟨⟨runs, user⟩, rfl⟩ := ite_some_none_eq_some.mp isNext
    exact tracks.mmap runs user undisturbed sound backed
  | munmap t mapping victims =>
    obtain ⟨-, isAfter⟩ := ite_none_right_eq_some.mp isNext
    have run := Except.toOption_eq_some.mp isAfter
    apply tracks.keep sound backed
    · intro d mem _
      have unmaps := tracks.sound.munmap t mapping victims
      rw [run] at unmaps
      exact (unmaps.2.table.mp mem).1
    intro _ len mirrors
    have settles := tracks.sound.munmap_mirrors mirrors t mapping victims
    rw [run] at settles
    exact settles
  | processExit t victims =>
    obtain ⟨-, isAfter⟩ := ite_none_right_eq_some.mp isNext
    have run := Except.toOption_eq_some.mp isAfter
    apply tracks.keep sound backed
    · exact fun mem _ => ((tracks.sound.processExit_leaves tracks.backed run).2.2.2.2 mem).1
    intro _ len mirrors
    have settles := tracks.sound.processExit_mirrors mirrors t victims
    rw [run] at settles
    exact settles

end

theorem tracks_of_reachable (reach : Reachable Initial (next file) (Apart file) s) :
    s.Tracks file := by
  apply reach.invariant (P := Tracks file)
  · intro s init
    have noMapping : ∀ {d}, d ∉ s.mmaps.mmapTable := by
      intro d
      rw [Mmaps.Initial.mmapTable init]
      exact not_mem_nil
    exact ⟨Mmaps.Initial.sound init, Mmaps.Initial.backed init,
      fun mem => absurd mem noMapping, fun ⟨_, mem, _⟩ => absurd mem noMapping⟩
  · exact fun _ _ _ tracks apart taken => tracks.next apart taken

theorem holds_of_unmapped {after : Mmaps} (sound : after.Sound) (backed : after.Backed)
    (mirrors : after.vm.Mirrors file (s.mmaps.vm.fileLength file) s.bytes)
    (unmapped : ∀ d ∈ after.mmapTable, d.file ≠ file) : s.Holds file after :=
  ⟨mirrors.length, fun _ inside => sound.byte_of_unmapped backed mirrors unmapped inside⟩

/-- In every run in which no mapped file is made longer than its last page and this one is mapped
    once and not disturbed, `munmap_` of its mapping and `process_exit` of its process leave the
    file, with the length that it had, with the last byte stored through the mapping at every
    offset; the only way they can stop is that there is no frame or no swap slot. -/
theorem mapped_writes_reach_file (file : FileId)
    (reached : Reachable Initial (next file) (Apart file) s) (d : MmapData)
    (member : d ∈ s.mmaps.mmapTable) (isFile : d.file = file) :
    (∀ victims, Settles Panic.Scarce (s.Holds file) (s.mmaps.munmap d.owner d.mapping victims)) ∧
    ∀ victims, Settles Panic.Scarce (s.Holds file) (s.mmaps.processExit d.owner victims) := by
  have tracks := tracks_of_reachable reached
  have mirrors := tracks.mirrors ⟨d, member, isFile⟩
  constructor
  · intro victims
    have backed : ∀ after, s.mmaps.munmap d.owner d.mapping victims = .ok after → after.Backed :=
      fun after run =>
        have grows : s.mmaps.Grows (fun _ => False) after := tracks.sound.munmap_grows run
        grows.backed tracks.backed
    apply (((tracks.sound.munmap d.owner d.mapping victims).and
      (tracks.sound.munmap_mirrors mirrors d.owner d.mapping victims)).and_of_ok backed).mono
    rintro after ⟨⟨⟨sound, unmaps⟩, mirrors'⟩, backed⟩
    apply holds_of_unmapped sound backed mirrors'
    intro e memberE isFileE
    obtain ⟨memberE, otherKey⟩ := unmaps.table.mp memberE
    cases tracks.sole memberE member isFileE isFile
    exact otherKey ⟨rfl, rfl⟩
  intro victims
  apply ((tracks.sound.processExit_mirrors mirrors d.owner victims).and_of_ok
    fun after run => tracks.sound.processExit_leaves tracks.backed run).mono
  rintro after ⟨mirrors', sound, backed, -, -, table⟩
  apply holds_of_unmapped sound backed mirrors'
  intro e memberE isFileE
  obtain ⟨memberE, other⟩ := table memberE
  cases tracks.sole memberE member isFileE isFile
  exact other rfl

/-- A machine with two frames, and files of one page. -/
def start : MappedFile := ⟨Mmaps.start, fun _ => 0⟩

/-- Process 1 touches a page that has no frame. -/
def touch (addr : Nat) : MmapStep := .pageFault 1 addr (physBasePage * pgSize) true true none

/-- A page of the mapping is written, evicted, loaded again and written again. -/
theorem mapped_writes_reach_file_evicted : ∃ s after, Reachable Initial (next 0) (Apart 0) s ∧
      s.mmaps.munmap 1 1 (fun _ => none) = .ok after ∧
      (after.vm.file 0).bytes.byte 0 = 7 ∧ (after.vm.file 0).bytes.byte 1 = 9 := by
  obtain ⟨s, reached, ⟨d, member, isFile, isOwner, isMapping⟩, returns, byte0, byte1, inside⟩ :=
      reachable_of_run (next 0) (Apart 0)
    (show Initial start from Mmaps.start_initial)
    [.setupStack 1 none, .setDenyWrite 0 false, .mmap 1 (some 0) (8 * pgSize), touch (8 * pgSize),
      .userWrite 1 (8 * pgSize) 7, .frameEvict (some 1), touch (8 * pgSize),
      .userWrite 1 (8 * pgSize + 1) 9]
    (fun s => (∃ d ∈ s.mmaps.mmapTable, d.file = 0 ∧ d.owner = 1 ∧ d.mapping = 1) ∧
      (s.mmaps.munmap 1 1 fun _ => none).toOption.isSome ∧ s.bytes 0 = 7 ∧ s.bytes 1 = 9 ∧
      1 < s.mmaps.vm.fileLength 0) (by decide +kernel)
  obtain ⟨after, run⟩ := isSome_iff_exists.mp returns
  have run := Except.toOption_eq_some.mp run
  have settles := (mapped_writes_reach_file 0 reached d member isFile).1 fun _ => none
  rw [isOwner, isMapping, run] at settles
  obtain ⟨-, holds⟩ := settles
  refine ⟨s, after, reached, run, ?_, ?_⟩
  · rw [holds 0 (Nat.lt_of_succ_lt inside), byte0]
  · rw [holds 1 inside, byte1]

/-- Process 1 maps file 0, and file 1 in front of it. It writes to the mapping of file 0, and
    makes file 1 longer than its page. -/
def growSteps : List MmapStep :=
  [.setupStack 1 none, .setDenyWrite 0 false, .setDenyWrite 1 false,
    .mmap 1 (some 0) (8 * pgSize), .mmap 1 (some 1) (7 * pgSize), touch (8 * pgSize),
    .userWrite 1 (8 * pgSize) 7, .fileWrite 1 (fun _ => 1) 5 4092]

/-- File 0 is mapped once and not disturbed. `munmap_` of the other mapping goes on to the page of
    file 0, writes it to file 1 and frees it. If something else is mapped there `munmap_` of file 0
    returns without the byte that was written; `process_exit` fails an assertion. -/
theorem munmap_of_neighbour_loses_writes :
    (∃ s d after, Reachable Initial (next 0) (Undisturbed 0) s ∧ d ∈ s.mmaps.mmapTable ∧
      d.file = 0 ∧ s.mmaps.munmap d.owner d.mapping (fun _ => none) = .ok after ∧
      0 < s.mmaps.vm.fileLength 0 ∧ s.bytes 0 = 7 ∧ (after.vm.file 0).bytes.byte 0 = 0) ∧
    ∃ s d, Reachable Initial (next 0) (Undisturbed 0) s ∧ d ∈ s.mmaps.mmapTable ∧ d.file = 0 ∧
      s.mmaps.processExit d.owner (fun _ _ => none) = .error .assertion := by
  constructor
  · obtain ⟨s, reached, d, member, isFile, inside, written, after, run, lost⟩ :=
        reachable_of_run (next 0) (Undisturbed 0)
      (show Initial start from Mmaps.start_initial)
      (growSteps ++ [.munmap 1 2 (fun _ => some 0), .mmap 1 (some 2) (8 * pgSize)])
      (fun s => ∃ d ∈ s.mmaps.mmapTable, d.file = 0 ∧ 0 < s.mmaps.vm.fileLength 0 ∧ s.bytes 0 = 7 ∧
        ∃ after ∈ (s.mmaps.munmap d.owner d.mapping fun _ => none).toOption,
          (after.vm.file 0).bytes.byte 0 = 0) (by decide +kernel)
    exact ⟨s, d, after, reached, member, isFile, Except.toOption_eq_some.mp run, inside, written,
      lost⟩
  obtain ⟨s, reached, d, member, isFile, stops⟩ := reachable_of_run (next 0) (Undisturbed 0)
    (show Initial start from Mmaps.start_initial) growSteps
    (fun s => ∃ d ∈ s.mmaps.mmapTable, d.file = 0 ∧
      Mmaps.stopsWith (s.mmaps.processExit d.owner fun _ _ => none) = some .assertion)
    (by decide +kernel)
  exact ⟨s, d, reached, member, isFile, Mmaps.eq_error_of_stopsWith stops⟩

end MappedFile

end Pintos
