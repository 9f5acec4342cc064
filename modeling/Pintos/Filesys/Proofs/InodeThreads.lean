import Pintos.Filesys.InodeThreads

/-!
# Extending writes are seen as a whole

The invariant of `Pintos.Filesys.InodeThreads`. A thread that holds the lock of the
inode exclusively is alone with it, so an extending write may leave the inode between
two versions only while no reader is inside. A thread that took the lock in shared
mode found its write inside the inode, and inodes do not get shorter, so it does not
extend the inode. All this needs a growth that fails to be undone: one that frees the
index blocks takes bytes from the inode that no write has changed.
-/

namespace Pintos

open Function List Option FileBytes InodeData

variable {versions versions' : List Version} {settled settled' : Version}
  {size offset i written : Nat} {got : List Byte} {ended b grown : Bool} {w : WriteCall}
  {result : GrowResult}

namespace InodeData

variable {d : InodeData} {w : WriteCall} {written : Nat}

theorem Extends.endOfs (longer : d.Extends w) : w.endOfs = (w.offset + w.size : Nat) := by
  have sizeFits := w.sizeFits
  have offsetFits := w.offsetFits
  have pos : (d.file.length : Int) < int32 (w.offset + w.size) := longer
  show int32 (w.offset + w.size) = _
  unfold int32 at pos ⊢
  rw [Int.bmod_def] at pos ⊢
  omega

theorem Extends.toNat (longer : d.Extends w) : w.endOfs.toNat = w.offset + w.size := by
  rw [longer.endOfs, Int.toNat_natCast]

theorem Extends.lt (longer : d.Extends w) : d.file.length < w.offset + w.size := by
  have := longer.endOfs
  unfold Extends at longer
  omega

theorem Extends.of_le {e : InodeData} (longer : e.Extends w)
    (le : d.file.length ≤ e.file.length) : d.Extends w := by
  unfold Extends at longer ⊢
  omega

theorem partly_zero (longer : d.Extends w) : d.partly w 0 = d.grow w := by
  unfold partly
  have file : (d.grow w).file.write w.buffer 0 w.offset = (d.grow w).file := by
    apply FileBytes.ext
    · show max (max d.file.length w.endOfs.toNat) (w.offset + 0) = max d.file.length w.endOfs.toNat
      rw [longer.toNat]
      omega
    · funext k
      rw [write_byte, if_neg (by omega)]
  rw [file]

theorem partly_length (longer : d.Extends w) (within : written ≤ w.size) :
    (d.partly w written).file.length = w.offset + w.size := by
  have := longer.lt
  show max (max d.file.length w.endOfs.toNat) (w.offset + written) = _
  rw [longer.toNat]
  omega

theorem partly_size (longer : d.Extends w) :
    (d.partly w w.size).file = d.file.write w.buffer w.size w.offset := by
  show (d.file.extend w.endOfs.toNat).write w.buffer w.size w.offset = _
  rw [longer.toNat, extend_write]

theorem partly_writeChunk : (d.partly w written).writeChunk w written = d.partly w
      (written + (d.partly w written).chunk (w.size - written) (w.offset + written)) := by
  unfold writeChunk
  generalize (d.partly w written).chunk (w.size - written) (w.offset + written) = more
  unfold partly
  dsimp only
  rw [write_append]

theorem chunk_le_size (size offset : Nat) : d.chunk size offset ≤ size := Nat.min_le_left ..

theorem chunk_le_left (size offset : Nat) :
    d.chunk size offset ≤ d.file.length - offset ∧ offset % 512 + d.chunk size offset ≤ 512 := by
  unfold chunk
  omega

theorem writeChunk_length (inside : w.offset + written < d.file.length) :
    (d.writeChunk w written).file.length = d.file.length := by
  have := (d.chunk_le_left (w.size - written) (w.offset + written)).1
  show max d.file.length (w.offset + written + _) = d.file.length
  omega

theorem le_writeChunk_length : d.file.length ≤ (d.writeChunk w written).file.length :=
  Nat.le_max_left ..

theorem growFailed_length : (d.growFailed result).file.length = d.file.length := by
  unfold growFailed
  split <;> rfl

theorem le_grow_length : d.file.length ≤ (d.grow w).file.length := Nat.le_max_left ..

end InodeData

/-- What a reader has got so far, when `settled` is the last version. -/
structure GotFrom (versions : List Version) (settled : Version) (size offset : Nat)
    (got : List Byte) (ended : Bool) : Prop where
  within : got.length ≤ min size (settled.data.readable - offset)
  bytes : ∀ i < got.length, ∃ v ∈ versions, v.extended = settled.extended ∧
    got[i]? = some (v.data.file.byte (offset + i))
  stops : ended = true → got.length = min size (settled.data.readable - offset)

theorem GotFrom.nil (versions : List Version) (settled : Version) (size offset : Nat) :
    GotFrom versions settled size offset [] false where
  within := Nat.zero_le _
  bytes i inside := absurd inside (Nat.not_lt_zero i)
  stops ended := nomatch ended

/-- Another version with the same number of extending writes does not matter. -/
theorem GotFrom.mono
    (gotFrom : GotFrom versions settled size offset got ended) (kept : versions ⊆ versions')
    (extended : settled'.extended = settled.extended)
    (readable : settled'.data.readable = settled.data.readable) :
    GotFrom versions' settled' size offset got ended where
  within := by
    rw [readable]
    exact gotFrom.within
  bytes i inside := by
    obtain ⟨v, mem, same, byte⟩ := gotFrom.bytes i inside
    exact ⟨v, kept mem, same.trans extended.symm, byte⟩
  stops := by
    rw [readable]
    exact gotFrom.stops

theorem read_getElem? {b : FileBytes} (inside : i < (b.read size offset).length) :
    (b.read size offset)[i]? = some (b.byte (offset + i)) := by
  unfold FileBytes.read at inside ⊢
  rw [length_map, length_range] at inside
  simp [inside]

section

variable {versions : List Version} {settled : Version} {size offset : Nat} {got : List Byte}

theorem GotFrom.stop (old : GotFrom versions settled size offset got false)
    (stop : size ≤ got.length ∨ settled.data.sectors ≤ (offset + got.length) / 512 ∨
      settled.data.file.length ≤ offset + got.length) :
    GotFrom versions settled size offset got true where
  within := old.within
  bytes := old.bytes
  stops _ := by
    have within := old.within
    unfold readable at within ⊢
    omega

theorem GotFrom.turn (before : GotFrom versions settled size offset got false)
    (latest : settled ∈ versions)
    (go : ¬ (size ≤ got.length ∨ settled.data.sectors ≤ (offset + got.length) / 512 ∨
      settled.data.file.length ≤ offset + got.length)) :
    GotFrom versions settled size offset (got ++ settled.data.file.read
      (settled.data.chunk (size - got.length) (offset + got.length)) (offset + got.length))
      false where
  within := by
    have within := before.within
    have left := settled.data.chunk_le_left (size - got.length) (offset + got.length)
    have asked := settled.data.chunk_le_size (size - got.length) (offset + got.length)
    rw [length_append, length_read]
    unfold readable at within ⊢
    omega
  bytes i inside := by
    by_cases old : i < got.length
    · obtain ⟨v, mem, same, byte⟩ := before.bytes i old
      refine ⟨v, mem, same, ?_⟩
      rw [List.getElem?_append_left old]
      exact byte
    refine ⟨settled, latest, rfl, ?_⟩
    rw [length_append] at inside
    rw [List.getElem?_append_right (by omega), read_getElem? (by omega)]
    congr 2
    omega
  stops ended := nomatch ended

end

theorem ReadReply.Whole.mono {r : ReadReply}
    (whole : r.Whole versions) (kept : versions ⊆ versions') : r.Whole versions' := by
  obtain ⟨bytes, v, mem, same, length⟩ := whole
  refine ⟨?_, v, kept mem, same, length⟩
  intro i inside
  obtain ⟨v, mem, same, byte⟩ := bytes i inside
  exact ⟨v, kept mem, same, byte⟩

namespace InodeThreads

variable {Tid : Type} {s s' : InodeThreads Tid} {t u : Tid} {place : InodePlace} {writer : Bool}

/-- What is true of a thread at its place. -/
def Fits (s : InodeThreads Tid) (t : Tid) : InodePlace → Prop
  | .outside => True
  | .reading size offset got ended =>
      (got ≠ [] ∨ ended = true → (t, false) ∈ s.lock.holders) ∧
        GotFrom s.versions s.settled size offset got ended
  | .tested w longer => longer = false → ¬ s.data.Extends w
  | .locking w writer => writer = false → ¬ s.data.Extends w
  | .writing w writer grown written ended =>
      (t, writer) ∈ s.lock.holders ∧
        (grown = true → writer = true ∧ s.settled.data.Extends w ∧ written ≤ w.size ∧
          s.data = s.settled.data.partly w written ∧ (ended = true → written = w.size))

/-- The thread has extended the inode and not returned since. -/
def Growing : InodePlace → Prop
  | .writing _ _ grown _ _ => grown = true
  | _ => False

structure Coherent (s : InodeThreads Tid) : Prop where
  fair : s.lock.Fair
  fits : ∀ t, s.Fits t (s.place t)
  calm : (∀ t, ¬ Growing (s.place t)) → s.data = s.settled.data
  latest : s.settled ∈ s.versions
  whole : ∀ r ∈ s.replies, r.Whole s.versions

/-- What a step leaves to a thread that does not take it. -/
structure Leaves (s s' : InodeThreads Tid) (u : Tid) : Prop where
  place : s'.place u = s.place u
  holds : ∀ {b}, (u, b) ∈ s.lock.holders → (u, b) ∈ s'.lock.holders
  reader : (u, false) ∈ s.lock.holders → s'.settled.extended = s.settled.extended ∧
    s'.settled.data.readable = s.settled.data.readable
  writer : (u, true) ∈ s.lock.holders → s'.data = s.data ∧ s'.settled = s.settled

theorem Fits.leave (fits : s.Fits u place) (leaves : s.Leaves s' u)
    (kept : s.versions ⊆ s'.versions) (longer : s.data.file.length ≤ s'.data.file.length) :
    s'.Fits u place := by
  cases place with
  | outside => trivial
  | reading size offset got ended =>
    obtain ⟨holds, gotFrom⟩ := fits
    refine ⟨fun busy => leaves.holds (holds busy), ?_⟩
    by_cases busy : got ≠ [] ∨ ended = true
    · obtain ⟨extended, readable⟩ := leaves.reader (holds busy)
      exact gotFrom.mono kept extended readable
    rw [not_or, not_not] at busy
    obtain ⟨rfl, notEnded⟩ := busy
    rw [Bool.not_eq_true] at notEnded
    subst notEnded
    exact GotFrom.nil ..
  | tested w mode | locking w mode =>
    exact fun shared extend => fits shared (extend.of_le longer)
  | writing w writer grown written ended =>
    obtain ⟨holds, growing⟩ := fits
    refine ⟨leaves.holds holds, ?_⟩
    intro isGrown
    obtain ⟨rfl, rest⟩ := growing isGrown
    obtain ⟨sameData, sameSettled⟩ := leaves.writer holds
    rw [sameData, sameSettled]
    exact ⟨rfl, rest⟩

/-- A thread that holds the lock and does not grow the inode sees the last version. -/
theorem Coherent.data_eq (coherent : s.Coherent) (holds : (t, b) ∈ s.lock.holders)
    (notGrowing : ¬ Growing (s.place t)) : s.data = s.settled.data := by
  apply coherent.calm
  intro u growing
  have fits := coherent.fits u
  cases place : s.place u with
  | writing w writer grown written ended =>
    rw [place] at fits growing
    obtain ⟨holdsU, isGrowing⟩ := fits
    obtain ⟨rfl, -⟩ := isGrowing growing
    rw [coherent.fair.sole_writer holdsU, mem_singleton, Prod.mk.injEq] at holds
    rw [holds.1, place] at notGrowing
    exact notGrowing growing
  | outside | reading | tested | locking =>
    rw [place] at growing
    exact growing

/-- Beside a holder of the lock there is no writer, and beside a writer no holder. -/
theorem Coherent.alone (coherent : s.Coherent) (holds : (t, true) ∈ s.lock.holders)
    (ne : u ≠ t) : (u, b) ∉ s.lock.holders := by
  intro holdsU
  rw [coherent.fair.sole_writer holds, mem_singleton, Prod.mk.injEq] at holdsU
  exact ne holdsU.1

/-- A step of `t` keeps the invariant if it keeps the part of `t` and leaves the others alone. -/
theorem Coherent.of_step (coherent : s.Coherent) (t : Tid) (fair : s'.lock.Fair)
    (fits : s'.Fits t (s'.place t)) (others : ∀ u, u ≠ t → s.Leaves s' u)
    (kept : s.versions ⊆ s'.versions) (longer : s.data.file.length ≤ s'.data.file.length)
    (calm : (∀ u, ¬ Growing (s'.place u)) → s'.data = s'.settled.data)
    (latest : s'.settled ∈ s'.versions)
    (replies : ∀ r ∈ s'.replies, r ∈ s.replies ∨ r.Whole s'.versions) : s'.Coherent where
  fair := fair
  fits u := by
    by_cases same : u = t
    · rw [same]
      exact fits
    · rw [(others u same).place]
      exact (coherent.fits u).leave (others u same) kept longer
  calm := calm
  latest := latest
  whole r member := by
    rcases replies r member with old | whole
    · exact (coherent.whole r old).mono kept
    · exact whole

/-- The second test of the length finds a write past the end only in exclusive mode. -/
theorem Coherent.exclusive_of_extends (coherent : s.Coherent)
    (place : s.place t = .locking w writer) (extend : s.data.Extends w) : writer = true := by
  have fits := coherent.fits t
  rw [place] at fits
  by_contra shared
  exact fits (Bool.eq_false_of_not_eq_true shared) extend

theorem GrowthUndone.growFailed (undone : s.GrowthUndone (.writeGrow t result)) :
    s.data.growFailed result = s.data := by
  refine if_neg ?_
  rintro ⟨rfl, large⟩
  exact Nat.not_lt.mpr undone large

variable [DecidableEq Tid]

@[simp] theorem goto_place_self (s : InodeThreads Tid) (t : Tid) (place : InodePlace) :
    (s.goto t place).place t = place := update_self ..

theorem goto_place_of_ne (s : InodeThreads Tid) (place : InodePlace) (ne : u ≠ t) :
    (s.goto t place).place u = s.place u := update_of_ne ne ..

section

variable (coherent : s.Coherent)
include coherent

/-- A step that only moves `t`, and may take or give back the lock and reply. -/
theorem Coherent.of_move (t : Tid) (place : InodePlace)
    (lock : RwlockRun Tid) (replies : List ReadReply) (fair : lock.Fair)
    (growing : Growing (s.place t) → Growing place)
    (fits : ({ s with lock, replies }.goto t place).Fits t place)
    (holds : ∀ {u b}, u ≠ t → (u, b) ∈ s.lock.holders → (u, b) ∈ lock.holders)
    (whole : ∀ r ∈ replies, r ∈ s.replies ∨ r.Whole s.versions) :
    ({ s with lock, replies }.goto t place).Coherent := by
  apply coherent.of_step t
  · exact fair
  · rw [goto_place_self]
    exact fits
  · intro u ne
    exact ⟨goto_place_of_ne _ _ ne, holds ne, fun _ => ⟨rfl, rfl⟩, fun _ => ⟨rfl, rfl⟩⟩
  · exact List.Subset.refl _
  · exact Nat.le_refl _
  · intro noneGrowing
    apply coherent.calm
    intro u isGrowing
    by_cases same : u = t
    · subst same
      apply noneGrowing u
      rw [goto_place_self]
      exact growing isGrowing
    apply noneGrowing u
    rw [goto_place_of_ne _ _ same]
    exact isGrowing
  · exact coherent.latest
  · exact whole

/-- A step that only moves `t`. -/
theorem Coherent.of_goto (growing : Growing (s.place t) → Growing place)
    (fits : (s.goto t place).Fits t place) : (s.goto t place).Coherent :=
  coherent.of_move t place s.lock s.replies coherent.fair growing fits (fun _ => id) fun _ => .inl

/-- A step of an extending write, which has the inode for itself. -/
theorem Coherent.of_growing {data : InodeData} (holds : (t, true) ∈ s.lock.holders)
    (longer : s.data.file.length ≤ data.file.length) (growing : Growing place)
    (fits : ({ s with data }.goto t place).Fits t place) :
    ({ s with data }.goto t place).Coherent := by
  apply coherent.of_step t
  · exact coherent.fair
  · rw [goto_place_self]
    exact fits
  · intro u ne
    exact ⟨goto_place_of_ne _ _ ne, id, fun holdsU => absurd holdsU (coherent.alone holds ne),
      fun holdsU => absurd holdsU (coherent.alone holds ne)⟩
  · exact List.Subset.refl _
  · exact longer
  · intro noneGrowing
    refine absurd ?_ (noneGrowing t)
    rw [goto_place_self]
    exact growing
  · exact coherent.latest
  · exact fun r mem => .inl mem

theorem Coherent.acquire
    (notGrowing : ¬ Growing (s.place t)) (run : s.acquire t writer place = some s')
    (fits : ∀ lock : RwlockRun Tid, ({ s with lock }.goto t place).Fits t place) :
    s'.Coherent := by
  obtain ⟨lock, taken, rfl⟩ := map_eq_some_iff.mp run
  exact coherent.of_move t place lock s.replies (coherent.fair.acquire taken)
    notGrowing.elim (fits lock)
    (fun _ => RwlockRun.acquire_holders taken) fun _ => .inl

theorem Coherent.release {replies : List ReadReply}
    (notGrowing : ¬ Growing (s.place t)) (run : { s with replies }.release t writer = some s')
    (whole : ∀ r ∈ replies, r ∈ s.replies ∨ r.Whole s.versions) : s'.Coherent := by
  obtain ⟨lock, given, rfl⟩ := map_eq_some_iff.mp run
  exact coherent.of_move t .outside lock replies (coherent.fair.release given)
    notGrowing.elim trivial
    (RwlockRun.release_holders given).2 whole

theorem Coherent.readTurn
    (place : s.place t = .reading size offset got false) (holds : (t, false) ∈ s.lock.holders) :
    (s.readTurn t size offset got).Coherent := by
  have notGrowing : ¬ Growing (s.place t) := by
    rw [place]
    exact id
  have sees := coherent.data_eq holds notGrowing
  have old : GotFrom s.versions s.settled size offset got false := by
    have fits := coherent.fits t
    rw [place] at fits
    exact fits.2
  unfold InodeThreads.readTurn
  dsimp only
  rw [sees]
  split
  · rename_i stop
    exact coherent.of_goto notGrowing.elim ⟨fun _ => holds, old.stop stop⟩
  · rename_i go
    exact coherent.of_goto notGrowing.elim ⟨fun _ => holds, old.turn coherent.latest go⟩

theorem Coherent.writeGrow
    (place : s.place t = .locking w writer) (holds : (t, writer) ∈ s.lock.holders)
    (undone : s.GrowthUndone (.writeGrow t result))
    (run : s.writeGrow t w writer result = some s') : s'.Coherent := by
  have notGrowing : ¬ Growing (s.place t) := by
    rw [place]
    exact id
  unfold InodeThreads.writeGrow at run
  split at run
  · rename_i extend
    have exclusive := coherent.exclusive_of_extends place extend
    subst exclusive
    split at run
    · rw [← some.inj run]
      have sees := coherent.data_eq holds notGrowing
      refine coherent.of_growing holds le_grow_length rfl
        ⟨holds, fun _ => ⟨rfl, ?_, Nat.zero_le _, ?_, nofun⟩⟩
      · show s.settled.data.Extends w
        rwa [← sees]
      · show s.data.grow w = s.settled.data.partly w 0
        rw [← sees, partly_zero extend]
    · rw [undone.growFailed] at run
      exact coherent.release notGrowing run fun _ => .inl
  · rw [← some.inj run]
    exact coherent.of_goto notGrowing.elim ⟨holds, nofun⟩

theorem Coherent.writeTurn_grown (place : s.place t = .writing w writer true written false)
    (run : s.writeTurn t w writer true written = some s') : s'.Coherent := by
  have fits := coherent.fits t
  rw [place] at fits
  obtain ⟨holds, growing⟩ := fits
  obtain ⟨rfl, extend, within, part, -⟩ := growing rfl
  have length := partly_length extend within
  rw [← part] at length
  unfold InodeThreads.writeTurn at run
  dsimp only at run
  split at run
  · rename_i done
    rw [← some.inj run]
    exact coherent.of_goto (fun _ => rfl)
      ⟨holds, fun _ => ⟨rfl, extend, within, part, fun _ => Nat.le_antisymm within done⟩⟩
  rename_i more
  split at run
  · cases run
  rw [if_neg (by omega), if_pos rfl] at run
  rw [← some.inj run]
  have asked := s.data.chunk_le_size (w.size - written) (w.offset + written)
  refine coherent.of_growing holds le_writeChunk_length rfl
    ⟨holds, fun _ => ⟨rfl, extend, by omega, ?_, nofun⟩⟩
  show s.data.writeChunk w written = s.settled.data.partly w _
  rw [part, partly_writeChunk]

theorem Coherent.writeTurn_inside (place : s.place t = .writing w writer false written false)
    (run : s.writeTurn t w writer false written = some s') : s'.Coherent := by
  have notGrowing : ¬ Growing (s.place t) := by
    rw [place]
    exact Bool.false_ne_true
  have fits := coherent.fits t
  rw [place] at fits
  obtain ⟨holds, -⟩ := fits
  have ended : (s.goto t (.writing w writer false written true)).Coherent :=
    coherent.of_goto notGrowing.elim ⟨holds, nofun⟩
  have sees := coherent.data_eq holds notGrowing
  unfold InodeThreads.writeTurn at run
  dsimp only at run
  split at run
  · rw [← some.inj run]
    exact ended
  split at run
  · cases run
  split at run
  · rw [← some.inj run]
    exact ended
  rename_i inside
  rw [if_neg Bool.false_ne_true] at run
  rw [← some.inj run]
  apply coherent.of_step t
  · exact coherent.fair
  · show InodeThreads.Fits _ t (update s.place t _ t)
    rw [update_self]
    exact ⟨holds, nofun⟩
  · intro u ne
    refine ⟨goto_place_of_ne _ _ ne, id, fun _ => ⟨rfl, ?_⟩, ?_⟩
    · show min (s.settled.data.writeChunk w written).file.length _ = _
      rw [writeChunk_length (by rw [← sees]; omega)]
      rfl
    · exact fun holdsU => absurd holds (coherent.alone holdsU (Ne.symm ne))
  · exact subset_cons_self ..
  · exact le_writeChunk_length
  · intro _
    show s.data.writeChunk w written = s.settled.data.writeChunk w written
    rw [sees]
  · exact mem_cons_self
  · exact fun r mem => .inl mem

/-- At the end of a write that extends the inode the next version is complete. -/
theorem Coherent.writeReturn (place : s.place t = .writing w writer grown written true)
    (run : s.writeReturn t w writer grown = some s') : s'.Coherent := by
  have fits := coherent.fits t
  rw [place] at fits
  obtain ⟨holds, growing⟩ := fits
  unfold InodeThreads.writeReturn at run
  cases grown with
  | false =>
    refine coherent.release ?_ run fun _ => .inl
    rw [place]
    exact Bool.false_ne_true
  | true =>
    obtain ⟨rfl, extend, -, part, complete⟩ := growing rfl
    rw [complete rfl] at part
    rw [if_pos rfl] at run
    obtain ⟨lock, given, rfl⟩ := map_eq_some_iff.mp run
    apply coherent.of_step t
    · exact coherent.fair.release given
    · show InodeThreads.Fits _ t (update s.place t _ t)
      rw [update_self]
      trivial
    · intro u ne
      exact ⟨goto_place_of_ne _ _ ne, (RwlockRun.release_holders given).2 ne,
        fun holdsU => absurd holdsU (coherent.alone holds ne),
        fun holdsU => absurd holdsU (coherent.alone holds ne)⟩
    · exact subset_cons_self ..
    · exact Nat.le_refl _
    · exact fun _ => part
    · exact mem_cons_self
    · exact fun r mem => .inl mem

theorem Coherent.next (step : InodeStep Tid) (undone : s.GrowthUndone step)
    (run : s.next step = some s') : s'.Coherent := by
  unfold InodeThreads.next at run
  cases step with
  | readCall t size offset =>
    dsimp only at run
    split at run
    · rename_i place
      refine coherent.acquire ?_ run fun lock => ⟨?_, GotFrom.nil ..⟩
      · rw [place]
        exact id
      rintro (notNil | ended)
      · exact absurd rfl notNil
      · cases ended
    · cases run
  | readTurn t =>
    dsimp only at run
    split at run
    · rename_i place
      rw [ite_none_right_eq_some] at run
      rw [← some.inj run.2]
      exact coherent.readTurn place run.1
    · cases run
  | readReturn t =>
    dsimp only at run
    split at run
    · rename_i size offset got place
      have fits := coherent.fits t
      rw [place] at fits
      refine coherent.release ?_ run ?_
      · rw [place]
        exact id
      intro r mem
      rcases mem_cons.mp mem with rfl | old
      · exact .inr ⟨fits.2.bytes, s.settled, coherent.latest, rfl, fits.2.stops rfl⟩
      · exact .inl old
    · cases run
  | writeCall t w =>
    dsimp only at run
    split at run
    · rename_i place
      split at run
      · rw [← some.inj run]
        exact coherent
      rw [← some.inj run]
      refine coherent.of_goto ?_ ?_
      · rw [place]
        exact False.elim
      · exact of_decide_eq_false
    · cases run
  | writeLock t =>
    dsimp only at run
    split at run
    · rename_i w longer place
      have fits := coherent.fits t
      rw [place] at fits
      refine coherent.acquire ?_ run fun lock => fits
      rw [place]
      exact id
    · cases run
  | writeGrow t result =>
    dsimp only at run
    split at run
    · rename_i place
      rw [ite_none_right_eq_some] at run
      exact coherent.writeGrow place run.1 undone run.2
    · cases run
  | writeTurn t =>
    dsimp only at run
    split at run
    · rename_i w writer grown written place
      cases grown with
      | true => exact coherent.writeTurn_grown place run
      | false => exact coherent.writeTurn_inside place run
    · cases run
  | writeReturn t =>
    dsimp only at run
    split at run
    · rename_i place
      exact coherent.writeReturn place run
    · cases run

end

theorem Coherent.of_reachable (reach : Reachable Initial InodeThreads.next GrowthUndone s) :
    s.Coherent := by
  apply reach.invariant
  · rintro s ⟨free, outside, settled, versions, noReply⟩
    refine ⟨?_, ?_, fun _ => settled.symm, ?_, ?_⟩
    · rw [free]
      exact .init
    · intro t
      rw [outside t]
      trivial
    · rw [versions]
      exact mem_singleton.mpr rfl
    · rw [noReply]
      exact fun r mem => nomatch mem
  · intro s step s' coherent undone run
    exact coherent.next step undone run

/-- What a step does to the last version: nothing, a change inside it, or a whole
    write that extends it. -/
def Revises (old new : Version) : Prop :=
  new = old ∨
    (new.extended = old.extended ∧ new.data.file.length = old.data.file.length) ∨
    ∃ w : WriteCall, old.data.Extends w ∧ new.extended = old.extended + 1 ∧
      new.data.file = old.data.file.write w.buffer w.size w.offset

theorem acquire_data
    (run : s.acquire t writer place = some s') : s'.data = s.data ∧ s'.settled = s.settled := by
  obtain ⟨lock, -, rfl⟩ := map_eq_some_iff.mp run
  exact ⟨rfl, rfl⟩

theorem release_data (run : s.release t writer = some s') :
    s'.data = s.data ∧ s'.settled = s.settled := by
  obtain ⟨lock, -, rfl⟩ := map_eq_some_iff.mp run
  exact ⟨rfl, rfl⟩

theorem Coherent.writeGrow_data (coherent : s.Coherent) (place : s.place t = .locking w writer)
    (holds : (t, writer) ∈ s.lock.holders) (run : s.writeGrow t w writer result = some s') :
    s'.settled = s.settled ∧ (s'.data.file.length = s.data.file.length ∨
      s.lock.holders = [(t, true)] ∧ s.data.file.length < s'.data.file.length) := by
  unfold InodeThreads.writeGrow at run
  split at run
  · rename_i extend
    have exclusive := coherent.exclusive_of_extends place extend
    subst exclusive
    split at run
    · rw [← some.inj run]
      refine ⟨rfl, .inr ⟨coherent.fair.sole_writer holds, ?_⟩⟩
      have := extend.lt
      show s.data.file.length < max s.data.file.length w.endOfs.toNat
      rw [extend.toNat]
      omega
    · obtain ⟨sameData, sameSettled⟩ := release_data run
      refine ⟨sameSettled, .inl ?_⟩
      rw [sameData]
      exact growFailed_length
  · rw [← some.inj run]
    exact ⟨rfl, .inl rfl⟩

theorem Coherent.writeTurn_data (coherent : s.Coherent)
    (place : s.place t = .writing w writer grown written false)
    (run : s.writeTurn t w writer grown written = some s') :
    Revises s.settled s'.settled ∧ s'.data.file.length = s.data.file.length := by
  unfold InodeThreads.writeTurn at run
  dsimp only at run
  split at run
  · rw [← some.inj run]
    exact ⟨.inl rfl, rfl⟩
  split at run
  · cases run
  split at run
  · rw [← some.inj run]
    exact ⟨.inl rfl, rfl⟩
  rename_i inside
  have length : (s.data.writeChunk w written).file.length = s.data.file.length :=
    writeChunk_length (by omega)
  rw [← some.inj run]
  cases grown with
  | true => exact ⟨.inl rfl, length⟩
  | false =>
    have fits := coherent.fits t
    rw [place] at fits
    have sees := coherent.data_eq fits.1 (by rw [place]; exact Bool.false_ne_true)
    refine ⟨.inr (.inl ⟨rfl, ?_⟩), length⟩
    rw [← sees]
    exact length

/-- The length changes only where the second test finds a write past the end, and the
    versions follow each other as they should. -/
theorem Coherent.next_data (coherent : s.Coherent) (step : InodeStep Tid)
    (run : s.next step = some s') :
    Revises s.settled s'.settled ∧ (s'.data.file.length = s.data.file.length ∨
      ∃ t result, step = .writeGrow t result ∧ s.lock.holders = [(t, true)] ∧
        s.data.file.length < s'.data.file.length) := by
  suffices (s'.data = s.data ∧ s'.settled = s.settled) ∨ _ from
    this.elim (fun same => ⟨.inl same.2, .inl (by rw [same.1])⟩) id
  unfold InodeThreads.next at run
  cases step with
  | readCall t size offset =>
    dsimp only at run
    split at run
    · exact .inl (acquire_data run)
    · cases run
  | readTurn t =>
    dsimp only at run
    split at run
    · rw [ite_none_right_eq_some] at run
      rw [← some.inj run.2]
      left
      unfold InodeThreads.readTurn
      dsimp only
      split <;> exact ⟨rfl, rfl⟩
    · cases run
  | readReturn t =>
    dsimp only at run
    split at run
    · have same := release_data run
      exact .inl same
    · cases run
  | writeCall t w =>
    dsimp only at run
    split at run
    · split at run <;> rw [← some.inj run] <;> exact .inl ⟨rfl, rfl⟩
    · cases run
  | writeLock t =>
    dsimp only at run
    split at run
    · exact .inl (acquire_data run)
    · cases run
  | writeGrow t result =>
    dsimp only at run
    split at run
    · rename_i place
      rw [ite_none_right_eq_some] at run
      obtain ⟨sameSettled, length⟩ := coherent.writeGrow_data place run.1 run.2
      exact .inr ⟨.inl sameSettled, length.imp_right fun grows => ⟨t, result, rfl, grows⟩⟩
    · cases run
  | writeTurn t =>
    dsimp only at run
    split at run
    · rename_i place
      exact .inr ((coherent.writeTurn_data place run).imp_right .inl)
    · cases run
  | writeReturn t =>
    dsimp only at run
    split at run
    swap
    · cases run
    rename_i w writer grown written place
    have fits := coherent.fits t
    rw [place] at fits
    unfold InodeThreads.writeReturn at run
    cases grown with
    | false => exact .inl (release_data run)
    | true =>
      obtain ⟨-, extend, -⟩ := fits.2 rfl
      obtain ⟨sameData, settled⟩ := release_data run
      rw [sameData, settled]
      exact .inr ⟨.inr (.inr ⟨w, extend, rfl, partly_size extend⟩), .inl rfl⟩

/-- In every run in which a growth that fails is undone, `inode_grow_unlocked` is called only by a
    thread that has the inode for itself, the length changes only there and never gets smaller, and
    every `inode_read_at` returns bytes of versions between the same extending writes, each of them
    complete. -/
theorem extending_writes_exclusive_and_whole
    (reached : Reachable Initial InodeThreads.next GrowthUndone s) :
    (∀ t w writer, s.place t = .locking w writer → (t, writer) ∈ s.lock.holders →
      s.data.Extends w → s.lock.holders = [(t, true)]) ∧
    (∀ step s', s.next step = some s' → Revises s.settled s'.settled ∧
      (s'.data.file.length = s.data.file.length ∨
        ∃ t result, step = .writeGrow t result ∧ s.lock.holders = [(t, true)] ∧
          s.data.file.length < s'.data.file.length)) ∧
    ∀ r ∈ s.replies, r.Whole s.versions := by
  have coherent := Coherent.of_reachable reached
  refine ⟨?_, fun step s' => coherent.next_data step, coherent.whole⟩
  intro t w writer place holds extend
  have exclusive := coherent.exclusive_of_extends place extend
  subst exclusive
  exact coherent.fair.sole_writer holds

instance (s : InodeThreads Tid) (step : InodeStep Tid) : Decidable (s.GrowthUndone step) := by
  unfold GrowthUndone
  split <;> infer_instance

/-- An inode of zeros that no thread uses. -/
def unused (length sectors : Nat) : InodeThreads Nat :=
  ⟨⟨.zeros length, sectors⟩, 0, .init, fun _ => .outside, ⟨0, .zeros length, sectors⟩,
    [⟨0, .zeros length, sectors⟩], []⟩

theorem unused_initial (length sectors : Nat) : Initial (unused length sectors) :=
  ⟨rfl, fun _ => rfl, rfl, rfl, rfl⟩

/-- A reader that asks for the lock while a write extends the empty inode gets all the
    bytes of the write. -/
theorem extending_writes_exclusive_and_whole_reader :
    ∃ s : InodeThreads Nat, Reachable Initial InodeThreads.next GrowthUndone s ∧
      s.replies.map ReadReply.bytes = [[7, 7, 7]] ∧ ∀ r ∈ s.replies, r.Whole s.versions := by
  let w : WriteCall := ⟨fun _ => 7, 3, 0, by decide, by decide⟩
  obtain ⟨s, reached, shape⟩ := reachable_of_run InodeThreads.next GrowthUndone (unused_initial 0 0)
    [.writeCall 1 w, .writeLock 1, .writeGrow 1 .grown, .readCall 2 4 0, .writeTurn 1, .writeTurn 1,
      .writeReturn 1, .readTurn 2, .readTurn 2, .readReturn 2]
    (fun s => s.replies.map ReadReply.bytes = [[7, 7, 7]]) (by decide)
  exact ⟨s, reached, shape, (extending_writes_exclusive_and_whole reached).2.2⟩

/-- A write fails to extend an inode of eleven sectors, as there is no free sector. A read of the
    last of them then returns nothing. -/
theorem failed_growth_cuts_reads : ¬∀ s : InodeThreads Nat,
    Reachable Initial InodeThreads.next AnyStep s → ∀ r ∈ s.replies, r.Whole s.versions := by
  intro always
  let w : WriteCall := ⟨fun _ => 7, 512, 5632, by decide, by decide⟩
  obtain ⟨s, reached, replies, versions⟩ := reachable_of_run InodeThreads.next AnyStep
    (unused_initial 5632 11)
    [.writeCall 1 w, .writeLock 1, .writeGrow 1 .noSector, .readCall 2 1 5120, .readTurn 2,
      .readReturn 2]
    (fun s => (s.replies.map fun r => (r.size, r.offset, r.bytes.length)) = [(1, 5120, 0)] ∧
      s.versions.map (fun v => v.data.readable) = [5632]) (by decide)
  obtain ⟨r, isReply, shape⟩ := map_eq_singleton_iff.mp replies
  obtain ⟨v, isVersion, readable⟩ := map_eq_singleton_iff.mp versions
  obtain ⟨-, v', member, -, length⟩ := always s reached r (by rw [isReply]; exact mem_singleton.mpr rfl)
  rw [isVersion, mem_singleton] at member
  rw [member, readable] at length
  simp only [Prod.mk.injEq] at shape
  omega

end InodeThreads

end Pintos
