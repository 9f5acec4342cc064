import Pintos.Filesys.DirThreads
import Pintos.Misc.Transition

/-!
# Directories under concurrent changes

Only the writes of slots change what a directory holds. As long as each of them
finds what its scan found and no growth fails in a directory that has index blocks,
names stay unique and no entry is lost. Two `dir_add` calls that scan before either
writes choose the same slot; a growth that fails takes the entries past the direct
sectors with it.
-/

namespace Pintos

open List Option DirEvent DirEntry
namespace DirThreads

variable {Tid : Type} {entries : List DirEntry} {slot i : Nat} {e e' : DirEntry} {name : FileName}
  {s s' : DirThreads Tid}

attribute [local simp] DirEvent.removes DirEvent.adds

theorem writeSlot_self (entries : List DirEntry) (slot : Nat) (e : DirEntry) :
    (writeSlot entries slot e)[slot]? = some e := by
  unfold writeSlot
  split
  · rename_i inside
    simp [inside]
  rename_i outside
  have length : slot = (entries ++ replicate (slot - entries.length) zero).length := by
    simp only [length_append, length_replicate]
    omega
  rw [getElem?_append_right (le_of_eq length.symm)]
  simp [← length]

theorem writeSlot_keep (hi : i ≠ slot)
    (here : entries[i]? = some e') : (writeSlot entries slot e)[i]? = some e' := by
  unfold writeSlot
  split
  · rw [List.getElem?_set_ne (Ne.symm hi)]
    exact here
  obtain ⟨small, -⟩ := List.getElem?_eq_some_iff.mp here
  rw [append_assoc, List.getElem?_append_left small]
  exact here

theorem writeSlot_other (hi : i ≠ slot)
    (here : (writeSlot entries slot e)[i]? = some e') : entries[i]? = some e' ∨ e' = .zero := by
  unfold writeSlot at here
  split at here
  · rw [getElem?_set_ne (Ne.symm hi)] at here
    exact .inl here
  rename_i outside
  have mem := mem_of_getElem? here
  by_cases small : i < entries.length
  · rw [append_assoc, getElem?_append_left small] at here
    exact .inl here
  rw [append_assoc, getElem?_append_right (by omega)] at here
  by_cases gap : i - entries.length < slot - entries.length
  · rw [getElem?_append_left (by simpa using gap), getElem?_replicate, if_pos gap] at here
    exact .inr (some.inj here).symm
  rw [List.getElem?_append_right (by simpa using gap), length_replicate] at here
  obtain ⟨last, -⟩ := List.getElem?_eq_some_iff.mp here
  simp only [length_singleton] at last
  omega

theorem present_iff : Present entries name ↔
      ∃ (i : Nat) (e : DirEntry), entries[i]? = some e ∧ e.isNamed name = true := by
  constructor
  · rintro ⟨e, mem, named⟩
    obtain ⟨i, here⟩ := mem_iff_getElem?.mp mem
    exact ⟨i, e, here, named⟩
  · rintro ⟨i, e, here, named⟩
    exact ⟨e, mem_of_getElem? here, named⟩

/-- An entry in use after the write is the new one, or it was there before. -/
theorem writeSlot_named (here : (writeSlot entries slot e)[i]? = some e')
    (named : e'.isNamed name = true) : i = slot ∧ e' = e ∨ i ≠ slot ∧ entries[i]? = some e' := by
  by_cases hi : i = slot
  · subst hi
    rw [writeSlot_self, some.injEq] at here
    exact .inl ⟨rfl, here.symm⟩
  rcases writeSlot_other hi here with old | rfl
  · exact .inr ⟨hi, old⟩
  · cases named

theorem writeSlot_unused (unused : e.inUse = false)
    (here : (writeSlot entries slot e)[i]? = some e') (named : e'.isNamed name = true) :
    i ≠ slot ∧ entries[i]? = some e' := by
  refine (writeSlot_named here named).resolve_left ?_
  rintro ⟨-, rfl⟩
  rw [isNamed, unused] at named
  cases named

theorem Present.writeSlot (present : Present entries name)
    (free : ∀ e' : DirEntry, entries[slot]? = some e' → ¬e'.isNamed name = true) :
    Present (DirThreads.writeSlot entries slot e) name := by
  obtain ⟨i, e', here, hit⟩ := present_iff.mp present
  refine present_iff.mpr ⟨i, e', writeSlot_keep ?_ here, hit⟩
  rintro rfl
  exact free e' here hit

theorem UniqueNames.add (unique : UniqueNames entries) (absent : ¬Present entries e.name) :
    UniqueNames (writeSlot entries slot e) := by
  have clash : ∀ {i : Nat} {e' : DirEntry} {name}, entries[i]? = some e' →
      e'.isNamed name = true → ¬e.isNamed name = true := by
    intro i e' name old named own
    have same : e.name = name := by
      simp only [isNamed, Bool.and_eq_true, beq_iff_eq] at own
      exact own.2
    exact absent (present_iff.mpr ⟨i, e', old, same ▸ named⟩)
  intro name i j e₁ e₂ here₁ here₂ named₁ named₂
  rcases writeSlot_named here₁ named₁ with ⟨rfl, rfl⟩ | ⟨-, old₁⟩ <;>
    rcases writeSlot_named here₂ named₂ with ⟨rfl, rfl⟩ | ⟨-, old₂⟩
  · rfl
  · exact absurd named₁ (clash old₂ named₂)
  · exact absurd named₂ (clash old₁ named₁)
  · exact unique name i j e₁ e₂ old₁ old₂ named₁ named₂

theorem UniqueNames.erase (unique : UniqueNames entries) (unused : e.inUse = false) :
    UniqueNames (writeSlot entries slot e) := by
  intro name i j e₁ e₂ here₁ here₂ named₁ named₂
  exact unique name i j e₁ e₂ (writeSlot_unused unused here₁ named₁).2
    (writeSlot_unused unused here₂ named₂).2 named₁ named₂

/-- The invariant behind `Consistent`: the newest event for a name says whether
    the name is there. -/
structure Inv (s : DirThreads Tid) : Prop where
  whole : s.cut = false
  unique : UniqueNames s.entries
  adds : ∀ name, Separated (DirEvent.adds name) (DirEvent.removes name) s.log
  removes : ∀ name, Separated (DirEvent.removes name) (DirEvent.adds name) s.log
  added : ∀ name, lastEvent (DirEvent.adds name) (DirEvent.removes name) s.log =
    some (.added name) → Present s.entries name
  removed : ∀ name, lastEvent (DirEvent.adds name) (DirEvent.removes name) s.log =
    some (.removed name) → ¬Present s.entries name

theorem readable_of_whole (whole : s.cut = false) : s.readable = s.entries := by
  simp [readable, whole]

theorem Inv.consistent (inv : s.Inv) : s.Consistent := by
  have same := readable_of_whole inv.whole
  refine ⟨?_, fun name => ⟨inv.adds name, inv.removes name⟩, ?_⟩
  · rw [same]
    exact inv.unique
  · rw [same]
    exact inv.added

theorem Inv.of_same (inv : s.Inv) (cut : s'.cut = s.cut) (entries : s'.entries = s.entries)
    (log : s'.log = s.log) : s'.Inv := by
  refine ⟨cut.trans inv.whole, ?_, ?_, ?_, ?_, ?_⟩
  · rw [entries]
    exact inv.unique
  · rw [log]
    exact inv.adds
  · rw [log]
    exact inv.removes
  · rw [log, entries]
    exact inv.added
  · rw [log, entries]
    exact inv.removed

theorem lastEvent_name {log : List DirEvent} {e : DirEvent}
    (last : lastEvent (adds name) (removes name) log = some e) :
    e = .added name ∨ e = .removed name := by
  have kind := lastEvent_some last
  cases e with
  | added n | removed n => simpa [adds, removes] using kind

/-- The slot write of `dir_add`. -/
theorem Inv.writeAdd (inv : s.Inv) (named : e.isNamed name = true)
    (free : ∀ e' : DirEntry, s.entries[slot]? = some e' → e'.inUse = false)
    (absent : ¬Present s.entries name) (cut : s'.cut = s.cut)
    (entries : s'.entries = writeSlot s.entries slot e)
    (log : s'.log = .added name :: s.log) : s'.Inv := by
  obtain ⟨-, same⟩ : e.inUse = true ∧ e.name = name := by
    simpa [isNamed] using named
  -- The slot was free, so no other name loses its entry.
  have keeps : ∀ other, Present s.entries other → Present s'.entries other := by
    intro other present
    rw [entries]
    apply present.writeSlot
    intro e' here hit
    rw [isNamed, free e' here] at hit
    cases hit
  have gains : ∀ other, other ≠ name → Present s'.entries other → Present s.entries other := by
    intro other ne present
    rw [entries] at present
    obtain ⟨i, e', here, hit⟩ := present_iff.mp present
    rcases writeSlot_named here hit with ⟨-, rfl⟩ | ⟨-, old⟩
    · rw [isNamed, same] at hit
      simp [Ne.symm ne] at hit
    · exact present_iff.mpr ⟨i, e', old, hit⟩
  refine ⟨cut.trans inv.whole, ?_, ?_, ?_, ?_, ?_⟩
  · rw [entries]
    exact inv.unique.add (same ▸ absent)
  · intro other
    rw [log]
    refine (inv.adds other).cons ?_
    intro isAdd ev last
    simp only [DirEvent.adds, beq_iff_eq] at isAdd
    subst isAdd
    rcases lastEvent_name last with rfl | rfl
    · exact absurd (inv.added name last) absent
    · rfl
  · intro other
    rw [log]
    refine (inv.removes other).cons ?_
    intro isRemove
    cases isRemove
  · intro other last
    rw [log] at last
    by_cases here : name = other
    · subst here
      rw [entries]
      exact present_iff.mpr ⟨slot, e, writeSlot_self _ _ _, named⟩
    · rw [lastEvent_cons_of_neither (by simp [here]) rfl] at last
      exact keeps other (inv.added other last)
  intro other last
  rw [log] at last
  by_cases here : name = other
  · rw [lastEvent_cons_of_either (.inl (by simp [here]))] at last
    cases last
  · rw [lastEvent_cons_of_neither (by simp [here]) rfl] at last
    exact fun present => inv.removed other last (gains other (Ne.symm here) present)

/-- The slot write of `dir_remove`. -/
theorem Inv.writeRemove (inv : s.Inv) (unused : e.inUse = false) (found : s.entries[slot]? = some e')
    (named : e'.isNamed name = true) (cut : s'.cut = s.cut)
    (entries : s'.entries = writeSlot s.entries slot e) (log : s'.log = .removed name :: s.log) :
    s'.Inv := by
  have hasName : e'.name = name := by
    simp only [isNamed, Bool.and_eq_true, beq_iff_eq] at named
    exact named.2
  have others : ∀ other, other ≠ name → Present s.entries other → Present s'.entries other := by
    intro other ne present
    rw [entries]
    apply present.writeSlot
    intro f here hit
    rw [found, some.injEq] at here
    rw [← here, isNamed, hasName] at hit
    simp [Ne.symm ne] at hit
  -- Whatever is in use afterwards was in use before, in another slot.
  have before : ∀ other, Present s'.entries other →
      ∃ i, ∃ f : DirEntry, i ≠ slot ∧ s.entries[i]? = some f ∧ f.isNamed other = true := by
    intro other present
    rw [entries] at present
    obtain ⟨i, f, here, hit⟩ := present_iff.mp present
    obtain ⟨hi, old⟩ := writeSlot_unused unused here hit
    exact ⟨i, f, hi, old, hit⟩
  refine ⟨cut.trans inv.whole, ?_, ?_, ?_, ?_, ?_⟩
  · rw [entries]
    exact inv.unique.erase unused
  · intro other
    rw [log]
    refine (inv.adds other).cons ?_
    intro isAdd
    cases isAdd
  · intro other
    rw [log]
    refine (inv.removes other).cons ?_
    intro isRemove ev last
    simp only [DirEvent.removes, beq_iff_eq] at isRemove
    subst isRemove
    rw [lastEvent_comm] at last
    rcases lastEvent_name last with rfl | rfl
    · rfl
    · exact absurd (present_iff.mpr ⟨slot, e', found, named⟩) (inv.removed name last)
  · intro other last
    rw [log] at last
    by_cases here : name = other
    · rw [lastEvent_cons_of_either (.inr (by simp [here]))] at last
      cases last
    · rw [lastEvent_cons_of_neither rfl (by simp [here])] at last
      exact others other (Ne.symm here) (inv.added other last)
  intro other last present
  rw [log] at last
  obtain ⟨i, f, hi, here, hit⟩ := before other present
  by_cases same : name = other
  · subst same
    exact hi (inv.unique name i slot f e' here found hit named)
  · rw [lastEvent_cons_of_neither rfl (by simp [same])] at last
    exact inv.removed other last (present_iff.mpr ⟨i, f, here, hit⟩)

/-- A growth that fails takes the entries past the direct sectors with it. -/
theorem writeAt_loses {ok written : Bool} (fails : s.canWrite slot ok = false)
    (large : directSlots < s.entries.length) (write : s.writeAt slot e ok = some (s', written)) :
    written = false ∧ s'.readable = s.entries.take directSlots := by
  simp only [writeAt, fails, Bool.false_eq_true, if_false, some.injEq, Prod.mk.injEq] at write
  obtain ⟨rfl, rfl⟩ := write
  simp [readable, large]

/-- The writes of a run that keeps to `Undisturbed`. -/
theorem Inv.writeAt (inv : s.Inv) {ok written : Bool}
    (calm : s.canWrite slot ok ∨ s.entries.length ≤ directSlots)
    (write : s.writeAt slot e ok = some (s', written)) :
    s'.log = s.log ∧ s'.cut = s.cut ∧
      s'.entries = if written then writeSlot s.entries slot e else s.entries := by
  simp only [DirThreads.writeAt, inv.whole, Bool.false_eq_true, false_and, if_false] at write
  split at write
  · cases write
    exact ⟨rfl, inv.whole.symm, rfl⟩
  rename_i fails
  cases write
  exact ⟨rfl, by simp [inv.whole, calm.resolve_left fails], rfl⟩

variable [DecidableEq Tid]

theorem Inv.goto (inv : s.Inv) (t : Tid) (phase : DirPhase) :
    (s.goto t phase).Inv := inv.of_same rfl rfl rfl

theorem Inv.run (inv : s.Inv) {t : Tid} {ok : Bool}
    (calm : s.Undisturbed (.run t ok)) (step : s.runPhase t ok = some s') : s'.Inv := by
  unfold runPhase at step
  simp only [Undisturbed] at calm
  cases phase : s.phase t with
  | idle => simp [phase] at step
  | addLookup name sector slot | addScan name sector slot =>
    simp only [phase] at step
    split at step
    · exact some.inj step ▸ inv.goto t _
    · split at step <;> exact some.inj step ▸ inv.goto t _
  | addWrite name sector slot =>
    simp only [phase, readable_of_whole inv.whole] at step calm
    obtain ⟨free, absent, grows⟩ := calm
    obtain ⟨⟨s₁, written⟩, write, rfl⟩ := map_eq_some_iff.mp step
    obtain ⟨log, cut, entries⟩ := inv.writeAt grows write
    cases written with
    | true => exact inv.writeAdd (by simp [isNamed]) free absent cut entries (congrArg _ log)
    | false => exact (inv.of_same cut entries log).goto t _
  | addCount =>
    simp only [phase] at step
    exact some.inj step ▸ inv.of_same rfl rfl rfl
  | removeLookup name slot =>
    simp only [phase] at step
    split at step
    · exact some.inj step ▸ inv.goto t _
    split at step
    · exact some.inj step ▸ inv.goto t _
    split at step
    · exact some.inj step ▸ inv.goto t _
    · split at step <;> exact some.inj step ▸ inv.goto t _
  | removeCheck e slot =>
    simp only [phase] at step
    split at step <;> exact some.inj step ▸ inv.goto t _
  | removeWrite e slot =>
    simp only [phase, readable_of_whole inv.whole] at step calm
    obtain ⟨e', found, named⟩ := calm
    obtain ⟨⟨s₁, written⟩, write, rfl⟩ := map_eq_some_iff.mp step
    obtain ⟨inside, -⟩ := List.getElem?_eq_some_iff.mp found
    obtain ⟨log, cut, entries⟩ := inv.writeAt (.inl (by simp [canWrite, inside])) write
    cases written with
    | true => exact inv.writeRemove rfl found named cut entries (congrArg _ log)
    | false => exact (inv.of_same cut entries log).goto t _
  | removeInode | removeCount =>
    simp only [phase] at step
    exact some.inj step ▸ inv.of_same rfl rfl rfl

theorem Inv.step (inv : s.Inv) {a : DirStep Tid}
    (calm : s.Undisturbed a) (step : s.next a = some s') : s'.Inv := by
  cases a with
  | add t name sector =>
    simp only [next] at step
    split at step
    · split at step
      · exact some.inj step ▸ inv.goto t _
      · exact some.inj step ▸ inv
    · cases step
  | remove t name =>
    simp only [next] at step
    split at step
    · exact some.inj step ▸ inv.goto t _
    · cases step
  | run t ok => exact inv.run calm step

instance (s : DirThreads Tid) (a : DirStep Tid) : Decidable (s.Undisturbed a) := by
  unfold Undisturbed
  cases a <;> dsimp only <;> first | infer_instance | (split <;> infer_instance)

end DirThreads
end Pintos
