import Pintos.Filesys.Tree

/-!
# Entries in the content of a directory

What replacing one entry does to the entries, to the number of those in use and to
the search for a name.
-/

namespace Pintos

open List

variable {e f : EntryBytes} {k n : Nat} {name : FileName} {p q : Nat → Prop}

/-! ## The fields of an entry -/

namespace EntryBytes

theorem decode_congr (same : ∀ k < entrySize, e k = f k) : e.decode = f.decode := by
  have word : wordAt e 0 = wordAt f 0 :=
    wordAt_congr fun k _ high => same k (by show k < 36; omega)
  have name : (range (nameMax + 1)).map (fun k => e (4 + k)) =
      (range (nameMax + 1)).map fun k => f (4 + k) := by
    apply map_congr_left
    intro k hk
    have low : k < 31 := mem_range.mp hk
    exact same (4 + k) (by show 4 + k < 36; omega)
  unfold decode
  rw [word, name, same 35 (by decide)]

variable (e : EntryBytes) (s : BlockSector)

@[simp] theorem inUse_setInUse (inUse : Bool) :
    (e.setInUse inUse).decode.inUse = inUse := by
  cases inUse <;> rfl

@[simp] theorem inodeSector_setInodeSector :
    (e.setInodeSector s).decode.inodeSector = s := by
  have bytes : wordAt (e.setInodeSector s) 0 = wordAt (bytesOf fun _ => s) 0 := by
    apply wordAt_congr
    intro k _ high
    exact if_pos (by omega)
  exact bytes.trans (wordAt_bytesOf ..)

@[simp] theorem inUse_setInodeSector :
    (e.setInodeSector s).decode.inUse = e.decode.inUse := rfl

@[simp] theorem name_setInodeSector :
    (e.setInodeSector s).decode.name = e.decode.name := by
  have bytes : (range (nameMax + 1)).map (fun k => e.setInodeSector s (4 + k)) =
      (range (nameMax + 1)).map fun k => e (4 + k) := by
    apply map_congr_left
    intro k _
    exact if_neg (by omega)
  exact congrArg (takeWhile (· != 0)) bytes

/-- The bytes that `strlcpy` writes are those of the name. -/
theorem setName_of_name (name : FileName) (other : k < 4 ∨ 34 < k) : e.setName name k = e k := by
  apply if_pos
  have := Nat.min_le_right name.length nameMax
  unfold nameMax at this ⊢
  omega

@[simp] theorem inodeSector_setName (name : FileName) :
    (e.setName name).decode.inodeSector = e.decode.inodeSector := by
  apply wordAt_congr
  intro k _ high
  exact setName_of_name e name (Or.inl (by omega))

@[simp] theorem inUse_setName (name : FileName) :
    (e.setName name).decode.inUse = e.decode.inUse := by
  show (e.setName name 35 != 0) = (e 35 != 0)
  rw [setName_of_name e name (Or.inr (by decide))]

theorem name_setName (short : name.length ≤ nameMax)
    (noNull : 0 ∉ name) : (e.setName name).decode.name = name := by
  have bytes : ∀ k, e.setName name (4 + k) =
      if k < name.length then name.getD k 0 else if k = name.length then 0 else e (4 + k) := by
    intro k
    unfold setName
    rw [Nat.min_eq_left short]
    by_cases inside : k < name.length
    · rw [if_neg (by omega), if_neg (by omega), if_pos inside, Nat.add_sub_cancel_left]
    by_cases last : k = name.length
    · rw [if_neg (by omega), if_pos (by omega), if_neg inside, if_pos last]
    · rw [if_pos (by omega), if_neg inside, if_neg last]
  obtain ⟨rest, isRest⟩ : ∃ rest, nameMax + 1 = name.length + (rest + 1) :=
    ⟨nameMax - name.length, by omega⟩
  have front : (range name.length).map (fun k => e.setName name (4 + k)) = name := by
    apply ext_getElem
    · simp
    · intro k _ inside
      simp [bytes, inside]
  show ((range (nameMax + 1)).map fun k => e.setName name (4 + k)).takeWhile (· != 0) = name
  rw [isRest, range_add, map_append, front, takeWhile_append_of_pos]
  · rw [range_succ_eq_map, map_cons, map_cons, takeWhile_cons_of_neg]
    · exact append_nil name
    · simp [bytes]
  intro c mem
  simp only [bne_iff_ne, ne_eq]
  rintro rfl
  exact noNull mem

end EntryBytes

namespace FileBytes

variable {b c : FileBytes} {e : EntryBytes} {i j : Nat}

/-! ## Reading an entry -/

theorem entryBytes_of_lt (low : k < entrySize) : b.entryBytes i k = b.byte (entrySize * i + k) := by
  unfold entryBytes read
  rw [getD_eq_getElem?_getD, getElem?_map]
  by_cases inside : k < min entrySize (b.length - entrySize * i)
  · simp [inside]
  · have past : b.byte (entrySize * i + k) = 0 := b.zero _ (by omega)
    simp [inside, past]

theorem entry_congr (same : ∀ k < entrySize, b.byte (entrySize * i + k) = c.byte (entrySize * i + k)) :
    b.entry i = c.entry i := by
  apply EntryBytes.decode_congr
  intro k low
  rw [entryBytes_of_lt low, entryBytes_of_lt low, same k low]

/-- The entry that is cut off by the end of the directory is not in use. -/
theorem lt_entryCnt (used : (b.entry i).inUse = true) : i < b.entryCnt := by
  by_contra after
  have past : b.length ≤ entrySize * i + 35 := by
    unfold entryCnt at after
    simp only [entrySize] at after ⊢
    omega
  have byte : b.entryBytes i 35 = 0 := (entryBytes_of_lt (by decide)).trans (b.zero _ past)
  have unused : (b.entry i).inUse = false := by
    show (b.entryBytes i 35 != 0) = false
    rw [byte]
    rfl
  rw [unused] at used
  cases used

/-! ## Replacing an entry -/

theorem entry_setEntry_self : (b.setEntry i e).entry i = e.decode := by
  apply EntryBytes.decode_congr
  intro k low
  rw [entryBytes_of_lt low, setEntry, write_byte, if_pos (by omega), Nat.add_sub_cancel_left]

theorem entry_setEntry_of_ne (ne : j ≠ i) : (b.setEntry i e).entry j = b.entry j := by
  apply entry_congr
  intro k low
  rw [setEntry, write_byte, if_neg]
  simp only [entrySize] at low ⊢
  omega

/-! ## The search for a name and for a free slot -/

theorem find_eq_some : b.find name = some i ↔
    (b.entry i).isNamed name = true ∧ ∀ j < i, (b.entry j).isNamed name = false := by
  unfold find
  rw [find?_range_eq_some]
  constructor
  · rintro ⟨named, -, old⟩
    exact ⟨named, fun j low => by simpa using old j low⟩
  rintro ⟨named, old⟩
  have used : (b.entry i).inUse = true := (Bool.and_eq_true_iff.mp named).1
  refine ⟨named, mem_range.mpr (lt_entryCnt used), ?_⟩
  intro j low
  simpa using old j low

theorem find_eq_none : b.find name = none ↔ ∀ i, (b.entry i).isNamed name = false := by
  unfold find
  rw [find?_eq_none]
  constructor
  · intro absent i
    by_cases used : (b.entry i).inUse = true
    · simpa using absent i (mem_range.mpr (lt_entryCnt used))
    · simp [DirEntry.isNamed, used]
  · intro absent i _
    simp [absent i]

theorem freeSlot_le : b.freeSlot ≤ b.entryCnt := by
  unfold freeSlot
  cases found : (range b.entryCnt).find? fun i => !(b.entry i).inUse with
  | none => exact Nat.le_refl _
  | some i => exact Nat.le_of_lt (mem_range.mp (mem_of_find?_eq_some found))

theorem inUse_freeSlot : (b.entry b.freeSlot).inUse = false := by
  unfold freeSlot
  cases found : (range b.entryCnt).find? fun i => !(b.entry i).inUse with
  | none =>
    by_contra used
    exact Nat.lt_irrefl _ (lt_entryCnt (Bool.eq_true_of_not_eq_false used))
  | some i => simpa using find?_some found

theorem find_setEntry (absent : b.find name = none) (named : e.decode.isNamed name = true) :
    (b.setEntry i e).find name = some i := by
  rw [find_eq_none] at absent
  rw [find_eq_some, entry_setEntry_self]
  refine ⟨named, ?_⟩
  intro j low
  rw [entry_setEntry_of_ne (Nat.ne_of_lt low)]
  exact absent j

/-! ## The number of entries in use -/

/-- One more number satisfies `q`. -/
theorem count_succ_of_differ [DecidablePred p] [DecidablePred q]
    (inside : i < n) (new : ¬p i) (now : q i) (same : ∀ j, j ≠ i → (q j ↔ p j)) :
    Nat.count q n = Nat.count p n + 1 := by
  rw [Nat.count_eq_card_filter_range, Nat.count_eq_card_filter_range]
  have filtered : (Finset.range n).filter q = insert i ((Finset.range n).filter p) := by
    ext j
    by_cases isI : j = i
    · simp [isI, inside, now]
    · simp [isI, same j isI]
  rw [filtered, Finset.card_insert_of_notMem]
  simp [new]

theorem usedCnt_eq_count (all : b.entryCnt ≤ n) :
    b.usedCnt = Nat.count (fun i => (b.entry i).inUse = true) n := by
  obtain ⟨k, rfl⟩ := Nat.exists_eq_add_of_le all
  have rest : Nat.count (fun j => (b.entry (b.entryCnt + j)).inUse = true) k = 0 := by
    rw [Nat.count_iff_forall_not]
    intro j _ used
    have := lt_entryCnt used
    omega
  rw [Nat.count_add, rest]
  rfl

theorem usedCnt_setEntry_used (free : (b.entry i).inUse = false) (used : e.decode.inUse = true) :
    (b.setEntry i e).usedCnt = b.usedCnt + 1 := by
  obtain ⟨n, isN⟩ : ∃ n, n = max (max b.entryCnt (b.setEntry i e).entryCnt) (i + 1) := ⟨_, rfl⟩
  rw [usedCnt_eq_count (show (b.setEntry i e).entryCnt ≤ n by omega),
    usedCnt_eq_count (show b.entryCnt ≤ n by omega)]
  apply count_succ_of_differ (show i < n by omega)
  · simp [free]
  · rw [entry_setEntry_self]
    exact used
  · intro j ne
    rw [entry_setEntry_of_ne ne]

theorem usedCnt_eq_zero : b.usedCnt = 0 ↔ ∀ i, (b.entry i).inUse = false := by
  unfold usedCnt
  rw [Nat.count_iff_forall_not]
  constructor
  · intro unused i
    by_contra used
    have used := Bool.eq_true_of_not_eq_false used
    exact unused i (lt_entryCnt used) used
  · intro unused i _
    simp [unused i]

theorem usedCnt_le : b.usedCnt ≤ b.length := (Nat.count_le _).trans (Nat.div_le_self _ _)

end FileBytes

end Pintos
