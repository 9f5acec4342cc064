import Pintos.Filesys.Proofs.Layout

/-!
# Reading and writing file data

The bytes of an inode are the bytes of its data sectors, one after the other. The
loops of `inode_read_at` and `inode_write_at`, which work in chunks of at most one
sector, read and overwrite a range of this sequence and touch nothing else.
-/

namespace Pintos

open Function List Option

variable {g g' : Heap} {data more : List BlockSector} {k i size offset len : Nat} {s : BlockSector}
  {d : InodeDisk}

/-- The byte at offset `k` of the data sectors `data`. -/
def fileByte (g : Heap) (data : List BlockSector) (k : Nat) : Byte :=
  match data[k / 512]?.bind g with
  | some c => c.byte (k % 512)
  | none => 0

theorem fileByte_of_sector
    {c : SectorData} (found : data[k / 512]? = some s) (held : g s = some c) :
    fileByte g data k = c.byte (k % 512) := by
  simp [fileByte, found, held]

theorem fileByte_congr
    (same : ∀ s ∈ data, g' s = g s) (k : Nat) : fileByte g' data k = fileByte g data k := by
  unfold fileByte
  cases found : data[k / 512]? with
  | none => rfl
  | some s => rw [bind_some, bind_some, same s (mem_of_getElem? found)]

theorem fileByte_past (data : List BlockSector)
    (past : 512 * data.length ≤ k) : fileByte g data k = 0 := by
  have absent : data[k / 512]? = none := getElem?_eq_none (by omega)
  simp [fileByte, absent]

theorem fileByte_append
    (old : k < 512 * data.length) : fileByte g (data ++ more) k = fileByte g data k := by
  unfold fileByte
  rw [getElem?_append_left (by omega)]

/-- The content of a new data sector. -/
def zeroSector : SectorData := .ofBytes fun _ => 0

theorem fileByte_append_zero (zero : ∀ s ∈ more, g s = some zeroSector) (k : Nat) :
    fileByte g (data ++ more) k = fileByte g data k := by
  by_cases old : k < 512 * data.length
  · exact fileByte_append old
  rw [fileByte_past data (by omega)]
  unfold fileByte
  rw [getElem?_append_right (by omega)]
  cases found : more[k / 512 - data.length]? with
  | none => rfl
  | some s =>
    rw [bind_some, zero s (mem_of_getElem? found)]
    exact SectorData.byte_ofBytes _ (Nat.mod_lt k (by decide))

theorem fileByte_update
    (nodup : data.Nodup) (found : data[i]? = some s) (c' : SectorData) (k : Nat) :
    fileByte (update g s (some c')) data k =
      if k / 512 = i then c'.byte (k % 512) else fileByte g data k := by
  by_cases same : k / 512 = i
  · rw [if_pos same]
    exact fileByte_of_sector (same ▸ found) (update_self ..)
  rw [if_neg same]
  unfold fileByte
  cases other : data[k / 512]? with
  | none => rfl
  | some t =>
    have ne : t ≠ s := by
      intro equal
      obtain ⟨hk, atk⟩ := List.getElem?_eq_some_iff.mp other
      obtain ⟨hi, ati⟩ := List.getElem?_eq_some_iff.mp found
      exact same (nodup.getElem_inj_iff.mp (atk.trans (equal.trans ati.symm)))
    rw [bind_some, bind_some, update_of_ne ne]

theorem chunkSize_eq (length : d.length.toInt = len) (inside : offset < len) :
    FS.chunkSize d size offset = (min size (min (len - offset) (512 - offset % 512)) : Nat) := by
  have bound : d.length.toInt < 2 ^ 31 := BitVec.toInt_lt
  have rem : (offset : Int).tmod 512 = (offset % 512 : Nat) := by
    rw [Int.tmod_eq_emod_of_nonneg (by omega)]
    omega
  unfold FS.chunkSize
  rw [rem, length, int32_of_bounds (by omega) (by omega)]
  omega

theorem chunkSize_nonpos (length : d.length.toInt = len)
    (past : len ≤ offset) (small : offset < 2 ^ 31) : FS.chunkSize d size offset ≤ 0 := by
  unfold FS.chunkSize
  rw [length, int32_of_bounds (by omega) (by omega)]
  omega

section Loops

variable {g : Heap} {d : InodeDisk} {L : Layout} {len : Nat}

theorem sector_of_offset (held : ∀ x ∈ L.data, (g x).isSome) (fits : len ≤ 512 * L.data.length)
    (inside : offset < len) :
    ∃ s c, L.data[offset / 512]? = some s ∧ g s = some c ∧
      L.data.getD (offset / 512) blockSectorNone = s := by
  have range : offset / 512 < L.data.length := by omega
  obtain ⟨c, content⟩ := isSome_iff_exists.mp (held _ (getElem_mem range))
  exact ⟨_, c, getElem?_eq_getElem range, content, getD_eq_getElem _ _ range⟩

theorem readLoop_spec (maps : Maps g d L) (held : ∀ x ∈ L.data, (g x).isSome)
    (length : d.length.toInt = len) (fits : len ≤ 512 * L.data.length) (size : Nat) :
    ∀ {fs : FS} {offset : Nat}, Stored g fs → offset < 2 ^ 31 → ∃ store, readLoop d size offset fs =
          some ((range (min size (len - offset))).map fun k => fileByte g L.data (offset + k),
            { fs with store }) ∧
        Stored g { fs with store } := by
  induction size using Nat.strong_induction_on with
  | _ size ih =>
    intro fs offset stored small
    rw [readLoop]
    by_cases pos : 0 < size
    swap
    · refine ⟨fs.store, ?_, stored⟩
      rw [if_neg (by omega), show size = 0 by omega]
      simp
    rw [if_pos (by omega)]
    obtain ⟨store, run, stored⟩ := stored.byteToSector maps offset
    rw [run]
    simp only [bind_eq_bind, bind_some]
    by_cases inside : offset < len
    swap
    -- past the end either the sector is missing or the chunk is empty
    · refine ⟨store, ?_, stored⟩
      rw [show min size (len - offset) = 0 by omega]
      split
      · rfl
      · rw [dif_pos (chunkSize_nonpos length (by omega) small)]
        rfl
    obtain ⟨s, c, found, content, looked⟩ := sector_of_offset held fits inside
    have maxLen := maps.small
    unfold maxSectors at maxLen
    have index : offset / 512 < L.data.length := (List.getElem?_eq_some_iff.mp found).1
    rw [looked, if_neg (stored.ne_none content), chunkSize_eq length inside]
    obtain ⟨chunk, chunkDef⟩ : ∃ chunk, chunk = min size (min (len - offset) (512 - offset % 512)) :=
      ⟨_, rfl⟩
    rw [← chunkDef]
    rw [dif_neg (by omega)]
    have rem : ((offset : Int).tmod 512).toNat = offset % 512 := by
      rw [Int.tmod_eq_emod_of_nonneg (by omega)]
      omega
    obtain ⟨store, run, stored⟩ := stored.cacheRead content chunk (offset % 512)
    rw [Int.toNat_natCast, rem, run, bind_some]
    dsimp only
    obtain ⟨store, run, stored⟩ := stored.byteToSector maps (offset + 512)
    rw [int32_of_bounds (by omega) (by omega), show (offset : Int) + 512 = (offset + 512 : Nat) by omega,
      run, bind_some]
    dsimp only
    obtain ⟨store, run, stored⟩ := ih (size - chunk) (by omega) stored
      (show offset + chunk < 2 ^ 31 by omega)
    rw [show (size : Int) - chunk = (size - chunk : Nat) by omega,
      show (offset : Int) + chunk = (offset + chunk : Nat) by omega, run]
    refine ⟨store, ?_, stored⟩
    have here : c.copyOut (offset % 512) chunk =
        (range chunk).map fun k => fileByte g L.data (offset + k) := by
      apply map_congr_left
      intro k hk
      have hk : k < chunk := mem_range.mp hk
      have sameSector : (offset + k) / 512 = offset / 512 := by omega
      rw [fileByte_of_sector (sameSector ▸ found) content,
        show (offset + k) % 512 = offset % 512 + k by omega]
    have split : (range (min size (len - offset))).map (fun k => fileByte g L.data (offset + k)) =
        (range chunk).map (fun k => fileByte g L.data (offset + k)) ++
          (List.range (min (size - chunk) (len - (offset + chunk)))).map
            fun k => fileByte g L.data (offset + chunk + k) := by
      rw [show min size (len - offset) = chunk + min (size - chunk) (len - (offset + chunk)) by omega,
        List.range_add, List.map_append, List.map_map]
      simp only [Function.comp_def, Nat.add_assoc]
    rw [Option.bind_some, here, split]

theorem Maps.update_data {g : Heap} (maps : Maps g d L) (nodup : L.sectors.Nodup)
    (inData : s ∈ L.data) (c : SectorData) : Maps (update g s (some c)) d L :=
  maps.congr fun x hx => update_of_ne (fun equal : x = s =>
    (nodup_append.mp nodup).2.2 s inData s (equal ▸ hx) rfl) _ _

theorem held_update {g : Heap} (held : ∀ x ∈ data, (g x).isSome) (s : BlockSector)
    (c : SectorData) : ∀ x ∈ data, (update g s (some c) x).isSome := by
  intro x hx
  by_cases equal : x = s
  · simp [equal]
  · rw [update_of_ne equal]
    exact held x hx

theorem writeLoop_spec (nodup : L.sectors.Nodup) (length : d.length.toInt = len)
    (fits : len ≤ 512 * L.data.length) (buffer : Nat → Byte) (size : Nat) :
    ∀ {fs : FS} {g : Heap} (offset written : Nat), Stored g fs → Maps g d L →
      (∀ x ∈ L.data, (g x).isSome) → offset + size ≤ len →
      ∃ store g', writeLoop d buffer size offset written fs =
          some (((written + size : Nat) : Int), { fs with store }) ∧
        Stored g' { fs with store } ∧
        (∀ x, x ∉ L.data → g' x = g x) ∧
        (∀ k, fileByte g' L.data k =
          if offset ≤ k ∧ k < offset + size then buffer (written + (k - offset))
          else fileByte g L.data k) := by
  have nodupData : L.data.Nodup := (nodup_append.mp nodup).1
  induction size using Nat.strong_induction_on with
  | _ size ih =>
    intro fs g offset written stored maps held inside
    rw [writeLoop]
    by_cases pos : 0 < size
    swap
    · have zero : size = 0 := by omega
      subst zero
      refine ⟨fs.store, g, rfl, stored, fun _ _ => rfl, ?_⟩
      intro k
      rw [if_neg (by omega)]
    rw [if_pos (by omega)]
    obtain ⟨store, run, stored⟩ := stored.byteToSector maps offset
    rw [run]
    simp only [bind_eq_bind, bind_some]
    obtain ⟨s, c, found, content, looked⟩ := sector_of_offset held fits (show offset < len by omega)
    rw [looked, if_neg (stored.ne_none content), chunkSize_eq length (by omega)]
    obtain ⟨chunk, chunkDef⟩ : ∃ chunk, chunk = min size (min (len - offset) (512 - offset % 512)) :=
      ⟨_, rfl⟩
    rw [← chunkDef]
    rw [dif_neg (by omega)]
    have rem : ((offset : Int).tmod 512).toNat = offset % 512 := by
      rw [Int.tmod_eq_emod_of_nonneg (by omega)]
      omega
    obtain ⟨store, run, stored⟩ := stored.cacheWrite content (fun k => buffer (written + k)) chunk
      (offset % 512)
    rw [Int.toNat_natCast, rem, run]
    simp only [bind_some]
    obtain ⟨c', cdef⟩ : ∃ c', c' = c.copyIn (offset % 512) chunk fun k => buffer (written + k) :=
      ⟨_, rfl⟩
    rw [← cdef] at stored
    have inData : s ∈ L.data := mem_of_getElem? found
    obtain ⟨store, g', run, stored, others, bytes⟩ := ih (size - chunk) (by omega) (offset + chunk)
      (written + chunk) stored (maps.update_data nodup inData c') (held_update held s c') (by omega)
    rw [show (size : Int) - chunk = (size - chunk : Nat) by omega,
      show (offset : Int) + chunk = (offset + chunk : Nat) by omega, run]
    refine ⟨store, g', by rw [show written + chunk + (size - chunk) = written + size by omega],
      stored, ?_, ?_⟩
    · intro x hx
      rw [others x hx, update_of_ne (fun equal : x = s => hx (equal ▸ inData))]
    intro k
    rw [bytes k, fileByte_update nodupData found]
    by_cases later : offset + chunk ≤ k ∧ k < offset + chunk + (size - chunk)
    · rw [if_pos later, if_pos (by omega),
        show written + chunk + (k - (offset + chunk)) = written + (k - offset) by omega]
    rw [if_neg later]
    by_cases sector : k / 512 = offset / 512
    · rw [if_pos sector, cdef, SectorData.byte_copyIn _ _ _ _ (show k % 512 < 512 by omega)]
      by_cases now : offset ≤ k ∧ k < offset + size
      · rw [if_pos now, if_pos (by omega), show k % 512 - offset % 512 = k - offset by omega]
      · rw [if_neg now, if_neg (by omega), fileByte_of_sector (sector ▸ found) content]
    · rw [if_neg sector, if_neg (by omega)]

/-- A write that ends behind the data sectors comes to a sector that is missing, unless the inode
    ends before. -/
theorem writeLoop_eq_none_iff (nodup : L.sectors.Nodup) (length : d.length.toInt = len)
    (buffer : Nat → Byte) (size : Nat) :
    ∀ {fs : FS} {g : Heap} (offset written : Nat), Stored g fs → Maps g d L →
      (∀ x ∈ L.data, (g x).isSome) → offset < 2 ^ 31 → 0 < size →
      512 * L.data.length < offset + size →
      (writeLoop d buffer size offset written fs = none ↔ 512 * L.data.length ≤ max offset len) := by
  induction size using Nat.strong_induction_on with
  | _ size ih =>
    intro fs g offset written stored maps held low pos behind
    obtain ⟨store, run, stored⟩ := stored.byteToSector maps offset
    rw [writeLoop, if_pos (by omega), run]
    simp only [bind_eq_bind, bind_some]
    by_cases missing : 512 * L.data.length ≤ offset
    · rw [getD_eq_default _ _ (by omega), if_pos rfl]
      exact iff_of_true rfl (by omega)
    obtain ⟨s, c, found, content, looked⟩ := sector_of_offset held (Nat.le_refl _)
      (show offset < 512 * L.data.length by omega)
    rw [looked, if_neg (stored.ne_none content)]
    by_cases past : len ≤ offset
    · rw [dif_pos (chunkSize_nonpos length past low)]
      exact iff_of_false (by simp) (by omega)
    rw [chunkSize_eq length (by omega)]
    obtain ⟨chunk, chunkDef⟩ : ∃ chunk, chunk = min size (min (len - offset) (512 - offset % 512)) :=
      ⟨_, rfl⟩
    have maxLen := maps.small
    unfold maxSectors at maxLen
    have rem : ((offset : Int).tmod 512).toNat = offset % 512 := by
      rw [Int.tmod_eq_emod_of_nonneg (by omega)]
      omega
    obtain ⟨store, run, stored⟩ := stored.cacheWrite content (fun k => buffer (written + k)) chunk
      (offset % 512)
    rw [← chunkDef, dif_neg (by omega), Int.toNat_natCast, rem, run]
    simp only [bind_some]
    have inData : s ∈ L.data := mem_of_getElem? found
    have maps' := maps.update_data nodup inData (c.copyIn (offset % 512) chunk fun k =>
      buffer (written + k))
    have held' := held_update held s (c.copyIn (offset % 512) chunk fun k => buffer (written + k))
    rw [show (size : Int) - chunk = (size - chunk : Nat) by omega,
      show (offset : Int) + chunk = (offset + chunk : Nat) by omega,
      ih (size - chunk) (by omega) (offset + chunk) (written + chunk) stored maps' held' (by omega)
        (by omega) (by omega)]
    omega

end Loops

end Pintos
