import Ftape.Volume.Encoding

/-!
# Reading the volume table back

The volumes in the list are those that were read from the buffer, followed by new ones with the
entries behind them. Writing the new entries and clearing the rest gives a buffer that is read back
as the list.
-/

namespace Ftape.Volume

open Ftape.Algebra Ftape.Bsm Ftape.Write Ftape.Zftape

/-- The place behind the last of some volumes. -/
def nextOffsetOf (volumes : List VtblEntry) : ℕ :=
  match volumes.getLast? with
  | some vtbl => vtbl.offset + vtblSize
  | none => 0

/-- The entries of some volumes follow one another from a place on. -/
def Adjacent : ℕ → List VtblEntry → Prop
  | _, [] => True
  | offset, vtbl :: volumes => vtbl.offset = offset ∧ Adjacent (offset + vtblSize) volumes

/-- A volume behind adjacent ones. -/
theorem adjacent_concat {offset : ℕ} {volumes : List VtblEntry} {vtbl : VtblEntry} :
    Adjacent offset (volumes ++ [vtbl]) ↔
      Adjacent offset volumes ∧ vtbl.offset = offset + volumes.length * vtblSize := by
  induction volumes generalizing offset with
  | nil => simp [Adjacent]
  | cons head volumes ih =>
    have hlength : offset + (head :: volumes).length * vtblSize =
        offset + vtblSize + volumes.length * vtblSize := by
      rw [List.length_cons, entry_succ]
    rw [List.cons_append, Adjacent, Adjacent, ih, hlength, and_assoc]

/-- Adjacent volumes lie behind the place they start at. -/
theorem Adjacent.le {offset : ℕ} {volumes : List VtblEntry} (h : Adjacent offset volumes) :
    ∀ vtbl ∈ volumes, offset ≤ vtbl.offset ∧ vtbl.offset + vtblSize ≤ offset + volumes.length * vtblSize := by
  induction volumes generalizing offset with
  | nil => exact fun _ hvtbl => absurd hvtbl List.not_mem_nil
  | cons head volumes ih =>
    intro vtbl hvtbl
    rw [List.length_cons, entry_succ]
    rcases List.mem_cons.mp hvtbl with rfl | hvtbl
    · exact ⟨h.1.ge, by rw [h.1]; exact Nat.le_add_right _ _⟩
    · have hle := ih h.2 vtbl hvtbl
      exact ⟨by omega, hle.2⟩

/-- The place behind adjacent volumes. -/
theorem nextOffsetOf_append {volumes volumes' : List VtblEntry}
    (h : Adjacent (nextOffsetOf volumes) volumes') :
    nextOffsetOf (volumes ++ volumes') = nextOffsetOf volumes + volumes'.length * vtblSize := by
  rcases List.eq_nil_or_concat' volumes' with rfl | ⟨front, last, rfl⟩
  · simp
  · have hlast := (adjacent_concat.mp h).2
    rw [nextOffsetOf, ← List.append_assoc, List.getLast?_concat, List.length_append,
      List.length_singleton, Nat.add_mul]
    dsimp only
    omega

/-- The loop of `zft_extract_volume_headers()` finds some volumes in a buffer, and nothing behind. -/
def Found (cartridge : Cartridge) (buffer : ℕ → Byte) (volumes : List VtblEntry) : Prop :=
  ∃ rounds table, extractRounds cartridge buffer rounds (firstEntry buffer) (zftInitVtbl cartridge) =
      some table ∧
    table.volumes.map VtblEntry.description = volumes.map VtblEntry.description ∧
    table.volumes.map (·.offset) = volumes.map (·.offset) ∧
    firstEntry buffer + rounds * vtblSize = nextOffsetOf volumes

/-- No entry starts at a place. -/
def EndsAt (buffer : ℕ → Byte) (entry : ℕ) : Prop :=
  ftSegmentSize ≤ entry ∨ ∀ id ∈ [vtblId, xtblId, utidId], hasText buffer (entry + vtblSig) id = false

/-- The loop stops where no entry starts. -/
theorem EndsAt.extractStep_eq_none {buffer : ℕ → Byte} {entry : ℕ} (h : EndsAt buffer entry)
    (hlt : entry < ftSegmentSize) (cartridge : Cartridge) (table : Vtbl) :
    extractStep cartridge buffer entry table = none := by
  have hid := h.resolve_left (Nat.not_le.mpr hlt)
  rw [extractStep, hid vtblId (by decide), hid xtblId (by decide), hid utidId (by decide)]
  split <;> rfl

/-- A clear buffer has no entries. -/
theorem endsAt_of_clear {buffer : ℕ → Byte} {entry : ℕ} (h : entry < ftSegmentSize → buffer entry = 0) :
    EndsAt buffer entry := by
  by_cases hlt : entry < ftSegmentSize
  · right
    intro id hid
    by_contra htext
    have hfirst : ∃ byte rest, id = byte :: rest ∧ byte ≠ 0 := by
      simp only [List.mem_cons, List.not_mem_nil, or_false] at hid
      rcases hid with rfl | rfl | rfl
      all_goals exact ⟨_, _, rfl, by decide⟩
    obtain ⟨byte, rest, rfl, hne⟩ := hfirst
    have hbyte := hasText_iff.mp (Bool.not_eq_false _ ▸ htext) 0 (List.length_pos_of_mem List.mem_cons_self)
    exact hne (hbyte.symm.trans (h hlt))
  · exact Or.inl (Nat.not_lt.mp hlt)

/-- What the loop finds in its first rounds is what the buffer is read as, if nothing follows. -/
theorem Found.extract {cartridge : Cartridge} {buffer : ℕ → Byte} {volumes : List VtblEntry}
    (h : Found cartridge buffer volumes) (hle : nextOffsetOf volumes ≤ ftSegmentSize)
    (hend : EndsAt buffer (nextOffsetOf volumes)) :
    (zftExtractVolumeHeaders cartridge buffer).volumes.map VtblEntry.description =
      volumes.map VtblEntry.description := by
  obtain ⟨rounds, table, hrounds, hdescription, -, hnext⟩ := h
  have hcount : (ftSegmentSize - firstEntry buffer) / vtblSize =
      rounds + (ftSegmentSize - nextOffsetOf volumes) / vtblSize := by
    have hfirst : firstEntry buffer = 0 ∨ firstEntry buffer = 128 := by
      unfold firstEntry
      split
      · exact Or.inr rfl
      · exact Or.inl rfl
    simp only [vtblSize, ftSegmentSize, ftSectorsPerSegment, ftEccSectors, ftSectorSize] at *
    omega
  rw [← hdescription, zftExtractVolumeHeaders, hcount, extractLoop_of_rounds _ hrounds, hnext]
  by_cases hlt : nextOffsetOf volumes < ftSegmentSize
  · rw [extractLoop_of_stop _ (hend.extractStep_eq_none hlt cartridge table)]
  · rw [Nat.sub_eq_zero_of_le (Nat.not_lt.mp hlt), Nat.zero_div, extractLoop]

/-- A compression map is told by the first entry. -/
theorem hasCmap_of_agree {buffer buffer' : ℕ → Byte} (h : ∀ k, k < vtblSize → buffer k = buffer' k) :
    hasCmap buffer = hasCmap buffer' := by
  have htext : hasText buffer (vtblExt + extZftSig) zftSigText = hasText buffer' (vtblExt + extZftSig) zftSigText := by
    apply hasText_congr
    intro i hi
    have hlength : zftSigText.length = 9 := rfl
    have hplace : vtblExt + extZftSig + 9 ≤ vtblSize := by decide
    exact h _ (by omega)
  rw [hasCmap, hasCmap, htext, h (vtblExt + extZftCmap) (by decide)]

/-- The place behind some volumes is behind the first entry. -/
theorem vtblSize_le_nextOffsetOf {volumes : List VtblEntry} (h : volumes ≠ []) :
    vtblSize ≤ nextOffsetOf volumes := by
  obtain ⟨vtbl, hvtbl⟩ := Option.isSome_iff_exists.mp (List.getLast?_isSome.mpr h)
  rw [nextOffsetOf, hvtbl]
  exact Nat.le_add_left _ _

/-- Buffers that agree on the entries of some volumes have the same volumes there. -/
theorem Found.of_agree {cartridge : Cartridge} {buffer buffer' : ℕ → Byte} {volumes : List VtblEntry}
    (h : Found cartridge buffer volumes) (hne : volumes ≠ [])
    (hsame : ∀ k, k < nextOffsetOf volumes → buffer k = buffer' k)
    (hlabels : ∀ vtbl ∈ volumes, LabelEnds cartridge buffer vtbl.offset) :
    Found cartridge buffer' volumes := by
  obtain ⟨rounds, table, hrounds, hdescription, hoffsets, hnext⟩ := h
  have hfirst : firstEntry buffer = firstEntry buffer' := by
    have hcmap := hasCmap_of_agree fun k hk =>
      hsame k (Nat.lt_of_lt_of_le hk (vtblSize_le_nextOffsetOf hne))
    rw [firstEntry, firstEntry, hcmap]
  have hends : ∀ vtbl ∈ table.volumes, LabelEnds cartridge buffer vtbl.offset := by
    intro vtbl hvtbl
    have hmem : vtbl.offset ∈ volumes.map (·.offset) := hoffsets ▸ List.mem_map_of_mem hvtbl
    obtain ⟨vtbl', hvtbl', heq⟩ := List.mem_map.mp hmem
    exact heq ▸ hlabels vtbl' hvtbl'
  refine ⟨rounds, table, ?_, hdescription, hoffsets, hfirst ▸ hnext⟩
  rw [← hfirst]
  exact extractRounds_of_agree (fun k hk => hsame k (hnext ▸ hk)) hrounds hends

/-- What was read from a buffer is found in it. -/
theorem found_of_extract (cartridge : Cartridge) (buffer : ℕ → Byte)
    (hne : (zftExtractVolumeHeaders cartridge buffer).volumes ≠ []) :
    Found cartridge buffer (zftExtractVolumeHeaders cartridge buffer).volumes := by
  obtain ⟨rounds, table, -, hrounds, hvolumes, hnext⟩ := exists_extractRounds cartridge buffer
    ((ftSegmentSize - firstEntry buffer) / vtblSize) (firstEntry buffer) (zftInitVtbl cartridge)
  have hvolumes' : table.volumes = (zftExtractVolumeHeaders cartridge buffer).volumes := hvolumes
  have hoffset : table.nextOffset = firstEntry buffer + rounds * vtblSize :=
    hnext.resolve_left fun hempty => hne (hvolumes'.symm.trans hempty)
  refine ⟨rounds, table, hrounds, by rw [hvolumes'], by rw [hvolumes'], ?_⟩
  rw [← hoffset, ← hvolumes']
  rfl

/-- Entries of new volumes are found one after the other. -/
theorem extractRounds_created {cartridge : Cartridge} {buffer : ℕ → Byte} {entry : ℕ}
    {volumes : List VtblEntry} (hadjacent : Adjacent entry volumes)
    (hcreated : ∀ vtbl ∈ volumes, Created cartridge vtbl buffer vtbl.offset)
    (hown : ∀ vtbl ∈ volumes, vtbl.Own cartridge) (hfits : ∀ vtbl ∈ volumes, vtbl.Fits cartridge)
    (table : Vtbl) : ∃ table', extractRounds cartridge buffer volumes.length entry table = some table' ∧
      table'.volumes.map VtblEntry.description =
        table.volumes.map VtblEntry.description ++ volumes.map VtblEntry.description ∧
      table'.volumes.map (·.offset) = table.volumes.map (·.offset) ++ volumes.map (·.offset) := by
  induction volumes generalizing entry table with
  | nil => exact ⟨table, rfl, by simp, by simp⟩
  | cons vtbl volumes ih =>
    obtain ⟨rfl, hrest⟩ := hadjacent
    have hvtbl := hcreated vtbl List.mem_cons_self
    have hown' := hown vtbl List.mem_cons_self
    have hid := hvtbl.id hown'.count
    have hother (text : List Byte) (hlength : text.length = vtblId.length) (hne : text ≠ vtblId) :
        hasText buffer (vtbl.offset + vtblSig) text = false := by
      by_contra htext
      rw [Bool.not_eq_false, hasText, decide_eq_true_eq, hlength] at htext
      rw [hasText, decide_eq_true_eq] at hid
      exact hne (htext.symm.trans hid)
    have hstep : extractStep cartridge buffer vtbl.offset table =
        some (extractVolume cartridge buffer vtbl.offset table) := by
      rw [extractStep, hother exvtId rfl (by decide), hother xtblId rfl (by decide),
        hother utidId rfl (by decide), hid]
      rfl
    obtain ⟨table', hrounds, hdescription, hoffsets⟩ := ih hrest
      (fun v hv => hcreated v (List.mem_cons_of_mem _ hv)) (fun v hv => hown v (List.mem_cons_of_mem _ hv))
      (fun v hv => hfits v (List.mem_cons_of_mem _ hv)) (extractVolume cartridge buffer vtbl.offset table)
    refine ⟨table', ?_, ?_, ?_⟩
    · rw [List.length_cons, extractRounds, hstep, Option.bind_some, hrounds]
    · rw [hdescription, extractVolume, List.map_append, List.map_singleton,
        hvtbl.extractEntry_description hown' (hfits vtbl List.mem_cons_self), List.append_assoc]
      rfl
    · rw [hoffsets, extractVolume, List.map_append, List.map_singleton, List.append_assoc]
      rfl

/-- The list of a device as far as its entries are in the buffer, and the new volumes. -/
structure Device.Synced (cartridge : Cartridge) (device : Device) (old new : List VtblEntry) : Prop where
  volumes : device.table.volumes = old ++ new
  written : ∀ vtbl ∈ old, vtbl.newVolume = false
  fresh : ∀ vtbl ∈ new, vtbl.newVolume = true
  own : ∀ vtbl ∈ new, vtbl.zftVolume = true ∧ vtbl.qic113 = cartridge.qic113
  found : old ≠ [] → Found cartridge device.buffer old
  adjacent : Adjacent (nextOffsetOf old) new

/-- The buffer with the entry in front that stays once the volume of a compression map is deleted. -/
def front (buffer : ℕ → Byte) : ℕ → Byte := runPuts (deleteCmap buffer) buffer

/-- When the volume table can be written and read back: no volume that was read from behind a
compression map is in the list, an empty list leaves no volume in front, the numbers of new volumes
fit into their fields, and the labels of old ones end in their entries. -/
structure Device.Encodable (cartridge : Cartridge) (device : Device) : Prop where
  cmap : hasCmapVolume device.buffer = true → ∀ vtbl ∈ device.table.volumes, vtbl.newVolume = true
  empty : device.table.volumes = [] →
    hasText (front device.buffer) vtblSig vtblId = false ∨ hasCmap (front device.buffer) = true
  fits : ∀ vtbl ∈ device.table.volumes, vtbl.newVolume = true → vtbl.Fits cartridge
  labels : ∀ vtbl ∈ device.table.volumes, vtbl.newVolume = false →
    LabelEnds cartridge device.buffer vtbl.offset

section Update

variable {cartridge : Cartridge} {device : Device} {old new : List VtblEntry}

/-- What is written behind the volumes that are in the buffer. -/
theorem Device.Synced.createPuts_eq (h : device.Synced cartridge old new) (hlaid : device.table.Laid)
    (hne : device.table.volumes ≠ []) : createPuts cartridge device.table device.buffer =
      deleteCmap device.buffer ++
        (new.flatMap fun vtbl => createZftVolume cartridge vtbl.offset vtbl) ++
          [putFill device.table.nextOffset 0 (ftSegmentSize - device.table.eom.count * vtblSize)] := by
  have hold : old.flatMap (createEntry cartridge) = [] := by
    apply List.flatMap_eq_nil_iff.mpr
    intro vtbl hvtbl
    rw [createEntry, h.written vtbl hvtbl]
    rfl
  have hnew : new.flatMap (createEntry cartridge) =
      new.flatMap fun vtbl => createZftVolume cartridge vtbl.offset vtbl := by
    apply List.flatMap_congr
    intro vtbl hvtbl
    have hmem : vtbl ∈ device.table.volumes := h.volumes ▸ List.mem_append_right old hvtbl
    rw [createEntry, if_pos (h.fresh vtbl hvtbl), hlaid.corrected hmem]
  rw [createPuts, hlaid.last_corrected hne, ← hnew]
  rw [h.volumes, List.flatMap_append, hold, List.nil_append]

/-- Behind the last volume the buffer is clear. -/
theorem Device.Synced.update_clear (h : device.Synced cartridge old new) (hlaid : device.table.Laid)
    (hne : device.table.volumes ≠ []) {k : ℕ} (hk : device.table.nextOffset ≤ k)
    (hlt : k < ftSegmentSize) : (device.update cartridge).buffer k = 0 := by
  have hcount : device.table.eom.count * vtblSize ≤ device.table.nextOffset :=
    hlaid.count ▸ hlaid.spaced
  change runPuts (createPuts cartridge device.table device.buffer) device.buffer k = 0
  rw [h.createPuts_eq hlaid hne, runPuts_append]
  exact if_pos ⟨hk, by change k < device.table.nextOffset + (ftSegmentSize - _); omega⟩

/-- Writes to the entries of adjacent volumes are apart from what lies in front of them. -/
theorem Adjacent.apart {offset address size : ℕ} {volumes : List VtblEntry} (h : Adjacent offset volumes)
    (hcount : ∀ vtbl ∈ volumes, vtbl.count < 1000) (hle : address + size ≤ offset) :
    ∀ put ∈ volumes.flatMap fun vtbl => createZftVolume cartridge vtbl.offset vtbl,
      put.Apart address size := by
  intro put hput
  obtain ⟨vtbl, hvtbl, hput⟩ := List.mem_flatMap.mp hput
  have hentry := createZftVolume_inEntry cartridge vtbl.offset (hcount vtbl hvtbl) hput
  have hbehind := h.le vtbl hvtbl
  exact Or.inl (by omega)

/-- The entries of adjacent volumes hold what was written to them. -/
theorem Adjacent.created {offset past : ℕ} {volumes : List VtblEntry} (h : Adjacent offset volumes)
    (hcount : ∀ vtbl ∈ volumes, vtbl.count < 1000) (buffer : ℕ → Byte) (rest : List (Put Byte))
    (hpast : offset + volumes.length * vtblSize ≤ past) (hrest : ∀ put ∈ rest, past ≤ put.address) :
    ∀ vtbl ∈ volumes, Created cartridge vtbl (runPuts
      ((volumes.flatMap fun vtbl => createZftVolume cartridge vtbl.offset vtbl) ++ rest) buffer)
        vtbl.offset := by
  induction volumes generalizing offset buffer with
  | nil => exact fun _ hvtbl => absurd hvtbl List.not_mem_nil
  | cons head volumes ih =>
    intro vtbl hvtbl
    obtain ⟨rfl, hadjacent⟩ := h
    rw [List.length_cons, entry_succ] at hpast
    rw [List.flatMap_cons, List.append_assoc, runPuts_append]
    rcases List.mem_cons.mp hvtbl with rfl | hvtbl
    · have hapart : ∀ put ∈ (volumes.flatMap fun v => createZftVolume cartridge v.offset v) ++ rest,
          put.Apart vtbl.offset vtblSize := by
        intro put hput
        rcases List.mem_append.mp hput with hput | hput
        · exact hadjacent.apart (fun v hv => hcount v (List.mem_cons_of_mem _ hv)) (Nat.le_refl _) put hput
        · have := hrest put hput
          exact Or.inl (by omega)
      exact ⟨buffer, fun k hk => runPuts_of_apart hapart _ (Nat.le_add_right _ _) (by omega)⟩
    · exact ih hadjacent (fun v hv => hcount v (List.mem_cons_of_mem _ hv)) _ hpast vtbl hvtbl

/-- Volumes that are found, followed by new ones. -/
theorem Found.append {buffer : ℕ → Byte} (h : Found cartridge buffer old)
    (hadjacent : Adjacent (nextOffsetOf old) new)
    (hcreated : ∀ vtbl ∈ new, Created cartridge vtbl buffer vtbl.offset)
    (hown : ∀ vtbl ∈ new, vtbl.Own cartridge) (hfits : ∀ vtbl ∈ new, vtbl.Fits cartridge) :
    Found cartridge buffer (old ++ new) := by
  obtain ⟨rounds, table, hrounds, hdescription, hoffsets, hnext⟩ := h
  obtain ⟨table', hrounds', hdescription', hoffsets'⟩ :=
    extractRounds_created hadjacent hcreated hown hfits table
  refine ⟨rounds + new.length, table', ?_, ?_, ?_, ?_⟩
  · rw [extractRounds_add _ hrounds, hnext, hrounds']
  · rw [hdescription', hdescription, List.map_append]
  · rw [hoffsets', hoffsets, List.map_append]
  · rw [nextOffsetOf_append hadjacent, ← hnext, Nat.add_mul, Nat.add_assoc]

/-- Only what the volume table tells about the volumes matters, and their entries. -/
theorem Found.congr {buffer : ℕ → Byte} (h : Found cartridge buffer old)
    (hdescription : new.map VtblEntry.description = old.map VtblEntry.description)
    (hoffset : new.map (·.offset) = old.map (·.offset)) : Found cartridge buffer new := by
  have hnextOffset (volumes : List VtblEntry) : nextOffsetOf volumes =
      ((volumes.map (·.offset)).getLast?.map (· + vtblSize)).getD 0 := by
    rw [nextOffsetOf, List.getLast?_map]
    cases volumes.getLast? <;> rfl
  obtain ⟨rounds, table, hrounds, hdescription', hoffset', hnext⟩ := h
  refine ⟨rounds, table, hrounds, hdescription'.trans hdescription.symm, hoffset'.trans hoffset.symm, ?_⟩
  rw [hnext, hnextOffset, hnextOffset, hoffset]

/-- What is written is found in every buffer that agrees with it on the entries in use. -/
theorem Device.Synced.found_update (h : device.Synced cartridge old new) (hlaid : device.table.Laid)
    (henc : device.Encodable cartridge) (hne : device.table.volumes ≠ []) {tape : ℕ → Byte}
    (hsame : ∀ k, k < device.table.nextOffset → tape k = (device.update cartridge).buffer k) :
    Found cartridge tape device.table.volumes := by
  have hnext : device.table.nextOffset = nextOffsetOf old + new.length * vtblSize := by
    rw [← nextOffsetOf_append h.adjacent, ← h.volumes]
    rfl
  have hmem : ∀ vtbl ∈ new, vtbl ∈ device.table.volumes :=
    fun vtbl hvtbl => h.volumes ▸ List.mem_append_right old hvtbl
  have hcount : ∀ vtbl ∈ new, vtbl.count < 1000 := fun vtbl hvtbl => hlaid.count_lt (hmem vtbl hvtbl)
  have hown : ∀ vtbl ∈ new, vtbl.Own cartridge := fun vtbl hvtbl =>
    ⟨(h.own vtbl hvtbl).1, (h.own vtbl hvtbl).2, hcount vtbl hvtbl⟩
  have hfits : ∀ vtbl ∈ new, vtbl.Fits cartridge := fun vtbl hvtbl =>
    henc.fits vtbl (hmem vtbl hvtbl) (h.fresh vtbl hvtbl)
  have hbuffer : (device.update cartridge).buffer = runPuts
      ((new.flatMap fun vtbl => createZftVolume cartridge vtbl.offset vtbl) ++
        [putFill device.table.nextOffset 0 (ftSegmentSize - device.table.eom.count * vtblSize)])
          (front device.buffer) := by
    change runPuts (createPuts cartridge device.table device.buffer) device.buffer = _
    rw [h.createPuts_eq hlaid hne, List.append_assoc, runPuts_append]
    rfl
  have hcreated : ∀ vtbl ∈ new, Created cartridge vtbl tape vtbl.offset := by
    intro vtbl hvtbl
    obtain ⟨base, hbytes⟩ := h.adjacent.created hcount (front device.buffer)
      [putFill device.table.nextOffset 0 (ftSegmentSize - device.table.eom.count * vtblSize)]
      hnext.ge (by simp [putFill]) vtbl hvtbl
    have hentry := (h.adjacent.le vtbl hvtbl).2
    refine ⟨base, fun k hk => ?_⟩
    rw [hsame _ (by omega), hbuffer, hbytes k hk]
  rw [h.volumes]
  refine Found.append ?_ h.adjacent hcreated hown hfits
  by_cases hold : old = []
  · -- the first entry is that of a new volume
    rw [hold]
    obtain ⟨vtbl, rest, hnew⟩ := List.exists_cons_of_ne_nil
      (show new ≠ [] by rintro rfl; exact hne (by rw [h.volumes, hold]; rfl))
    have hoffset : vtbl.offset = 0 := by
      have hadjacent := h.adjacent
      rw [hold, hnew] at hadjacent
      exact hadjacent.1
    have hvtbl : vtbl ∈ new := hnew ▸ List.mem_cons_self
    have hfront := hoffset ▸ hcreated vtbl hvtbl
    refine ⟨0, zftInitVtbl cartridge, rfl, rfl, rfl, ?_⟩
    rw [firstEntry, hfront.hasCmap (hown vtbl hvtbl)]
    rfl
  · -- nothing in front of the new volumes has changed
    obtain ⟨vtbl, hvtbl⟩ := List.exists_mem_of_ne_nil old hold
    have hkept : front device.buffer = device.buffer := by
      rw [front, deleteCmap, if_neg]
      · rfl
      · intro hcmap
        have hnewVolume := henc.cmap hcmap vtbl (h.volumes ▸ List.mem_append_left new hvtbl)
        exact absurd ((h.written vtbl hvtbl).symm.trans hnewVolume) Bool.false_ne_true
    apply (h.found hold).of_agree hold
    · intro k hk
      have hapart : ∀ put ∈ (new.flatMap fun vtbl => createZftVolume cartridge vtbl.offset vtbl) ++
          [putFill device.table.nextOffset 0 (ftSegmentSize - device.table.eom.count * vtblSize)],
          put.Apart k 1 := by
        intro put hput
        rcases List.mem_append.mp hput with hput | hput
        · exact h.adjacent.apart hcount hk put hput
        · rw [List.mem_singleton.mp hput]
          exact Or.inl (show k + 1 ≤ device.table.nextOffset by omega)
      rw [hsame k (by omega), hbuffer, hkept]
      exact (runPuts_of_apart hapart _ (Nat.le_refl k) (Nat.lt_succ_self k)).symm
    · intro vtbl hvtbl
      exact henc.labels vtbl (h.volumes ▸ List.mem_append_left new hvtbl) (h.written vtbl hvtbl)

/-- After the volume table was written, the buffer holds all volumes of the list. -/
theorem Device.Synced.update (h : device.Synced cartridge old new) (hlaid : device.table.Laid)
    (henc : device.Encodable cartridge) :
    (device.update cartridge).Synced cartridge (device.table.volumes.map VtblEntry.written) [] := by
  have hwritten : ∀ vtbl ∈ device.table.volumes, vtbl.written = { vtbl with newVolume := false } := by
    intro vtbl hvtbl
    rw [VtblEntry.written, hlaid.corrected hvtbl]
  refine ⟨(List.append_nil _).symm, ?_, fun _ hv => absurd hv List.not_mem_nil,
    fun _ hv => absurd hv List.not_mem_nil, fun hne => ?_, trivial⟩
  · intro vtbl hvtbl
    obtain ⟨vtbl', -, rfl⟩ := List.mem_map.mp hvtbl
    rfl
  · have hfound := h.found_update hlaid henc (by simpa using hne) fun k _ => rfl
    apply hfound.congr
    · rw [List.map_map]
      apply List.map_congr_left
      intro vtbl hvtbl
      rw [Function.comp_apply, hwritten vtbl hvtbl]
      rfl
    · rw [List.map_map]
      apply List.map_congr_left
      intro vtbl hvtbl
      rw [Function.comp_apply, hwritten vtbl hvtbl]

end Update

section Steps

variable {cartridge : Cartridge} {device : Device} {old new : List VtblEntry}

/-- A new volume behind the last one. -/
theorem Device.Synced.concat (h : device.Synced cartridge old new) {table : Vtbl} {vtbl : VtblEntry}
    (hvolumes : table.volumes = device.table.volumes ++ [vtbl])
    (hoffset : vtbl.offset = device.table.nextOffset) (hnew : vtbl.newVolume = true)
    (hown : vtbl.zftVolume = true ∧ vtbl.qic113 = cartridge.qic113) :
    Device.Synced cartridge { device with table := table } old (new ++ [vtbl]) := by
  have hnext : device.table.nextOffset = nextOffsetOf old + new.length * vtblSize := by
    rw [← nextOffsetOf_append h.adjacent, ← h.volumes]
    rfl
  refine ⟨?_, h.written, ?_, ?_, h.found, adjacent_concat.mpr ⟨h.adjacent, hoffset.trans hnext⟩⟩
  · rw [hvolumes, h.volumes, List.append_assoc]
  · intro v hv
    rcases List.mem_append.mp hv with hv | hv
    · exact h.fresh v hv
    · rwa [List.mem_singleton.mp hv]
  · intro v hv
    rcases List.mem_append.mp hv with hv | hv
    · exact h.own v hv
    · rwa [List.mem_singleton.mp hv]

/-- The rest of the table does not matter. -/
theorem Device.Synced.of_volumes (h : device.Synced cartridge old new) {table : Vtbl}
    (hvolumes : table.volumes = device.table.volumes) :
    Device.Synced cartridge { device with table := table } old new :=
  ⟨hvolumes.trans h.volumes, h.written, h.fresh, h.own, h.found, h.adjacent⟩

/-- An empty list. -/
theorem synced_init (cartridge : Cartridge) (buffer : ℕ → Byte) :
    Device.Synced cartridge ⟨zftInitVtbl cartridge, buffer⟩ [] [] :=
  ⟨rfl, fun _ hv => absurd hv List.not_mem_nil, fun _ hv => absurd hv List.not_mem_nil,
    fun _ hv => absurd hv List.not_mem_nil, fun hne => absurd rfl hne, trivial⟩

/-- Opening a volume behind the last one. -/
theorem Device.Synced.appendVolume (h : device.Synced cartridge old new) (pos : Position) (blkSz : ℕ) :
    ∃ new', Device.Synced cartridge
      { device with table := (device.table.appendVolume cartridge pos blkSz).1 } old new' := by
  rw [Vtbl.appendVolume]
  split
  case isTrue => exact ⟨new, h⟩
  split
  case isTrue => exact ⟨new, h⟩
  split
  case isTrue => exact ⟨new, h⟩
  case isFalse =>
    let vtbl := device.table.fillOpened cartridge pos blkSz
      { VtblEntry.blank with count := device.table.eom.count }
    exact ⟨new ++ [vtbl], h.concat rfl rfl rfl ⟨rfl, rfl⟩⟩

/-- Opening a volume. -/
theorem Device.Synced.zftOpenVolume (h : device.Synced cartridge old new) (pos : Position) (blkSz : ℕ) :
    ∃ old' new', Device.Synced cartridge
      { device with table := (device.table.zftOpenVolume cartridge pos blkSz).1 } old' new' := by
  rw [Vtbl.zftOpenVolume]
  split
  case isTrue => exact ⟨[], (synced_init cartridge device.buffer).appendVolume _ blkSz⟩
  case isFalse => exact ⟨old, h.appendVolume pos blkSz⟩

/-- Changing the last volume leaves the ones in front of it alone. -/
theorem Vtbl.modifyLast_concat {table : Vtbl} {volumes : List VtblEntry} {vtbl : VtblEntry}
    (h : table.volumes = volumes ++ [vtbl]) (f : VtblEntry → VtblEntry) :
    (table.modifyLast f).volumes = volumes ++ [f vtbl] := by
  rw [modifyLast, h, List.length_append, List.length_singleton, Nat.add_sub_cancel]
  simp [List.modify_eq_take_drop]

/-- Closing a volume whose entry is not written yet. -/
theorem Device.Synced.zftCloseVolume (h : device.Synced cartridge old new) (pos : Position)
    (hnew : ∀ vtbl, device.table.openVolume = some vtbl → vtbl.newVolume = true) :
    ∃ new', Device.Synced cartridge
      { device with table := (device.table.zftCloseVolume cartridge pos).1 } old new' := by
  rw [Vtbl.zftCloseVolume]
  split
  case h_1 => exact ⟨new, h⟩
  case h_2 vtbl hopen =>
    have hfresh := hnew vtbl hopen
    obtain ⟨hlast, -⟩ := Option.filter_eq_some_iff.mp hopen
    rcases List.eq_nil_or_concat' new with rfl | ⟨front, last, rfl⟩
    · -- the last volume would be one whose entry is in the buffer
      rw [h.volumes, List.append_nil] at hlast
      have hwritten := h.written vtbl (List.mem_of_getLast? hlast)
      exact absurd (hwritten.symm.trans hfresh) Bool.false_ne_true
    · have hvolumes := h.volumes
      rw [← List.append_assoc] at hvolumes
      obtain ⟨hfront, hoffset⟩ := adjacent_concat.mp h.adjacent
      let closed := VtblEntry.closedAt cartridge (cartridge.beforeMark pos vtbl.startSeg) last
      have hlastFresh := h.fresh last (List.mem_append_right _ (List.mem_singleton_self last))
      have hlastOwn := h.own last (List.mem_append_right _ (List.mem_singleton_self last))
      refine ⟨front ++ [closed], ?_, h.written, ?_, ?_, h.found, adjacent_concat.mpr ⟨hfront, hoffset⟩⟩
      · rw [← List.append_assoc]
        exact Vtbl.modifyLast_concat hvolumes _
      · intro v hv
        rcases List.mem_append.mp hv with hv | hv
        · exact h.fresh v (List.mem_append_left _ hv)
        · rw [List.mem_singleton.mp hv]
          exact hlastFresh
      · intro v hv
        rcases List.mem_append.mp hv with hv | hv
        · exact h.own v (List.mem_append_left _ hv)
        · rw [List.mem_singleton.mp hv]
          exact hlastOwn

/-- Appending empty volumes. -/
theorem Device.Synced.weofLoop (h : device.Synced cartridge old new) (count : ℕ) (pos : Position) :
    ∃ new', Device.Synced cartridge
      { device with table := (device.table.weofLoop cartridge count pos).1 } old new' := by
  obtain ⟨table, buffer⟩ := device
  induction count generalizing table new pos with
  | zero => exact ⟨new, h⟩
  | succ count ih =>
    rw [Vtbl.weofLoop]
    split
    case isTrue =>
      have hmark : Device.Synced cartridge ⟨table.newVtblEntry (table.fillMark cartridge pos), buffer⟩ old
          (new ++ [table.fillMark cartridge pos { VtblEntry.blank with count := table.eom.count }]) :=
        h.concat rfl rfl rfl ⟨rfl, rfl⟩
      exact ih _ _ (hmark.of_volumes rfl)
    case isFalse => exact ⟨new, h⟩

/-- The volume in progress, if any, has no entry yet. -/
def Device.Closable (device : Device) : Prop :=
  ∀ vtbl, device.table.openVolume = some vtbl → vtbl.newVolume = true

/-- Writing file marks. -/
theorem Device.Synced.zftWeof (h : device.Synced cartridge old new) (count : ℕ) (pos : Position)
    (hnew : count ≠ 0 → device.table.zftTapeAtLbot pos = false → device.Closable) :
    ∃ old' new', Device.Synced cartridge
      { device with table := (device.table.zftWeof cartridge count pos).1 } old' new' := by
  rw [Vtbl.zftWeof]
  split
  case isTrue => exact ⟨old, new, h⟩
  case isFalse hcount =>
    cases hlbot : device.table.zftTapeAtLbot pos with
    | true =>
      obtain ⟨new', hclosed⟩ := (synced_init cartridge device.buffer).zftCloseVolume pos
        fun _ hopen => absurd hopen (by simp [Vtbl.openVolume, zftInitVtbl])
      rw [← Vtbl.weofClose_fst _ _ _ count] at hclosed
      exact ⟨[], hclosed.weofLoop _ _⟩
    | false =>
      obtain ⟨new', hclosed⟩ := h.zftCloseVolume pos (hnew hcount hlbot)
      rw [← Vtbl.weofClose_fst _ _ _ count] at hclosed
      exact ⟨old, hclosed.weofLoop _ _⟩

end Steps

/-- When an operation keeps the list and the buffer in step: the volume table can be read back
whenever it is written, and no volume is changed after its entry was written. -/
def Device.Meets (cartridge : Cartridge) (device : Device) : Operation → Prop
  | .openVolume _ _ => True
  | .closeVolume _ => device.Closable
  | .weof count pos => count ≠ 0 → device.table.zftTapeAtLbot pos = false → device.Closable
  | .erase => Device.Encodable cartridge { device with table := zftInitVtbl cartridge }
  | .update => device.Encodable cartridge

/-- Every operation of a run keeps the list and the buffer in step. -/
def Device.RunMeets (cartridge : Cartridge) : Device → List Operation → Prop
  | _, [] => True
  | device, op :: ops => device.Meets cartridge op ∧ Device.RunMeets cartridge (device.exec cartridge op) ops

/-- An operation keeps the list and the buffer in step. -/
theorem Device.Synced.exec {cartridge : Cartridge} {device : Device} {old new : List VtblEntry}
    (h : device.Synced cartridge old new) (hlaid : device.table.Laid) {op : Operation}
    (hmeets : device.Meets cartridge op) :
    ∃ old' new', (device.exec cartridge op).Synced cartridge old' new' := by
  cases op with
  | openVolume pos blkSz => exact h.zftOpenVolume pos blkSz
  | closeVolume pos => exact ⟨old, h.zftCloseVolume pos hmeets⟩
  | weof count pos => exact h.zftWeof count pos hmeets
  | erase =>
    exact ⟨_, _, (synced_init cartridge device.buffer).update (zftInitVtbl_laid cartridge) hmeets⟩
  | update => exact ⟨_, _, h.update hlaid hmeets⟩

/-- The list and the buffer stay in step in a run. -/
theorem Device.Synced.run {cartridge : Cartridge} {device : Device} {old new : List VtblEntry}
    (h : device.Synced cartridge old new) (hlaid : device.table.Laid) {ops : List Operation}
    (hmeets : device.RunMeets cartridge ops) :
    ∃ old' new', (ops.foldl (Device.exec cartridge) device).Synced cartridge old' new' := by
  induction ops generalizing device old new with
  | nil => exact ⟨old, new, h⟩
  | cons op ops ih =>
    obtain ⟨old', new', hstep⟩ := h.exec hlaid hmeets.1
    exact ih hstep (Device.exec_laid cartridge hlaid op) hmeets.2

/-- The loop makes no new volumes. -/
theorem extractLoop_newVolume (cartridge : Cartridge) (buffer : ℕ → Byte) (rounds entry : ℕ)
    {table : Vtbl} (h : ∀ vtbl ∈ table.volumes, vtbl.newVolume = false) :
    ∀ vtbl ∈ (extractLoop cartridge buffer rounds entry table).volumes, vtbl.newVolume = false := by
  induction rounds generalizing entry table with
  | zero => exact h
  | succ rounds ih =>
    cases hstep : extractStep cartridge buffer entry table with
    | none =>
      rw [extractLoop_of_stop _ hstep]
      exact h
    | some next =>
      rw [extractLoop_of_step hstep]
      rcases extractStep_cases hstep with rfl | rfl
      · exact ih _ h
      · apply ih
        intro vtbl hvtbl
        rcases List.mem_append.mp hvtbl with hvtbl | hvtbl
        · exact h vtbl hvtbl
        · rw [List.mem_singleton.mp hvtbl, extractEntry_newVolume]
          rfl

/-- The list and the buffer it was read from are in step. -/
theorem synced_read (cartridge : Cartridge) (buffer : ℕ → Byte) :
    (zftReadVolumeTable cartridge buffer).Synced cartridge
      (zftExtractVolumeHeaders cartridge buffer).volumes [] :=
  ⟨(List.append_nil _).symm,
    extractLoop_newVolume cartridge buffer _ _ fun _ hv => absurd hv List.not_mem_nil,
    fun _ hv => absurd hv List.not_mem_nil, fun _ hv => absurd hv List.not_mem_nil,
    found_of_extract cartridge buffer, trivial⟩

/-- The place behind the entries that are in use after the volume table was written. An empty list
leaves what is in the first entry. -/
def Vtbl.usedSize (table : Vtbl) : ℕ := if table.volumes = [] then vtblSize else table.nextOffset

/-- An empty list that leaves no volume in front is read back as an empty list. -/
theorem extract_of_front (cartridge : Cartridge) {buffer tape : ℕ → Byte}
    (hfront : hasText (front buffer) vtblSig vtblId = false ∨ hasCmap (front buffer) = true)
    (hsame : ∀ k, k < vtblSize → tape k = front buffer k) (hend : EndsAt tape vtblSize) :
    (zftExtractVolumeHeaders cartridge tape).volumes = [] := by
  have hstop (rounds : ℕ) :
      (extractLoop cartridge tape rounds vtblSize (zftInitVtbl cartridge)).volumes = [] :=
    extractLoop_of_stop rounds (hend.extractStep_eq_none (by decide) cartridge _)
  rw [zftExtractVolumeHeaders, firstEntry, hasCmap_of_agree hsame]
  cases hcmap : hasCmap (front buffer) with
  | true => exact hstop _
  | false =>
    have hid : hasText tape (0 + vtblSig) vtblId = false := by
      have htext : hasText tape (0 + vtblSig) vtblId = hasText (front buffer) vtblSig vtblId := by
        rw [Nat.zero_add]
        exact hasText_congr fun i hi => hsame _ (Nat.lt_of_lt_of_le (Nat.add_lt_add_left hi _) (by decide))
      rw [htext]
      exact hfront.resolve_right (by rw [hcmap]; exact Bool.false_ne_true)
    have hcount : (ftSegmentSize - 0) / vtblSize = 231 + 1 := by decide
    rw [if_neg Bool.false_ne_true, hcount]
    cases hstep : extractStep cartridge tape 0 (zftInitVtbl cartridge) with
    | none => exact extractLoop_of_stop _ hstep
    | some table =>
      -- an entry of another kind, which is skipped
      have hskip : table = zftInitVtbl cartridge := by
        simp only [extractStep, hid, Bool.false_eq_true, if_false] at hstep
        split_ifs at hstep
        exact (Option.some.inj hstep).symm
      rw [extractLoop_of_step hstep, hskip]
      exact hstop 231

/-- What is written when the list is empty. -/
theorem Device.update_empty (cartridge : Cartridge) {device : Device} (hlaid : device.table.Laid)
    (hempty : device.table.volumes = []) : (device.update cartridge).buffer =
      (putFill vtblSize 0 ftSegmentSize).run (front device.buffer) := by
  have hcount : device.table.eom.count = 0 := by
    rw [hlaid.count, Vtbl.places, hempty]
    rfl
  change runPuts (createPuts cartridge device.table device.buffer) device.buffer = _
  rw [createPuts, hempty, hcount, runPuts_append, List.flatMap_nil, List.append_nil]
  rfl

/-- Behind the entries in use the buffer is clear. -/
theorem Device.Synced.update_clear_of_used {cartridge : Cartridge} {device : Device}
    {old new : List VtblEntry} (h : device.Synced cartridge old new) (hlaid : device.table.Laid) {k : ℕ}
    (hk : device.table.usedSize ≤ k) (hlt : k < ftSegmentSize) :
    (device.update cartridge).buffer k = 0 := by
  rw [Vtbl.usedSize] at hk
  split at hk
  case isTrue hempty =>
    rw [Device.update_empty cartridge hlaid hempty]
    exact if_pos ⟨hk, Nat.lt_add_left _ hlt⟩
  case isFalse hne => exact h.update_clear hlaid hne hk hlt

/-- A buffer that agrees with what was written on the entries in use is read as the list. -/
theorem Device.Synced.extract_update {cartridge : Cartridge} {device : Device} {old new : List VtblEntry}
    (h : device.Synced cartridge old new) (hlaid : device.table.Laid) (henc : device.Encodable cartridge)
    {tape : ℕ → Byte} (hsame : ∀ k, k < device.table.usedSize → tape k = (device.update cartridge).buffer k)
    (hend : EndsAt tape device.table.usedSize) :
    (zftExtractVolumeHeaders cartridge tape).volumes.map VtblEntry.description =
      device.table.volumes.map VtblEntry.description := by
  rw [Vtbl.usedSize] at hsame hend
  by_cases hempty : device.table.volumes = []
  · rw [if_pos hempty] at hsame hend
    have hfront : ∀ k, k < vtblSize → tape k = front device.buffer k := by
      intro k hk
      rw [hsame k hk, Device.update_empty cartridge hlaid hempty]
      exact if_neg (by change ¬(vtblSize ≤ k ∧ _); omega)
    rw [extract_of_front cartridge (henc.empty hempty) hfront hend, hempty]
  · rw [if_neg hempty] at hsame hend
    exact (h.found_update hlaid henc hempty hsame).extract hlaid.nextOffset_le hend

/-- In every run whose operations keep the list and the buffer in step, the volume table that is
written is read back as the list: from the buffer, and from a tape that holds the first `data_sz`
bytes of it, if the entries in use are among them. -/
theorem Device.roundTrip (cartridge : Cartridge) (buffer : ℕ → Byte) {ops : List Operation}
    (hmeets : (zftReadVolumeTable cartridge buffer).RunMeets cartridge ops) :
    let device := ops.foldl (Device.exec cartridge) (zftReadVolumeTable cartridge buffer)
    let written := (device.update cartridge).buffer
    device.Encodable cartridge →
      (zftExtractVolumeHeaders cartridge written).volumes.map VtblEntry.description =
          device.table.volumes.map VtblEntry.description ∧
        ∀ tape, (∀ k, k < cartridge.vtblSz → tape k = written k) →
          device.table.usedSize ≤ cartridge.vtblSz →
          (device.table.usedSize = cartridge.vtblSz → EndsAt tape cartridge.vtblSz) →
          (zftExtractVolumeHeaders cartridge tape).volumes.map VtblEntry.description =
            device.table.volumes.map VtblEntry.description := by
  intro device written henc
  have hread := zftExtractVolumeHeaders_laid cartridge buffer
  have hlaid : device.table.Laid := Device.run_laid cartridge hread ops
  obtain ⟨old, new, hsynced⟩ := (synced_read cartridge buffer).run hread hmeets
  have hclear : device.table.usedSize < ftSegmentSize → written device.table.usedSize = 0 :=
    hsynced.update_clear_of_used hlaid (Nat.le_refl _)
  refine ⟨hsynced.extract_update hlaid henc (fun k _ => rfl) (endsAt_of_clear hclear), ?_⟩
  intro tape hsame hused hfull
  apply hsynced.extract_update hlaid henc fun k hk => hsame k (Nat.lt_of_lt_of_le hk hused)
  rcases Nat.lt_or_eq_of_le hused with hlt | heq
  · exact endsAt_of_clear fun hin => (hsame _ hlt).trans (hclear hin)
  · rw [heq]
    exact hfull heq

/-- Two file marks on a blank cartridge are read back. -/
theorem Device.roundTrip_marks :
    (zftExtractVolumeHeaders qic80Cartridge (Device.update qic80Cartridge (Device.exec qic80Cartridge
      (zftReadVolumeTable qic80Cartridge fun _ => 0) (.weof 2 ⟨3, 0, 0, 0⟩))).buffer).volumes.map
        VtblEntry.description =
      [⟨3, 3, 0, 10240, true, false, false⟩, ⟨4, 4, 0, 10240, true, false, false⟩] := by
  have hmeets : (zftReadVolumeTable qic80Cartridge fun _ => 0).RunMeets qic80Cartridge
      [.weof 2 ⟨3, 0, 0, 0⟩] := ⟨fun _ hlbot => absurd hlbot (by decide +kernel), trivial⟩
  have hnew : ∀ vtbl ∈ (Device.exec qic80Cartridge (zftReadVolumeTable qic80Cartridge fun _ => 0)
      (.weof 2 ⟨3, 0, 0, 0⟩)).table.volumes, vtbl.newVolume = true ∧ vtbl.startSeg < 256 ^ 2 ∧
        vtbl.endSeg < 256 ^ 2 ∧ vtbl.blkSz < 256 ^ 2 ∧ 0 ≤ vtbl.size ∧ vtbl.size < 2 ^ 32 := by
    decide +kernel
  refine (Device.roundTrip qic80Cartridge (fun _ => 0) hmeets ⟨?_, ?_, ?_, ?_⟩).1.trans ?_
  · exact fun _ vtbl hvtbl => (hnew vtbl hvtbl).1
  · exact fun hempty => absurd (congrArg List.length hempty) (by decide +kernel)
  · intro vtbl hvtbl _
    obtain ⟨-, hstart, hend, hblkSz, hsize⟩ := hnew vtbl hvtbl
    exact ⟨hstart, hend, hblkSz, hsize⟩
  · exact fun vtbl hvtbl hold => absurd ((hnew vtbl hvtbl).1.symm.trans hold) Bool.false_ne_true.symm
  · decide +kernel

/-- A volume table segment with one volume. -/
def oneVolumeSegment : ℕ → Byte :=
  runPuts (createZftVolume qic80Cartridge 0 ⟨⟨3, 10, 237568, 237568, 10240, false⟩, 0, 0, 0, true, false,
    false, true⟩) fun _ => 0

/-- Erasing a cartridge leaves its first volume in the volume table. -/
theorem Device.roundTrip_erased :
    let device := zftReadVolumeTable qic80Cartridge oneVolumeSegment
    let erased := device.exec qic80Cartridge .erase
    device.table.vtblBroken = false ∧ device.table.exvtExtension = false ∧
      (zftExtractVolumeHeaders qic80Cartridge (erased.update qic80Cartridge).buffer).volumes.map
        VtblEntry.description ≠ erased.table.volumes.map VtblEntry.description := by
  decide +kernel

end Ftape.Volume
