import Ftape.Volume.Bounds

/-!
# What the volume table is read from

A volume is read from its entry alone, unless the label of an old entry runs on behind it. So a
buffer that agrees with another one up to some place has the same volumes up to there.
-/

namespace Ftape.Volume

open Ftape.Algebra Ftape.Bsm Ftape.Write Ftape.Zftape

/-- A text is found byte by byte. -/
theorem hasText_iff {buffer : ℕ → Byte} {address : ℕ} {text : List Byte} :
    hasText buffer address text = true ↔ ∀ i (hi : i < text.length), buffer (address + i) = text[i] := by
  rw [hasText, decide_eq_true_eq, List.ext_getElem_iff]
  simp only [window_length, window_getElem, true_and]
  exact ⟨fun h i hi => h i hi hi, fun h i hi _ => h i hi⟩

/-- A text without a zero byte is not found where the string ends. -/
theorem lt_of_hasText {buffer : ℕ → Byte} {address past : ℕ} {text : List Byte} (hzero : 0 ∉ text)
    (hle : address ≤ past) (hpast : buffer past = 0) (h : hasText buffer address text = true) :
    address + text.length ≤ past := by
  by_contra hlt
  have hi : past - address < text.length := by omega
  have hbyte := hasText_iff.mp h (past - address) hi
  rw [Nat.add_sub_cancel' hle, hpast] at hbyte
  exact hzero (hbyte ▸ List.getElem_mem hi)

section Strings

variable {buffer buffer' : ℕ → Byte} {address past : ℕ}

/-- Two buffers that agree up to the end of a string find the same text in it. -/
theorem hasText_of_string {text : List Byte} (hzero : 0 ∉ text) (hle : address ≤ past)
    (hpast : buffer past = 0) (hsame : ∀ k, address ≤ k → k ≤ past → buffer k = buffer' k) :
    hasText buffer address text = hasText buffer' address text := by
  have hpast' : buffer' past = 0 := hsame past hle (Nat.le_refl _) ▸ hpast
  have himp {b b' : ℕ → Byte} (hb : b past = 0) (hbb : ∀ k, address ≤ k → k ≤ past → b k = b' k)
      (h : hasText b address text = true) : hasText b' address text = true := by
    have hend := lt_of_hasText hzero hle hb h
    rw [← hasText_congr fun i hi => hbb (address + i) (by omega) (by omega)]
    exact h
  exact Bool.eq_iff_iff.mpr ⟨himp hpast hsame, himp hpast' fun k hk hk' => (hsame k hk hk').symm⟩

/-- `strstr()` looks at the string only. -/
theorem strstr_of_string {text : List Byte} (hzero : 0 ∉ text) (rounds : ℕ) (hle : address ≤ past)
    (hpast : buffer past = 0) (hsame : ∀ k, address ≤ k → k ≤ past → buffer k = buffer' k) :
    strstr buffer text rounds address = strstr buffer' text rounds address := by
  induction rounds generalizing address with
  | zero => rfl
  | succ rounds ih =>
    rw [strstr, strstr, hasText_of_string hzero hle hpast hsame, hsame address (Nat.le_refl _) hle]
    by_cases hend : buffer' address = 0
    · rw [if_pos hend, if_pos hend]
    · have hne : address ≠ past := by
        rintro rfl
        exact hend (hsame address (Nat.le_refl _) hle ▸ hpast)
      rw [if_neg hend, if_neg hend, ih (by omega) fun k hk => hsame k (by omega)]

/-- What `strstr()` finds lies in the string. -/
theorem strstr_le {text : List Byte} (hzero : 0 ∉ text) {rounds found : ℕ} (hle : address ≤ past)
    (hpast : buffer past = 0) (h : strstr buffer text rounds address = some found) :
    found + text.length ≤ past ∧ address ≤ found := by
  induction rounds generalizing address with
  | zero => exact absurd h (by simp [strstr])
  | succ rounds ih =>
    rw [strstr] at h
    split at h
    case isTrue htext =>
      obtain rfl := Option.some.inj h
      exact ⟨lt_of_hasText hzero hle hpast htext, Nat.le_refl _⟩
    case isFalse =>
      split at h
      case isTrue => exact absurd h (by simp)
      case isFalse hend =>
        have hne : address ≠ past := by
          rintro rfl
          exact hend hpast
        obtain ⟨hfound, hle'⟩ := ih (by omega) h
        exact ⟨hfound, by omega⟩

/-- The digits of the block size lie in the string. -/
theorem blocksizeLoop_of_string (rounds : ℕ) (blkSz : ℤ) (hle : address ≤ past)
    (hpast : buffer past = 0) (hsame : ∀ k, address ≤ k → k ≤ past → buffer k = buffer' k) :
    blocksizeLoop buffer rounds address blkSz = blocksizeLoop buffer' rounds address blkSz := by
  induction rounds generalizing address blkSz with
  | zero => rfl
  | succ rounds ih =>
    rw [blocksizeLoop, blocksizeLoop, hsame address (Nat.le_refl _) hle]
    split
    case isTrue hdigit =>
      have hne : address ≠ past := by
        rintro rfl
        rw [← hsame address (Nat.le_refl _) hle, hpast] at hdigit
        exact absurd hdigit.1 (by decide)
      exact ih _ (by omega) fun k hk => hsame k (by omega)
    case isFalse => rfl

/-- The label of a volume is read up to its end. -/
theorem checkVolumeLabel_of_string (hle : address ≤ past) (hpast : buffer past = 0)
    (hsame : ∀ k, address ≤ k → k ≤ past → buffer k = buffer' k) :
    checkVolumeLabel buffer address = checkVolumeLabel buffer' address := by
  rw [checkVolumeLabel, checkVolumeLabel, hasText_of_string (by decide) hle hpast hsame,
    strstr_of_string (by decide) ftSegmentSize hle hpast hsame]
  cases hfound : strstr buffer' blocksizeText ftSegmentSize address with
  | none => rfl
  | some found =>
    rw [← strstr_of_string (by decide) ftSegmentSize hle hpast hsame] at hfound
    obtain ⟨hend, hbegin⟩ := strstr_le (by decide) hle hpast hfound
    simp only [blocksizeLoop_of_string ftSegmentSize 0 hend hpast fun k hk => hsame k (by omega)]

end Strings

/-- The type of an entry is told by its label: it is an old entry of this driver. -/
def ReadsLabel (cartridge : Cartridge) (buffer : ℕ → Byte) (entry : ℕ) : Prop :=
  hasText buffer (entry + (vtblExt + extZftSig)) zftSig = false ∧
    ¬(cartridge.formatCode = .fmtBig ∧ hasText buffer (entry + (vtbl6Ext + ext6ZftSig)) zftSig2 = true) ∧
    hasText buffer (entry + vtblDesc) zftVolName = true

/-- The label of an old entry ends in the entry. -/
def LabelEnds (cartridge : Cartridge) (buffer : ℕ → Byte) (entry : ℕ) : Prop :=
  ReadsLabel cartridge buffer entry →
    ∃ k, entry + vtblDesc ≤ k ∧ k < entry + vtblSize ∧ buffer k = 0

section Entry

variable {cartridge : Cartridge} {buffer buffer' : ℕ → Byte} {entry : ℕ}

/-- Buffers that agree on an entry agree on the texts in it. -/
theorem hasText_of_entry {text : List Byte} {field : ℕ} (hfield : field + text.length ≤ vtblSize)
    (hsame : ∀ k, entry ≤ k → k < entry + vtblSize → buffer k = buffer' k) :
    hasText buffer (entry + field) text = hasText buffer' (entry + field) text := by
  apply hasText_congr
  intro i hi
  apply hsame <;> omega

/-- Buffers that agree on an entry agree on the numbers in it. -/
theorem fetch_of_entry {bigEndian : Bool} {field size : ℕ} (hfield : field + size ≤ vtblSize)
    (hsame : ∀ k, entry ≤ k → k < entry + vtblSize → buffer k = buffer' k) :
    fetch bigEndian buffer (entry + field) size = fetch bigEndian buffer' (entry + field) size := by
  apply fetch_congr
  intro k hk hk'
  apply hsame <;> omega

/-- The type and the block size are read from the entry. -/
theorem getTypeAndBlockSize_of_entry (hlabel : LabelEnds cartridge buffer entry)
    (hsame : ∀ k, entry ≤ k → k < entry + vtblSize → buffer k = buffer' k) (volume : VtblEntry) :
    getTypeAndBlockSize cartridge buffer entry volume =
      getTypeAndBlockSize cartridge buffer' entry volume := by
  have hsig : hasText buffer (entry + (vtblExt + extZftSig)) zftSig =
      hasText buffer' (entry + (vtblExt + extZftSig)) zftSig := by
    exact hasText_of_entry (by decide) hsame
  have hsig2 : hasText buffer (entry + (vtbl6Ext + ext6ZftSig)) zftSig2 =
      hasText buffer' (entry + (vtbl6Ext + ext6ZftSig)) zftSig2 := by
    exact hasText_of_entry (by decide) hsame
  have hnumber (field size : ℕ) (hfield : field + size ≤ vtblSize) :
      fetch cartridge.bigEndian buffer (entry + field) size =
        fetch cartridge.bigEndian buffer' (entry + field) size := fetch_of_entry hfield hsame
  have hbyte (field : ℕ) (hfield : field < vtblSize) : buffer (entry + field) = buffer' (entry + field) :=
    hsame _ (Nat.le_add_right _ _) (Nat.add_lt_add_left hfield entry)
  rw [getTypeAndBlockSize, getTypeAndBlockSize, ← hsig, ← hsig2]
  by_cases hv1 : hasText buffer (entry + (vtblExt + extZftSig)) zftSig = true
  · rw [if_pos hv1, if_pos hv1, hnumber (vtblExt + extZftBlksz) 2 (by decide), hbyte (vtblExt + extZftQic113) (by decide)]
  · rw [if_neg hv1, if_neg hv1]
    by_cases hv2 : cartridge.formatCode = .fmtBig ∧
        hasText buffer (entry + (vtbl6Ext + ext6ZftSig)) zftSig2 = true
    · rw [if_pos hv2, if_pos hv2, hnumber (vtbl6Ext + ext6ZftBlksz) 2 (by decide), hbyte (vtbl6Ext + ext6ZftSigv) (by decide)]
    · rw [if_neg hv2, if_neg hv2]
      have hchecked : checkVolumeLabel buffer (entry + vtblDesc) =
          checkVolumeLabel buffer' (entry + vtblDesc) := by
        have hname : hasText buffer (entry + vtblDesc) zftVolName =
            hasText buffer' (entry + vtblDesc) zftVolName := hasText_of_entry (by decide) hsame
        cases hnamed : hasText buffer (entry + vtblDesc) zftVolName with
        | true =>
          obtain ⟨past, hle, hlt, hpast⟩ := hlabel ⟨by simpa using hv1, hv2, hnamed⟩
          exact checkVolumeLabel_of_string hle hpast fun k hk hk' => hsame k (by omega) (by omega)
        | false =>
          simp only [checkVolumeLabel, ← hname, hnamed, Bool.false_eq_true, if_false]
      rw [hchecked]

/-- The segments are read from the entry. -/
theorem extractSegmentRange_of_entry
    (hsame : ∀ k, entry ≤ k → k < entry + vtblSize → buffer k = buffer' k) (eomStart : ℕ)
    (volume : VtblEntry) : extractSegmentRange cartridge buffer entry eomStart volume =
      extractSegmentRange cartridge buffer' entry eomStart volume := by
  have hnumber (field size : ℕ) (hfield : field + size ≤ vtblSize) :
      fetch cartridge.bigEndian buffer (entry + field) size =
        fetch cartridge.bigEndian buffer' (entry + field) size := fetch_of_entry hfield hsame
  rw [extractSegmentRange, extractSegmentRange, hnumber vtbl6Segs 4 (by decide),
    hnumber vtbl6Start 4 (by decide), hnumber vtbl6End 4 (by decide), hnumber vtblStart 2 (by decide),
    hnumber vtblEnd 2 (by decide)]

/-- The size is read from the entry. -/
theorem extractZftVolume_of_entry
    (hsame : ∀ k, entry ≤ k → k < entry + vtblSize → buffer k = buffer' k) (volume : VtblEntry) :
    extractZftVolume cartridge buffer entry volume = extractZftVolume cartridge buffer' entry volume := by
  have hbyte (field : ℕ) (hfield : field < vtblSize) : buffer (entry + field) = buffer' (entry + field) :=
    hsame _ (Nat.le_add_right _ _) (Nat.add_lt_add_left hfield entry)
  have hnumber (size : ℕ) (hfield : vtblDataSize + size ≤ vtblSize) :
      fetch cartridge.bigEndian buffer (entry + vtblDataSize) size =
        fetch cartridge.bigEndian buffer' (entry + vtblDataSize) size := fetch_of_entry hfield hsame
  rw [extractZftVolume, extractZftVolume, hnumber 8 (by decide), hnumber 4 (by decide),
    hbyte vtblCmpr (by decide), hbyte vtblKCmpr (by decide)]

/-- A volume is read from its entry. -/
theorem extractEntry_of_entry (hlabel : LabelEnds cartridge buffer entry)
    (hsame : ∀ k, entry ≤ k → k < entry + vtblSize → buffer k = buffer' k) (eomStart : ℕ)
    (volume : VtblEntry) : extractEntry cartridge buffer entry eomStart volume =
      extractEntry cartridge buffer' entry eomStart volume := by
  rw [extractEntry, extractEntry, getTypeAndBlockSize_of_entry hlabel hsame,
    extractSegmentRange_of_entry hsame, extractZftVolume_of_entry hsame]

/-- The table is extended by what its entry says. -/
theorem extractVolume_of_entry (hlabel : LabelEnds cartridge buffer entry)
    (hsame : ∀ k, entry ≤ k → k < entry + vtblSize → buffer k = buffer' k) (table : Vtbl) :
    extractVolume cartridge buffer entry table = extractVolume cartridge buffer' entry table := by
  rw [extractVolume, extractVolume, extractEntry_of_entry hlabel hsame]

end Entry

/-- What the loop of `zft_extract_volume_headers()` makes of an entry, unless it stops there. -/
def extractStep (cartridge : Cartridge) (buffer : ℕ → Byte) (entry : ℕ) (table : Vtbl) : Option Vtbl :=
  if hasText buffer (entry + vtblSig) exvtId then none
  else if hasText buffer (entry + vtblSig) xtblId || hasText buffer (entry + vtblSig) utidId then some table
  else if hasText buffer (entry + vtblSig) vtblId then some (extractVolume cartridge buffer entry table)
  else none

/-- The loop of `zft_extract_volume_headers()` for a number of entries, unless it stops at one. -/
def extractRounds (cartridge : Cartridge) (buffer : ℕ → Byte) : ℕ → ℕ → Vtbl → Option Vtbl
  | 0, _, table => some table
  | rounds + 1, entry, table =>
    (extractStep cartridge buffer entry table).bind
      (extractRounds cartridge buffer rounds (entry + vtblSize))

section Rounds

variable {cartridge : Cartridge} {buffer buffer' : ℕ → Byte}

/-- An entry keeps the table, or adds a volume to it. -/
theorem extractStep_cases {entry : ℕ} {table table' : Vtbl}
    (h : extractStep cartridge buffer entry table = some table') :
    table' = table ∨ table' = extractVolume cartridge buffer entry table := by
  rw [extractStep] at h
  split_ifs at h
  · exact Or.inl (Option.some.inj h).symm
  · exact Or.inr (Option.some.inj h).symm

/-- The loop goes on behind an entry. -/
theorem extractLoop_of_step {rounds entry : ℕ} {table table' : Vtbl}
    (h : extractStep cartridge buffer entry table = some table') :
    extractLoop cartridge buffer (rounds + 1) entry table =
      extractLoop cartridge buffer rounds (entry + vtblSize) table' := by
  rw [extractStep] at h
  rw [extractLoop]
  split_ifs at h ⊢
  · rw [Option.some.inj h]
  · rw [Option.some.inj h]

/-- The loop stops at an entry. -/
theorem extractLoop_of_stop (rounds : ℕ) {entry : ℕ} {table : Vtbl}
    (h : extractStep cartridge buffer entry table = none) :
    (extractLoop cartridge buffer rounds entry table).volumes = table.volumes := by
  cases rounds with
  | zero => rfl
  | succ rounds =>
    rw [extractStep] at h
    rw [extractLoop]
    split_ifs at h ⊢
    · rfl
    · rfl

/-- The entry behind some entries. -/
theorem entry_succ (entry rounds : ℕ) :
    entry + (rounds + 1) * vtblSize = entry + vtblSize + rounds * vtblSize := by
  rw [Nat.add_mul]
  omega

/-- The loop goes on behind the entries it took. -/
theorem extractLoop_of_rounds {rounds entry : ℕ} {table table' : Vtbl} (more : ℕ)
    (h : extractRounds cartridge buffer rounds entry table = some table') :
    extractLoop cartridge buffer (rounds + more) entry table =
      extractLoop cartridge buffer more (entry + rounds * vtblSize) table' := by
  induction rounds generalizing entry table with
  | zero =>
    obtain rfl := Option.some.inj h
    rw [Nat.zero_add, Nat.zero_mul, Nat.add_zero]
  | succ rounds ih =>
    obtain ⟨next, hstep, hrest⟩ := Option.bind_eq_some_iff.mp h
    rw [Nat.add_right_comm, extractLoop_of_step hstep, ih hrest, entry_succ]

/-- Rounds behind rounds. -/
theorem extractRounds_add {rounds entry : ℕ} {table table' : Vtbl} (more : ℕ)
    (h : extractRounds cartridge buffer rounds entry table = some table') :
    extractRounds cartridge buffer (rounds + more) entry table =
      extractRounds cartridge buffer more (entry + rounds * vtblSize) table' := by
  induction rounds generalizing entry table with
  | zero =>
    obtain rfl := Option.some.inj h
    rw [Nat.zero_add, Nat.zero_mul, Nat.add_zero]
  | succ rounds ih =>
    obtain ⟨next, hstep, hrest⟩ := Option.bind_eq_some_iff.mp h
    rw [Nat.add_right_comm, extractRounds, hstep, Option.bind_some, ih hrest, entry_succ]

/-- The volumes found so far stay. -/
theorem volumes_of_extractRounds {rounds entry : ℕ} {table table' : Vtbl}
    (h : extractRounds cartridge buffer rounds entry table = some table') :
    table.volumes <+: table'.volumes := by
  induction rounds generalizing entry table with
  | zero =>
    obtain rfl := Option.some.inj h
    exact List.prefix_rfl
  | succ rounds ih =>
    obtain ⟨next, hstep, hrest⟩ := Option.bind_eq_some_iff.mp h
    have hprefix := ih hrest
    rcases extractStep_cases hstep with rfl | rfl
    · exact hprefix
    · exact (List.prefix_append _ _).trans hprefix

/-- Buffers that agree on an entry take the same step there. -/
theorem extractStep_of_entry {entry : ℕ} (table : Vtbl)
    (hsame : ∀ k, entry ≤ k → k < entry + vtblSize → buffer k = buffer' k)
    (hlabel : extractStep cartridge buffer entry table =
      some (extractVolume cartridge buffer entry table) → LabelEnds cartridge buffer entry) :
    extractStep cartridge buffer entry table = extractStep cartridge buffer' entry table := by
  have hid (text : List Byte) (hlength : vtblSig + text.length ≤ vtblSize) :
      hasText buffer (entry + vtblSig) text = hasText buffer' (entry + vtblSig) text :=
    hasText_of_entry hlength hsame
  rw [extractStep] at hlabel
  rw [extractStep, extractStep, ← hid exvtId (by decide), ← hid xtblId (by decide),
    ← hid utidId (by decide), ← hid vtblId (by decide)]
  split_ifs at hlabel ⊢
  · rfl
  · rfl
  · rw [extractVolume_of_entry (hlabel rfl) hsame]
  · rfl

/-- Buffers that agree on some entries have the same volumes there. -/
theorem extractRounds_of_agree {rounds entry : ℕ} {table table' : Vtbl}
    (hsame : ∀ k, k < entry + rounds * vtblSize → buffer k = buffer' k)
    (h : extractRounds cartridge buffer rounds entry table = some table')
    (hlabels : ∀ vtbl ∈ table'.volumes, LabelEnds cartridge buffer vtbl.offset) :
    extractRounds cartridge buffer' rounds entry table = some table' := by
  induction rounds generalizing entry table with
  | zero => exact h
  | succ rounds ih =>
    rw [entry_succ] at hsame
    obtain ⟨next, hstep, hrest⟩ := Option.bind_eq_some_iff.mp h
    have hlabel (hvolume : extractStep cartridge buffer entry table =
        some (extractVolume cartridge buffer entry table)) : LabelEnds cartridge buffer entry := by
      obtain rfl := Option.some.inj (hstep.symm.trans hvolume)
      have hmem := (volumes_of_extractRounds hrest).subset
        (List.mem_append_right _ (List.mem_singleton_self _))
      exact hlabels _ hmem
    rw [extractRounds, ← extractStep_of_entry table (fun k _ hk => hsame k (by omega)) hlabel, hstep,
      Option.bind_some, ih hsame hrest]

/-- What the loop finds, it finds in the rounds up to the last volume. -/
theorem exists_extractRounds (cartridge : Cartridge) (buffer : ℕ → Byte) (rounds entry : ℕ)
    (table : Vtbl) : ∃ taken table', taken ≤ rounds ∧
      extractRounds cartridge buffer taken entry table = some table' ∧
      table'.volumes = (extractLoop cartridge buffer rounds entry table).volumes ∧
      (table'.volumes = table.volumes ∨ table'.nextOffset = entry + taken * vtblSize) := by
  induction rounds generalizing entry table with
  | zero => exact ⟨0, table, Nat.le_refl _, rfl, rfl, Or.inl rfl⟩
  | succ rounds ih =>
    cases hstep : extractStep cartridge buffer entry table with
    | none =>
      exact ⟨0, table, Nat.zero_le _, rfl, (extractLoop_of_stop _ hstep).symm, Or.inl rfl⟩
    | some next =>
      obtain ⟨taken, table', hle, hrounds, hvolumes, hnext⟩ := ih (entry + vtblSize) next
      rw [extractLoop_of_step hstep]
      rcases hnext with hnext | hnext
      · rcases extractStep_cases hstep with rfl | rfl
        · exact ⟨0, next, Nat.zero_le _, rfl, hnext.symm.trans hvolumes, Or.inl rfl⟩
        · -- this volume is the last one
          refine ⟨1, _, Nat.succ_le_succ (Nat.zero_le _), ?_, hnext.symm.trans hvolumes, Or.inr ?_⟩
          · rw [extractRounds, hstep, Option.bind_some, extractRounds]
          · rw [Nat.one_mul, Vtbl.nextOffset, extractVolume, List.getLast?_concat]
            rfl
      · refine ⟨taken + 1, table', Nat.succ_le_succ hle, ?_, hvolumes, Or.inr ?_⟩
        · rw [extractRounds, hstep, Option.bind_some, hrounds]
        · rw [hnext, entry_succ]

end Rounds

end Ftape.Volume
