import Ftape.Volume.EofMap
import Ftape.Volume.Locality

/-!
# Labels of old tapes

The label of an old tape ends with the version of its format. The loop over the digits keeps only the last
one, and nothing but a byte that is no digit ends it, so that it may leave the label. It recognises the labels
in which the digits end before the label does, with no other digit than zeroes in front of a last one that is a
version.
-/

namespace Ftape.Volume

open Ftape.Algebra

/-- A number of bytes at a place of the header segment that are read. -/
structure LabelRead where
  address : ℕ
  bytes : ℕ
deriving DecidableEq

/-- The bytes are bytes of the label. -/
def LabelRead.Inside (read : LabelRead) : Prop := ftLabel ≤ read.address ∧ read.address + read.bytes ≤ ftLabelDate

/-- Routines that read the label. They may be stopped while they loop. -/
abbrev LabelRoutine (Value : Type) := Recorded LabelRead Unit Value

/-- The loop of `zft_ftape_validate_label()` with what it reads. The version is multiplied by ten, but then the digit
is assigned and not added. -/
def readVersion (buffer : ℕ → Byte) : ℕ → ℕ → ℕ → LabelRoutine ℕ
  | 0, _, _ => .halt ()
  | rounds + 1, address, version => do
    Recorded.note ⟨address, 1⟩
    let digit := (buffer address).toNat
    if 48 ≤ digit ∧ digit ≤ 57 then readVersion buffer rounds (address + 1) (digit - 48) else pure version

/-- `zft_ftape_validate_label()` with what it reads: the label is copied for the kernel log, and compared with the
text. -/
def readLabel (zftape : OldTape) : LabelRoutine (Bool × OldTape) := do
  Recorded.note ⟨ftLabel, ftLabelSz⟩
  Recorded.note ⟨ftLabel, linuxTapeLabel.length⟩
  if hasText zftape.hsegBuf ftLabel linuxTapeLabel then do
    let version ← readVersion zftape.hsegBuf ftSegmentSize (ftLabel + linuxTapeLabel.length) 0
    pure (minFmtVersion ≤ version ∧ version ≤ maxFmtVersion, { zftape with ftapeFmtVersion := version })
  else pure (false, { zftape with ftapeFmtVersion := 0 })

/-- A decimal digit. -/
def IsDigit (byte : Byte) : Prop := 48 ≤ byte.toNat ∧ byte.toNat ≤ 57

instance : DecidablePred IsDigit := fun _ => inferInstanceAs (Decidable (_ ∧ _))

/-- The number that digits stand for. -/
def decimal (digits : List Byte) : ℕ := digits.foldl (fun number digit => 10 * number + (digit.toNat - 48)) 0

/-- A label that goes on with digits behind the text, up to a byte that is no digit or to its end. -/
structure Versioned (label digits rest : List Byte) : Prop where
  label : label = linuxTapeLabel ++ (digits ++ rest)
  digits : ∀ digit ∈ digits, IsDigit digit
  rest : ∀ byte ∈ rest.head?, ¬IsDigit byte

/-- A label of an old tape: the text and a decimal number behind it, which is a version of the format. -/
def OldLabel (label : List Byte) : Prop :=
  ∃ digits rest, Versioned label digits rest ∧ digits ≠ [] ∧ minFmtVersion ≤ decimal digits ∧
    decimal digits ≤ maxFmtVersion

/-- A label whose digits end before it does. In front of a last digit that is a version by itself there are only
zeroes. -/
def PlainLabel (label : List Byte) : Prop :=
  ∀ digits rest, Versioned label digits rest → rest ≠ [] ∧ ∀ front last, digits = front ++ [last] →
    minFmtVersion ≤ last.toNat - 48 ∧ last.toNat - 48 ≤ maxFmtVersion → ∀ digit ∈ front, digit = 48

/-- The label of a tape. -/
def OldTape.label (zftape : OldTape) : List Byte := window zftape.hsegBuf ftLabel ftLabelSz

/-- What is to be expected of `zft_ftape_validate_label()`: it returns, it accepts the labels of old tapes and no
others, and reads no bytes but those of the label. -/
def OldTape.Recognised (zftape : OldTape) : Prop :=
  (∃ old after, (readLabel zftape).result = .ok (old, after) ∧ (old = true ↔ OldLabel zftape.label)) ∧
    ∀ read ∈ (readLabel zftape).queries, read.Inside

/-- If the loop returns, it is the loop without what it reads. -/
theorem versionLoop_of_readVersion {buffer : ℕ → Byte} {rounds address version value : ℕ}
    (h : (readVersion buffer rounds address version).result = .ok value) :
    versionLoop buffer rounds address version = value := by
  induction rounds generalizing address version with
  | zero => cases h
  | succ rounds ih =>
    rw [readVersion, Recorded.result_bind rfl] at h
    rw [versionLoop]
    by_cases hdigit : 48 ≤ (buffer address).toNat ∧ (buffer address).toNat ≤ 57
    · rw [if_pos hdigit] at h
      rw [if_pos hdigit]
      exact ih h
    · rw [if_neg hdigit] at h
      rw [if_neg hdigit]
      exact Except.ok.inj h

/-- If `zft_ftape_validate_label()` returns, what it reads does not matter. -/
theorem zftFtapeValidateLabel_of_readLabel {zftape : OldTape} {value : Bool × OldTape}
    (h : (readLabel zftape).result = .ok value) : zftFtapeValidateLabel zftape = value := by
  rw [readLabel, Recorded.result_bind rfl, Recorded.result_bind rfl] at h
  rw [zftFtapeValidateLabel]
  by_cases htext : hasText zftape.hsegBuf ftLabel linuxTapeLabel = true
  · rw [if_pos htext] at h
    rw [if_pos htext]
    cases hloop : (readVersion zftape.hsegBuf ftSegmentSize (ftLabel + linuxTapeLabel.length) 0).result with
    | error reason =>
      change (Recorded.bind _ _).result = _ at h
      rw [Recorded.bind, hloop] at h
      cases h
    | ok version =>
      rw [Recorded.result_bind hloop] at h
      rw [versionLoop_of_readVersion hloop]
      exact Except.ok.inj h
  · rw [if_neg htext] at h
    rw [if_neg htext]
    exact Except.ok.inj h

section Loop

variable {buffer : ℕ → Byte}

/-- One round of the loop. -/
theorem readVersion_succ (buffer : ℕ → Byte) (rounds address version : ℕ) :
    readVersion buffer (rounds + 1) address version =
      if IsDigit (buffer address) then
        ⟨⟨address, 1⟩ :: (readVersion buffer rounds (address + 1) ((buffer address).toNat - 48)).queries,
          (readVersion buffer rounds (address + 1) ((buffer address).toNat - 48)).result⟩
      else ⟨[⟨address, 1⟩], .ok version⟩ := by
  rw [readVersion]
  change Recorded.bind _ _ = _
  rw [Recorded.bind]
  by_cases hdigit : IsDigit (buffer address)
  · have hcond : 48 ≤ (buffer address).toNat ∧ (buffer address).toNat ≤ 57 := hdigit
    rw [if_pos hdigit]
    dsimp only [Recorded.note]
    rw [if_pos hcond]
    rfl
  · have hcond : ¬(48 ≤ (buffer address).toNat ∧ (buffer address).toNat ≤ 57) := hdigit
    rw [if_neg hdigit]
    dsimp only [Recorded.note]
    rw [if_neg hcond]
    rfl

/-- Behind digits, the next byte is read. -/
theorem mem_readVersion {n rounds address : ℕ} (version : ℕ) (hdigits : ∀ i < n, IsDigit (buffer (address + i)))
    (hrounds : n < rounds) : ⟨address + n, 1⟩ ∈ (readVersion buffer rounds address version).queries := by
  induction n generalizing rounds address version with
  | zero =>
    obtain ⟨rounds, rfl⟩ := Nat.exists_eq_succ_of_ne_zero (Nat.ne_of_gt hrounds)
    rw [Nat.succ_eq_add_one, readVersion_succ]
    split
    · exact List.mem_cons_self
    · exact List.mem_cons_self
  | succ n ih =>
    obtain ⟨rounds, rfl⟩ := Nat.exists_eq_succ_of_ne_zero (Nat.ne_of_gt (Nat.zero_lt_of_lt hrounds))
    have hfirst : IsDigit (buffer address) := hdigits 0 (Nat.succ_pos n)
    rw [Nat.succ_eq_add_one, readVersion_succ, if_pos hfirst]
    have hothers : ∀ i < n, IsDigit (buffer (address + 1 + i)) := by
      intro i hi
      rw [Nat.add_assoc, Nat.add_comm 1]
      exact hdigits (i + 1) (Nat.succ_lt_succ hi)
    have hnext := ih ((buffer address).toNat - 48) hothers (Nat.lt_of_succ_lt_succ hrounds)
    rw [Nat.add_assoc, Nat.add_comm 1] at hnext
    exact List.mem_cons_of_mem _ hnext

/-- The loop ends at the first byte that is no digit, with the last digit. -/
theorem readVersion_eq {digits : List Byte} {rounds address : ℕ} (version : ℕ)
    (hwindow : window buffer address digits.length = digits) (hdigits : ∀ digit ∈ digits, IsDigit digit)
    (hend : ¬IsDigit (buffer (address + digits.length))) (hrounds : digits.length < rounds) :
    (readVersion buffer rounds address version).result =
        .ok (digits.getLast?.elim version fun last => last.toNat - 48) ∧
      ∀ read ∈ (readVersion buffer rounds address version).queries,
        address ≤ read.address ∧ read.address + read.bytes ≤ address + digits.length + 1 := by
  induction digits generalizing rounds address version with
  | nil =>
    obtain ⟨rounds, rfl⟩ := Nat.exists_eq_succ_of_ne_zero (Nat.ne_of_gt hrounds)
    have hend' : ¬IsDigit (buffer address) := hend
    rw [Nat.succ_eq_add_one, readVersion_succ, if_neg hend']
    refine ⟨rfl, fun read hread => ?_⟩
    rw [List.mem_singleton.mp hread]
    exact ⟨le_rfl, le_rfl⟩
  | cons digit digits ih =>
    obtain ⟨rounds, rfl⟩ := Nat.exists_eq_succ_of_ne_zero (Nat.ne_of_gt (Nat.zero_lt_of_lt hrounds))
    rw [List.length_cons, window_succ] at hwindow
    obtain ⟨hbyte, hothers⟩ := List.cons.inj hwindow
    have hnext : address + 1 + digits.length = address + (digit :: digits).length := by
      rw [List.length_cons]
      omega
    obtain ⟨hresult, hreads⟩ := ih (digit.toNat - 48) hothers (fun d hd => hdigits d (List.mem_cons_of_mem _ hd))
      (hnext ▸ hend) (Nat.lt_of_succ_lt_succ hrounds)
    have hfirst' : IsDigit (buffer address) := hbyte ▸ hdigits digit List.mem_cons_self
    rw [Nat.succ_eq_add_one, readVersion_succ, if_pos hfirst', hbyte]
    refine ⟨hresult.trans ?_, fun read hread => ?_⟩
    · cases digits with
      | nil => rfl
      | cons other others => rw [List.getLast?_cons_cons, List.getLast?_cons]; rfl
    · cases List.mem_cons.mp hread with
      | inl heq =>
        rw [heq, List.length_cons]
        dsimp only
        omega
      | inr hmem =>
        have := hreads read hmem
        rw [List.length_cons]
        omega

end Loop

section Digits

/-- A number with one more digit. -/
theorem decimal_concat (front : List Byte) (last : Byte) :
    decimal (front ++ [last]) = 10 * decimal front + (last.toNat - 48) := by
  rw [decimal, List.foldl_append]
  rfl

/-- Only zeroes stand for zero. -/
theorem decimal_eq_zero_iff {digits : List Byte} (hdigits : ∀ digit ∈ digits, IsDigit digit) :
    decimal digits = 0 ↔ ∀ digit ∈ digits, digit = 48 := by
  induction digits using List.reverseRecOn with
  | nil => exact ⟨fun _ digit hdigit => absurd hdigit List.not_mem_nil, fun _ => rfl⟩
  | append_singleton front last ih =>
    have hfront := ih fun digit hdigit => hdigits digit (List.mem_append_left _ hdigit)
    have hlast := hdigits last (List.mem_append_right _ List.mem_cons_self)
    rw [decimal_concat]
    constructor
    · intro hzero digit hdigit
      cases List.mem_append.mp hdigit with
      | inl hmem => exact hfront.mp (by omega) digit hmem
      | inr hmem =>
        rw [List.mem_singleton.mp hmem]
        apply BitVec.eq_of_toNat_eq
        change last.toNat = 48
        have := hlast.1
        omega
    · intro hzeroes
      rw [hfront.mpr fun digit hdigit => hzeroes digit (List.mem_append_left _ hdigit),
        hzeroes last (List.mem_append_right _ List.mem_cons_self)]
      rfl

variable {label : List Byte}

/-- Behind the text, the digits of a label go on as far as they can. -/
theorem versioned_of_text {text : List Byte} (h : label = linuxTapeLabel ++ text) :
    Versioned label (text.takeWhile (IsDigit ·)) (text.dropWhile (IsDigit ·)) where
  label := by rw [h, List.takeWhile_append_dropWhile]
  digits := fun digit hdigit => by
    have hdecide := List.mem_takeWhile_imp hdigit
    exact of_decide_eq_true hdecide
  rest := by
    intro byte hbyte hdigit
    have hnone := List.head?_dropWhile_not (fun byte => decide (IsDigit byte)) text
    rw [Option.mem_def.mp hbyte] at hnone
    exact of_decide_eq_false hnone hdigit

/-- And there is no other way to read them. -/
theorem Versioned.unique {digits rest digits' rest' : List Byte} (h : Versioned label digits rest)
    (h' : Versioned label digits' rest') : digits = digits' ∧ rest = rest' := by
  have htake : ∀ {digits rest}, Versioned label digits rest →
      (label.drop linuxTapeLabel.length).takeWhile (IsDigit ·) = digits := by
    intro digits rest hversioned
    rw [hversioned.label, List.drop_left, List.takeWhile_append_of_pos fun d hd => decide_eq_true (hversioned.digits d hd)]
    cases rest with
    | nil => exact List.append_nil digits
    | cons byte bytes =>
      have hbyte : ¬IsDigit byte := hversioned.rest byte rfl
      rw [List.takeWhile_cons_of_neg (by simpa using hbyte), List.append_nil]
  have hdigits : digits = digits' := (htake h).symm.trans (htake h')
  refine ⟨hdigits, ?_⟩
  have hlabel := h.label.symm.trans h'.label
  rw [hdigits] at hlabel
  exact List.append_cancel_left (List.append_cancel_left hlabel)

/-- Whether a label is that of an old tape is decided by its digits. -/
theorem Versioned.oldLabel_iff {digits rest : List Byte} (h : Versioned label digits rest) :
    OldLabel label ↔ digits ≠ [] ∧ minFmtVersion ≤ decimal digits ∧ decimal digits ≤ maxFmtVersion := by
  constructor
  · rintro ⟨digits', rest', h', hversion⟩
    rwa [(h.unique h').1]
  · exact fun hversion => ⟨digits, rest, h, hversion⟩

/-- And so is whether it is a plain one. -/
theorem Versioned.plainLabel_iff {digits rest : List Byte} (h : Versioned label digits rest) :
    PlainLabel label ↔ rest ≠ [] ∧ ∀ front last, digits = front ++ [last] →
      minFmtVersion ≤ last.toNat - 48 ∧ last.toNat - 48 ≤ maxFmtVersion → ∀ digit ∈ front, digit = 48 := by
  constructor
  · exact fun hplain => hplain digits rest h
  · intro hends digits' rest' h'
    obtain ⟨rfl, rfl⟩ := h.unique h'
    exact hends

/-- The last digit decides as the number does exactly if only zeroes stand in front of it where it is a version. -/
theorem Versioned.last_decides {digits rest : List Byte} (h : Versioned label digits rest) (hrest : rest ≠ []) :
    ((minFmtVersion ≤ (digits.getLast?.elim 0 fun last => last.toNat - 48) ∧
        (digits.getLast?.elim 0 fun last => last.toNat - 48) ≤ maxFmtVersion) ↔ OldLabel label) ↔ PlainLabel label := by
  rw [h.oldLabel_iff, h.plainLabel_iff]
  cases List.eq_nil_or_concat digits with
  | inl hnil =>
    rw [hnil]
    refine ⟨fun _ => ⟨hrest, fun front last hdigits => ?_⟩, fun _ => ?_⟩
    · exact absurd hdigits.symm (List.append_ne_nil_of_right_ne_nil front (List.cons_ne_nil last []))
    · exact ⟨fun hversion => absurd hversion.1 (by decide), fun hversion => absurd rfl hversion.1⟩
  | inr hconcat =>
    obtain ⟨front, last, hdigits⟩ := hconcat
    rw [List.concat_eq_append] at hdigits
    have hlast : digits.getLast? = some last := hdigits ▸ List.getLast?_concat
    have hfront := decimal_eq_zero_iff fun digit hdigit =>
      h.digits digit (hdigits ▸ List.mem_append_left [last] hdigit)
    have hnumber : decimal digits = 10 * decimal front + (last.toNat - 48) := hdigits ▸ decimal_concat front last
    have hne : digits ≠ [] := hdigits ▸ List.append_ne_nil_of_right_ne_nil front (List.cons_ne_nil last [])
    rw [hlast, hnumber, Option.elim_some]
    constructor
    · intro hdecides
      refine ⟨hrest, fun front' last' hdigits' hversion => ?_⟩
      obtain ⟨rfl, hsame⟩ := List.append_inj' (hdigits.symm.trans hdigits') rfl
      rw [← List.head_eq_of_cons_eq hsame] at hversion
      have hnumber := (hdecides.mp hversion).2.2
      rw [maxFmtVersion] at hnumber
      exact hfront.mp (by omega)
    · rintro ⟨-, hplain⟩
      rw [minFmtVersion, maxFmtVersion] at hplain ⊢
      constructor
      · intro hversion
        have hzero := hfront.mpr (hplain front last hdigits hversion)
        exact ⟨hne, by omega⟩
      · intro hold
        omega

end Digits

/-- Part of a window. -/
theorem window_front {buffer : ℕ → Byte} {address n : ℕ} {front back : List Byte}
    (h : window buffer address n = front ++ back) :
    window buffer address front.length = front ∧ window buffer (address + front.length) back.length = back := by
  have hlength : n = front.length + back.length := by
    rw [← List.length_append, ← h, window_length]
  rw [hlength, window_append] at h
  exact List.append_inj h (window_length _ _ _)

/-- The text is there if the label starts with it. -/
theorem OldTape.label_eq {zftape : OldTape} :
    (hasText zftape.hsegBuf ftLabel linuxTapeLabel = true ↔ ∃ text, zftape.label = linuxTapeLabel ++ text) := by
  constructor
  · intro htext
    refine ⟨window zftape.hsegBuf (ftLabel + linuxTapeLabel.length) (ftLabelSz - linuxTapeLabel.length), ?_⟩
    have htext : window zftape.hsegBuf ftLabel linuxTapeLabel.length = linuxTapeLabel := of_decide_eq_true htext
    rw [OldTape.label, show ftLabelSz = linuxTapeLabel.length + (ftLabelSz - linuxTapeLabel.length) from rfl,
      window_append, htext]
    rfl
  · rintro ⟨text, hlabel⟩
    exact decide_eq_true (window_front hlabel).1

/-- The loop of `zft_ftape_validate_label()` on a header segment. -/
def labelVersion (buffer : ℕ → Byte) : LabelRoutine ℕ :=
  readVersion buffer ftSegmentSize (ftLabel + linuxTapeLabel.length) 0

/-- What is read of a label that starts with the text. -/
theorem readLabel_of_text {zftape : OldTape} (h : hasText zftape.hsegBuf ftLabel linuxTapeLabel = true) :
    (readLabel zftape).queries =
        ⟨ftLabel, ftLabelSz⟩ :: ⟨ftLabel, linuxTapeLabel.length⟩ :: (labelVersion zftape.hsegBuf).queries ∧
      ∀ version, (labelVersion zftape.hsegBuf).result = .ok version → (readLabel zftape).result =
        .ok (minFmtVersion ≤ version ∧ version ≤ maxFmtVersion, { zftape with ftapeFmtVersion := version }) := by
  rw [readLabel, if_pos h]
  change (Recorded.bind _ _).queries = _ ∧ ∀ _, _ → (Recorded.bind _ _).result = _
  simp only [Recorded.bind, Recorded.note, bind, pure, Recorded.pure]
  rw [← labelVersion]
  cases (labelVersion zftape.hsegBuf).result with
  | error reason =>
    refine ⟨rfl, fun version hversion => ?_⟩
    cases hversion
  | ok version =>
    refine ⟨?_, fun version' hversion => ?_⟩
    · dsimp only
      rw [List.append_nil]
      rfl
    · cases hversion
      rfl

/-- The copy of the label and the comparison with the text stay in the label. -/
theorem inside_of_front {read : LabelRead}
    (h : read = ⟨ftLabel, ftLabelSz⟩ ∨ read = ⟨ftLabel, linuxTapeLabel.length⟩) : read.Inside := by
  rcases h with rfl | rfl
  · exact ⟨le_rfl, by decide⟩
  · exact ⟨le_rfl, by decide⟩

/-- `zft_ftape_validate_label()` does what is to be expected exactly of the labels whose digits end before the label
does, and have only zeroes in front of a last one that is a version: each digit replaces the number so far. -/
theorem recognised_iff (zftape : OldTape) : zftape.Recognised ↔ PlainLabel zftape.label := by
  by_cases htext : hasText zftape.hsegBuf ftLabel linuxTapeLabel = true
  · obtain ⟨text, hlabel⟩ := OldTape.label_eq.mp htext
    have hversioned := versioned_of_text hlabel
    generalize text.takeWhile (IsDigit ·) = digits at hversioned
    generalize text.dropWhile (IsDigit ·) = rest at hversioned
    obtain ⟨-, hbehind⟩ := window_front hversioned.label
    obtain ⟨hwindow, hrest⟩ := window_front hbehind
    obtain ⟨hqueries, hresult⟩ := readLabel_of_text htext
    have hsize : linuxTapeLabel.length + (digits.length + rest.length) = ftLabelSz := by
      rw [← List.length_append, ← List.length_append, ← hversioned.label, OldTape.label, window_length]
    have hdigits : ∀ i < digits.length, IsDigit (zftape.hsegBuf (ftLabel + linuxTapeLabel.length + i)) := by
      intro i hi
      have hall : ∀ digit ∈ window zftape.hsegBuf (ftLabel + linuxTapeLabel.length) digits.length, IsDigit digit := by
        rw [hwindow]
        exact hversioned.digits
      rw [← window_getElem zftape.hsegBuf _ digits.length i ((window_length _ _ _).symm ▸ hi)]
      exact hall _ (List.getElem_mem _)
    have htextLength : linuxTapeLabel.length = 18 := rfl
    have hlong : digits.length < ftSegmentSize := by
      have : ftLabelSz < ftSegmentSize := by decide
      omega
    cases hcases : rest with
    | nil =>
      -- the loop reads the first byte behind the label
      have hread := mem_readVersion 0 hdigits hlong
      constructor
      · rintro ⟨-, hinside⟩
        have hmem := hinside _ (hqueries ▸ List.mem_cons_of_mem _ (List.mem_cons_of_mem _ hread))
        have hend := hmem.2
        rw [hcases, List.length_nil] at hsize
        dsimp only at hend
        rw [ftLabel, ftLabelDate] at hend
        rw [ftLabelSz, ftLabelDate, ftLabel] at hsize
        omega
      · intro hplain
        exact absurd hcases (hversioned.plainLabel_iff.mp hplain).1
    | cons byte bytes =>
      have hbyte : zftape.hsegBuf (ftLabel + linuxTapeLabel.length + digits.length) = byte := by
        rw [hcases, List.length_cons, window_succ] at hrest
        exact (List.cons.inj hrest).1
      have hend : ¬IsDigit (zftape.hsegBuf (ftLabel + linuxTapeLabel.length + digits.length)) := by
        rw [hbyte]
        exact hversioned.rest byte (by rw [hcases]; rfl)
      obtain ⟨hversion, hreads⟩ := readVersion_eq 0 hwindow hversioned.digits hend hlong
      have hinside : ∀ read ∈ (readLabel zftape).queries, read.Inside := by
        intro read hread
        rw [hqueries, List.mem_cons, List.mem_cons] at hread
        rcases hread with hfront | hfront | hloop
        · exact inside_of_front (Or.inl hfront)
        · exact inside_of_front (Or.inr hfront)
        · have hbounds := hreads read hloop
          rw [hcases, List.length_cons] at hsize
          rw [LabelRead.Inside]
          rw [ftLabelSz] at hsize
          omega
      rw [← hversioned.last_decides (by rw [hcases]; exact List.cons_ne_nil _ _), OldTape.Recognised]
      constructor
      · rintro ⟨⟨old, after, hold, hdecides⟩, -⟩
        rw [hresult _ hversion] at hold
        cases hold
        rwa [decide_eq_true_eq] at hdecides
      · intro hdecides
        refine ⟨⟨_, _, hresult _ hversion, ?_⟩, hinside⟩
        rwa [decide_eq_true_eq]
  · have hnone : ∀ digits rest, ¬Versioned zftape.label digits rest := fun digits rest hversioned =>
      htext (OldTape.label_eq.mpr ⟨_, hversioned.label⟩)
    refine ⟨fun _ digits rest hversioned => absurd hversioned (hnone digits rest), fun _ => ?_⟩
    have hread : readLabel zftape = ⟨[⟨ftLabel, ftLabelSz⟩, ⟨ftLabel, linuxTapeLabel.length⟩],
        .ok (false, { zftape with ftapeFmtVersion := 0 })⟩ := by
      rw [readLabel, if_neg htext]
      rfl
    rw [OldTape.Recognised, hread]
    refine ⟨⟨false, _, rfl, ⟨fun h => Bool.noConfusion h, ?_⟩⟩, fun read hmem => inside_of_front (by simpa using hmem)⟩
    rintro ⟨digits, rest, hversioned, -⟩
    exact absurd hversioned (hnone digits rest)

/-- A header segment with a label of version 12. -/
def versionTwelveTape : OldTape where
  hsegBuf := fun k => if k < ftLabel then 0 else (linuxTapeLabel ++ ascii ['1', '2']).getD (k - ftLabel) 0
  ftapeFmtVersion := 0
  eofMap := none
  nrEofMarks := 0
  headerChanged := false
  labelChanged := false

/-- Version 12 passes for version 2. -/
theorem versionTwelve_accepted : ¬versionTwelveTape.Recognised := by
  rintro ⟨⟨old, after, hresult, hold⟩, -⟩
  have hversioned : Versioned versionTwelveTape.label (ascii ['1', '2']) (List.replicate 24 0) := by
    refine ⟨by simp only [OldTape.label, window]; decide, by decide, by decide⟩
  have haccepted : (readLabel versionTwelveTape).result.map Prod.fst = .ok true := by decide +kernel
  rw [hresult] at haccepted
  have hnumber := (hversioned.oldLabel_iff.mp (hold.mp (Except.ok.inj haccepted))).2.2
  exact absurd hnumber (by decide)

end Ftape.Volume
