import Ftape.Algebra.Recorded
import Ftape.Qic117.Commands
import Mathlib.Data.Nat.Digits.Defs

/-!
# Skipping over segments

A skip command is followed by the number of segments, one nibble after the other with the least
significant one first: two nibbles for the command itself, three for its extended form. `fast_seek()`
chooses the form before it adds the margin for a drive at the end of the tape, so that a distance that
needs three nibbles may be sent in two.
-/

namespace Ftape.Qic117

open Ftape.Algebra Ftape.Write

/-- `QIC_SKIP_REVERSE` and `QIC_SKIP_FORWARD`. -/
def qicSkipReverse : ℕ := 25
def qicSkipForward : ℕ := 26

/-- `QIC_SKIP_EXTENDED_REVERSE` and `QIC_SKIP_EXTENDED_FORWARD`. -/
def qicSkipExtendedReverse : ℕ := 34
def qicSkipExtendedForward : ℕ := 35

/-- The fields of `ftape_info_t` that `fast_seek()` uses. -/
structure SeekPosition where
  known : Bool
  bot : Bool
  eot : Bool
  track : ℕ
  segmentsPerTrack : ℕ
  rewEotMargin : ℤ

/-- What `fast_seek()` has the drive do: the slow seek to a segment, a command, the parameter sent as
number `i` of its nibbles, and getting ready. -/
inductive SeekOrder where
  | seekForward (segmentId : ℕ)
  | command (command : ℕ)
  | parameter (i nibble : ℕ)
  | readyWait
deriving DecidableEq

/-- Why `fast_seek()` has no count or does not go on: a sum out of the range of `int`, or an error. -/
inductive SeekHalt where
  | overflow
  | failed (errno : Errno)
deriving DecidableEq

/-- A seek, with the orders to the drive. -/
abbrev Seek (β : Type) := Recorded SeekOrder SeekHalt β

/-- An order that ends the seek if it fails. -/
def carryOut (answers : SeekOrder → Except Errno Unit) (order : SeekOrder) : Seek Unit := do
  Recorded.note order
  match answers order with
  | .ok () => pure ()
  | .error errno => Recorded.halt (.failed errno)

/-- The part of `fast_seek()` that adjusts the count at the beginning or the end of the tape, with
`rew_eot_flag`. What becomes of the slow seek is not looked at. -/
def adjustCount (ftape : SeekPosition) (count : ℤ) (reverse : Bool) : Seek (ℤ × Bool) :=
  if ftape.known ∧ (ftape.bot ∧ reverse = false ∨ ftape.eot ∧ reverse = true) then
    if reverse then
      if -0x80000000 ≤ count + ftape.rewEotMargin ∧ count + ftape.rewEotMargin < 0x80000000 then
        pure (count + ftape.rewEotMargin, true)
      else Recorded.halt .overflow
    else do
      Recorded.note (.seekForward (ftape.track * ftape.segmentsPerTrack))
      pure (count - 1, false)
  else pure (count, false)

/-- The loop that sends the parameters, for the nibbles that are left. The division rounds towards
zero. -/
def parameterLoop (answers : SeekOrder → Except Errno Unit) : ℕ → ℕ → ℤ → Seek Unit
  | 0, _, _ => pure ()
  | left + 1, i, count => do
    carryOut answers (.parameter i (count % 16).toNat)
    parameterLoop answers left (i + 1) (count.tdiv 16)

/-- The skip command. -/
def skipCommand (nibbles : ℕ) (reverse : Bool) : ℕ :=
  if reverse then if nibbles = 3 then qicSkipExtendedReverse else qicSkipReverse
  else if nibbles = 3 then qicSkipExtendedForward else qicSkipForward

/-- `fast_seek()`, with `rew_eot_flag`. -/
def fastSeek (answers : SeekOrder → Except Errno Unit) (ftape : SeekPosition) (count : ℤ) (reverse : Bool) :
    Seek Bool := do
  let nibbles := if 255 < count then 3 else 2
  let (count, rewEotFlag) ← adjustCount ftape count reverse
  let count := if 4095 < count then 4095 else count
  carryOut answers (.command (skipCommand nibbles reverse))
  parameterLoop answers nibbles 0 (count - 1)
  carryOut answers .readyWait
  pure rewEotFlag

/-- The parameters among some orders. -/
def SeekOrder.parameters (orders : List SeekOrder) : List ℕ :=
  orders.filterMap fun
    | .parameter _ nibble => some nibble
    | _ => none

/-- The commands among some orders. -/
def SeekOrder.commands (orders : List SeekOrder) : List ℕ :=
  orders.filterMap fun
    | .command skip => some skip
    | _ => none

/-- The count that is announced: without the segment of the slow seek at the beginning of the tape, with
the margin at its end. -/
def adjustedCount (ftape : SeekPosition) (count : ℤ) (reverse : Bool) : ℤ :=
  if ftape.known ∧ ftape.bot ∧ reverse = false then count - 1
  else if ftape.known ∧ ftape.eot ∧ reverse = true then count + ftape.rewEotMargin
  else count

/-- One skip command is sent, with as many nibbles as its form takes, and they give the distance `count`,
where zero stands for one segment. -/
def Announces (orders : List SeekOrder) (reverse : Bool) (count : ℤ) : Prop :=
  ∃ nibbles, SeekOrder.commands orders = [skipCommand nibbles reverse] ∧ (nibbles = 2 ∨ nibbles = 3) ∧
    (SeekOrder.parameters orders).length = nibbles ∧
    ((Nat.ofDigits 16 (SeekOrder.parameters orders) : ℕ) : ℤ) = min count 4095 - 1

/-- A drive that does what it is told. -/
def obeys : SeekOrder → Except Errno Unit := fun _ => .ok ()

/-- An order to a drive that obeys. -/
theorem carryOut_obeys (order : SeekOrder) : carryOut obeys order = ⟨[order], .ok ()⟩ := rfl

/-- Two seeks, one after the other, of which the first goes on. -/
theorem seek_bind {β γ : Type} (orders : List SeekOrder) (value : β) (next : β → Seek γ) :
    ((⟨orders, .ok value⟩ : Seek β) >>= next) = ⟨orders ++ (next value).queries, (next value).result⟩ :=
  rfl

/-- The loop sends as many nibbles as are left, those of the count if it is not negative. -/
theorem parameterLoop_eq (left i : ℕ) (count : ℤ) :
    ∃ orders, parameterLoop obeys left i count = ⟨orders, .ok ()⟩ ∧ SeekOrder.commands orders = [] ∧
      (SeekOrder.parameters orders).length = left ∧
      ∀ n : ℕ, count = n → Nat.ofDigits 16 (SeekOrder.parameters orders) = n % 16 ^ left := by
  induction left generalizing i count with
  | zero => exact ⟨[], rfl, rfl, rfl, fun n _ => by simp [SeekOrder.parameters, Nat.mod_one]⟩
  | succ left ih =>
    obtain ⟨orders, hloop, hcommands, hlength, hvalue⟩ := ih (i + 1) (count.tdiv 16)
    have hstep : parameterLoop obeys (left + 1) i count =
        ⟨.parameter i (count % 16).toNat :: orders, .ok ()⟩ := by
      rw [parameterLoop, carryOut_obeys, seek_bind, hloop]
      rfl
    refine ⟨_, hstep, hcommands, congrArg (· + 1) hlength, ?_⟩
    rintro n rfl
    change Nat.ofDigits 16 (n % 16 :: SeekOrder.parameters orders) = _
    rw [Nat.ofDigits_cons, hvalue (n / 16) rfl, pow_succ', Nat.mod_mul]

/-- The count is adjusted if the sum is in the range of `int`. -/
theorem adjustCount_eq (ftape : SeekPosition) {count : ℤ} {reverse : Bool}
    (hrange : -0x80000000 ≤ adjustedCount ftape count reverse ∧ adjustedCount ftape count reverse < 0x80000000) :
    ∃ orders flag, adjustCount ftape count reverse = ⟨orders, .ok (adjustedCount ftape count reverse, flag)⟩ ∧
      SeekOrder.commands orders = [] ∧ SeekOrder.parameters orders = [] := by
  unfold adjustCount adjustedCount at *
  cases reverse with
  | false =>
    by_cases hbot : ftape.known = true ∧ ftape.bot = true
    · simp only [hbot, and_self, true_or, if_true]
      exact ⟨_, false, rfl, rfl, rfl⟩
    · have hbot' : ¬(ftape.known = true ∧ (ftape.bot = true ∧ true = true ∨ ftape.eot = true ∧ false = true)) := by
        simpa using hbot
      simp only [Bool.false_eq_true, and_false, or_false, and_true, hbot, if_false]
      exact ⟨[], false, rfl, rfl, rfl⟩
  | true =>
    by_cases heot : ftape.known = true ∧ ftape.eot = true
    · simp only [heot, Bool.true_eq_false, and_false, and_true, false_or, if_true, if_false] at hrange ⊢
      rw [if_pos hrange]
      exact ⟨[], true, rfl, rfl, rfl⟩
    · simp only [Bool.true_eq_false, and_false, false_or, and_true, heot, if_false]
      exact ⟨[], false, rfl, rfl, rfl⟩

/-- Otherwise the seek has no count. -/
theorem adjustCount_overflow (ftape : SeekPosition) {count : ℤ} {reverse : Bool} (hlow : 2 ≤ count)
    (hhigh : count < 0x80000000)
    (hrange : ¬(-0x80000000 ≤ adjustedCount ftape count reverse ∧
      adjustedCount ftape count reverse < 0x80000000)) :
    (adjustCount ftape count reverse).result = .error .overflow := by
  unfold adjustCount adjustedCount at *
  split_ifs at hrange with hbot heot
  · omega
  · obtain ⟨hknown, heot, rfl⟩ := heot
    rw [if_pos ⟨hknown, Or.inr ⟨heot, rfl⟩⟩, if_pos rfl, if_neg hrange]
    rfl
  · omega

/-- The number of nibbles is that for the count that was asked for. -/
theorem fastSeek_eq (ftape : SeekPosition) {count : ℤ} {reverse : Bool}
    (hrange : -0x80000000 ≤ adjustedCount ftape count reverse ∧ adjustedCount ftape count reverse < 0x80000000) :
    ∃ orders flag, fastSeek obeys ftape count reverse = ⟨orders, .ok flag⟩ ∧
      SeekOrder.commands orders = [skipCommand (if 255 < count then 3 else 2) reverse] ∧
      (SeekOrder.parameters orders).length = (if 255 < count then 3 else 2) ∧
      ∀ n : ℕ, min (adjustedCount ftape count reverse) 4095 - 1 = n →
        Nat.ofDigits 16 (SeekOrder.parameters orders) = n % 16 ^ (if 255 < count then 3 else 2) := by
  obtain ⟨orders, flag, hadjust, hcommands, hparameters⟩ := adjustCount_eq ftape hrange
  generalize adjustedCount ftape count reverse = adjusted at *
  have hclip : (if 4095 < adjusted then 4095 else adjusted) = min adjusted 4095 := by
    split <;> omega
  obtain ⟨sent, hloop, hnone, hlength, hvalue⟩ :=
    parameterLoop_eq (if 255 < count then 3 else 2) 0 (min adjusted 4095 - 1)
  have hseek : fastSeek obeys ftape count reverse =
      ⟨orders ++ (.command (skipCommand (if 255 < count then 3 else 2) reverse) :: sent ++ [.readyWait]),
        .ok flag⟩ := by
    rw [fastSeek, hadjust, seek_bind]
    simp only [hclip, carryOut_obeys, hloop, seek_bind]
    rfl
  have hlist : SeekOrder.parameters (orders ++
      (.command (skipCommand (if 255 < count then 3 else 2) reverse) :: sent ++ [.readyWait])) =
      SeekOrder.parameters sent := by
    rw [SeekOrder.parameters, List.filterMap_append, ← SeekOrder.parameters, hparameters]
    simp [SeekOrder.parameters]
  refine ⟨_, flag, hseek, ?_, ?_, ?_⟩
  · rw [SeekOrder.commands, List.filterMap_append, ← SeekOrder.commands, hcommands]
    simp only [SeekOrder.commands] at hnone
    simp [hnone]
  · rw [hlist, hlength]
  · rw [hlist]
    exact hvalue

/-- A drive that obeys is told the distance just if the adjusted count is one or more and in the range of
`int`, and two nibbles can give it unless the count that was asked for takes three. -/
theorem fastSeek_announces_iff (ftape : SeekPosition) {count : ℤ} (reverse : Bool) (hlow : 2 ≤ count)
    (hhigh : count < 0x80000000) :
    ((∃ flag, (fastSeek obeys ftape count reverse).result = .ok flag) ∧
        Announces (fastSeek obeys ftape count reverse).queries reverse (adjustedCount ftape count reverse)) ↔
      1 ≤ adjustedCount ftape count reverse ∧ adjustedCount ftape count reverse < 0x80000000 ∧
        (255 < count ∨ adjustedCount ftape count reverse ≤ 256) := by
  by_cases hrange : -0x80000000 ≤ adjustedCount ftape count reverse ∧
      adjustedCount ftape count reverse < 0x80000000
  · obtain ⟨orders, flag, hseek, hcommands, hlength, hvalue⟩ := fastSeek_eq ftape hrange
    generalize adjustedCount ftape count reverse = adjusted at *
    rw [hseek]
    constructor
    · rintro ⟨-, nibbles, hcommand, hnibbles, hcount, hdistance⟩
      have hpositive : 0 ≤ min adjusted 4095 - 1 := hdistance ▸ Int.natCast_nonneg _
      refine ⟨by omega, hrange.2, ?_⟩
      by_contra hshort
      obtain ⟨hsmall, hlarge⟩ := not_or.mp hshort
      -- two nibbles hold less than the distance
      obtain ⟨n, hn⟩ := Int.eq_ofNat_of_zero_le hpositive
      rw [hvalue n hn, if_neg hsmall, hn, Nat.cast_inj] at hdistance
      omega
    · rintro ⟨hpositive, -, hfits⟩
      obtain ⟨n, hn⟩ := Int.eq_ofNat_of_zero_le (by omega : 0 ≤ min adjusted 4095 - 1)
      refine ⟨⟨flag, rfl⟩, _, hcommands, ?_, hlength, ?_⟩
      · split
        · exact Or.inr rfl
        · exact Or.inl rfl
      · rw [hvalue n hn, hn, Nat.cast_inj]
        apply Nat.mod_eq_of_lt
        split
        · omega
        · omega
  · have hoverflow := adjustCount_overflow ftape hlow hhigh hrange
    have hfails : (fastSeek obeys ftape count reverse).result = .error .overflow := by
      rw [fastSeek]
      change (Recorded.bind (adjustCount ftape count reverse) _).result = _
      rw [Recorded.bind, hoverflow]
    refine iff_of_false ?_ (by omega)
    rintro ⟨⟨flag, hok⟩, -⟩
    rw [hfails] at hok
    cases hok

/-- A drive at the end of the tape that has to skip 255 segments in reverse, with the margin that the
driver starts with. -/
def endOfTape : SeekPosition := ⟨true, false, true, 0, 100, 4⟩

/-- Ten segments and the margin are announced. -/
theorem fastSeek_announces_ten :
    (∃ flag, (fastSeek obeys endOfTape 10 true).result = .ok flag) ∧
      Announces (fastSeek obeys endOfTape 10 true).queries true (adjustedCount endOfTape 10 true) :=
  (fastSeek_announces_iff endOfTape true (by decide) (by decide)).mpr (by decide)

/-- Of 255 segments and the margin only three are announced. -/
theorem fastSeek_announces_three_of_259 :
    adjustedCount endOfTape 255 true = 259 ∧
      SeekOrder.commands (fastSeek obeys endOfTape 255 true).queries = [qicSkipReverse] ∧
      Nat.ofDigits 16 (SeekOrder.parameters (fastSeek obeys endOfTape 255 true).queries) = 2 ∧
      ¬Announces (fastSeek obeys endOfTape 255 true).queries true (adjustedCount endOfTape 255 true) := by
  have hvalue : Nat.ofDigits 16 (SeekOrder.parameters (fastSeek obeys endOfTape 255 true).queries) = 2 := by
    decide
  refine ⟨by decide, by decide, hvalue, ?_⟩
  rintro ⟨nibbles, -, -, -, hdistance⟩
  rw [hvalue] at hdistance
  revert hdistance
  decide

end Ftape.Qic117
