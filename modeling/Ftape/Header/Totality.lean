import Ftape.Header.Decode

/-!
# Decoding without a division by zero

Every division of `ftape_decode_header_segment()` but one has a divisor that cannot be zero. The
number of segments per head is divided by before it is tested, and it is zero for every header
segment with less than 32 sectors per floppy track.
-/

namespace Ftape.Header

open Ftape.Algebra Ftape.Bsm Ftape.Write

/-- A value wraps around to zero only if it is a multiple of the range. -/
theorem int_eq_zero_iff (a : ℤ) : int a = 0 ↔ (0x100000000 : ℤ) ∣ a := by
  unfold int
  rw [Int.bmod_eq_emod]
  push_cast
  split <;> omega

/-- A wrapped factor may be taken before it wraps. -/
theorem int_mul_int (a b : ℤ) : int (a * int b) = int (a * b) := Int.mul_bmod_bmod ..

/-- The time to wind a tape is known or will be taken, and the speed is a divisor. -/
structure Timeouts.Measurable (timeout : Timeouts) : Prop where
  timed : timeout.firstTime = true ∨ 0 < timeout.dt
  divisor : timeout.speed ≠ 0 → int (10 * timeout.speed) ≠ 0

/-- The tape lengths that a drive or a header segment reports; the largest one is for a tape that
the drive does not know. -/
def Reported (tapeLen : ℕ) : Prop := tapeLen < 0x1000000 ∨ tapeLen = 0xffffffff

/-- The timeouts of a driver that has identified its drive, and calculated timeouts, any number of
times. The speeds of the drives it knows are at most 130 inches per second. -/
inductive Timeouts.Reached : Timeouts → Prop
  | init {timeout : Timeouts} (hfirst : timeout.firstTime = true) (hspeed : timeout.speed = 0) :
      Reached timeout
  | identified {timeout : Timeouts} (h : Reached timeout) {speed : ℤ} (hnonneg : 0 ≤ speed)
      (hle : speed ≤ 130) : Reached { timeout with speed := speed }
  | calculated {timeout timeout' : Timeouts} (h : Reached timeout) {windTime : ℕ} {qicStd : QicStd}
      {dataRate tapeLen : ℕ} (hlen : Reported tapeLen)
      (hcalc : ftapeCalcTimeouts windTime timeout qicStd dataRate tapeLen = some timeout') :
      Reached timeout'

/-- A quotient is half of a range only if the dividend is. -/
theorem div_ne_half {half total dt : ℕ} (hpos : 0 < half) (htotal : total < half + half)
    (hhalf : total ≠ half) : total / dt ≠ half := by
  intro heq
  have hbounds : total / dt * dt ≤ total := Nat.div_mul_le_self total dt
  rw [heq] at hbounds
  match dt with
  | 0 => rw [Nat.div_zero] at heq; omega
  | 1 => rw [Nat.div_one] at heq; exact hhalf heq
  | dt + 2 =>
    have hsplit : half * (dt + 2) = half * dt + (half + half) := by ring
    omega

/-- Ten times a number is a multiple of the range only if the number is one of half the range. -/
theorem dvd_of_dvd_ten {q : ℤ} (h : (0x100000000 : ℤ) ∣ 10 * q) : (0x80000000 : ℤ) ∣ q := by
  have hrange : (0x100000000 : ℤ) = 2 * 0x80000000 := by norm_num
  have hten : 10 * q = 2 * (5 * q) := by ring
  rw [hrange, hten] at h
  have hcoprime : IsCoprime (0x80000000 : ℤ) 5 := ⟨2, -858993459, by norm_num⟩
  exact hcoprime.dvd_of_dvd_mul_left (Int.dvd_of_mul_dvd_mul_left (by norm_num) h)

/-- A speed that is not half the range of `unsigned int` is still a divisor ten times. -/
theorem int_ten_ne_zero {quot : ℕ} (hquot : quot < 0x100000000) (hhalf : quot ≠ 0x80000000)
    (hspeed : int (quot : ℤ) ≠ 0) : int (10 * int (quot : ℤ)) ≠ 0 := by
  intro hzero
  rw [int_mul_int, int_eq_zero_iff] at hzero
  have hdvd : (0x80000000 : ℤ) ∣ quot := dvd_of_dvd_ten hzero
  have hlt : (quot : ℤ) < 0x100000000 := by exact_mod_cast hquot
  have hne : (quot : ℤ) ≠ 0x80000000 := by exact_mod_cast hhalf
  have hnonneg : (0 : ℤ) ≤ quot := Int.natCast_nonneg quot
  apply hspeed
  rw [int_eq_zero_iff]
  generalize (quot : ℤ) = speed at hdvd hlt hne hnonneg
  omega

/-- The time for a tape of this length, in the unit of the speed, is not half the range of
`unsigned int`: the length would have to be a multiple of 2 ^ 25. -/
theorem uint_tapeLen_ne {tapeLen : ℕ} (hlen : Reported tapeLen) :
    uint (2 * 12 * tapeLen * 1000) ≠ 0x80000000 := by
  unfold uint
  cases hlen with
  | inl hlen => omega
  | inr hlen => rw [hlen]; decide

/-- A measured speed is a divisor. -/
theorem int_speed_ne_zero {tapeLen : ℕ} (hlen : Reported tapeLen) (dt : ℕ)
    (hspeed : int ((uint (2 * 12 * tapeLen * 1000) / dt : ℕ) : ℤ) ≠ 0) :
    int (10 * int ((uint (2 * 12 * tapeLen * 1000) / dt : ℕ) : ℤ)) ≠ 0 := by
  have htotal : uint (2 * 12 * tapeLen * 1000) < 0x100000000 := Nat.mod_lt _ (by decide)
  exact int_ten_ne_zero ((Nat.div_le_self _ dt).trans_lt htotal)
    (div_ne_half (by decide) htotal (uint_tapeLen_ne hlen)) hspeed

/-- Measuring the speed divides by the time it took. -/
theorem measureSpeed_of_measurable {timeout : Timeouts} (h : timeout.Measurable) (windTime : ℕ)
    {tapeLen : ℕ} (hlen : Reported tapeLen) :
    ∃ timeout', measureSpeed windTime timeout tapeLen = some timeout' ∧ timeout'.Measurable := by
  unfold measureSpeed
  by_cases hspeed : timeout.speed = 0
  · rw [if_neg (not_not.mpr hspeed)]
    have hdt : 0 < (if timeout.firstTime then { timeout with dt := max windTime 1, firstTime := false }
        else timeout).dt := by
      cases hfirst : timeout.firstTime with
      | true => simp
      | false => simpa [hfirst] using h.timed
    have hsame : (if timeout.firstTime then { timeout with dt := max windTime 1, firstTime := false }
        else timeout).speed = 0 := by
      split
      · exact hspeed
      · exact hspeed
    generalize (if timeout.firstTime then { timeout with dt := max windTime 1, firstTime := false }
      else timeout) = measured at hdt hsame
    by_cases hzero : tapeLen = 0
    · exact ⟨measured, if_pos hzero, Or.inr hdt, fun hne => absurd hsame hne⟩
    · have hdivide : divide (uint (2 * 12 * tapeLen * 1000)) measured.dt =
          some (uint (2 * 12 * tapeLen * 1000) / measured.dt) := if_neg hdt.ne'
      have hne := int_speed_ne_zero hlen measured.dt
      simp only [if_neg hzero, hdivide, Option.bind_eq_bind, Option.bind_some]
      generalize int ((uint (2 * 12 * tapeLen * 1000) / measured.dt : ℕ) : ℤ) = speed at hne
      exact ⟨_, rfl, Or.inr hdt, hne⟩
  · exact ⟨timeout, if_pos hspeed, h⟩

/-- A real speed is a divisor ten times. -/
theorem int_ten_ne_zero_of_le {speed : ℤ} (hpos : 0 < speed) (hle : speed ≤ 680) :
    int (10 * speed) ≠ 0 := by
  intro hzero
  rw [int_eq_zero_iff] at hzero
  have hge : (0x100000000 : ℤ) ≤ 10 * speed := Int.le_of_dvd (by omega) hzero
  omega

/-- The assumed speeds are divisors, also ten times. -/
theorem transportSpeed_ne_zero (qicStd : QicStd) (dataRate : ℕ) :
    transportSpeed qicStd dataRate ≠ 0 ∧ int (10 * transportSpeed qicStd dataRate) ≠ 0 := by
  have hbounds : 0 < transportSpeed qicStd dataRate ∧ transportSpeed qicStd dataRate ≤ 680 := by
    unfold transportSpeed
    cases qicStd <;> grind
  exact ⟨hbounds.1.ne', int_ten_ne_zero_of_le hbounds.1 hbounds.2⟩

/-- The timeouts are calculated without a division by zero. -/
theorem ftapeCalcTimeouts_of_measurable {timeout : Timeouts} (h : timeout.Measurable) (windTime : ℕ)
    (qicStd : QicStd) (dataRate : ℕ) {tapeLen : ℕ} (hlen : Reported tapeLen) :
    ∃ timeout', ftapeCalcTimeouts windTime timeout qicStd dataRate tapeLen = some timeout' ∧
      timeout'.Measurable := by
  obtain ⟨measured, hmeasure, hmeasured⟩ := measureSpeed_of_measurable h windTime hlen
  obtain ⟨hspeed, hten⟩ := transportSpeed_ne_zero qicStd dataRate
  have hff : int (10 * if measured.speed = 0 then transportSpeed qicStd dataRate
      else measured.speed) ≠ 0 := by
    by_cases hzero : measured.speed = 0
    · rwa [if_pos hzero]
    · rw [if_neg hzero]
      exact hmeasured.divisor hzero
  simp only [ftapeCalcTimeouts, hmeasure, Option.bind_eq_bind, Option.bind_some, divideInt,
    if_neg hspeed, if_neg hff]
  exact ⟨_, rfl, hmeasured.timed, hmeasured.divisor⟩

/-- The driver can always measure the speed of its drive. -/
theorem Timeouts.Reached.measurable {timeout : Timeouts} (h : timeout.Reached) :
    timeout.Measurable := by
  induction h with
  | init hfirst hspeed => exact ⟨Or.inl hfirst, fun hne => absurd hspeed hne⟩
  | @identified timeout _ speed hnonneg hle ih =>
    have hslow : speed ≤ 680 := le_trans hle (by norm_num)
    exact ⟨ih.timed, fun hne => int_ten_ne_zero_of_le (lt_of_le_of_ne hnonneg (Ne.symm hne)) hslow⟩
  | @calculated timeout timeout' _ windTime qicStd dataRate tapeLen hlen hcalc ih =>
    obtain ⟨calculated, heq, hmeasurable⟩ :=
      ftapeCalcTimeouts_of_measurable ih windTime qicStd dataRate hlen
    rw [hcalc] at heq
    exact Option.some.inj heq ▸ hmeasurable

/-- Every format has a tape length, one that can be measured with if it is new. -/
theorem newTapeLen_eq_some (fmt : FormatCode) (qicStd : QicStd) (segmentsPerTrack tapeLen : ℕ) :
    ∃ len, newTapeLen fmt qicStd segmentsPerTrack tapeLen = some len ∧
      (len ≠ tapeLen → len < 0x1000000) := by
  have hwide : ∀ feet : ℕ, 332 ≤ feet →
      ∃ len, divide (uint (1000 * segmentsPerTrack + (feet - 1))) feet = some len ∧
        (len ≠ tapeLen → len < 0x1000000) := by
    intro feet hfeet
    refine ⟨_, if_neg (by omega), ?_⟩
    intro _
    have hlt : uint (1000 * segmentsPerTrack + (feet - 1)) < 0x100000000 := Nat.mod_lt _ (by decide)
    have hle : uint (1000 * segmentsPerTrack + (feet - 1)) / feet ≤
        uint (1000 * segmentsPerTrack + (feet - 1)) / 332 := Nat.div_le_div_left hfeet (by omega)
    omega
  cases fmt with
  | fmt425ft => exact ⟨425, rfl, fun _ => by decide⟩
  | fmt1100ft => exact ⟨1100, rfl, fun _ => by decide⟩
  | fmtNormal =>
    refine ⟨_, rfl, ?_⟩
    split <;> omega
  | fmtVar => cases qicStd <;> exact hwide _ (by decide)
  | fmtBig => cases qicStd <;> exact hwide _ (by decide)

/-- The test of the parameters divides by the number of segments per head. -/
theorem Parameters.verify_isSome (p : Parameters) :
    p.verify.isSome ↔ ftSectorsPerSegment ≤ p.maxFloppySector := by
  have hsectors : p.maxFloppySector / ftSectorsPerSegment * (p.maxFloppyTrack + 1) = 0 ↔
      p.maxFloppySector < ftSectorsPerSegment := by
    rw [Nat.mul_eq_zero, Nat.div_eq_zero_iff_lt (by decide)]
    omega
  by_cases hzero : p.maxFloppySector / ftSectorsPerSegment * (p.maxFloppyTrack + 1) = 0
  · have hnone : p.verify = none := by
      simp only [verify, divide, if_pos hzero]
      rfl
    rw [hnone]
    have := hsectors.mp hzero
    simp only [Option.isSome_none, Bool.false_eq_true, false_iff]
    omega
  · have hcylinder : segmentsPerCylinder ≠ 0 := by decide
    have hle : ftSectorsPerSegment ≤ p.maxFloppySector := not_lt.mp (hsectors.not.mp hzero)
    simp only [verify, divide, if_neg hzero, if_neg hcylinder, Option.bind_eq_bind, Option.bind_some,
      hle, iff_true]
    generalize (if uint _ = 1 then _ else _ : ℕ) = maxFloppySide
    split <;> rfl

/-- Decrypting the bad sector map leaves the rest of the header alone. -/
theorem checkSignature_apply {bigEndian : Bool} {address address' : ℕ → Byte}
    (h : checkSignature bigEndian address = some address') {k : ℕ} (hk : 4 ≤ k) (hk' : k < 256) :
    address' k = address k := by
  unfold checkSignature at h
  split at h
  · cases h
    have hplain : ¬(256 ≤ k ∧ k < 29 * ftSectorSize) := by omega
    rw [store_of_outside _ _ _ (Or.inr hk), if_neg hplain]
  · split at h
    · cases h
      rfl
    · cases h

/-- The signature is wrong. -/
theorem checkSignature_eq_none_iff (bigEndian : Bool) (address : ℕ → Byte) :
    checkSignature bigEndian address = none ↔
      fetch bigEndian address ftSignature 4 ≠ ftD2gMagic ∧
        fetch bigEndian address ftSignature 4 ≠ ftHsegMagic := by
  unfold checkSignature
  split
  · simp [*]
  · split <;> simp [*]

/-- The parameters are read from in front of the encrypted part. -/
theorem readParameters_checkSignature {bigEndian : Bool} {address address' : ℕ → Byte}
    (h : checkSignature bigEndian address = some address') :
    readParameters bigEndian address' = readParameters bigEndian address := by
  have hspt : fetch bigEndian address' ftSpt 2 = fetch bigEndian address ftSpt 2 := by
    apply fetch_congr
    intro k hle hlt
    exact checkSignature_apply h (le_trans (by decide) hle) (lt_trans hlt (by decide))
  have hbyte : ∀ k ∈ [ftTpc, ftFhm, ftFtm, ftFsm], address' k = address k := by
    intro k hk
    fin_cases hk <;> exact checkSignature_apply h (by decide) (by decide)
  simp only [List.mem_cons, forall_eq_or_imp] at hbyte
  obtain ⟨htpc, hfhm, hftm, hfsm, -⟩ := hbyte
  rw [readParameters, readParameters, hspt, htpc, hfhm, hftm, hfsm]

/-- New timeouts are calculated for a length that is new. -/
theorem newTimeouts_eq_some {ftape : FtapeInfo} (htimeout : ftape.timeout.Reached) (windTime : ℕ)
    {tapeLen : ℕ} (hlen : tapeLen ≠ ftape.tapeLen → tapeLen < 0x1000000) :
    ∃ timeout, newTimeouts windTime ftape tapeLen = some timeout := by
  unfold newTimeouts
  split
  · rename_i hne
    obtain ⟨timeout, heq, -⟩ := ftapeCalcTimeouts_of_measurable htimeout.measurable windTime
      ftape.qicStd ftape.dataRate (Or.inl (hlen hne))
    exact ⟨timeout, heq⟩
  · exact ⟨ftape.timeout, rfl⟩

/-- The timeouts of a new driver. -/
theorem reached_ftapeInitDriver : ftapeInitDriver.timeout.Reached := .init rfl rfl

/-- A header with the parameters of a QIC-80 cartridge of 205 feet. -/
def qic80Header : ℕ → Byte := formatHeader false ⟨2, 100, 28, 4, 149⟩

end Ftape.Header
