import Ftape.Qic117.Commands
import Mathlib.Data.Nat.ModEq

/-!
# Waiting for the drive

`ftape_ready_wait()` takes the time that passes from the timeout, which is unsigned, and gives up when the timeout is
zero. It is not zero but large where a poll takes more time than is left. So waiting for a drive that never becomes
ready ends in time exactly if some poll ends when the timeout is over to the millisecond, and an infinite timeout is a
large finite one.
-/

namespace Ftape.Qic117

open Ftape.Algebra Ftape.Write

/-- `FT_FOREVER` as an unsigned integer. -/
def ftForever : ℕ := 0xffffffff

/-- What comes of a poll of `ftape_ready_wait()`. -/
inductive Poll where
  | failed (errno : Errno)
  | ready
  | killed
  | waited (elapsed : ℕ)

section Polls

variable {δ : Type} (io : DriveIo δ) (ftapeCommand : ℕ → Routine (Session δ) Result)

/-- The part of the loop of `ftape_ready_wait()` that polls the drive and may look for a signal. -/
def poll (reportRounds : ℕ) (check : Bool) (status : BitVec 32) : Routine (Session δ) (Poll × BitVec 32) := do
  match ← ftapeReportRawDriveStatus io ftapeCommand reportRounds status with
  | (.error errno, status) => pure (.failed errno, status)
  | (.ok (), status) =>
    if status.setWidth 8 &&& qicStatusReady ≠ 0 then pure (.ready, status)
    else
      let killed ← (if check then askDrive io.ftSigtest else pure false)
      if killed then pure (.killed, status)
      else
        let elapsed ← askDrive io.elapsed
        pure (.waited elapsed, status)

/-- A drive that never becomes ready: each poll takes some time, no report fails, and no signal ends the wait. -/
structure NeverReady (reportRounds : ℕ) (check : ℤ) (elapsed : ℕ → ℕ) (status : ℕ → BitVec 32)
    (session : ℕ → Session δ) : Prop where
  poll : ∀ k : ℕ, poll io ftapeCommand reportRounds (decide (check - k = 0)) (status k) (session k) =
    (.returned (.waited (elapsed k), status (k + 1)), session (k + 1))

end Polls

/-- The poll delay in front of some poll. -/
def pollDelay (limit : ℕ) : ℕ → ℕ
  | 0 => 0
  | k + 1 => if pollDelay limit k < limit then pollDelay limit k + 100 else pollDelay limit k

/-- The time that has passed in front of some poll: that of the polls before, and of the sleeps after them. -/
def passed (limit : ℕ) (elapsed : ℕ → ℕ) : ℕ → ℕ
  | 0 => 0
  | k + 1 => passed limit elapsed k + elapsed k + pollDelay limit (k + 1)

/-- The time that has passed after some poll, when the timeout is tested. -/
def passedAt (limit : ℕ) (elapsed : ℕ → ℕ) (k : ℕ) : ℕ := passed limit elapsed k + elapsed k

/-- The time from one test of the timeout to the next: a sleep and a poll. -/
def pollInterval (limit : ℕ) (elapsed : ℕ → ℕ) : ℕ → ℕ
  | 0 => elapsed 0
  | k + 1 => pollDelay limit (k + 1) + elapsed (k + 1)

/-- Each test comes an interval after the one before. -/
theorem passedAt_succ (limit : ℕ) (elapsed : ℕ → ℕ) (k : ℕ) :
    passedAt limit elapsed (k + 1) = passedAt limit elapsed k + pollInterval limit elapsed (k + 1) := by
  rw [passedAt, passed, passedAt, pollInterval, Nat.add_assoc]

/-- What is left of the timeout in front of some poll. -/
def timeoutLeft (limit timeout : ℕ) (elapsed : ℕ → ℕ) : ℕ → ℕ
  | 0 => timeout
  | k + 1 => uintSub (uintSub (timeoutLeft limit timeout elapsed k) (elapsed k)) (pollDelay limit (k + 1))

/-- A difference of unsigned integers with what was taken away is the number again. -/
theorem uintSub_add_modEq (a b : ℕ) : uintSub a b + b ≡ a [MOD 0x100000000] := by
  rw [uintSub, Nat.ModEq]
  omega

/-- The timeout and what is left of it differ by the time that has passed. -/
theorem timeoutLeft_modEq (limit timeout : ℕ) (elapsed : ℕ → ℕ) (k : ℕ) :
    timeoutLeft limit timeout elapsed k + passed limit elapsed k ≡ timeout [MOD 0x100000000] := by
  induction k with
  | zero => exact Nat.ModEq.refl _
  | succ k ih =>
    have hdelay := uintSub_add_modEq (uintSub (timeoutLeft limit timeout elapsed k) (elapsed k))
      (pollDelay limit (k + 1))
    have helapsed := uintSub_add_modEq (timeoutLeft limit timeout elapsed k) (elapsed k)
    rw [timeoutLeft, passed]
    rw [Nat.ModEq] at *
    omega

/-- The test of the timeout. -/
theorem uintSub_eq_zero_iff (limit timeout : ℕ) (elapsed : ℕ → ℕ) (k : ℕ) :
    uintSub (timeoutLeft limit timeout elapsed k) (elapsed k) = 0 ↔
      passedAt limit elapsed k ≡ timeout [MOD 0x100000000] := by
  have hleft := timeoutLeft_modEq limit timeout elapsed k
  rw [uintSub, passedAt]
  rw [Nat.ModEq] at *
  omega

section Loop

variable {δ : Type} {io : DriveIo δ} {ftapeCommand : ℕ → Routine (Session δ) Result}

/-- One round of the loop, for a drive that is not ready. -/
theorem readyWaitLoop_waited {reportRounds : ℕ} {retries : ℤ} {status status' : BitVec 32} {s s' : Session δ}
    {elapsed : ℕ} (h : poll io ftapeCommand reportRounds (decide (retries = 0)) status s =
      (.returned (.waited elapsed, status'), s')) (limit rounds delay timeout : ℕ) :
    readyWaitLoop io ftapeCommand limit reportRounds (rounds + 1) delay retries timeout status s =
      if uintSub timeout elapsed = 0 then (.returned (.error .etime, status'), s')
      else readyWaitLoop io ftapeCommand limit reportRounds rounds (if delay < limit then delay + 100 else delay)
        (retries - 1) (uintSub (uintSub timeout elapsed) (if delay < limit then delay + 100 else delay)) status' s' := by
  rw [readyWaitLoop]
  unfold poll at h
  change Routine.andThen _ _ s = _ at h
  change Routine.andThen _ _ s = _
  rw [Routine.andThen] at h ⊢
  cases hreport : ftapeReportRawDriveStatus io ftapeCommand reportRounds status s with
  | mk outcome s₁ =>
    rw [hreport] at h
    cases outcome with
    | outOfBounds => cases h
    | unfinished => cases h
    | returned value =>
      obtain ⟨result, status₁⟩ := value
      cases result with
      | error errno => cases h
      | ok _ =>
        dsimp only at h ⊢
        by_cases hready : status₁.setWidth 8 &&& qicStatusReady ≠ 0
        · rw [if_pos hready] at h
          cases h
        · rw [if_neg hready] at h ⊢
          simp only [decide_eq_true_eq] at h
          generalize (if retries = 0 then askDrive io.ftSigtest else pure false : Routine (Session δ) Bool) = check at h ⊢
          change check.andThen _ s₁ = _ at h
          change check.andThen _ s₁ = _
          rw [Routine.andThen] at h ⊢
          cases hcheck : check s₁ with
          | mk outcome s₂ =>
            rw [hcheck] at h
            cases outcome with
            | outOfBounds => cases h
            | unfinished => cases h
            | returned killed =>
              cases killed with
              | true => cases h
              | false =>
                -- the time is asked for, and nothing else
                cases h
                by_cases hzero : uintSub timeout (io.elapsed s₂.drive).1 = 0
                · rw [if_pos hzero]
                  change (if uintSub timeout (io.elapsed s₂.drive).1 = 0 then _ else _ : Routine _ _) _ = _
                  rw [if_pos hzero]
                  rfl
                · rw [if_neg hzero]
                  change (if uintSub timeout (io.elapsed s₂.drive).1 = 0 then _ else _ : Routine _ _) _ = _
                  rw [if_neg hzero]

variable {reportRounds limit timeout : ℕ} {check : ℤ} {elapsed : ℕ → ℕ} {status : ℕ → BitVec 32}
  {session : ℕ → Session δ}

/-- The loop of `ftape_ready_wait()` from some poll on. -/
def waitFrom (io : DriveIo δ) (ftapeCommand : ℕ → Routine (Session δ) Result) (reportRounds limit timeout : ℕ) (check : ℤ)
    (elapsed : ℕ → ℕ) (status : ℕ → BitVec 32) (session : ℕ → Session δ) (k rounds : ℕ) :
    Outcome (Result × BitVec 32) × Session δ :=
  readyWaitLoop io ftapeCommand limit reportRounds rounds (pollDelay limit k) (check - k)
    (timeoutLeft limit timeout elapsed k) (status k) (session k)

/-- The loop ends with a timeout if the time that has passed is the timeout, up to what an unsigned integer holds. -/
theorem waitFrom_succ (h : NeverReady io ftapeCommand reportRounds check elapsed status session) (k rounds : ℕ) :
    waitFrom io ftapeCommand reportRounds limit timeout check elapsed status session k (rounds + 1) =
      if passedAt limit elapsed k ≡ timeout [MOD 0x100000000] then
        (.returned (.error .etime, status (k + 1)), session (k + 1))
      else waitFrom io ftapeCommand reportRounds limit timeout check elapsed status session (k + 1) rounds := by
  rw [waitFrom, readyWaitLoop_waited (h.poll k)]
  have hretries : check - k - 1 = check - (k + 1 : ℕ) := by
    push_cast
    omega
  by_cases hzero : uintSub (timeoutLeft limit timeout elapsed k) (elapsed k) = 0
  · rw [if_pos hzero, if_pos ((uintSub_eq_zero_iff limit timeout elapsed k).mp hzero)]
  · rw [if_neg hzero, if_neg fun hpassed => hzero ((uintSub_eq_zero_iff limit timeout elapsed k).mpr hpassed), hretries]
    rfl

/-- As long as it is not, the loop goes on. -/
theorem waitFrom_add (h : NeverReady io ftapeCommand reportRounds check elapsed status session) {n : ℕ}
    (hon : ∀ j < n, ¬passedAt limit elapsed j ≡ timeout [MOD 0x100000000]) (rounds : ℕ) :
    waitFrom io ftapeCommand reportRounds limit timeout check elapsed status session 0 (n + rounds) =
      waitFrom io ftapeCommand reportRounds limit timeout check elapsed status session n rounds := by
  induction n generalizing rounds with
  | zero => rw [Nat.zero_add]
  | succ n ih =>
    rw [Nat.add_assoc, Nat.add_comm 1, ih (fun j hj => hon j (Nat.lt_succ_of_lt hj)), waitFrom_succ h,
      if_neg (hon n (Nat.lt_succ_self n))]

/-- A wait that gives up at some poll: with fewer rounds it has not returned, and with more of them it has returned
`-ETIME`. -/
def GivesUpAt (wait : ℕ → Outcome (Result × BitVec 32)) (k : ℕ) : Prop :=
  (∀ rounds ≤ k, wait rounds = .unfinished) ∧
    ∀ rounds > k, ∃ status, wait rounds = .returned (.error .etime, status)

/-- `ftape_ready_wait()` with some number of rounds. -/
def readyWait (io : DriveIo δ) (ftapeCommand : ℕ → Routine (Session δ) Result) (reportRounds timeout : ℕ)
    (status : BitVec 32) (s : Session δ) (rounds : ℕ) : Outcome (Result × BitVec 32) :=
  (readyWaitLoop io ftapeCommand (pollLimit timeout) reportRounds rounds 0 (signalRetries timeout) timeout status s).1

/-- It is the function with a bound on the polls and a bound on the rounds of each of them. -/
theorem readyWait_eq (rounds : ℕ) (status : BitVec 32) (s : Session δ) :
    readyWait io ftapeCommand rounds timeout status s rounds = (ftapeReadyWait io ftapeCommand rounds timeout status s).1 :=
  rfl

/-- Waiting for a drive that never becomes ready ends at the first poll behind which the time that has passed is the
timeout, up to what an unsigned integer holds. -/
theorem givesUpAt_iff (h : NeverReady io ftapeCommand reportRounds (signalRetries timeout) elapsed status session) {k : ℕ} :
    GivesUpAt (readyWait io ftapeCommand reportRounds timeout (status 0) (session 0)) k ↔
      passedAt (pollLimit timeout) elapsed k ≡ timeout [MOD 0x100000000] ∧
        ∀ j < k, ¬passedAt (pollLimit timeout) elapsed j ≡ timeout [MOD 0x100000000] := by
  have hwait : ∀ rounds, readyWait io ftapeCommand reportRounds timeout (status 0) (session 0) rounds =
      (waitFrom io ftapeCommand reportRounds (pollLimit timeout) timeout (signalRetries timeout) elapsed status session
        0 rounds).1 := by
    intro rounds
    rw [waitFrom, Nat.cast_zero, sub_zero]
    rfl
  have hreturns : ∀ {m}, passedAt (pollLimit timeout) elapsed m ≡ timeout [MOD 0x100000000] →
      (∀ j < m, ¬passedAt (pollLimit timeout) elapsed j ≡ timeout [MOD 0x100000000]) → ∀ rounds > m,
        readyWait io ftapeCommand reportRounds timeout (status 0) (session 0) rounds =
          .returned (.error .etime, status (m + 1)) := by
    intro m hm hbefore rounds hrounds
    obtain ⟨more, rfl⟩ := Nat.exists_eq_add_of_lt hrounds
    rw [hwait, Nat.add_assoc, waitFrom_add h hbefore, waitFrom_succ h, if_pos hm]
  have hunfinished : ∀ {m}, (∀ j < m, ¬passedAt (pollLimit timeout) elapsed j ≡ timeout [MOD 0x100000000]) →
      readyWait io ftapeCommand reportRounds timeout (status 0) (session 0) m = .unfinished := by
    intro m hbefore
    have hadd := waitFrom_add h hbefore 0
    rw [Nat.add_zero] at hadd
    rw [hwait, hadd]
    rfl
  constructor
  · rintro ⟨hbelow, habove⟩
    obtain ⟨status', hreturned⟩ := habove (k + 1) (Nat.lt_succ_self k)
    have hsome : ∃ m, m ≤ k ∧ passedAt (pollLimit timeout) elapsed m ≡ timeout [MOD 0x100000000] := by
      by_contra hnone
      have := hunfinished (m := k + 1) fun j hj hfires => hnone ⟨j, Nat.le_of_lt_succ hj, hfires⟩
      rw [hreturned] at this
      cases this
    obtain ⟨hle, hfires⟩ := Nat.find_spec hsome
    have hbefore : ∀ j < Nat.find hsome, ¬passedAt (pollLimit timeout) elapsed j ≡ timeout [MOD 0x100000000] :=
      fun j hj hcongr => Nat.find_min hsome hj ⟨by omega, hcongr⟩
    cases Nat.lt_or_eq_of_le hle with
    | inl hlt =>
      have := hreturns hfires hbefore (Nat.find hsome + 1) (Nat.lt_succ_self _)
      rw [hbelow _ hlt] at this
      cases this
    | inr heq =>
      rw [heq] at hfires hbefore
      exact ⟨hfires, hbefore⟩
  · rintro ⟨hfires, hbefore⟩
    refine ⟨fun rounds hrounds => ?_, fun rounds hrounds => ⟨_, hreturns hfires hbefore rounds hrounds⟩⟩
    exact hunfinished fun j hj => hbefore j (Nat.lt_of_lt_of_le hj hrounds)

end Loop

/-- A wait that gives up when the timeout is over, by no more than one poll interval. -/
def InTime (wait : ℕ → Outcome (Result × BitVec 32)) (timeout : ℕ) (elapsed : ℕ → ℕ) : Prop :=
  ∃ k, GivesUpAt wait k ∧ timeout ≤ passedAt (pollLimit timeout) elapsed k ∧
    passedAt (pollLimit timeout) elapsed k ≤ timeout + pollInterval (pollLimit timeout) elapsed k

/-- Some poll is the first one behind which the timeout is over, and then it is over exactly, up to what an unsigned
integer holds. -/
def Met (timeout : ℕ) (elapsed : ℕ → ℕ) : Prop :=
  ∃ k, timeout ≤ passedAt (pollLimit timeout) elapsed k ∧ (∀ j < k, passedAt (pollLimit timeout) elapsed j < timeout) ∧
    passedAt (pollLimit timeout) elapsed k ≡ timeout [MOD 0x100000000]

/-- Time passes. -/
theorem passedAt_mono (limit : ℕ) (elapsed : ℕ → ℕ) : Monotone (passedAt limit elapsed) :=
  monotone_nat_of_le_succ fun k => by
    rw [passedAt_succ]
    exact Nat.le_add_right _ _

/-- Waiting for a drive that never becomes ready ends in time exactly if a poll ends when the timeout is just over, and
a wait without a timeout never ends exactly if the time that passes is never one less than a multiple of what an
unsigned integer holds. -/
theorem readyWait_inTime_iff {δ : Type} {io : DriveIo δ} {ftapeCommand : ℕ → Routine (Session δ) Result}
    {reportRounds timeout : ℕ} {elapsed : ℕ → ℕ} {status : ℕ → BitVec 32} {session : ℕ → Session δ}
    (htimeout : timeout ≤ ftForever)
    (h : NeverReady io ftapeCommand reportRounds (signalRetries timeout) elapsed status session) :
    (timeout ≠ ftForever →
      (InTime (readyWait io ftapeCommand reportRounds timeout (status 0) (session 0)) timeout elapsed ↔
        Met timeout elapsed)) ∧
    (timeout = ftForever →
      ((∀ k, ¬GivesUpAt (readyWait io ftapeCommand reportRounds timeout (status 0) (session 0)) k) ↔
        ∀ k, ¬passedAt (pollLimit timeout) elapsed k ≡ timeout [MOD 0x100000000])) := by
  refine ⟨fun _ => ⟨?_, ?_⟩, fun _ => ⟨?_, ?_⟩⟩
  · rintro ⟨k, hgives, hover, hinterval⟩
    obtain ⟨hfires, hbefore⟩ := (givesUpAt_iff h).mp hgives
    refine ⟨k, hover, fun j hj => ?_, hfires⟩
    obtain ⟨k, rfl⟩ := Nat.exists_eq_succ_of_ne_zero (Nat.ne_of_gt (Nat.zero_lt_of_lt hj))
    rw [Nat.succ_eq_add_one, passedAt_succ] at hinterval
    have hle : passedAt (pollLimit timeout) elapsed j ≤ passedAt (pollLimit timeout) elapsed k :=
      passedAt_mono _ _ (Nat.le_of_lt_succ hj)
    have hne : passedAt (pollLimit timeout) elapsed k ≠ timeout := fun heq =>
      hbefore k (Nat.lt_succ_self k) (by rw [heq])
    omega
  · rintro ⟨k, hover, hbefore, hfires⟩
    have hon : ∀ j < k, ¬passedAt (pollLimit timeout) elapsed j ≡ timeout [MOD 0x100000000] := by
      intro j hj hcongr
      have hlt := hbefore j hj
      rw [ftForever] at htimeout
      exact Nat.ne_of_lt hlt (hcongr.eq_of_lt_of_lt (by omega) (by omega))
    refine ⟨k, (givesUpAt_iff h).mpr ⟨hfires, hon⟩, hover, ?_⟩
    cases k with
    | zero =>
      rw [passedAt, passed, Nat.zero_add, pollInterval]
      exact Nat.le_add_left _ _
    | succ k =>
      rw [passedAt_succ]
      exact Nat.add_le_add_right (hbefore k (Nat.lt_succ_self k)).le _
  · intro hnever k hfires
    have hsome : ∃ m, passedAt (pollLimit timeout) elapsed m ≡ timeout [MOD 0x100000000] := ⟨k, hfires⟩
    exact hnever (Nat.find hsome) ((givesUpAt_iff h).mpr ⟨Nat.find_spec hsome, fun j hj => Nat.find_min hsome hj⟩)
  · intro hnever k hgives
    exact hnever k ((givesUpAt_iff h).mp hgives).1

/-- A drive whose status reports take 30 milliseconds each and have no bit set. -/
def idleDrive : DriveIo (Fin 10) where
  currentCylinder _ := 0
  fdcSeek _ drive := (.ok (), drive)
  fdcSenseDriveStatus drive := (.ok (drive = 0 ∨ drive = 9), drive + 1)
  elapsed drive := (30, drive)
  ftSigtest drive := (false, drive)

/-- The driver behind a status report of that drive. -/
def idleSession : Session (Fin 10) where
  ftape := ⟨0, qicReportNextBit, false, 0, 15000, true, false, 0, (0, 0), []⟩
  drive := 0

/-- That drive never becomes ready. -/
theorem idleDrive_neverReady (check : ℤ) :
    NeverReady idleDrive (ftapeCommand idleDrive 1) 1 check (fun _ => 30) (fun _ => 0) (fun _ => idleSession) where
  poll k := by
    cases decide (check - k = 0) with
    | false => rfl
    | true => rfl

theorem readyWait_inTime_idle :
    InTime (readyWait idleDrive (ftapeCommand idleDrive 1) 1 160 0 idleSession) 160 (fun _ => 30) := by
  have h := @readyWait_inTime_iff _ idleDrive (ftapeCommand idleDrive 1) 1 160 _ _ _ (by decide)
    (idleDrive_neverReady _)
  exact (h.1 (by decide)).mpr ⟨1, by decide, by decide, by decide⟩

/-- Polls of 30 milliseconds with sleeps of 100 milliseconds between them. -/
theorem passedAt_idle (k : ℕ) : passedAt 100 (fun _ => 30) k = 130 * k + 30 := by
  have hdelay : ∀ k, pollDelay 100 (k + 1) = 100 := by
    intro k
    induction k with
    | zero => rfl
    | succ k ih => rw [pollDelay, ih, if_neg (Nat.lt_irrefl _)]
  induction k with
  | zero => rfl
  | succ k ih =>
    rw [passedAt_succ, ih, pollInterval, hdelay]
    omega

/-- A second is over between two polls of that drive, and the wait does not end with the second of them. -/
theorem readyWait_misses :
    ¬InTime (readyWait idleDrive (ftapeCommand idleDrive 1) 1 1000 0 idleSession) 1000 (fun _ => 30) := by
  rintro ⟨k, hgives, hover, hinterval⟩
  have hneverReady := idleDrive_neverReady (signalRetries 1000)
  have hfires := ((givesUpAt_iff hneverReady).mp hgives).1
  have hpassed : passedAt (pollLimit 1000) (fun _ => 30) k = 130 * k + 30 := passedAt_idle k
  rw [hpassed] at hover hinterval hfires
  have hsmall : pollInterval (pollLimit 1000) (fun _ => 30) k ≤ 130 := by
    cases k with
    | zero => decide
    | succ k =>
      have hnext := passedAt_succ 100 (fun _ => 30) k
      rw [passedAt_idle, passedAt_idle] at hnext
      change pollInterval 100 (fun _ => 30) (k + 1) ≤ 130
      omega
  rw [Nat.ModEq] at hfires
  omega

end Ftape.Qic117
