import Ftape.Volume.OpenVolumes

/-!
# The accounts of a write

`_zft_write()` returns how many bytes of the user it has taken, and leaves the rest in `resid`. It moves
the position while it fills the deblock buffer, before the segment is queued and the bytes are counted.
A copy from the user may fail in every round.
-/

namespace Ftape.Volume

open Ftape.Algebra Ftape.Write Ftape.Zftape

variable {α : Type}

/-- What a round of the loop of `_zft_write()` meets: whether the memory of the user cannot be read, and
what the interrupt handler reports. -/
structure WriteRound where
  copyFault : Bool
  reports : List RunnerReport

/-- What a call of `_zft_write()` comes to: the bytes that the deblock buffer has taken from the user, and
whether a copy or the writing of a segment has failed, besides what it returns. -/
structure WriteRun (α : Type) where
  zftape : ZftapeInfo α
  appended : List α
  failed : Bool
  result : Except Errno ℤ

/-- `fill_deblock_buf()` where the copy from the user may fail. -/
def fillFromUser (kernel : Kernel α) (copyFault : Bool) (segSz : ℕ) (buff : List α) (zftape : ZftapeInfo α) :
    Traced α (ZftapeInfo α × Except Errno ℤ) :=
  if segSz = 0 then pure (zftape, .ok 0)
  else do
    let (zftape, result) ← emptyHardErrorList segSz zftape
    match result with
    | .error errno => pure (zftape, .error errno)
    | .ok () =>
      if zftape.capacity < zftape.pos.tapePos + zftape.volume.blkSz then pure (zftape, .error .enospc)
      else if copyFault then pure (zftape, .error .efault)
      else fillRegular kernel segSz buff zftape

/-- The bytes that the deblock buffer has taken in a round. -/
def taken (filled : ZftapeInfo α) (cnt : ℤ) : List α :=
  window filled.drive.deblockBuffer (filled.pos.segBytePos - cnt).toNat cnt.toNat

/-- The second half of a round: a full segment is queued. -/
def queueFull (kernel : Kernel α) (reports : List RunnerReport) (segSz : ℕ) (filled : ZftapeInfo α) :
    Traced α (ZftapeInfo α × Except Errno Unit) :=
  if filled.pos.segBytePos = segSz then do
    let (zftape, result) ← writeSegment kernel reports filled
    match result with
    | .error errno => pure (zftape, .error errno)
    | .ok () => pure ({ zftape with
        pos := { zftape.pos with segBytePos := 0, segPos := zftape.pos.segPos + 1 } }, .ok ())
  else pure (filled, .ok ())

/-- The first half of a round of the loop of `_zft_write()`, with what follows when the deblock buffer has
taken some bytes. -/
def fillRound (kernel : Kernel α) (copyFault : Bool) (buff : List α) (written : ℤ) (zftape : ZftapeInfo α)
    (next : ZftapeInfo α → ℤ → Traced α (WriteRun α)) : Traced α (WriteRun α) :=
  if buff = [] ∧ zftape.hardErrors = [] then
    pure ⟨(writeDone written zftape).1, [], false, (writeDone written zftape).2⟩
  else do
    let (zftape, filled) ← fillFromUser kernel copyFault (zftape.segSz zftape.pos.segPos) buff
      { zftape with deblockBuf := true }
    match filled with
    | .error errno =>
      pure ⟨(writeRefused written zftape errno).1, [], errno ≠ .enospc, (writeRefused written zftape errno).2⟩
    | .ok cnt => next zftape cnt

/-- The loop of `_zft_write()`. Running out of rounds stands for a signal, in a round whose copy may fail
as well. -/
def writeRounds (kernel : Kernel α) (lastFault : Bool) :
    List WriteRound → List α → ℤ → ZftapeInfo α → Traced α (WriteRun α)
  | [], buff, written, zftape =>
    fillRound kernel lastFault buff written zftape fun filled cnt =>
      pure ⟨filled, taken filled cnt, false, .error .eintr⟩
  | round :: rounds, buff, written, zftape =>
    fillRound kernel round.copyFault buff written zftape fun filled cnt => do
      let (queued, result) ← queueFull kernel round.reports (zftape.segSz zftape.pos.segPos) filled
      match result with
      | .error errno =>
        pure ⟨{ queued with resid := queued.resid - written }, taken filled cnt, true, .error errno⟩
      | .ok () => do
        let run ← writeRounds kernel lastFault rounds (buff.drop cnt.toNat) (written + cnt) queued
        pure { run with appended := taken filled cnt ++ run.appended }

/-- `_zft_write()` in a state in which `check_write_access()` lets it through. -/
def zftWriteThrough (kernel : Kernel α) (lastFault : Bool) (rounds : List WriteRound) (buff : List α)
    (zftape : ZftapeInfo α) : Traced α (WriteRun α) :=
  writeRounds kernel lastFault rounds buff 0 { zftape with resid := buff.length, lastWriteFailed := true }

/-- The capacity has no room for another block, or for another pending sector. -/
def Exhausted (zftape : ZftapeInfo α) : Prop :=
  zftape.capacity < zftape.pos.tapePos + zftape.volume.blkSz ∨
    zftape.capacity < zftape.pos.tapePos + ftSectorSize

/-- The accounts of a call that began in the state `zftape` are right: if it returns a count, then nothing
has failed, so many bytes of the user were taken from the front, the position of the volume and `resid`
say so, and only the capacity cuts them short. -/
def WriteRun.Accounts (run : WriteRun α) (zftape : ZftapeInfo α) (buff : List α) : Prop :=
  ∀ n, run.result = .ok n → run.failed = false ∧ 0 ≤ n ∧ n ≤ buff.length ∧ run.appended = buff.take n.toNat ∧
    run.zftape.pos.volumePos = zftape.pos.volumePos + n ∧ run.zftape.resid = buff.length - n ∧
    (n < buff.length → Exhausted run.zftape)

/-- Sectors are pending, and what is left of the segment is not whole sectors. -/
def Misaligned (zftape : ZftapeInfo α) (segSz : ℤ) : Prop :=
  zftape.hardErrors ≠ [] ∧ (segSz - zftape.pos.segBytePos) % ftSectorSize ≠ 0

/-- Sectors are pending, and the segment has room for the next one where the capacity has none. -/
def NoRoom (zftape : ZftapeInfo α) (segSz : ℤ) : Prop :=
  zftape.hardErrors ≠ [] ∧ ftSectorSize ≤ segSz - zftape.pos.segBytePos ∧
    zftape.capacity < zftape.pos.tapePos + ftSectorSize

/-- A round fails although there is room: its segment has usable sectors, and the pending sectors cannot be
laid into what is left of it, or the memory of the user cannot be read. -/
def Faults (copyFault : Bool) (zftape : ZftapeInfo α) (segSz : ℕ) : Prop :=
  segSz ≠ 0 ∧ (Misaligned zftape segSz ∨
    copyFault = true ∧ ¬NoRoom zftape segSz ∧ zftape.pos.tapePos + zftape.volume.blkSz ≤ zftape.capacity)

/-- No round that a call comes to fails. -/
def Faultless (kernel : Kernel α) (lastFault : Bool) : List WriteRound → List α → ZftapeInfo α → Prop
  | [], buff, zftape => buff = [] ∧ zftape.hardErrors = [] ∨
      ¬Faults lastFault zftape (zftape.segSz zftape.pos.segPos)
  | round :: rounds, buff, zftape => buff = [] ∧ zftape.hardErrors = [] ∨
      ¬Faults round.copyFault zftape (zftape.segSz zftape.pos.segPos) ∧ ∀ filled cnt queued,
        (fillFromUser kernel round.copyFault (zftape.segSz zftape.pos.segPos) buff
          { zftape with deblockBuf := true }).result = .ok (filled, .ok cnt) →
        (queueFull kernel round.reports (zftape.segSz zftape.pos.segPos) filled).result = .ok (queued, .ok ()) →
        Faultless kernel lastFault rounds (buff.drop cnt.toNat) queued

section Fill

variable {zftape zftape' : ZftapeInfo α}

/-- What filling the deblock buffer leaves alone of the accounts, but for the position of the volume. -/
structure SameAccounts (zftape zftape' : ZftapeInfo α) : Prop where
  tapePos : zftape'.pos.tapePos = zftape.pos.tapePos
  capacity : zftape'.capacity = zftape.capacity
  volume : zftape'.volume = zftape.volume
  resid : zftape'.resid = zftape.resid
  volumePos : zftape'.pos.volumePos = zftape.pos.volumePos

/-- One after the other. -/
theorem SameAccounts.trans {zftape'' : ZftapeInfo α} (h : SameAccounts zftape zftape')
    (h' : SameAccounts zftape' zftape'') : SameAccounts zftape zftape'' :=
  ⟨h'.tapePos.trans h.tapePos, h'.capacity.trans h.capacity, h'.volume.trans h.volume,
    h'.resid.trans h.resid, h'.volumePos.trans h.volumePos⟩

/-- Taking pending sectors fails if they cannot be laid into what is left of the segment, is refused if the
capacity has no room for them, and succeeds otherwise. -/
theorem gives_emptyHardErrorLoop_accounts (segSz : ℤ) (sectors : List (ℕ → α))
    (hsectors : zftape.hardErrors = sectors) :
    Gives (emptyHardErrorLoop segSz sectors zftape) fun emptied => SameAccounts zftape emptied.1 ∧
      (Misaligned zftape segSz ∧ emptied.2 = .error .eio ∨
        ¬Misaligned zftape segSz ∧ NoRoom zftape segSz ∧ emptied.2 = .error .enospc ∨
        ¬Misaligned zftape segSz ∧ ¬NoRoom zftape segSz ∧ emptied.2 = .ok ()) := by
  induction sectors generalizing zftape with
  | nil =>
    exact .pure ⟨⟨rfl, rfl, rfl, rfl, rfl⟩,
      Or.inr (Or.inr ⟨fun h => h.1 hsectors, fun h => h.1 hsectors, rfl⟩)⟩
  | cons sector sectors ih =>
    have hcons : zftape.hardErrors ≠ [] := by simp [hsectors]
    rw [emptyHardErrorLoop]
    split_ifs with hwhole hroom hfull
    · exact .pure ⟨⟨rfl, rfl, rfl, rfl, rfl⟩, Or.inl ⟨⟨hcons, hwhole⟩, rfl⟩⟩
    · exact .pure ⟨⟨rfl, rfl, rfl, rfl, rfl⟩,
        Or.inr (Or.inr ⟨fun h => hwhole h.2, fun h => absurd hroom (not_lt.mpr h.2.1), rfl⟩)⟩
    · refine (Recorded.Keeps.note _).bind fun _ _ => .pure ⟨⟨rfl, rfl, rfl, rfl, rfl⟩, ?_⟩
      exact Or.inr (Or.inl ⟨fun h => hwhole h.2, ⟨hcons, not_lt.mp hroom, hfull⟩, rfl⟩)
    · have htake : Gives (takeSector sector sectors zftape) fun took => SameAccounts zftape took ∧
          took.hardErrors = sectors ∧ took.pos.segBytePos = zftape.pos.segBytePos + ftSectorSize :=
        (gives_copied _).bind fun _ _ => .pure ⟨⟨rfl, rfl, rfl, rfl, rfl⟩, rfl, rfl⟩
      refine htake.bind ?_
      rintro took ⟨hsame, hleft, hbyte⟩
      refine (ih hleft).mono ?_
      rintro emptied ⟨hsame', houtcome⟩
      -- the rest is laid next to the sector that was taken, in the same capacity
      have haligned : ¬Misaligned took segSz := by
        intro h
        have hsector : (ftSectorSize : ℤ) = 1024 := rfl
        have hrest := h.2
        rw [hbyte, hsector] at hrest
        rw [hsector] at hwhole
        omega
      have hfits : ¬NoRoom took segSz := by
        intro h
        have hrest := h.2.2
        rw [hsame.capacity, hsame.tapePos] at hrest
        exact hfull hrest
      have hok : emptied.2 = .ok () := by
        rcases houtcome with h | h | h
        · exact absurd h.1 haligned
        · exact absurd h.2.1 hfits
        · exact h.2.2
      exact ⟨hsame.trans hsame', Or.inr (Or.inr ⟨fun h => hwhole h.2, fun h => hfull h.2.2, hok⟩)⟩

/-- The user's buffer is read from its front. -/
theorem window_userCells (kernel : Kernel α) {buff : List α} {n : ℕ} (hn : n ≤ buff.length) :
    window (userCells kernel buff) 0 n = buff.take n := by
  apply List.ext_getElem
  · rw [window_length, List.length_take_of_le hn]
  · intro i hi _
    rw [window_length] at hi
    rw [window_getElem, List.getElem_take, Nat.zero_add, userCells, List.getD_eq_getElem _ _ (by omega)]

/-- The deblock buffer takes the first bytes of the user's buffer. -/
theorem gives_fillRegular_accounts (kernel : Kernel α) (segSz : ℕ) (buff : List α) :
    Gives (fillRegular kernel segSz buff zftape) fun filled => ∃ cnt : ℕ, filled.2 = .ok (cnt : ℤ) ∧
      cnt ≤ buff.length ∧ taken filled.1 cnt = buff.take cnt ∧ filled.1.volume = zftape.volume ∧
      filled.1.resid = zftape.resid ∧ filled.1.pos.volumePos = zftape.pos.volumePos + cnt := by
  refine (gives_copied _).bind ?_
  intro deblock hcopy
  obtain ⟨hcnt, hbyte, -, -, hread, rfl⟩ := of_copy_eq_some hcopy
  obtain ⟨cnt, heq⟩ := Int.eq_ofNat_of_zero_le hcnt
  rw [heq] at hread ⊢
  have hle : cnt ≤ buff.length := by omega
  refine .pure ⟨cnt, rfl, hle, ?_, rfl, rfl, rfl⟩
  have hstart : zftape.pos.segBytePos + (cnt : ℤ) - cnt = zftape.pos.segBytePos := by ring
  rw [taken]
  dsimp only
  rw [hstart, Int.toNat_natCast, window_blit, ← window_userCells kernel hle]
  rfl

/-- Filling the deblock buffer takes bytes of the user unless the capacity or a fault forbids it. -/
theorem gives_fillFromUser_accounts (kernel : Kernel α) (copyFault : Bool) (segSz : ℕ) (buff : List α) :
    Gives (fillFromUser kernel copyFault segSz buff zftape) fun filled =>
      filled.1.volume = zftape.volume ∧ filled.1.resid = zftape.resid ∧
      (Faults copyFault zftape segSz ∧ (∃ errno, filled.2 = .error errno ∧ errno ≠ .enospc) ∨
        ¬Faults copyFault zftape segSz ∧ filled.2 = .error .enospc ∧ Exhausted filled.1 ∧
          filled.1.pos.volumePos = zftape.pos.volumePos ∨
        ¬Faults copyFault zftape segSz ∧ ∃ cnt : ℕ, filled.2 = .ok (cnt : ℤ) ∧ cnt ≤ buff.length ∧
          taken filled.1 cnt = buff.take cnt ∧
          filled.1.pos.volumePos = zftape.pos.volumePos + cnt) := by
  rw [fillFromUser]
  by_cases hempty : segSz = 0
  · rw [if_pos hempty]
    refine .pure ⟨rfl, rfl, Or.inr (Or.inr ⟨fun h => h.1 hempty, 0, rfl, Nat.zero_le _, ?_, ?_⟩)⟩
    · simp [taken]
    · simp
  · rw [if_neg hempty]
    refine (gives_emptyHardErrorLoop_accounts segSz zftape.hardErrors rfl).bind ?_
    rintro ⟨emptied, result⟩ ⟨hsame, ⟨hbad, rfl⟩ | ⟨hgood, hfull, rfl⟩ | ⟨hgood, hroom, rfl⟩⟩
    · exact .pure ⟨hsame.volume, hsame.resid, Or.inl ⟨⟨hempty, Or.inl hbad⟩, .eio, rfl, by decide⟩⟩
    · refine .pure ⟨hsame.volume, hsame.resid, Or.inr (Or.inl ⟨?_, rfl, Or.inr ?_, hsame.volumePos⟩)⟩
      · rintro ⟨-, hbad | ⟨-, hroom, -⟩⟩
        · exact hgood hbad
        · exact hroom hfull
      · have hover := hfull.2.2
        rwa [← hsame.capacity, ← hsame.tapePos] at hover
    · dsimp only
      split_ifs with hblock hfault
      · refine .pure ⟨hsame.volume, hsame.resid, Or.inr (Or.inl ⟨?_, rfl, Or.inl hblock, hsame.volumePos⟩)⟩
        rw [hsame.capacity, hsame.tapePos, hsame.volume] at hblock
        rintro ⟨-, hbad | ⟨-, -, hfits⟩⟩
        · exact hgood hbad
        · exact absurd hblock (not_lt.mpr hfits)
      · rw [hsame.capacity, hsame.tapePos, hsame.volume] at hblock
        exact .pure ⟨hsame.volume, hsame.resid, Or.inl ⟨⟨hempty, Or.inr ⟨hfault, hroom, not_lt.mp hblock⟩⟩,
          .efault, rfl, by decide⟩⟩
      · refine (gives_fillRegular_accounts kernel segSz buff).mono ?_
        rintro filled ⟨cnt, hcnt, hle, htaken, hvolume, hresid, hvolumePos⟩
        refine ⟨hvolume.trans hsame.volume, hresid.trans hsame.resid, Or.inr (Or.inr ⟨?_, cnt, hcnt, hle,
          htaken, by rw [hvolumePos, hsame.volumePos]⟩)⟩
        rintro ⟨-, hbad | ⟨hcopy, -, -⟩⟩
        · exact hgood hbad
        · exact hfault hcopy

end Fill

section Rounds

variable {zftape : ZftapeInfo α}

/-- Queueing a full segment leaves the accounts alone. -/
theorem gives_queueFull (kernel : Kernel α) (reports : List RunnerReport) (segSz : ℕ) :
    Gives (queueFull kernel reports segSz zftape) fun queued =>
      queued.1.pos.volumePos = zftape.pos.volumePos ∧ queued.1.resid = zftape.resid := by
  rw [queueFull]
  split
  · refine (gives_writeSegment kernel reports).bind ?_
    rintro ⟨queued, result⟩ ⟨hpos, -, -, hresid⟩
    dsimp only at hpos hresid
    cases result with
    | error errno => exact .pure ⟨by rw [hpos], hresid⟩
    | ok _ => exact .pure ⟨by rw [hpos], hresid⟩
  · exact .pure ⟨rfl, rfl⟩

/-- The accounts of what is left of a call, `written` bytes of which were counted before. -/
def WriteRun.AccountsFrom (run : WriteRun α) (written : ℤ) (zftape : ZftapeInfo α) (buff : List α) : Prop :=
  ∀ n, run.result = .ok n → run.failed = false ∧ ∃ m : ℕ, n = written + m ∧ m ≤ buff.length ∧
    run.appended = buff.take m ∧ run.zftape.pos.volumePos = zftape.pos.volumePos + m ∧
    run.zftape.resid = zftape.resid - n ∧ (m < buff.length → Exhausted run.zftape)

/-- A round that does not fail keeps right accounts if what follows does. -/
theorem gives_fillRound_accounts {kernel : Kernel α} {copyFault : Bool} {buff : List α} {written : ℤ}
    {next : ZftapeInfo α → ℤ → Traced α (WriteRun α)}
    (hfault : buff = [] ∧ zftape.hardErrors = [] ∨
      ¬Faults copyFault zftape (zftape.segSz zftape.pos.segPos))
    (hnext : ∀ filled (cnt : ℕ), ¬(buff = [] ∧ zftape.hardErrors = []) →
      (fillFromUser kernel copyFault (zftape.segSz zftape.pos.segPos) buff
        { zftape with deblockBuf := true }).result = .ok (filled, .ok (cnt : ℤ)) →
      cnt ≤ buff.length → taken filled cnt = buff.take cnt → filled.resid = zftape.resid →
      filled.pos.volumePos = zftape.pos.volumePos + cnt →
      Gives (next filled cnt) fun run => run.AccountsFrom written zftape buff) :
    Gives (fillRound kernel copyFault buff written zftape next) fun run =>
      run.AccountsFrom written zftape buff := by
  rw [fillRound]
  split_ifs with hdone
  · refine .pure ?_
    intro n hn
    cases hn
    refine ⟨rfl, 0, by simp, Nat.zero_le _, rfl, by simp [writeDone], rfl, ?_⟩
    rw [hdone.1]
    exact fun h => absurd h (Nat.lt_irrefl 0)
  · have hgood := hfault.resolve_left hdone
    refine (gives_fillFromUser_accounts kernel copyFault _ buff).and_result.bind ?_
    rintro ⟨filled, result⟩ ⟨⟨hvolume, hresid, houtcome⟩, hresult⟩
    rcases houtcome with ⟨hbad, -⟩ | ⟨-, rfl, hfull, hpos⟩ | ⟨-, cnt, rfl, hle, htaken, hpos⟩
    · exact absurd hbad hgood
    · refine .pure ?_
      intro n hn
      dsimp only [writeRefused] at hn hpos hresid ⊢
      rw [if_pos rfl] at hn ⊢
      dsimp only at hn
      split_ifs at hn
      cases hn
      exact ⟨by simp, 0, by simp, Nat.zero_le _, rfl, by simp [hpos], by simp [hresid], fun _ => hfull⟩
    · exact hnext filled cnt hdone hresult hle htaken hresid hpos

/-- A call whose rounds do not fail keeps right accounts. -/
theorem gives_writeRounds_accounts (kernel : Kernel α) (lastFault : Bool) (rounds : List WriteRound)
    (buff : List α) (written : ℤ) (hfault : Faultless kernel lastFault rounds buff zftape) :
    Gives (writeRounds kernel lastFault rounds buff written zftape) fun run =>
      run.AccountsFrom written zftape buff := by
  induction rounds generalizing zftape buff written with
  | nil =>
    refine gives_fillRound_accounts hfault fun filled cnt _ _ _ _ _ _ => .pure ?_
    intro n hn
    cases hn
  | cons round rounds ih =>
    refine gives_fillRound_accounts (hfault.imp id And.left) ?_
    intro filled cnt hopen hfill hle htaken hresid hpos
    refine (gives_queueFull kernel round.reports _).and_result.bind ?_
    rintro ⟨queued, result⟩ ⟨⟨hqueuedPos, hqueuedResid⟩, hqueue⟩
    cases result with
    | error errno =>
      refine .pure ?_
      intro n hn
      cases hn
    | ok _ =>
      have hrest := (hfault.resolve_left hopen).2 filled cnt queued hfill hqueue
      refine (ih _ (written + cnt) hrest).bind ?_
      intro run hrun
      refine .pure ?_
      intro n hn
      obtain ⟨hfailed, m, rfl, hm, happended, hvolumePos, hrunResid, hfull⟩ := hrun n hn
      rw [Int.toNat_natCast, List.length_drop] at hm hfull
      rw [Int.toNat_natCast] at happended
      refine ⟨hfailed, cnt + m, by push_cast; ring, by omega, ?_, ?_, ?_, fun h => hfull (by omega)⟩
      · rw [htaken, happended, List.take_add]
      · rw [hvolumePos, hqueuedPos, hpos]
        push_cast
        ring
      · rw [hrunResid, hqueuedResid, hresid]

/-- A round that fails makes the call return zero, and so does a later one. -/
theorem gives_fillRound_fault {kernel : Kernel α} {copyFault : Bool} {buff : List α} {written : ℤ}
    {next : ZftapeInfo α → ℤ → Traced α (WriteRun α)} (hopen : ¬(buff = [] ∧ zftape.hardErrors = []))
    (hnext : ∀ filled cnt, ¬Faults copyFault zftape (zftape.segSz zftape.pos.segPos) →
      (fillFromUser kernel copyFault (zftape.segSz zftape.pos.segPos) buff
        { zftape with deblockBuf := true }).result = .ok (filled, .ok cnt) →
      Gives (next filled cnt) fun run => run.failed = true ∧ run.result = .ok 0)
    (hfault : ¬Faults copyFault zftape (zftape.segSz zftape.pos.segPos) → ∃ filled cnt,
      (fillFromUser kernel copyFault (zftape.segSz zftape.pos.segPos) buff
        { zftape with deblockBuf := true }).result = .ok (filled, .ok cnt)) :
    Gives (fillRound kernel copyFault buff written zftape next) fun run =>
      run.failed = true ∧ run.result = .ok 0 := by
  rw [fillRound, if_neg hopen]
  refine (gives_fillFromUser_accounts kernel copyFault _ buff).and_result.bind ?_
  rintro ⟨filled, result⟩ ⟨⟨-, -, houtcome⟩, hresult⟩
  rcases houtcome with ⟨-, errno, rfl, hspace⟩ | ⟨hgood, rfl, -⟩ | ⟨hgood, cnt, rfl, -⟩
  · refine .pure ⟨by simp [hspace], ?_⟩
    simp [writeRefused, hspace]
  · obtain ⟨filled', cnt, hresult'⟩ := hfault hgood
    cases hresult.symm.trans hresult'
  · exact hnext filled cnt hgood hresult

/-- A call that comes to a round that fails returns zero. -/
theorem gives_writeRounds_fault (kernel : Kernel α) (lastFault : Bool) (rounds : List WriteRound)
    (buff : List α) (written : ℤ) (hfault : ¬Faultless kernel lastFault rounds buff zftape) :
    Gives (writeRounds kernel lastFault rounds buff written zftape) fun run =>
      run.failed = true ∧ run.result = .ok 0 := by
  induction rounds generalizing zftape buff written with
  | nil =>
    obtain ⟨hopen, hbad⟩ := not_or.mp hfault
    exact gives_fillRound_fault hopen (fun _ _ hgood _ => absurd hgood hbad) fun hgood => absurd hgood hbad
  | cons round rounds ih =>
    obtain ⟨hopen, hbad⟩ := not_or.mp hfault
    have hlater : ¬Faults round.copyFault zftape (zftape.segSz zftape.pos.segPos) → ∃ filled cnt queued,
        (fillFromUser kernel round.copyFault (zftape.segSz zftape.pos.segPos) buff
          { zftape with deblockBuf := true }).result = .ok (filled, .ok cnt) ∧
        (queueFull kernel round.reports (zftape.segSz zftape.pos.segPos) filled).result = .ok (queued, .ok ()) ∧
        ¬Faultless kernel lastFault rounds (buff.drop cnt.toNat) queued := by
      intro hgood
      have hrest := not_and.mp hbad hgood
      push Not at hrest
      exact hrest
    refine gives_fillRound_fault hopen ?_ fun hgood => ?_
    · intro filled cnt hgood hfill
      obtain ⟨filled', cnt', queued', hfill', hqueue', hrest⟩ := hlater hgood
      cases hfill.symm.trans hfill'
      refine (gives_queueFull kernel round.reports _).and_result.bind ?_
      rintro ⟨queued, result⟩ ⟨-, hqueue⟩
      cases hqueue.symm.trans hqueue'
      refine (ih _ (written + cnt) hrest).bind ?_
      intro run hrun
      exact .pure hrun
    · obtain ⟨filled, cnt, -, hfill, -⟩ := hlater hgood
      exact ⟨filled, cnt, hfill⟩

end Rounds

/-- The accounts of a call that returns are right if and only if no round that it comes to fails. -/
theorem zftWriteThrough_accounts_iff {kernel : Kernel α} {lastFault : Bool} {rounds : List WriteRound}
    {buff : List α} {zftape : ZftapeInfo α} {run : WriteRun α}
    (hrun : (zftWriteThrough kernel lastFault rounds buff zftape).result = .ok run) :
    run.Accounts zftape buff ↔ Faultless kernel lastFault rounds buff
      { zftape with resid := buff.length, lastWriteFailed := true } := by
  constructor
  · intro haccounts
    by_contra hfault
    obtain ⟨hfailed, hzero⟩ := gives_writeRounds_fault kernel lastFault rounds buff 0 hfault
      (fun _ _ => trivial) run hrun
    exact Bool.false_ne_true ((haccounts 0 hzero).1.symm.trans hfailed)
  · intro hfault n hn
    obtain ⟨hfailed, m, rfl, hm, happended, hpos, hresid, hfull⟩ :=
      gives_writeRounds_accounts kernel lastFault rounds buff 0 hfault (fun _ _ => trivial) run hrun n hn
    rw [zero_add]
    exact ⟨hfailed, Int.natCast_nonneg m, by omega, by rwa [Int.toNat_natCast], hpos,
      by rwa [zero_add] at hresid, fun h => hfull (by omega)⟩

section Readable

variable (kernel : Kernel α)

/-- What a run leaves and returns. -/
def WriteRun.outcome (run : WriteRun α) : ZftapeInfo α × Except Errno ℤ := (run.zftape, run.result)

/-- Where the memory of the user can be read, the deblock buffer is filled as `fill_deblock_buf()` does. -/
theorem fillFromUser_readable (segSz : ℕ) (buff : List α) (zftape : ZftapeInfo α) :
    fillFromUser kernel false segSz buff zftape = fillDeblockBuf kernel segSz buff zftape := by
  simp only [fillFromUser, Bool.false_eq_true, if_false]
  rfl

/-- What a run has appended before does not change its outcome. -/
theorem outcome_appended (call : Traced α (WriteRun α)) (front : List α) :
    (do let run ← call
        pure { run with appended := front ++ run.appended }).result.map WriteRun.outcome =
      call.result.map WriteRun.outcome := by
  obtain ⟨events, result⟩ := call
  cases result <;> rfl

/-- A round where the memory of the user can be read. -/
theorem fillRound_readable {buff : List α} {written : ℤ} {zftape : ZftapeInfo α}
    {next : ZftapeInfo α → ℤ → Traced α (WriteRun α)}
    {next' : ZftapeInfo α → ℤ → Traced α (ZftapeInfo α × Except Errno ℤ)}
    (hnext : ∀ filled cnt, (next filled cnt).result.map WriteRun.outcome = (next' filled cnt).result) :
    (fillRound kernel false buff written zftape next).result.map WriteRun.outcome =
      (writeRound kernel buff written zftape next').result := by
  rw [fillRound, writeRound, fillFromUser_readable]
  split_ifs
  · rfl
  · generalize fillDeblockBuf kernel (zftape.segSz zftape.pos.segPos) buff
      { zftape with deblockBuf := true } = fill
    obtain ⟨events, result⟩ := fill
    cases result with
    | error fault => rfl
    | ok filled =>
      obtain ⟨filled, result⟩ := filled
      cases result with
      | error errno => rfl
      | ok cnt => exact hnext filled cnt

/-- Where the memory of the user can be read, a call does what `_zft_write()` does there. -/
theorem writeRounds_readable (rounds : List (List RunnerReport)) (buff : List α) (written : ℤ)
    (zftape : ZftapeInfo α) :
    (writeRounds kernel false (rounds.map (WriteRound.mk false)) buff written zftape).result.map
      WriteRun.outcome = (writeLoop kernel rounds buff written zftape).result := by
  induction rounds generalizing buff written zftape with
  | nil => exact fillRound_readable kernel fun filled cnt => rfl
  | cons reports rounds ih =>
    refine fillRound_readable kernel fun filled cnt => ?_
    dsimp only
    rw [queueFull]
    split_ifs with hfull
    · generalize writeSegment kernel reports filled = queue
      obtain ⟨events, result⟩ := queue
      cases result with
      | error fault => rfl
      | ok queued =>
        obtain ⟨queued, result⟩ := queued
        cases result with
        | error errno => rfl
        | ok _ => exact (outcome_appended _ _).trans (ih _ _ _)
    · exact (outcome_appended _ _).trans (ih _ _ _)

end Readable

/-- An empty ring on a tape of segments with one sector of payload, at the start of a volume. -/
def emptyRing : ZftapeInfo Byte where
  drive :=
    { ring := [⟨fun _ => 0, 0, 0, .done, 0⟩, ⟨fun _ => 0, 0, 0, .done, 0⟩, ⟨fun _ => 0, 0, 0, .done, 0⟩]
      tail := 0
      deblockBuffer := fun _ => 0
      badSectorMap := fun _ => 0x0fffffff
      oldSegmentId := -1
      writing := true
      segments := 100
      tape := [] }
  deblockBuf := true
  hardErrors := []
  capacity := 90 * ftSectorSize
  pos := ⟨10, 0, 0, 0⟩
  blkSz := 1024
  volume := ⟨10, 99, 0, 0, 1024, true⟩
  ioState := .writing
  lastWriteFailed := false
  needFlush := false
  resid := 0

/-- The count that a run returns, with the position of the volume. -/
def WriteRun.returned (run : WriteRun α) : Option ℤ × ℤ := (run.result.toOption, run.zftape.pos.volumePos)

/-- A request for two segments whose memory can be read. -/
theorem zftWriteThrough_accounts_two_segments :
    ∃ run, (zftWriteThrough sampleKernel false [⟨false, [⟨0, none⟩]⟩, ⟨false, [⟨0, none⟩]⟩]
        (List.replicate 2048 1) emptyRing).result = .ok run ∧
      (run.Accounts emptyRing (List.replicate 2048 1) ↔ Faultless sampleKernel false
        [⟨false, [⟨0, none⟩]⟩, ⟨false, [⟨0, none⟩]⟩] (List.replicate 2048 1)
        { emptyRing with resid := (List.replicate 2048 (1 : Byte)).length, lastWriteFailed := true }) := by
  cases hresult : (zftWriteThrough sampleKernel false [⟨false, [⟨0, none⟩]⟩, ⟨false, [⟨0, none⟩]⟩]
      (List.replicate 2048 1) emptyRing).result with
  | error fault =>
    have hreturned : (zftWriteThrough sampleKernel false [⟨false, [⟨0, none⟩]⟩, ⟨false, [⟨0, none⟩]⟩]
        (List.replicate 2048 1) emptyRing).result.toBool = true := by decide +kernel
    rw [hresult] at hreturned
    cases hreturned
  | ok run => exact ⟨run, rfl, zftWriteThrough_accounts_iff hresult⟩

/-- If the second half of a request cannot be read, the call returns zero with the first half accepted. -/
theorem not_accounts_of_copy_fault :
    ∃ run, (zftWriteThrough sampleKernel false [⟨false, [⟨0, none⟩]⟩, ⟨true, [⟨0, none⟩]⟩]
        (List.replicate 2048 1) emptyRing).result = .ok run ∧
      run.returned = (some 0, 1024) ∧ ¬run.Accounts emptyRing (List.replicate 2048 1) := by
  have hreturned : (zftWriteThrough sampleKernel false [⟨false, [⟨0, none⟩]⟩, ⟨true, [⟨0, none⟩]⟩]
      (List.replicate 2048 1) emptyRing).result.toOption.map WriteRun.returned = some (some 0, 1024) := by
    decide +kernel
  cases hresult : (zftWriteThrough sampleKernel false [⟨false, [⟨0, none⟩]⟩, ⟨true, [⟨0, none⟩]⟩]
      (List.replicate 2048 1) emptyRing).result with
  | error fault =>
    rw [hresult] at hreturned
    cases hreturned
  | ok run =>
    rw [hresult] at hreturned
    have hrun : run.returned = (some 0, 1024) := Option.some.inj hreturned
    refine ⟨run, rfl, hrun, fun haccounts => ?_⟩
    obtain ⟨hcount, hpos⟩ := Prod.mk.inj hrun
    cases hzero : run.result with
    | error errno =>
      rw [hzero] at hcount
      cases hcount
    | ok n =>
      rw [hzero] at hcount
      obtain rfl : n = 0 := Option.some.inj hcount
      obtain ⟨-, -, -, -, hvolumePos, -⟩ := haccounts 0 hzero
      have hstart : emptyRing.pos.volumePos = 0 := rfl
      omega

end Ftape.Volume
