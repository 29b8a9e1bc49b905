import Ftape.Format.Track
import Mathlib.Order.Interval.Finset.Nat

/-!
# The buffer switching protocol

The segments of a track are handed over in chunks that fill a buffer each. The user has released the
chunks in front of `released`, the interrupt handler is at chunk `current`, and in between the ring
holds one chunk in each buffer. Neither side gets ahead of the other as long as the ring does not run
empty.
-/

namespace Ftape.Format

open Ftape.Header Ftape.Isr Ftape.Write

/-- The segments of a chunk. -/
def chunkSize (spt chunk : ℕ) : ℕ := min (spt - ftFmtSegsPerBuf * chunk) ftFmtSegsPerBuf

/-- The first segment of a chunk, or 0 if there is no such chunk. -/
def chunkStart (spt chunk : ℕ) : ℕ :=
  if ftFmtSegsPerBuf * chunk < spt then ftFmtSegsPerBuf * chunk else 0

/-- `FT_FMT_SEGS_PER_BUF`, in a form arithmetic sees through. -/
theorem ftFmtSegsPerBuf_eq : ftFmtSegsPerBuf = 256 := rfl

/-- Places in a ring are different for as many numbers as it has places. -/
theorem mod_ne_of_window {n i j : ℕ} (first : ℕ) (hi : first ≤ i) (hi' : i < first + n) (hj : first ≤ j)
    (hj' : j < first + n) (hne : i ≠ j) : i % n ≠ j % n := by
  intro heq
  exact hne (Nat.mod_injOn_Ico first n (Finset.mem_coe.mpr (Finset.mem_Ico.mpr ⟨hi, hi'⟩))
    (Finset.mem_coe.mpr (Finset.mem_Ico.mpr ⟨hj, hj'⟩)) heq)

/-- Every place in a ring belongs to one of as many numbers as it has places. -/
theorem exists_mod_eq_of_lt {n index : ℕ} (first : ℕ) (hindex : index < n) :
    ∃ i, first ≤ i ∧ i < first + n ∧ i % n = index := by
  have hmem : index ∈ (Finset.Ico first (first + n)).image (· % n) := by
    rw [Nat.image_Ico_mod]
    exact Finset.mem_range.mpr hindex
  obtain ⟨i, hi, heq⟩ := Finset.mem_image.mp hmem
  obtain ⟨hle, hlt⟩ := Finset.mem_Ico.mp hi
  exact ⟨i, hle, hlt, heq⟩

section Chunks

variable {ftape : FtapeInfo} {track : ℕ}

/-- A buffer holds a chunk of the track, of which some segments are formatted already. -/
structure FormatBuffer.Holds (ftape : FtapeInfo) (track chunk formatted : ℕ) (buff : FormatBuffer) :
    Prop where
  virtual : ∀ slot < chunkSize ftape.segmentsPerTrack chunk, buff.virtual slot =
    formatSegment ftape (track * ftape.segmentsPerTrack + ftFmtSegsPerBuf * chunk + slot)
  ptr : buff.ptr = idBytes * formatted
  remaining : buff.remaining =
    (chunkSize ftape.segmentsPerTrack chunk - formatted) * ftSectorsPerSegment
  segmentId : buff.segmentId = ftFmtSegsPerBuf * chunk + formatted
  nextSegment : buff.nextSegment = chunkStart ftape.segmentsPerTrack (chunk + 1)

/-- A new status changes nothing about what a buffer holds. -/
theorem FormatBuffer.Holds.withStatus {chunk formatted : ℕ} {buff : FormatBuffer}
    (h : buff.Holds ftape track chunk formatted) (status : BufferState) :
    FormatBuffer.Holds ftape track chunk formatted { buff with status := status } := { h with }

/-- `setup_format_buffer()` puts a chunk into a buffer. -/
theorem Formatter.holds_prepareFormatBuffer (s : Formatter) (index chunk : ℕ) :
    ((s.prepareFormatBuffer ftape index (ftFmtSegsPerBuf * chunk) track).buffers index).Holds ftape
      track chunk 0 := by
  have hbuf := ftFmtSegsPerBuf_eq
  rw [Formatter.prepareFormatBuffer]
  simp only [Formatter.setBuffer, Formatter.fillFormatBuffer, Function.update_self]
  refine ⟨?_, rfl, rfl, rfl, ?_⟩
  · intro slot hslot
    have hids : (Header.fillFormatBuffer ftape (track * ftape.segmentsPerTrack + ftFmtSegsPerBuf * chunk)
        (chunkSize ftape.segmentsPerTrack chunk))[slot]? = some (formatSegment ftape
          (track * ftape.segmentsPerTrack + ftFmtSegsPerBuf * chunk + slot)) := by
      rw [Header.fillFormatBuffer, List.getElem?_map, List.getElem?_range' hslot, one_mul, Option.map_some]
    dsimp only
    rw [← chunkSize, hids, Option.getD_some]
  · dsimp only
    rw [chunkStart]
    by_cases hend : ftape.segmentsPerTrack ≤ ftFmtSegsPerBuf * (chunk + 1)
    · rw [if_pos (by rw [hbuf] at hend ⊢; omega), if_neg (by omega)]
    · rw [if_neg (by rw [hbuf] at hend ⊢; omega), if_pos (by omega), hbuf] 
      rw [hbuf] at hend
      omega

/-- The other buffers stay as they are. -/
theorem Formatter.prepareFormatBuffer_of_ne (s : Formatter) {index other : ℕ} (start : ℕ)
    (hne : other ≠ index) :
    (s.prepareFormatBuffer ftape index start track).buffers other = s.buffers other := by
  simp [Formatter.prepareFormatBuffer, Formatter.setBuffer, Formatter.fillFormatBuffer, hne]

/-- A segment of a chunk is done. -/
theorem FormatBuffer.Holds.doneWithSegment {chunk formatted : ℕ} {buff : FormatBuffer}
    (h : buff.Holds ftape track chunk formatted)
    (hless : formatted < chunkSize ftape.segmentsPerTrack chunk) :
    buff.doneWithSegment.Holds ftape track chunk (formatted + 1) where
  virtual := h.virtual
  ptr := by
    rw [FormatBuffer.doneWithSegment, h.ptr, Nat.mul_succ]
  remaining := by
    have hsize : chunkSize ftape.segmentsPerTrack chunk ≤ 256 := Nat.min_le_right _ _
    have hvalue : (((chunkSize ftape.segmentsPerTrack chunk - formatted) * ftSectorsPerSegment : ℕ) : ℤ) -
        ftSectorsPerSegment =
          ((chunkSize ftape.segmentsPerTrack chunk - (formatted + 1)) * ftSectorsPerSegment : ℕ) := by
      rw [sectorsPerSegment_eq]
      omega
    rw [FormatBuffer.doneWithSegment, h.remaining, hvalue, toUint_natCast]
    rw [sectorsPerSegment_eq]
    omega
  segmentId := by
    rw [FormatBuffer.doneWithSegment, h.segmentId, Nat.add_assoc]
  nextSegment := h.nextSegment

/-- The ids that the controller gets for the next segment are those of the track. -/
theorem FormatBuffer.Holds.ids {chunk formatted : ℕ} {buff : FormatBuffer}
    (h : buff.Holds ftape track chunk formatted)
    (hless : formatted < chunkSize ftape.segmentsPerTrack chunk) :
    (buff.segmentId, buff.virtual (buff.ptr / idBytes)) =
      (ftFmtSegsPerBuf * chunk + formatted, formatSegment ftape
        (track * ftape.segmentsPerTrack + (ftFmtSegsPerBuf * chunk + formatted))) := by
  rw [h.segmentId, h.ptr, Nat.mul_div_cancel_left _ (by decide), h.virtual formatted hless, Nat.add_assoc]

end Chunks

section Running

variable {ftape : FtapeInfo} {track : ℕ} {s : Formatter} {current formatted released : ℕ}

/-- What `ftape_format_status()` goes by: the next chunk, and the buffer for it. -/
structure Formatter.AtSwitch (ftape : FtapeInfo) (s : Formatter) (released : ℕ) : Prop where
  switchSegment : s.switchSegment = chunkStart ftape.segmentsPerTrack released
  tail : ftFmtSegsPerBuf * released < ftape.segmentsPerTrack → s.tail = released % s.nrBuffers

/-- There is another chunk to hand over, and room for it. -/
structure Formatter.Refilling (ftape : FtapeInfo) (s : Formatter) (current released : ℕ) : Prop where
  atSwitch : s.AtSwitch ftape released
  more : ftFmtSegsPerBuf * released < ftape.segmentsPerTrack
  room : released < current + s.nrBuffers

/-- How far the user side is. -/
def Formatter.UserSide (ftape : FtapeInfo) (track : ℕ) (s : Formatter) (current released : ℕ) : Prop :=
  match s.call with
  | .none | .needBuffers | .select => s.AtSwitch ftape released
  | .waitSegment | .setup => s.Refilling ftape current released
  | .release => s.Refilling ftape current released ∧ (s.buffers s.tail).Holds ftape track released 0
  | .switch => s.tail = (released - 1) % s.nrBuffers

/-- The controller formats a segment: `formatted` segments of the chunk `current` are done, the chunks
from there to `released` wait in the ring, and the other buffers are used up. -/
structure Formatter.Running (ftape : FtapeInfo) (track : ℕ) (s : Formatter)
    (current formatted released : ℕ) : Prop where
  onTrack : s.track = track
  head : s.head = current % s.nrBuffers
  mode : s.mode = .fdcFormatting
  runnerStatus : s.runnerStatus = .idle
  formatting : (s.buffers s.head).status = .formatting
  holds : (s.buffers s.head).Holds ftape track current formatted
  work : formatted < chunkSize ftape.segmentsPerTrack current
  ahead : current < released
  room : released ≤ current + s.nrBuffers
  started : ftFmtSegsPerBuf * released < ftape.segmentsPerTrack + ftFmtSegsPerBuf
  waiting : ∀ chunk, current < chunk → chunk < released →
    (s.buffers (chunk % s.nrBuffers)).status = .waiting ∧
      (s.buffers (chunk % s.nrBuffers)).Holds ftape track chunk 0
  used : ftFmtSegsPerBuf * released < ftape.segmentsPerTrack → ∀ chunk, released ≤ chunk →
    chunk < current + s.nrBuffers → (s.buffers (chunk % s.nrBuffers)).status = .done
  user : s.UserSide ftape track current released
  log : s.formatted = trackIds ftape track (ftFmtSegsPerBuf * current + formatted)

/-- The track is formatted and the controller idle. -/
structure Formatter.Finished (ftape : FtapeInfo) (track : ℕ) (s : Formatter) : Prop where
  mode : s.mode = .fdcIdle
  runnerStatus : s.runnerStatus = .logicalEot
  log : s.formatted = trackIds ftape track ftape.segmentsPerTrack

/-- The chunk after the one that is released last is the next one in the track. -/
theorem Formatter.Running.nextSegment_last (h : s.Running ftape track current formatted released) :
    (s.buffers ((released - 1) % s.nrBuffers)).nextSegment =
      chunkStart ftape.segmentsPerTrack released := by
  have hahead := h.ahead
  have hsucc : released - 1 + 1 = released := by omega
  by_cases hlast : current = released - 1
  · have hholds := h.holds
    rw [h.head, hlast] at hholds
    rw [hholds.nextSegment, hsucc]
  · rw [((h.waiting (released - 1) (by omega) (by omega)).2).nextSegment, hsucc]

/-- The end of a chunk that is not the last one finds the next one in the ring, as long as the ring is
not empty. -/
theorem Formatter.Running.next_released (h : s.Running ftape track current formatted released)
    (hnext : ftFmtSegsPerBuf * (current + 1) < ftape.segmentsPerTrack) (hring : ¬ s.RingEmpty) :
    current + 1 < released := by
  by_contra hnot
  have hahead := h.ahead
  have hreleased : released = current + 1 := by omega
  apply hring
  intro index hindex
  obtain ⟨chunk, hle, hlt, rfl⟩ := exists_mod_eq_of_lt current hindex
  by_cases hhead : chunk = current
  · rw [hhead, ← h.head, h.formatting]
    exact BufferState.noConfusion
  · rw [h.used (by rw [hreleased]; exact hnext) chunk (by omega) hlt]
    exact BufferState.noConfusion

/-- A step of the user side that leaves the buffers alone. -/
theorem Formatter.Running.ofUser (h : s.Running ftape track current formatted released) {s' : Formatter}
    (hsame : s' = { s with
      switchSegment := s'.switchSegment, tail := s'.tail, call := s'.call, answer := s'.answer })
    (huser : s'.UserSide ftape track current released) :
    s'.Running ftape track current formatted released := by
  rw [hsame] at huser ⊢
  exact { h with user := huser }

/-- The user side changes a buffer that is free. -/
theorem Formatter.Running.ofBuffers (h : s.Running ftape track current formatted released)
    (hroom : released < current + s.nrBuffers) {s' : Formatter}
    (hsame : s' = { s with
      buffers := s'.buffers, deblockBuffer := s'.deblockBuffer, call := s'.call })
    (hbuffers : ∀ index ≠ released % s.nrBuffers, s'.buffers index = s.buffers index)
    (hstatus : (s'.buffers (released % s.nrBuffers)).status = .done)
    (huser : s'.UserSide ftape track current released) :
    s'.Running ftape track current formatted released := by
  have hahead := h.ahead
  have hne : ∀ chunk, current ≤ chunk → chunk < current + s.nrBuffers → chunk ≠ released →
      s'.buffers (chunk % s.nrBuffers) = s.buffers (chunk % s.nrBuffers) := fun chunk hle hlt hother =>
    hbuffers _ (mod_ne_of_window _ hle hlt (by omega) hroom hother)
  have hhead : s'.buffers s.head = s.buffers s.head := by
    rw [h.head]
    exact hne current le_rfl (by omega) (by omega)
  rw [hsame] at huser ⊢
  refine { h with
    formatting := ?_, holds := ?_, waiting := ?_, used := ?_, user := huser }
  · dsimp only
    rw [hhead]
    exact h.formatting
  · dsimp only
    rw [hhead]
    exact h.holds
  · intro chunk hgt hlt
    dsimp only
    rw [hne chunk hgt.le (by omega) (by omega)]
    exact h.waiting chunk hgt hlt
  · intro hless chunk hle hlt
    dsimp only at hlt ⊢
    by_cases hlast : chunk = released
    · rw [hlast]
      exact hstatus
    · rw [hne chunk (by omega) hlt hlast]
      exact h.used hless chunk hle hlt

/-- The next chunk is a chunk of the track unless the track ends. -/
theorem chunkStart_of_lt {spt chunk : ℕ} (h : ftFmtSegsPerBuf * chunk < spt) :
    chunkStart spt chunk = ftFmtSegsPerBuf * chunk := if_pos h

/-- There is no next chunk exactly where the track ends. -/
theorem chunkStart_ne_zero_iff {spt chunk : ℕ} (hchunk : 0 < chunk) :
    chunkStart spt chunk ≠ 0 ↔ ftFmtSegsPerBuf * chunk < spt := by
  have hbuf := ftFmtSegsPerBuf_eq
  rw [chunkStart]
  by_cases h : ftFmtSegsPerBuf * chunk < spt
  · rw [if_pos h]
    exact iff_of_true (by rw [hbuf]; omega) h
  · rw [if_neg h]
    exact iff_of_false (by simp) h

/-- The test at the head of the loop finds out whether there is something to refill. -/
theorem Formatter.Running.refilling (h : s.Running ftape track current formatted released)
    (hswitch : s.AtSwitch ftape released) (hmore : s.switchSegment ≠ 0) (hfree : s.head ≠ s.tail) :
    s.Refilling ftape current released := by
  have hahead := h.ahead
  rw [hswitch.switchSegment, chunkStart_ne_zero_iff (by omega)] at hmore
  refine ⟨hswitch, hmore, lt_of_le_of_ne h.room ?_⟩
  rintro rfl
  rw [h.head, hswitch.tail hmore, Nat.add_mod_right] at hfree
  exact hfree rfl

/-- `setup_format_buffer()` fills the buffer at `TAIL`. -/
theorem Formatter.Running.prepare (h : s.Running ftape track current formatted released)
    (hrefill : s.Refilling ftape current released) :
    Formatter.Running ftape track
      { s.prepareFormatBuffer ftape s.tail s.switchSegment s.track with call := .release }
      current formatted released := by
  have htail := hrefill.atSwitch.tail hrefill.more
  have hstart := hrefill.atSwitch.switchSegment.trans (chunkStart_of_lt hrefill.more)
  refine h.ofBuffers hrefill.room rfl ?_ ?_ ⟨⟨⟨?_, ?_⟩, hrefill.more, hrefill.room⟩, ?_⟩
  · intro index hne
    rw [← htail] at hne
    exact s.prepareFormatBuffer_of_ne _ hne
  · have hused := h.used hrefill.more released le_rfl hrefill.room
    rw [← htail] at hused ⊢
    simpa [Formatter.prepareFormatBuffer, Formatter.setBuffer, Formatter.fillFormatBuffer] using hused
  · exact hrefill.atSwitch.switchSegment
  · exact hrefill.atSwitch.tail
  · dsimp only
    rw [h.onTrack, hstart]
    exact s.holds_prepareFormatBuffer s.tail released

/-- The status hands the next chunk over. -/
theorem Formatter.Running.release (h : s.Running ftape track current formatted released)
    (hrefill : s.Refilling ftape current released)
    (hholds : (s.buffers s.tail).Holds ftape track released 0) :
    Formatter.Running ftape track { s.setStatus s.tail .waiting with call := .switch }
      current formatted (released + 1) := by
  have hahead := h.ahead
  have hroom := hrefill.room
  have htail := hrefill.atSwitch.tail hrefill.more
  have hbuf := ftFmtSegsPerBuf_eq
  have hne : ∀ chunk, current ≤ chunk → chunk < current + s.nrBuffers → chunk ≠ released →
      (s.setStatus s.tail .waiting).buffers (chunk % s.nrBuffers) = s.buffers (chunk % s.nrBuffers) := by
    intro chunk hle hlt hother
    rw [htail]
    exact Function.update_of_ne (mod_ne_of_window _ hle hlt (by omega) hroom hother) _ _
  have hself : (s.setStatus s.tail .waiting).buffers (released % s.nrBuffers) =
      { s.buffers s.tail with status := .waiting } := by
    rw [htail]
    exact Function.update_self _ _ _
  have hhead : (s.setStatus s.tail .waiting).buffers s.head = s.buffers s.head := by
    rw [h.head]
    exact hne current le_rfl (by omega) (by omega)
  refine { h with
    formatting := ?_, holds := ?_, ahead := by omega, room := hroom, started := ?_, waiting := ?_
    used := ?_, user := htail }
  · dsimp only
    rw [show (s.setStatus s.tail .waiting).head = s.head from rfl, hhead]
    exact h.formatting
  · dsimp only
    rw [show (s.setStatus s.tail .waiting).head = s.head from rfl, hhead]
    exact h.holds
  · have hmore := hrefill.more
    rw [hbuf] at hmore ⊢
    omega
  · intro chunk hgt hlt
    dsimp only at hlt ⊢
    rw [show (s.setStatus s.tail .waiting).nrBuffers = s.nrBuffers from rfl]
    by_cases hlast : chunk = released
    · rw [hlast, hself]
      exact ⟨rfl, hholds.withStatus _⟩
    · rw [hne chunk hgt.le (by omega) hlast]
      exact h.waiting chunk hgt (by omega)
  · intro hless chunk hle hlt
    rw [show (s.setStatus s.tail .waiting).nrBuffers = s.nrBuffers from rfl]
    dsimp only
    rw [hne chunk (by omega) hlt (by omega)]
    exact h.used (by rw [hbuf] at hless ⊢; omega) chunk (by omega) hlt

/-- The user side goes on to the next chunk. -/
theorem Formatter.Running.switch (h : s.Running ftape track current formatted released)
    (htail : s.tail = (released - 1) % s.nrBuffers) :
    Formatter.Running ftape track
      { s with
        switchSegment := (s.buffers s.tail).nextSegment
        tail := if (s.buffers s.tail).nextSegment ≠ 0 then s.next s.tail else s.tail
        call := .needBuffers } current formatted released := by
  have hahead := h.ahead
  have hnext := h.nextSegment_last
  rw [← htail] at hnext
  refine h.ofUser rfl ⟨hnext, fun hmore => ?_⟩
  rw [hnext, if_pos ((chunkStart_ne_zero_iff (by omega)).mpr hmore), Formatter.next, htail,
    Nat.mod_add_mod, show released - 1 + 1 = released by omega]

/-- A step of the user side keeps the protocol, and may hand over a chunk. -/
theorem Formatter.Running.userStep (h : s.Running ftape track current formatted released) :
    ∃ released, (s.userStep ftape).Running ftape track current formatted released := by
  have huser := h.user
  rw [Formatter.UserSide] at huser
  rw [Formatter.userStep]
  cases hcall : s.call with
  | none =>
    rw [hcall] at huser
    exact ⟨released, h.ofUser rfl ⟨huser.1, huser.2⟩⟩
  | needBuffers =>
    rw [hcall] at huser
    dsimp only
    by_cases hrefill : s.switchSegment ≠ 0 ∧ s.head ≠ s.tail
    · rw [if_pos hrefill]
      have hrefilling := h.refilling huser hrefill.1 hrefill.2
      exact ⟨released, h.ofUser rfl ⟨⟨huser.1, huser.2⟩, hrefilling.more, hrefilling.room⟩⟩
    · rw [if_neg hrefill]
      exact ⟨released, h.ofUser rfl ⟨huser.1, huser.2⟩⟩
  | waitSegment =>
    rw [hcall] at huser
    dsimp only
    by_cases hbusy : (s.buffers s.tail).status = .formatting
    · rw [if_pos hbusy]
      exact ⟨released, h⟩
    · rw [if_neg hbusy]
      exact ⟨released, h.ofUser rfl ⟨⟨huser.1.1, huser.1.2⟩, huser.2, huser.3⟩⟩
  | setup =>
    rw [hcall] at huser
    exact ⟨released, h.prepare huser⟩
  | release =>
    rw [hcall] at huser
    exact ⟨released + 1, h.release huser.1 huser.2⟩
  | switch =>
    rw [hcall] at huser
    exact ⟨released, h.switch huser⟩
  | select =>
    rw [hcall] at huser
    have hgoing : ¬ (s.runnerStatus = .aborting ∨ s.runnerStatus = .doAbort) := by
      rw [h.runnerStatus]
      simp
    dsimp only
    rw [if_neg hgoing]
    exact ⟨released, h.ofUser rfl ⟨huser.1, huser.2⟩⟩

/-- One more segment in the log. -/
theorem trackIds_succ (count : ℕ) :
    trackIds ftape track (count + 1) = trackIds ftape track count ++
      [(count, formatSegment ftape (track * ftape.segmentsPerTrack + count))] := by
  rw [trackIds, List.range_succ, List.map_append]
  rfl

/-- What a clean interrupt does first: the segment is done. -/
theorem Formatter.determineFmtProgress_clean {report : Report} (hclean : report.Clean) :
    s.determineFmtProgress report = (s.doneWithSegment, true) := by
  have hresidue : report.residue.any (· ≠ 0) = false := by
    cases hcase : report.residue with
    | none => rfl
    | some residue =>
      have hzero := hclean.2.1 residue (by rw [hcase]; rfl)
      simp [hzero]
  rw [Formatter.determineFmtProgress, hresidue, if_neg Bool.false_ne_true, if_neg (not_not.mpr hclean.1)]

/-- The buffers after a segment is done. -/
theorem Formatter.doneWithSegment_head (s : Formatter) :
    s.doneWithSegment.buffers s.head = (s.buffers s.head).doneWithSegment := by
  simp [Formatter.doneWithSegment, Formatter.setBuffer]

/-- The other buffers after a segment is done. -/
theorem Formatter.doneWithSegment_of_ne (s : Formatter) {index : ℕ} (hne : index ≠ s.head) :
    s.doneWithSegment.buffers index = s.buffers index := by
  simp [Formatter.doneWithSegment, Formatter.setBuffer, hne]

/-- The log after a segment is done. -/
theorem Formatter.Running.log_doneWithSegment (h : s.Running ftape track current formatted released) :
    s.doneWithSegment.formatted = trackIds ftape track (ftFmtSegsPerBuf * current + formatted + 1) := by
  rw [trackIds_succ, ← h.log, ← h.holds.ids h.work]
  rfl

/-- The user side does not see that `HEAD` moves on or changes. -/
theorem Formatter.Running.userSide (h : s.Running ftape track current formatted released)
    {s' : Formatter} {current' : ℕ} (hle : current ≤ current')
    (hsame : s' = { s with
      buffers := s'.buffers, head := s'.head, runnerStatus := s'.runnerStatus, mode := s'.mode
      formatted := s'.formatted })
    (htail : s.call = .release → s'.buffers s.tail = s.buffers s.tail) :
    s'.UserSide ftape track current' released := by
  have huser := h.user
  rw [hsame]
  rw [Formatter.UserSide] at huser ⊢
  have hroom : ∀ hrefill : s.Refilling ftape current released, released < current' + s.nrBuffers :=
    fun hrefill => lt_of_lt_of_le hrefill.room (Nat.add_le_add_right hle _)
  cases hcall : s.call with
  | none =>
    rw [hcall] at huser
    exact ⟨huser.1, huser.2⟩
  | needBuffers =>
    rw [hcall] at huser
    exact ⟨huser.1, huser.2⟩
  | select =>
    rw [hcall] at huser
    exact ⟨huser.1, huser.2⟩
  | waitSegment =>
    rw [hcall] at huser
    exact ⟨⟨huser.1.1, huser.1.2⟩, huser.2, hroom huser⟩
  | setup =>
    rw [hcall] at huser
    exact ⟨⟨huser.1.1, huser.1.2⟩, huser.2, hroom huser⟩
  | release =>
    rw [hcall] at huser
    refine ⟨⟨⟨huser.1.1.1, huser.1.1.2⟩, huser.1.2, hroom huser.1⟩, ?_⟩
    dsimp only
    rw [htail hcall]
    exact huser.2
  | switch =>
    rw [hcall] at huser
    exact huser

/-- The buffer that is being refilled is not `HEAD`. -/
theorem Formatter.Running.tail_ne_head (h : s.Running ftape track current formatted released)
    (hcall : s.call = .release) : s.tail ≠ s.head := by
  have huser := h.user
  rw [Formatter.UserSide, hcall] at huser
  have hahead := h.ahead
  have hroom := huser.1.room
  rw [huser.1.atSwitch.tail huser.1.more, h.head]
  exact mod_ne_of_window _ hahead.le hroom le_rfl (by omega) (by omega)

/-- The next segment of `HEAD` is set up as long as there is one. -/
theorem Formatter.continueFormatting_same (hremaining : (s.buffers s.head).remaining ≠ 0) :
    s.continueFormatting true = { s.setStatus s.head .formatting with mode := .fdcFormatting } := by
  rw [Formatter.continueFormatting, if_neg hremaining, Formatter.setupFormatting, if_pos rfl]

/-- The next buffer is set up when `HEAD` is used up. -/
theorem Formatter.continueFormatting_next (hremaining : (s.buffers s.head).remaining = 0)
    (hnext : (s.buffers s.head).nextSegment ≠ 0) (hne : s.next s.head ≠ s.head)
    (hwaiting : (s.buffers (s.next s.head)).status = .waiting)
    (hid : (s.buffers s.head).nextSegment = (s.buffers (s.next s.head)).segmentId) :
    s.continueFormatting true =
      { Formatter.setStatus { s.setStatus s.head .done with head := s.next s.head }
          (s.next s.head) .formatting with mode := .fdcFormatting } := by
  have hother : (s.setStatus s.head .done).buffers (s.next s.head) = s.buffers (s.next s.head) :=
    Function.update_of_ne hne _ _
  have hfound : ¬ (((s.setStatus s.head .done).buffers (s.next s.head)).status ≠ .waiting ∨
      (s.buffers s.head).nextSegment ≠ ((s.setStatus s.head .done).buffers (s.next s.head)).segmentId) := by
    rw [hother, hwaiting, ← hid]
    simp
  rw [Formatter.continueFormatting, if_pos hremaining]
  dsimp only
  rw [if_neg hnext]
  exact (if_neg hfound).trans (if_pos rfl)

/-- The track ends with the last buffer. -/
theorem Formatter.continueFormatting_end (hremaining : (s.buffers s.head).remaining = 0)
    (hnext : (s.buffers s.head).nextSegment = 0) :
    s.continueFormatting true =
      { s.setStatus s.head .done with runnerStatus := .logicalEot, mode := .fdcIdle } := by
  rw [Formatter.continueFormatting, if_pos hremaining]
  exact if_pos hnext

/-- The interrupt handler goes on within `HEAD`. -/
theorem Formatter.Running.sameBuffer (h : s.Running ftape track current formatted released)
    (hwork : formatted + 1 < chunkSize ftape.segmentsPerTrack current) :
    (s.doneWithSegment.continueFormatting true).Running ftape track current (formatted + 1) released := by
  have hholds := h.holds.doneWithSegment h.work
  have hremaining : (s.doneWithSegment.buffers s.head).remaining ≠ 0 := by
    rw [s.doneWithSegment_head, hholds.remaining, sectorsPerSegment_eq]
    omega
  have hhead : (s.doneWithSegment.setStatus s.head .formatting).buffers s.head =
      { (s.buffers s.head).doneWithSegment with status := .formatting } := by
    rw [← s.doneWithSegment_head]
    exact Function.update_self _ _ _
  have hothers : ∀ index ≠ s.head,
      (s.doneWithSegment.setStatus s.head .formatting).buffers index = s.buffers index := by
    intro index hne
    rw [← s.doneWithSegment_of_ne hne]
    exact Function.update_of_ne hne _ _
  have hahead := h.ahead
  have hroom := h.room
  rw [Formatter.continueFormatting_same hremaining]
  refine { h with
    mode := rfl, formatting := ?_, holds := ?_, work := hwork, waiting := ?_, used := ?_, user := ?_
    log := ?_ }
  · exact congrArg FormatBuffer.status hhead
  · exact hhead ▸ hholds.withStatus _
  · intro chunk hgt hlt
    have hne : chunk % s.nrBuffers ≠ s.head := by
      rw [h.head]
      exact mod_ne_of_window _ hgt.le (by omega) le_rfl (by omega) (by omega)
    exact (hothers _ hne) ▸ h.waiting chunk hgt hlt
  · intro hless chunk hle hlt
    have hne : chunk % s.nrBuffers ≠ s.head := by
      rw [h.head]
      exact mod_ne_of_window _ (by omega) hlt le_rfl (by omega) (by omega)
    exact (congrArg FormatBuffer.status (hothers _ hne)).trans (h.used hless chunk hle hlt)
  · exact h.userSide le_rfl rfl fun hcall => hothers _ (h.tail_ne_head hcall)
  · exact h.log_doneWithSegment

/-- The next chunk in the ring is behind `HEAD`. -/
theorem Formatter.Running.next_head (h : s.Running ftape track current formatted released) :
    s.next s.head = (current + 1) % s.nrBuffers := by
  rw [Formatter.next, h.head, Nat.mod_add_mod]

/-- The interrupt handler switches to the next buffer. -/
theorem Formatter.Running.nextBuffer (h : s.Running ftape track current formatted released)
    (hlast : formatted + 1 = chunkSize ftape.segmentsPerTrack current)
    (hmore : ftFmtSegsPerBuf * (current + 1) < ftape.segmentsPerTrack)
    (hreleased : current + 1 < released) :
    (s.doneWithSegment.continueFormatting true).Running ftape track (current + 1) 0 released := by
  have hroom := h.room
  have hbuf := ftFmtSegsPerBuf_eq
  have hholds := h.holds.doneWithSegment h.work
  obtain ⟨hwaiting, hfresh⟩ := h.waiting (current + 1) (by omega) hreleased
  rw [← h.next_head] at hwaiting hfresh
  have hne : s.next s.head ≠ s.head := by
    rw [h.next_head, h.head]
    exact mod_ne_of_window _ (Nat.le_succ current) (by omega) le_rfl (by omega) (by omega)
  have hremaining : (s.doneWithSegment.buffers s.head).remaining = 0 := by
    rw [s.doneWithSegment_head, hholds.remaining, hlast, Nat.sub_self, Nat.zero_mul]
  have hnext : (s.doneWithSegment.buffers s.head).nextSegment = ftFmtSegsPerBuf * (current + 1) := by
    rw [s.doneWithSegment_head, hholds.nextSegment, chunkStart_of_lt hmore]
  have hbehind : s.doneWithSegment.buffers (s.next s.head) = s.buffers (s.next s.head) :=
    s.doneWithSegment_of_ne hne
  rw [Formatter.continueFormatting_next hremaining
    (by rw [show s.doneWithSegment.head = s.head from rfl, hnext, hbuf]; omega) hne
    ((congrArg FormatBuffer.status hbehind).trans hwaiting)
    (hnext.trans ((congrArg FormatBuffer.segmentId hbehind).trans hfresh.segmentId).symm)]
  -- the buffers after the switch
  have hhead : (Formatter.setStatus { s.doneWithSegment.setStatus s.head .done with
      head := s.next s.head } (s.next s.head) .formatting).buffers (s.next s.head) =
        { s.buffers (s.next s.head) with status := .formatting } := by
    have hother : (s.doneWithSegment.setStatus s.head .done).buffers (s.next s.head) =
        s.buffers (s.next s.head) := (Function.update_of_ne hne _ _).trans hbehind
    rw [← hother]
    exact Function.update_self _ _ _
  have hused : ∀ index, index = s.head → ((Formatter.setStatus
      { s.doneWithSegment.setStatus s.head .done with head := s.next s.head }
        (s.next s.head) .formatting).buffers index).status = .done := by
    rintro _ rfl
    have hdone : (Formatter.setStatus { s.doneWithSegment.setStatus s.head .done with
        head := s.next s.head } (s.next s.head) .formatting).buffers s.head =
          { s.doneWithSegment.buffers s.head with status := .done } :=
      (Function.update_of_ne hne.symm _ _).trans (Function.update_self _ _ _)
    rw [hdone]
  have hothers : ∀ index, index ≠ s.head → index ≠ s.next s.head →
      (Formatter.setStatus { s.doneWithSegment.setStatus s.head .done with head := s.next s.head }
        (s.next s.head) .formatting).buffers index = s.buffers index := by
    intro index hhead hnext
    exact (Function.update_of_ne hnext _ _).trans
      ((Function.update_of_ne hhead _ _).trans (s.doneWithSegment_of_ne hhead))
  refine { h with
    head := h.next_head, mode := rfl, formatting := ?_, holds := ?_, work := ?_, ahead := hreleased
    room := ?_, waiting := ?_, used := ?_, user := ?_, log := ?_ }
  · exact congrArg FormatBuffer.status hhead
  · exact hhead ▸ hfresh.withStatus _
  · rw [chunkSize]
    rw [hbuf] at hmore ⊢
    omega
  · exact hroom.trans (by show _ ≤ current + 1 + s.nrBuffers; omega)
  · intro chunk hgt hlt
    have hnotHead : chunk % s.nrBuffers ≠ s.head := by
      rw [h.head]
      exact mod_ne_of_window _ (by omega) (by omega) le_rfl (by omega) (by omega)
    have hnotNext : chunk % s.nrBuffers ≠ s.next s.head := by
      rw [h.next_head]
      exact mod_ne_of_window current (by omega) (by omega) (by omega) (by omega) (by omega)
    exact (hothers _ hnotHead hnotNext) ▸ h.waiting chunk (by omega) hlt
  · intro hless chunk hle hlt
    have hlt' : chunk < current + 1 + s.nrBuffers := hlt
    by_cases hround : chunk = current + s.nrBuffers
    · have hindex : (current + s.nrBuffers) % s.nrBuffers = s.head := by
        rw [Nat.add_mod_right, h.head]
      rw [hround]
      exact hused _ hindex
    · have hnotHead : chunk % s.nrBuffers ≠ s.head := by
        rw [h.head]
        exact mod_ne_of_window current (by omega) (by omega) le_rfl (by omega) (by omega)
      have hnotNext : chunk % s.nrBuffers ≠ s.next s.head := by
        rw [h.next_head]
        exact mod_ne_of_window current (by omega) (by omega) (by omega) (by omega) (by omega)
      exact (congrArg FormatBuffer.status (hothers _ hnotHead hnotNext)).trans
        (h.used hless chunk hle (by omega))
  · refine h.userSide (Nat.le_succ current) rfl fun hcall => ?_
    have huser := h.user
    rw [Formatter.UserSide, hcall] at huser
    have htail := huser.1.atSwitch.tail huser.1.more
    have hfree := huser.1.room
    refine hothers _ (h.tail_ne_head hcall) ?_
    rw [htail, h.next_head]
    exact mod_ne_of_window current (by omega) (by omega) (by omega) (by omega) (by omega)
  · have hlog := h.log_doneWithSegment
    have hcount : ftFmtSegsPerBuf * current + formatted + 1 = ftFmtSegsPerBuf * (current + 1) + 0 := by
      rw [chunkSize] at hlast
      rw [hbuf] at hlast hmore ⊢
      omega
    rw [hcount] at hlog
    exact hlog

/-- The interrupt handler ends the track. -/
theorem Formatter.Running.endOfTrack (h : s.Running ftape track current formatted released)
    (hlast : formatted + 1 = chunkSize ftape.segmentsPerTrack current)
    (hend : ftape.segmentsPerTrack ≤ ftFmtSegsPerBuf * (current + 1)) :
    (s.doneWithSegment.continueFormatting true).Finished ftape track := by
  have hbuf := ftFmtSegsPerBuf_eq
  have hholds := h.holds.doneWithSegment h.work
  have hremaining : (s.doneWithSegment.buffers s.head).remaining = 0 := by
    rw [s.doneWithSegment_head, hholds.remaining, hlast, Nat.sub_self, Nat.zero_mul]
  have hnext : (s.doneWithSegment.buffers s.head).nextSegment = 0 := by
    rw [s.doneWithSegment_head, hholds.nextSegment, chunkStart, if_neg (by omega)]
  rw [Formatter.continueFormatting_end hremaining hnext]
  refine ⟨rfl, rfl, ?_⟩
  have hlog := h.log_doneWithSegment
  have hcount : ftFmtSegsPerBuf * current + formatted + 1 = ftape.segmentsPerTrack := by
    have hwork := h.work
    rw [chunkSize] at hlast hwork
    rw [hbuf] at hlast hend hwork ⊢
    omega
  rw [hcount] at hlog
  exact hlog

end Running

/-- What holds of a track after some segments of it have been formatted. -/
inductive Formatter.Follows (ftape : FtapeInfo) (track : ℕ) (s : Formatter) (count : ℕ) : Prop where
  | running (current formatted released : ℕ) (h : s.Running ftape track current formatted released)
      (hcount : ftFmtSegsPerBuf * current + formatted = count)
  | finished (h : s.Finished ftape track) (hcount : ftape.segmentsPerTrack ≤ count)

section Runs

variable {ftape : FtapeInfo} {track : ℕ} {s : Formatter} {count : ℕ}

/-- A clean interrupt that comes before the ring runs empty formats the next segment. -/
theorem Formatter.Follows.interrupt (h : s.Follows ftape track count) {report : Report}
    (hclean : report.Clean) (hring : s.NeedsNext → ¬ s.RingEmpty) :
    (s.handleFdcBusy report).Follows ftape track (count + 1) := by
  cases h with
  | running current formatted released h hcount =>
    have hbuf := ftFmtSegsPerBuf_eq
    have hwork := h.work
    have hgoing : ∀ s' : Formatter, s.doneWithSegment.continueFormatting true = s' →
        s'.runnerStatus ≠ .doAbort → s.handleFdcBusy report = s' := by
      rintro s' rfl hstatus
      rw [Formatter.handleFdcBusy, h.mode]
      simp only [Formatter.determineFmtProgress_clean hclean, hclean.1, hclean.2.2, and_self, if_true,
        if_neg hstatus]
    by_cases hlast : formatted + 1 = chunkSize ftape.segmentsPerTrack current
    · by_cases hend : ftape.segmentsPerTrack ≤ ftFmtSegsPerBuf * (current + 1)
      · have hfinished := h.endOfTrack hlast hend
        rw [hgoing _ rfl (by rw [hfinished.runnerStatus]; exact RunnerStatus.noConfusion)]
        refine .finished hfinished ?_
        rw [chunkSize] at hlast
        rw [hbuf] at hlast hcount hend
        omega
      · have hmore : ftFmtSegsPerBuf * (current + 1) < ftape.segmentsPerTrack := by omega
        have hneeds : s.NeedsNext := by
          refine ⟨h.mode, ?_, ?_⟩
          · rw [h.holds.remaining, ← hlast, Nat.add_sub_cancel_left, Nat.one_mul]
          · rw [h.holds.nextSegment, chunkStart_of_lt hmore, hbuf]
            omega
        have hrunning := h.nextBuffer hlast hmore (h.next_released hmore (hring hneeds))
        rw [hgoing _ rfl (by rw [hrunning.runnerStatus]; exact RunnerStatus.noConfusion)]
        refine .running _ _ _ hrunning ?_
        rw [chunkSize] at hlast
        rw [hbuf] at hlast hcount hmore ⊢
        omega
    · have hrunning := h.sameBuffer (by omega)
      rw [hgoing _ rfl (by rw [hrunning.runnerStatus]; exact RunnerStatus.noConfusion)]
      exact .running _ _ _ hrunning (by omega)
  | finished h hcount =>
    rw [Formatter.handleFdcBusy, h.mode]
    exact .finished h (by omega)

/-- Nothing of a finished track changes. -/
theorem Formatter.Finished.userStep (h : s.Finished ftape track) :
    (s.userStep ftape).Finished ftape track := by
  have hgoing : ¬ (s.runnerStatus = .aborting ∨ s.runnerStatus = .doAbort) := by
    rw [h.runnerStatus]
    simp
  rw [Formatter.userStep]
  cases s.call with
  | none => exact { h with }
  | needBuffers => dsimp only; split <;> exact { h with }
  | waitSegment => dsimp only; split <;> exact { h with }
  | setup => exact { h with }
  | release => exact { h with }
  | switch => exact { h with }
  | select =>
    dsimp only
    rw [if_neg hgoing]
    exact { h with }

/-- An event of a track that is formatted as planned. -/
theorem Formatter.Follows.step (h : s.Follows ftape track count) {event : Event}
    (hallowed : s.Allows event) :
    (s.step ftape event).Follows ftape track (count + if event.isInterrupt then 1 else 0) := by
  cases event with
  | user =>
    cases h with
    | running current formatted released h hcount =>
      obtain ⟨released, h⟩ := h.userStep
      exact .running _ _ _ h hcount
    | finished h hcount => exact .finished h.userStep hcount
  | giveUp code =>
    rw [Formatter.step]
    by_cases hcall : s.call = .waitSegment
    · rw [if_pos hcall]
      cases h with
      | running current formatted released h hcount =>
        have huser := h.user
        rw [Formatter.UserSide, hcall] at huser
        exact .running _ _ _ (h.ofUser rfl ⟨huser.1.1, huser.1.2⟩) hcount
      | finished h hcount => exact .finished { h with } hcount
    · rw [if_neg hcall]
      exact h
  | timeout =>
    cases h with
    | running current formatted released h hcount =>
      rw [Formatter.Allows, h.mode] at hallowed
      cases hallowed
    | finished h hcount =>
      refine .finished ?_ hcount
      rw [Formatter.step, Formatter.timeout]
      split
      · exact { h with mode := rfl }
      · exact { h with mode := rfl }
      · exact h
  | interrupt report => exact h.interrupt hallowed.1 hallowed.2

/-- Any run of events of a track that is formatted as planned. -/
theorem Formatter.Follows.run (h : s.Follows ftape track count) {events : List Event}
    (hallowed : s.AllowsAll ftape events) :
    (s.run ftape events).Follows ftape track (count + events.countP Event.isInterrupt) := by
  induction events generalizing s count with
  | nil => exact h
  | cons event events ih =>
    obtain ⟨hevent, hevents⟩ := hallowed
    have hrun := ih (h.step hevent) hevents
    rw [List.countP_cons, Nat.add_comm (events.countP _), ← Nat.add_assoc]
    exact hrun

end Runs

section Start

variable {ftape : FtapeInfo} {track : ℕ} {s : Formatter} {released : ℕ}

/-- The chunks that the loop of `ftape_format_track()` has put into the ring. -/
structure Formatter.Filled (ftape : FtapeInfo) (track : ℕ) (s : Formatter) (released : ℕ) : Prop where
  head : s.head = 0
  runnerStatus : s.runnerStatus = .idle
  room : released ≤ s.nrBuffers
  waiting : ∀ chunk < released,
    (s.buffers chunk).status = .waiting ∧ (s.buffers chunk).Holds ftape track chunk 0

/-- Where the loop begins another round. -/
structure Formatter.Filling (ftape : FtapeInfo) (track : ℕ) (s : Formatter) (released : ℕ) : Prop
    extends s.Filled ftape track released where
  tail : s.tail = released
  switchSegment : s.switchSegment = ftFmtSegsPerBuf * released
  more : ftFmtSegsPerBuf * released < ftape.segmentsPerTrack

/-- Where the loop ends. -/
structure Formatter.Loaded (ftape : FtapeInfo) (track : ℕ) (s : Formatter) (released : ℕ) : Prop
    extends s.Filled ftape track released, s.AtSwitch ftape released where
  ahead : 0 < released
  started : ftFmtSegsPerBuf * released < ftape.segmentsPerTrack + ftFmtSegsPerBuf
  full : ftFmtSegsPerBuf * released < ftape.segmentsPerTrack → released = s.nrBuffers

/-- `setup_format_buffer()` puts another chunk into the ring. -/
theorem Formatter.Filling.setup (h : s.Filling ftape track released) (hroom : released < s.nrBuffers) :
    (s.setupFormatBuffer ftape s.tail s.switchSegment track).Filled ftape track (released + 1) := by
  have hself : (s.setupFormatBuffer ftape s.tail s.switchSegment track).buffers released =
      { (s.prepareFormatBuffer ftape released (ftFmtSegsPerBuf * released) track).buffers released with
        status := .waiting } := by
    rw [h.tail, h.switchSegment]
    exact Function.update_self _ _ _
  have hothers : ∀ index ≠ released,
      (s.setupFormatBuffer ftape s.tail s.switchSegment track).buffers index = s.buffers index := by
    intro index hne
    rw [h.tail]
    exact (Function.update_of_ne hne _ _).trans (s.prepareFormatBuffer_of_ne _ hne)
  refine ⟨h.head, h.runnerStatus, hroom, fun chunk hchunk => ?_⟩
  by_cases hlast : chunk = released
  · rw [hlast, hself]
    exact ⟨rfl, (s.holds_prepareFormatBuffer released released).withStatus _⟩
  · rw [hothers chunk hlast]
    exact h.waiting chunk (by omega)

/-- One round of the loop, with what follows the chunk. -/
theorem Formatter.fillLoop_succ (s : Formatter) (rounds track : ℕ) {next : ℕ}
    (hnext : ((s.setupFormatBuffer ftape s.tail s.switchSegment track).buffers s.tail).nextSegment = next) :
    s.fillLoop ftape (rounds + 1) track =
      let filled := s.setupFormatBuffer ftape s.tail s.switchSegment track
      if next = 0 then { filled with switchSegment := next }
      else if s.next s.tail = s.head then { filled with switchSegment := next, tail := s.next s.tail }
      else Formatter.fillLoop ftape rounds { filled with switchSegment := next, tail := s.next s.tail }
        track := by
  subst hnext
  rfl

/-- The loop fills the ring, or as many buffers as the track takes. -/
theorem Formatter.Filling.fillLoop {rounds : ℕ} (h : s.Filling ftape track released)
    (hrounds : released + rounds = s.nrBuffers) (hroom : 0 < rounds) :
    ∃ released, (s.fillLoop ftape rounds track).Loaded ftape track released := by
  induction rounds generalizing s released with
  | zero => exact absurd hroom (lt_irrefl 0)
  | succ rounds ih =>
    have hbuf := ftFmtSegsPerBuf_eq
    have hmore := h.more
    have hfilled := h.setup (by omega)
    have hstarted : ftFmtSegsPerBuf * (released + 1) < ftape.segmentsPerTrack + ftFmtSegsPerBuf := by
      rw [hbuf] at hmore ⊢
      omega
    have hnext : ((s.setupFormatBuffer ftape s.tail s.switchSegment track).buffers s.tail).nextSegment =
        chunkStart ftape.segmentsPerTrack (released + 1) := by
      rw [h.tail] at hfilled ⊢
      exact (hfilled.waiting released (Nat.lt_succ_self released)).2.nextSegment
    have htail : s.next s.tail = (released + 1) % s.nrBuffers := by
      rw [Formatter.next, h.tail]
    rw [s.fillLoop_succ rounds track hnext]
    dsimp only
    by_cases hend : ftFmtSegsPerBuf * (released + 1) < ftape.segmentsPerTrack
    · rw [if_neg ((chunkStart_ne_zero_iff (Nat.succ_pos released)).mpr hend)]
      by_cases hlast : rounds = 0
      · -- every buffer is taken, and `TAIL` is back at `HEAD`
        have hround : released + 1 = s.nrBuffers := by omega
        rw [if_pos (by rw [htail, h.head, hround, Nat.mod_self])]
        exact ⟨released + 1, { hfilled with
          switchSegment := rfl, tail := fun _ => htail, ahead := Nat.succ_pos _, started := hstarted
          full := fun _ => hround }⟩
      · have hplace : s.next s.tail = released + 1 := by
          rw [htail, Nat.mod_eq_of_lt (by omega)]
        rw [if_neg (by rw [hplace, h.head]; exact Nat.succ_ne_zero _)]
        refine ih { hfilled with
          tail := hplace, switchSegment := chunkStart_of_lt hend, more := hend } ?_ (by omega)
        show released + 1 + rounds = s.nrBuffers
        omega
    · have hzero : chunkStart ftape.segmentsPerTrack (released + 1) = 0 := if_neg hend
      rw [if_pos hzero]
      exact ⟨released + 1, { hfilled with
        switchSegment := rfl, tail := fun hless => absurd hless hend, ahead := Nat.succ_pos _
        started := hstarted, full := fun hless => absurd hless hend }⟩

/-- `HEAD` is set up as soon as the ring is loaded. -/
theorem Formatter.Loaded.start (h : s.Loaded ftape track released) :
    Formatter.Running ftape track { s.setStatus s.head .formatting with
      track := track, mode := .fdcFormatting, call := .none, formatted := [] } 0 0 released := by
  have hbuf := ftFmtSegsPerBuf_eq
  have hroom := h.room
  have hahead := h.ahead
  have hstarted := h.started
  have hself : (s.setStatus s.head .formatting).buffers s.head =
      { s.buffers s.head with status := .formatting } := Function.update_self _ _ _
  have hothers : ∀ index ≠ 0, (s.setStatus s.head .formatting).buffers index = s.buffers index := by
    intro index hne
    rw [h.head]
    exact Function.update_of_ne hne _ _
  have hholds : (s.buffers s.head).Holds ftape track 0 0 := by
    rw [h.head]
    exact (h.waiting 0 h.ahead).2
  exact
    { onTrack := rfl
      head := h.head.trans (Nat.zero_mod _).symm
      mode := rfl
      runnerStatus := h.runnerStatus
      formatting := congrArg FormatBuffer.status hself
      holds := hself ▸ hholds.withStatus _
      work := by
        rw [chunkSize]
        rw [hbuf] at hstarted ⊢
        omega
      ahead := h.ahead
      room := by
        rw [Nat.zero_add]
        exact h.room
      started := h.started
      waiting := by
        intro chunk hgt hlt
        have hbuffer : (s.setStatus s.head .formatting).buffers (chunk % s.nrBuffers) =
            s.buffers chunk := by
          rw [Nat.mod_eq_of_lt (by omega)]
          exact hothers chunk (by omega)
        exact hbuffer ▸ h.waiting chunk hlt
      used := fun hless chunk hle hlt => by
        have hfull := h.full hless
        have hlt' : chunk < 0 + s.nrBuffers := hlt
        omega
      user := ⟨h.switchSegment, h.tail⟩
      log := rfl }

/-- `ftape_format_track()` starts the protocol. -/
theorem Formatter.follows_ftapeFormatTrack (s : Formatter) (track : ℕ)
    (hsegments : 0 < ftape.segmentsPerTrack) (hring : 0 < s.nrBuffers) :
    (s.ftapeFormatTrack ftape track).Follows ftape track 0 := by
  have hstart : Formatter.Filling ftape track { s.ftapeAbortOperation with switchSegment := 0 } 0 :=
    { head := rfl
      runnerStatus := rfl
      room := Nat.zero_le _
      waiting := fun _ hchunk => absurd hchunk (Nat.not_lt_zero _)
      tail := rfl
      switchSegment := rfl
      more := hsegments }
  obtain ⟨released, hloaded⟩ := hstart.fillLoop (Nat.zero_add _) hring
  exact .running 0 0 released hloaded.start rfl

/-- What the protocol is for: after any run that is as planned, the controller has formatted the first
segments of the track in their order, one for each interrupt, each with its ids. The runner stops at
the end of the track and not before. -/
def Formatter.FormatsTrack (ftape : FtapeInfo) (s : Formatter) (track : ℕ) : Prop :=
  ∀ events, (s.ftapeFormatTrack ftape track).AllowsAll ftape events →
    let count := min (events.countP Event.isInterrupt) ftape.segmentsPerTrack
    let last := (s.ftapeFormatTrack ftape track).run ftape events
    last.formatted = trackIds ftape track count ∧
      last.runnerStatus = (if count = ftape.segmentsPerTrack then .logicalEot else .idle) ∧
      last.mode = (if count = ftape.segmentsPerTrack then .fdcIdle else .fdcFormatting)

/-- The segments that have been formatted so far. -/
theorem Formatter.Follows.outcome {count : ℕ} (h : s.Follows ftape track count) :
    s.formatted = trackIds ftape track (min count ftape.segmentsPerTrack) ∧
      s.runnerStatus = (if min count ftape.segmentsPerTrack = ftape.segmentsPerTrack then .logicalEot
        else .idle) ∧
      s.mode = (if min count ftape.segmentsPerTrack = ftape.segmentsPerTrack then .fdcIdle
        else .fdcFormatting) := by
  cases h with
  | running current formatted released h hcount =>
    have hbuf := ftFmtSegsPerBuf_eq
    have hwork := h.work
    have hless : count < ftape.segmentsPerTrack := by
      rw [chunkSize] at hwork
      rw [hbuf] at hwork hcount
      omega
    have hmin : min count ftape.segmentsPerTrack = count := Nat.min_eq_left hless.le
    rw [hmin, if_neg hless.ne, if_neg hless.ne, ← hcount]
    exact ⟨h.log, h.runnerStatus, h.mode⟩
  | finished h hcount =>
    have hmin : min count ftape.segmentsPerTrack = ftape.segmentsPerTrack := Nat.min_eq_right hcount
    rw [hmin, if_pos rfl, if_pos rfl]
    exact ⟨h.log, h.runnerStatus, h.mode⟩

/-- A track with a segment or more is formatted as it should be. -/
theorem formatsTrack_of_segments (hsegments : 0 < ftape.segmentsPerTrack) (hring : 0 < s.nrBuffers) :
    s.FormatsTrack ftape track := by
  intro events hallowed
  have hrun := ((s.follows_ftapeFormatTrack track hsegments hring).run hallowed).outcome
  rw [Nat.zero_add] at hrun
  exact hrun

end Start

/-- A ring of two buffers before anything is formatted. -/
def twoBuffers : Formatter where
  buffers := fun _ => ⟨fun _ => [], 0, 0, 0, .waiting, 0, 0⟩
  nrBuffers := 2
  head := 0
  tail := 0
  deblockBuffer := fun _ => []
  switchSegment := 0
  runnerStatus := .idle
  track := 0
  mode := .fdcIdle
  call := .none
  answer := none
  formatted := []

/-- An interrupt without errors. -/
def cleanReport : Report := ⟨.noError, some 0, true⟩

/-- A cartridge with tracks of 600 segments, which take three buffers. -/
def longTrack : FtapeInfo := { ftapeInitDriver with segmentsPerTrack := 600 }

/-- The segments of the first buffer, a call that fills this buffer again, and the other segments. -/
def refilled : List Event :=
  List.replicate 256 (.interrupt cleanReport) ++ List.replicate 8 .user ++
    List.replicate 344 (.interrupt cleanReport)

/-- A track that takes three buffers is formatted with two. -/
theorem formatsTrack_of_segments_refilled : 0 < longTrack.segmentsPerTrack ∧ 0 < twoBuffers.nrBuffers ∧
    ((twoBuffers.ftapeFormatTrack longTrack 3).run longTrack refilled).formatted = trackIds longTrack 3 600 ∧
      ((twoBuffers.ftapeFormatTrack longTrack 3).run longTrack refilled).runnerStatus = .logicalEot := by
  have hallowed : (twoBuffers.ftapeFormatTrack longTrack 3).AllowsAll longTrack refilled := by decide +kernel
  have hcount : min (refilled.countP Event.isInterrupt) longTrack.segmentsPerTrack = 600 := by decide +kernel
  obtain ⟨hformatted, hstatus, -⟩ :=
    @formatsTrack_of_segments longTrack 3 twoBuffers (by decide) (by decide) refilled hallowed
  have hall : 600 = longTrack.segmentsPerTrack := rfl
  rw [hcount] at hformatted hstatus
  rw [if_pos hall] at hstatus
  exact ⟨by decide, by decide, hformatted, hstatus⟩

/-- On a track without segments the runner goes on behind the end. -/
theorem formatsTrack_of_no_segments :
    ¬ twoBuffers.FormatsTrack { ftapeInitDriver with segmentsPerTrack := 0 } 0 := by
  intro h
  have hallowed : (twoBuffers.ftapeFormatTrack { ftapeInitDriver with segmentsPerTrack := 0 } 0).AllowsAll
      { ftapeInitDriver with segmentsPerTrack := 0 } [.interrupt cleanReport] := by
    refine ⟨⟨⟨rfl, ?_, rfl⟩, fun hneeds => absurd rfl hneeds.2.2⟩, trivial⟩
    rintro _ ⟨⟩
    rfl
  have hstatus := (h [.interrupt cleanReport] hallowed).2.1
  exact absurd hstatus (by decide)

end Ftape.Format
