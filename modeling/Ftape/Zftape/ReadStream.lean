import Ftape.Algebra.Stretch
import Ftape.Zftape.Read

/-!
# The stream of a volume

The payloads of the segments from the position on are what lies ahead of a reader. A round of the
read loop hands out a piece of it and leaves the rest ahead, whatever the alignment of the request,
of the segments and of the segments without usable sectors. A run of calls therefore hands out the
volume in order, up to its size.
-/

namespace Ftape.Zftape

open Ftape.Algebra Ftape.Write

variable {α : Type*}

/-- What a segment hands out. -/
def Reader.payload (zftape : Reader α) (segment : ℕ → ℕ → α) (s : ℕ) : List α :=
  window (segment s) 0 (zftape.zftGetSegSz s)

/-- The segment behind the recorded media. -/
def Reader.mediaEnd (zftape : Reader α) : ℕ :=
  if zftape.qicMode then zftape.table.eom.startSeg else zftape.lastDataSegment + 1

/-- Calls of `_zft_read()` up to the first that hands out nothing: the bytes, and whether there was
such a call. -/
def Reader.readUntilEof (kernel : Kernel α) : List ℕ → Reader α → Except Errno (List α × Bool)
  | [], _ => .ok ([], false)
  | len :: lens, zftape =>
    match zftape.zftRead kernel len with
    | (_, .error errno) => .error errno
    | (_, .ok []) => .ok ([], true)
    | (zftape, .ok bytes) =>
      match Reader.readUntilEof kernel lens zftape with
      | .error errno => .error errno
      | .ok (rest, eof) => .ok (bytes ++ rest, eof)

/-- Reading moves the position and refills the deblock buffer, and leaves the rest alone. -/
def Reader.Moved (zftape zftape' : Reader α) : Prop :=
  ∃ pos buffer held bufLen segSz, zftape' = { zftape with
    pos := pos
    deblockBuffer := buffer
    deblockSegment := held
    bufLenRd := bufLen
    segSz := segSz }

/-- Moving on after a move. -/
theorem Reader.Moved.trans {zftape zftape' zftape'' : Reader α} (h : zftape.Moved zftape')
    (h' : zftape'.Moved zftape'') : zftape.Moved zftape'' := by
  obtain ⟨_, _, _, _, _, rfl⟩ := h
  obtain ⟨pos, buffer, held, bufLen, segSz, rfl⟩ := h'
  exact ⟨pos, buffer, held, bufLen, segSz, rfl⟩

/-- The deblock buffer holds what reading its segment gives. -/
def Reader.Cached (zftape : Reader α) (segment : ℕ → ℕ → α) : Prop :=
  ∀ s, zftape.deblockSegment = some s →
    window zftape.deblockBuffer 0 (zftape.zftGetSegSz s) = zftape.payload segment s

/-- The reader has `rest` ahead of itself in the segments up to `past`, all of which read back. The
deblock buffer is used up at the start of a segment, or holds the segment it stands in. -/
structure Reader.Ahead (zftape : Reader α) (segment : ℕ → ℕ → α) (past : ℕ) (rest : List α) : Prop where
  cached : zftape.Cached segment
  readable : ∀ s, zftape.pos.segPos ≤ s → s < past → zftape.readSegment s = .ok (segment s)
  onTape : past ≤ zftape.segments
  byte : 0 ≤ zftape.pos.segBytePos
  rest_eq : rest = ahead (zftape.payload segment) past zftape.pos.segPos zftape.pos.segBytePos.toNat
  buffer : zftape.bufLenRd = 0 ∧ zftape.pos.segBytePos = 0 ∨
    zftape.deblockSegment = some zftape.pos.segPos ∧
      zftape.segSz = zftape.zftGetSegSz zftape.pos.segPos ∧
      zftape.bufLenRd = zftape.segSz - zftape.pos.segBytePos ∧ 0 < zftape.bufLenRd

/-- The position is in front of a segment, or at its start. -/
def Reader.UpTo (zftape : Reader α) (past : ℕ) : Prop :=
  zftape.pos.segPos < past ∨ zftape.pos.segPos = past ∧ zftape.pos.segBytePos = 0

@[simp] theorem Reader.payload_length (zftape : Reader α) (segment : ℕ → ℕ → α) (s : ℕ) :
    (zftape.payload segment s).length = zftape.zftGetSegSz s := window_length _ _ _

/-- A segment that reads back is fetched. -/
theorem Reader.zftFetchSegment_of_readable (kernel : Kernel α) {zftape : Reader α}
    {segment : ℕ → ℕ → α} {s : ℕ} (hcached : zftape.Cached segment)
    (hread : zftape.readSegment s = .ok (segment s)) :
    ∃ zftape', zftape.zftFetchSegment kernel s = (zftape', .ok (zftape.zftGetSegSz s)) ∧
      zftape.Moved zftape' ∧ zftape'.Cached segment ∧ zftape'.pos = zftape.pos ∧
      zftape'.deblockSegment = some s := by
  by_cases hheld : zftape.deblockSegment = some s
  · refine ⟨zftape, ?_, ⟨_, _, _, _, _, rfl⟩, hcached, rfl, hheld⟩
    rw [zftFetchSegment, if_pos hheld]
  · refine ⟨{ zftape with bufLenRd := 0, deblockBuffer := segment s, deblockSegment := some s },
      ?_, ⟨_, _, _, _, _, rfl⟩, ?_, rfl, rfl⟩
    · have hread' : zftape.zftReleaseDeblockBuffer.readSegment s = .ok (segment s) := hread
      simp only [zftFetchSegment, if_neg hheld, hread']
      rfl
    · intro t ht
      cases ht
      rfl

/-- The next segment with something in it is fetched, and those before it are skipped. -/
theorem Reader.fetchNext_of_ahead (kernel : Kernel α) {segment : ℕ → ℕ → α} {past : ℕ}
    (rounds : ℕ) {zftape : Reader α} (hcached : zftape.Cached segment)
    (hread : ∀ s, zftape.pos.segPos ≤ s → s < past → zftape.readSegment s = .ok (segment s))
    (hbyte : zftape.pos.segBytePos = 0) (hrounds : past ≤ zftape.pos.segPos + rounds)
    (hahead : 0 < (ahead (zftape.payload segment) past zftape.pos.segPos 0).length) :
    ∃ zftape', zftape.fetchNext kernel rounds =
        (zftape', .ok (zftape.zftGetSegSz zftape'.pos.segPos)) ∧
      zftape.Moved zftape' ∧ zftape'.Cached segment ∧ zftape.pos.segPos ≤ zftape'.pos.segPos ∧
      zftape'.pos.segBytePos = 0 ∧ zftape'.deblockSegment = some zftape'.pos.segPos ∧
      0 < zftape.zftGetSegSz zftape'.pos.segPos ∧
      ahead (zftape.payload segment) past zftape'.pos.segPos 0 =
        ahead (zftape.payload segment) past zftape.pos.segPos 0 := by
  induction rounds generalizing zftape with
  | zero =>
    have hlt : zftape.pos.segPos < past := lt_of_ahead hahead
    omega
  | succ rounds ih =>
    have hlt : zftape.pos.segPos < past := lt_of_ahead hahead
    obtain ⟨fetched, hfetch, hmoved, hcached', hpos, hheld⟩ :=
      zftFetchSegment_of_readable kernel hcached (hread _ (Nat.le_refl _) hlt)
    cases hsize : zftape.zftGetSegSz zftape.pos.segPos with
    | zero =>
      have hempty : zftape.payload segment zftape.pos.segPos = [] := by
        apply List.eq_nil_of_length_eq_zero
        rw [payload_length, hsize]
      have hskip := ahead_of_empty past hempty
      obtain ⟨pos, buffer, held, bufLen, segSz, rfl⟩ := hmoved
      rw [← hskip] at hahead
      obtain rfl : pos = zftape.pos := hpos
      have hcached_next : Reader.Cached { zftape with
          pos := { zftape.pos with segPos := zftape.pos.segPos + 1, segBytePos := 0 }
          deblockBuffer := buffer, deblockSegment := held, bufLenRd := bufLen, segSz := segSz }
          segment := hcached'
      obtain ⟨zftape', hnext, hmoved', hcached'', hle, hrest⟩ := ih hcached_next
        (fun s hs => hread s (Nat.le_of_succ_le hs)) rfl (by dsimp only; omega) hahead
      refine ⟨zftape', ?_, Moved.trans ⟨_, _, _, _, _, rfl⟩ hmoved', hcached'', Nat.le_of_succ_le hle,
        hrest.1, hrest.2.1, hrest.2.2.1, hrest.2.2.2.trans hskip⟩
      rw [fetchNext, hfetch, hsize]
      exact hnext
    | succ size =>
      refine ⟨fetched, ?_, hmoved, hcached', ?_, ?_, ?_, ?_, ?_⟩
      · rw [fetchNext, hfetch, hpos, hsize]
        rfl
      all_goals rw [hpos]
      · exact hbyte
      · exact hheld
      · omega

/-- `n` bytes of the deblock buffer are handed out; the position moves on to the next segment once
they are used up. -/
theorem Reader.emptyDeblockBuf_eq (zftape : Reader α) {reqLen : ℤ} {n : ℕ}
    (hn : (if zftape.segSz - zftape.pos.segBytePos < reqLen then
      zftape.segSz - zftape.pos.segBytePos else reqLen) = n) :
    zftape.emptyDeblockBuf reqLen = ({ zftape with
      pos :=
        if zftape.segSz ≤ zftape.pos.segBytePos + n then
          ⟨zftape.pos.segPos + 1, 0, zftape.pos.volumePos + n, zftape.pos.tapePos + n⟩
        else ⟨zftape.pos.segPos, zftape.pos.segBytePos + n, zftape.pos.volumePos + n,
          zftape.pos.tapePos + n⟩
      bufLenRd := zftape.bufLenRd - n },
      window zftape.deblockBuffer zftape.pos.segBytePos.toNat n) := by
  simp only [emptyDeblockBuf, hn, Int.toNat_natCast]

/-- A piece of the segment in the deblock buffer is handed out. -/
theorem Reader.emptyDeblockBuf_of_ahead {zftape : Reader α} {segment : ℕ → ℕ → α} {past : ℕ}
    {rest : List α} {reqLen : ℤ} (hahead : zftape.Ahead segment past rest)
    (hbuffer : zftape.bufLenRd ≠ 0) (hreq : 0 < reqLen) (hrest : reqLen ≤ rest.length) :
    ∃ zftape' n, zftape.emptyDeblockBuf reqLen = (zftape', rest.take n) ∧ zftape.Moved zftape' ∧
      0 < n ∧ (n : ℤ) ≤ reqLen ∧ zftape'.Ahead segment past (rest.drop n) ∧
      zftape.pos.segPos ≤ zftape'.pos.segPos ∧ zftape'.UpTo past := by
  obtain ⟨hcached, hread, htape, hbyte, hrest_eq, hheld⟩ := hahead
  obtain ⟨hheld, hsize, hlen, hpos⟩ := hheld.resolve_left fun h => hbuffer h.1
  obtain ⟨offset, hoffset⟩ := Int.eq_ofNat_of_zero_le hbyte
  rw [hoffset, Int.toNat_natCast] at hrest_eq
  have hlt : zftape.pos.segPos < past := by
    apply lt_of_ahead
    rw [← hrest_eq]
    omega
  obtain ⟨n, hn⟩ : ∃ n : ℕ, (if zftape.segSz - zftape.pos.segBytePos < reqLen then
      zftape.segSz - zftape.pos.segBytePos else reqLen) = n := Int.eq_ofNat_of_zero_le (by split <;> omega)
  have hn_pos : 0 < n := by split at hn <;> omega
  have hn_req : (n : ℤ) ≤ reqLen := by split at hn <;> omega
  have hn_size : offset + n ≤ zftape.zftGetSegSz zftape.pos.segPos := by split at hn <;> omega
  have hbytes : window zftape.deblockBuffer offset n = rest.take n := by
    have hblock := hcached _ hheld
    rw [hrest_eq, ahead_take hlt (by rwa [payload_length]), ← hblock, window_drop_take _ _ hn_size,
      Nat.zero_add]
  have hdrop : rest.drop n = ahead (zftape.payload segment) past zftape.pos.segPos (offset + n) := by
    rw [hrest_eq, ahead_drop]
  have hempty := emptyDeblockBuf_eq zftape hn
  rw [hoffset, Int.toNat_natCast, hbytes] at hempty
  refine ⟨_, n, hempty, ⟨_, _, _, _, _, rfl⟩, hn_pos, hn_req, ?_⟩
  by_cases hfull : zftape.segSz ≤ offset + n
  · have hend : offset + n = (zftape.payload segment zftape.pos.segPos).length := by
      rw [payload_length]
      omega
    rw [hend, ahead_of_taken hlt] at hdrop
    simp only [if_pos hfull]
    exact ⟨⟨hcached, fun s hs => hread s (Nat.le_of_succ_le hs), htape, Int.le_refl 0, hdrop,
      Or.inl ⟨by dsimp only; omega, rfl⟩⟩, Nat.le_succ _,
      (Nat.lt_or_eq_of_le hlt).imp id fun heq => ⟨heq, rfl⟩⟩
  · simp only [if_neg hfull]
    exact ⟨⟨hcached, hread, htape, by dsimp only; omega, hdrop,
      Or.inr ⟨hheld, hsize, by dsimp only; omega, by dsimp only; omega⟩⟩, Nat.le_refl _, Or.inl hlt⟩

/-- A used up deblock buffer is filled with the next segment that has something in it; nothing is
handed out by that. -/
theorem Reader.refill_of_ahead (kernel : Kernel α) {zftape : Reader α} {segment : ℕ → ℕ → α}
    {past : ℕ} {rest : List α} (hahead : zftape.Ahead segment past rest) (hrest : 0 < rest.length) :
    ∃ zftape', zftape.refill kernel = (zftape', .ok ()) ∧ zftape.Moved zftape' ∧
      zftape'.Ahead segment past rest ∧ zftape'.bufLenRd ≠ 0 ∧
      zftape.pos.segPos ≤ zftape'.pos.segPos := by
  by_cases hbuffer : zftape.bufLenRd = 0
  · obtain ⟨hcached, hread, htape, -, hrest_eq, hheld⟩ := hahead
    have hbyte : zftape.pos.segBytePos = 0 := by
      cases hheld with
      | inl h => exact h.2
      | inr h => exact absurd hbuffer h.2.2.2.ne'
    rw [hbyte] at hrest_eq
    have hlt : zftape.pos.segPos < past := by
      apply lt_of_ahead
      rw [← hrest_eq]
      exact hrest
    obtain ⟨zftape', hnext, hmoved, hcached', hle, hbyte', hheld', hsize, hahead'⟩ :=
      fetchNext_of_ahead kernel (zftape.segments + 1 - zftape.pos.segPos) hcached hread
        hbyte (by omega) (by rw [hrest_eq] at hrest; exact hrest)
    have hrefill : zftape.refill kernel = ({ zftape' with
        segSz := zftape.zftGetSegSz zftape'.pos.segPos
        bufLenRd := zftape.zftGetSegSz zftape'.pos.segPos - zftape'.pos.segBytePos }, .ok ()) := by
      rw [refill, if_pos hbuffer, hnext]
    obtain ⟨pos, buffer, held, bufLen, segSz, rfl⟩ := hmoved
    dsimp only at hle hbyte' hheld' hsize hahead'
    have hsize' : (0 : ℤ) < zftape.zftGetSegSz pos.segPos - pos.segBytePos := by omega
    refine ⟨_, hrefill, ⟨_, _, _, _, _, rfl⟩, ⟨hcached', fun s hs => hread s (Nat.le_trans hle hs),
      htape, hbyte'.ge, ?_, Or.inr ⟨hheld', rfl, rfl, hsize'⟩⟩, hsize'.ne', hle⟩
    rw [hrest_eq, hbyte']
    exact hahead'.symm
  · exact ⟨zftape, if_neg hbuffer, ⟨_, _, _, _, _, rfl⟩, hahead, hbuffer, Nat.le_refl _⟩

/-- The read loop does nothing for an empty request. -/
theorem Reader.readLoop_of_nonpos (kernel : Kernel α) (rounds : ℕ) (zftape : Reader α) {reqLen : ℤ}
    (hreq : reqLen ≤ 0) : zftape.readLoop kernel rounds reqLen = (zftape, .ok []) := by
  cases rounds with
  | zero => rfl
  | succ rounds => rw [readLoop, if_pos hreq]

/-- The read loop hands out what was asked for, and leaves the rest ahead. It does not go further
than the segment behind the last one it needs. -/
theorem Reader.readLoop_of_ahead (kernel : Kernel α) {segment : ℕ → ℕ → α} {past : ℕ} (rounds : ℕ)
    {zftape : Reader α} {rest : List α} {n : ℕ} (hahead : zftape.Ahead segment past rest)
    (hrounds : n ≤ rounds) (hrest : n ≤ rest.length) :
    ∃ zftape', zftape.readLoop kernel rounds n = (zftape', .ok (rest.take n)) ∧
      zftape.Moved zftape' ∧ zftape'.Ahead segment past (rest.drop n) ∧
      zftape.pos.segPos ≤ zftape'.pos.segPos ∧ (zftape.UpTo past → zftape'.UpTo past) := by
  induction rounds generalizing zftape rest n with
  | zero =>
    obtain rfl : n = 0 := by omega
    exact ⟨zftape, rfl, ⟨_, _, _, _, _, rfl⟩, hahead, Nat.le_refl _, id⟩
  | succ rounds ih =>
    cases Nat.eq_zero_or_pos n with
    | inl hzero =>
      subst hzero
      exact ⟨zftape, rfl, ⟨_, _, _, _, _, rfl⟩, hahead, Nat.le_refl _, id⟩
    | inr hpos =>
      have hreq : ¬(n : ℤ) ≤ 0 := by omega
      obtain ⟨filled, hfill, hmoved, hahead', hbuffer, hle⟩ :=
        refill_of_ahead kernel hahead (by omega)
      obtain ⟨zftape', m, hempty, hmoved', hm, hmn, hahead'', hle', hpast⟩ :=
        emptyDeblockBuf_of_ahead hahead' hbuffer (by omega) (by omega : (n : ℤ) ≤ rest.length)
      have hmrest : (rest.take m).length = m := List.length_take_of_le (by omega)
      have hleft : (n : ℤ) - (rest.take m).length = (n - m : ℕ) := by omega
      obtain ⟨zftape'', hloop, hmoved'', hahead''', hle'', hpast'⟩ := ih (n := n - m) hahead'' (by omega)
        (by rw [List.length_drop]; omega)
      have hsplit : m + (n - m) = n := by omega
      refine ⟨zftape'', ?_, (hmoved.trans hmoved').trans hmoved'', ?_, ?_, fun _ => hpast' hpast⟩
      · rw [readLoop, if_neg hreq]
        simp only [hfill, hempty, hleft, hloop]
        rw [← List.take_add, hsplit]
      · rwa [List.drop_drop, hsplit] at hahead'''
      · exact (hle.trans hle').trans hle''

/-- The last volume of the table is closed. -/
def Reader.Closed (zftape : Reader α) : Prop :=
  zftape.qicMode = true → (zftape.table.volumes.getLast?.any fun last => last.isOpen) = false

/-- In front of the end of the recorded media there is something to read. -/
theorem Reader.zftTapeAtEod_of_lt (zftape : Reader α) (hclosed : zftape.Closed)
    (hlt : zftape.pos.segPos < zftape.mediaEnd) : zftape.zftTapeAtEod = false := by
  unfold zftTapeAtEod mediaEnd at *
  cases hqic : zftape.qicMode with
  | true =>
    rw [hqic, if_pos rfl] at hlt
    simp [hclosed hqic, hlt]
  | false =>
    rw [hqic, if_neg Bool.false_ne_true] at hlt
    simp [Nat.le_of_lt_succ hlt]

/-- Standing in front of the end of file changes the position only. -/
theorem Reader.zftPositionBeforeEof_eq (zftape : Reader α) :
    ∃ pos, zftape.zftPositionBeforeEof = { zftape with pos := pos } := by
  unfold zftPositionBeforeEof
  split
  · exact ⟨_, rfl⟩
  · exact ⟨zftape.pos, rfl⟩

/-- Between two calls: the bytes left of the volume lie ahead. -/
structure Reader.Delivers (zftape : Reader α) (segment : ℕ → ℕ → α) (past blkSz : ℕ) (rest : List α) :
    Prop where
  reading : zftape.ioState = .reading
  eod : zftape.eod = 0
  closed : zftape.Closed
  media : past ≤ zftape.mediaEnd
  block : zftape.volume.blkSz = blkSz
  ahead : 0 < zftape.remaining → zftape.Ahead segment past rest

/-- A request of whole blocks is cut at the end of the volume. -/
theorem Reader.clipRequest_of_dvd (zftape : Reader α) {len : ℕ} (hblock : len % zftape.volume.blkSz = 0) :
    zftape.clipRequest len = ({ zftape with remaining := zftape.remaining - len },
      if zftape.remaining ≤ len then .granted zftape.remaining true else .granted len false) := by
  have hblock' : ¬(len : ℤ) % zftape.volume.blkSz ≠ 0 := by
    rw [not_not, ← Int.natCast_mod, hblock, Int.natCast_zero]
  rw [clipRequest, if_neg hblock']
  by_cases hclip : zftape.remaining ≤ len
  · have hsum : (len : ℤ) + (zftape.remaining - len) = zftape.remaining := by omega
    have hle : zftape.remaining - len ≤ 0 := by omega
    simp only [if_pos hclip, if_pos hle, hsum]
  · have hle : ¬zftape.remaining - len ≤ 0 := by omega
    simp only [if_neg hclip, if_neg hle]

/-- The access check of a device that is reading already. -/
theorem Reader.checkReadAccess_of_reading (zftape : Reader α) (hreading : zftape.ioState = .reading)
    (heod : zftape.eod = 0) (reqLen : ℤ) : zftape.checkReadAccess reqLen =
      if zftape.zftTapeAtEod then ({ zftape with eod := 1 }, .endOfData)
      else zftape.clipRequest reqLen := by
  have hfirst : ¬2 < 0 + 1 := by decide
  rw [checkReadAccess, if_neg (not_not.mpr hreading)]
  simp only [heod, if_neg hfirst]

/-- Behind the end of the volume nothing is handed out. -/
theorem Reader.Delivers.zftRead_past_size {zftape : Reader α}
    {segment : ℕ → ℕ → α} {past blkSz : ℕ} {rest : List α}
    (h : zftape.Delivers segment past blkSz rest) (kernel : Kernel α)
    (hsize : zftape.remaining ≤ 0) {len : ℕ}
    (hblock : len % blkSz = 0) : ∃ zftape', zftape.zftRead kernel len = (zftape', .ok []) := by
  obtain ⟨hreading, heod, -, -, rfl, -⟩ := h
  have haccess := checkReadAccess_of_reading { zftape with resid := (len : ℤ) } hreading heod len
  have hclip := clipRequest_of_dvd { zftape with resid := (len : ℤ) } hblock
  cases hmedia : ({ zftape with resid := (len : ℤ) } : Reader α).zftTapeAtEod with
  | true =>
    rw [hmedia, if_pos rfl] at haccess
    simp only [zftRead, haccess]
    exact ⟨_, rfl⟩
  | false =>
    have hle : zftape.remaining ≤ len := by omega
    rw [hmedia, if_neg Bool.false_ne_true, hclip, if_pos hle] at haccess
    simp only [zftRead, haccess, readLoop_of_nonpos kernel _ _ hsize]
    exact ⟨_, rfl⟩

/-- A call with bytes of the volume left hands out what it asks for, or what is left, and leaves the
rest ahead. -/
theorem Reader.zftRead_of_ahead (kernel : Kernel α) {zftape : Reader α} {segment : ℕ → ℕ → α}
    {past : ℕ} {rest : List α} (hreading : zftape.ioState = .reading) (heod : zftape.eod = 0)
    (hclosed : zftape.Closed) (hmedia : past ≤ zftape.mediaEnd) (hahead : zftape.Ahead segment past rest)
    {len n : ℕ} (hblock : len % zftape.volume.blkSz = 0)
    (hn : (if zftape.remaining ≤ len then zftape.remaining else len) = n)
    (hpos : 0 < n) (hrest : n ≤ rest.length) :
    ∃ moved : Reader α, zftape.zftRead kernel len =
        (if zftape.remaining ≤ len then moved.atEof n else moved, .ok (rest.take n)) ∧
      Reader.Moved { zftape with resid := len, remaining := zftape.remaining - len } moved ∧
      moved.Ahead segment past (rest.drop n) ∧ zftape.pos.segPos ≤ moved.pos.segPos ∧
      moved.UpTo past := by
  have hlt : zftape.pos.segPos < past := by
    apply lt_of_ahead
    rw [← hahead.rest_eq]
    omega
  have hmore := zftTapeAtEod_of_lt { zftape with resid := (len : ℤ) } hclosed
    (Nat.lt_of_lt_of_le hlt hmedia)
  have haccess : Reader.checkReadAccess { zftape with resid := (len : ℤ) } len =
      ({ zftape with resid := len, remaining := zftape.remaining - len },
        .granted n (decide (zftape.remaining ≤ len))) := by
    have hclip := clipRequest_of_dvd { zftape with resid := (len : ℤ) } hblock
    rw [checkReadAccess_of_reading { zftape with resid := (len : ℤ) } hreading heod, hmore,
      if_neg Bool.false_ne_true, hclip, ← hn]
    by_cases hle : zftape.remaining ≤ len
    · simp only [if_pos hle, decide_eq_true hle]
    · simp only [if_neg hle, decide_eq_false hle]
  have hahead' : Reader.Ahead { zftape with resid := (len : ℤ), remaining := zftape.remaining - len }
      segment past rest :=
    ⟨hahead.cached, hahead.readable, hahead.onTape, hahead.byte, hahead.rest_eq, hahead.buffer⟩
  obtain ⟨moved, hloop, hmoved, hahead'', hle, hpast⟩ :=
    readLoop_of_ahead kernel (n + 1) hahead' (Nat.le_succ n) hrest
  have hlength : (rest.take n).length = n := List.length_take_of_le hrest
  refine ⟨moved, ?_, hmoved, hahead'', hle, hpast (Or.inl hlt)⟩
  simp only [zftRead, haccess, Int.toNat_natCast, hloop, hlength, decide_eq_true_eq]

/-- A call hands out what it asks for, or what is left of the volume. -/
theorem Reader.Delivers.zftRead_within {zftape : Reader α}
    {segment : ℕ → ℕ → α} {past blkSz : ℕ} {rest : List α}
    (h : zftape.Delivers segment past blkSz rest) (kernel : Kernel α)
    (hsize : 0 < zftape.remaining) {len n : ℕ}
    (hblock : len % blkSz = 0) (hn : (if zftape.remaining ≤ len then zftape.remaining else len) = n)
    (hpos : 0 < n) (hrest : n ≤ rest.length) :
    ∃ zftape', zftape.zftRead kernel len = (zftape', .ok (rest.take n)) ∧
      zftape'.Delivers segment past blkSz (rest.drop n) ∧
      zftape'.remaining = zftape.remaining - len := by
  obtain ⟨hreading, heod, hclosed, hmedia, rfl, hahead⟩ := h
  obtain ⟨moved, hread, hmoved, hahead', -, -⟩ :=
    zftRead_of_ahead kernel hreading heod hclosed hmedia (hahead hsize) hblock hn hpos hrest
  obtain ⟨pos, buffer, held, bufLen, segSz, rfl⟩ := hmoved
  refine ⟨_, hread, ?_⟩
  by_cases hle : zftape.remaining ≤ len
  · have heof : ¬(zftape.justBeforeEof = true ∧ n = 0) := fun h => hpos.ne' h.2
    simp only [if_pos hle, atEof, if_neg heof]
    obtain ⟨pos', hbefore⟩ := zftPositionBeforeEof_eq { zftape with
      resid := (len : ℤ), remaining := zftape.remaining - len, pos := pos, deblockBuffer := buffer
      deblockSegment := held, bufLenRd := bufLen, segSz := segSz, justBeforeEof := true }
    rw [hbefore]
    refine ⟨⟨hreading, heod, hclosed, hmedia, rfl, ?_⟩, rfl⟩
    intro hleft
    dsimp only at hleft
    omega
  · rw [if_neg hle]
    exact ⟨⟨hreading, heod, hclosed, hmedia, rfl, fun _ => hahead'⟩, rfl⟩

/-- One call of the run: something is handed out, and the run goes on. -/
theorem Reader.readUntilEof_cons {kernel : Kernel α} {zftape zftape' : Reader α} {len : ℕ}
    {lens : List ℕ} {bytes rest : List α} {eof : Bool}
    (hread : zftape.zftRead kernel len = (zftape', .ok bytes)) (hbytes : bytes ≠ [])
    (hrun : zftape'.readUntilEof kernel lens = .ok (rest, eof)) :
    zftape.readUntilEof kernel (len :: lens) = .ok (bytes ++ rest, eof) := by
  cases bytes with
  | nil => exact absurd rfl hbytes
  | cons a bytes => simp only [readUntilEof, hread, hrun]

/-- A run of calls hands out what lies ahead, up to the size of the volume. -/
theorem Reader.Delivers.readUntilEof_of_rest {segment : ℕ → ℕ → α} {past blkSz : ℕ}
    (lens : List ℕ) {zftape : Reader α} {rest : List α}
    (h : zftape.Delivers segment past blkSz rest) (kernel : Kernel α)
    (hlens : ∀ len ∈ lens, 0 < len ∧ len % blkSz = 0)
    (hrest : min zftape.remaining lens.sum ≤ rest.length) :
    ∃ eof, zftape.readUntilEof kernel lens =
        .ok ((rest.take zftape.remaining.toNat).take lens.sum, eof) ∧
      (eof = true → zftape.remaining ≤ lens.sum) := by
  induction lens generalizing zftape rest with
  | nil => exact ⟨false, by simp [readUntilEof], by simp⟩
  | cons len lens ih =>
    obtain ⟨hpos, hblock⟩ := hlens len List.mem_cons_self
    rw [List.sum_cons, Nat.cast_add] at hrest
    rw [List.sum_cons]
    cases lt_or_ge 0 zftape.remaining with
    | inr hsize =>
      obtain ⟨zftape', hread⟩ := h.zftRead_past_size kernel hsize hblock
      refine ⟨true, ?_, fun _ => by omega⟩
      simp only [readUntilEof, hread, Int.toNat_of_nonpos hsize, List.take_zero, List.take_nil]
    | inl hsize =>
      obtain ⟨n, hn⟩ : ∃ n : ℕ, (if zftape.remaining ≤ len then zftape.remaining else len) = n :=
        Int.eq_ofNat_of_zero_le (by split <;> omega)
      have hn_pos : 0 < n := by split at hn <;> omega
      have hn_rest : n ≤ rest.length := by split at hn <;> omega
      obtain ⟨zftape', hread, hnext, hremaining⟩ :=
        h.zftRead_within kernel hsize hblock hn hn_pos hn_rest
      obtain ⟨eof, hrun, heof⟩ := ih hnext (fun l hl => hlens l (List.mem_cons_of_mem _ hl))
        (by rw [hremaining, List.length_drop]; split at hn <;> omega)
      have hbytes : rest.take n ≠ [] := by
        apply List.ne_nil_of_length_pos
        rwa [List.length_take_of_le hn_rest]
      refine ⟨eof, ?_, fun h => by have := heof h; omega⟩
      rw [readUntilEof_cons hread hbytes hrun, List.take_take, List.take_take, ← List.take_add]
      congr 3
      split at hn <;> omega

/-- Fetching a segment moves the reader, whatever comes of it. -/
theorem Reader.zftFetchSegment_moved (kernel : Kernel α) (zftape : Reader α) (segment : ℕ) :
    zftape.Moved (zftape.zftFetchSegment kernel segment).1 := by
  rw [zftFetchSegment]
  split_ifs
  · exact ⟨_, _, _, _, _, rfl⟩
  · dsimp only
    split
    · split_ifs
      · exact ⟨_, _, _, _, _, rfl⟩
      · exact ⟨_, _, _, _, _, rfl⟩
      · exact ⟨_, _, _, _, _, rfl⟩
    · exact ⟨_, _, _, _, _, rfl⟩

/-- Looking for a segment moves the reader. -/
theorem Reader.fetchNext_moved (kernel : Kernel α) (rounds : ℕ) (zftape : Reader α) :
    zftape.Moved (Reader.fetchNext kernel rounds zftape).1 := by
  induction rounds generalizing zftape with
  | zero => exact ⟨_, _, _, _, _, rfl⟩
  | succ rounds ih =>
    have hfetch := zftape.zftFetchSegment_moved kernel zftape.pos.segPos
    rw [fetchNext]
    generalize zftape.zftFetchSegment kernel zftape.pos.segPos = fetched at hfetch
    obtain ⟨fetched, result⟩ := fetched
    dsimp only
    split
    · refine hfetch.trans (Moved.trans ?_ (ih _))
      exact ⟨_, _, _, _, _, rfl⟩
    · exact hfetch

/-- Filling the deblock buffer moves the reader. -/
theorem Reader.refill_moved (kernel : Kernel α) (zftape : Reader α) :
    zftape.Moved (zftape.refill kernel).1 := by
  rw [refill]
  split_ifs
  · have hnext := fetchNext_moved kernel (zftape.segments + 1 - zftape.pos.segPos) zftape
    split
    · rename_i next size heq
      rw [heq] at hnext
      refine hnext.trans ?_
      exact ⟨_, _, _, _, _, rfl⟩
    · rename_i next errno heq
      rw [heq] at hnext
      exact hnext
  · exact ⟨_, _, _, _, _, rfl⟩

/-- The loop of `_zft_read()` moves the reader. -/
theorem Reader.readLoop_moved (kernel : Kernel α) (rounds : ℕ) (zftape : Reader α) (reqLen : ℤ) :
    zftape.Moved (Reader.readLoop kernel rounds zftape reqLen).1 := by
  induction rounds generalizing zftape reqLen with
  | zero => exact ⟨_, _, _, _, _, rfl⟩
  | succ rounds ih =>
    have hfill := zftape.refill_moved kernel
    rw [readLoop]
    split_ifs
    · exact ⟨_, _, _, _, _, rfl⟩
    · split
      · rename_i filled errno heq
        rwa [heq] at hfill
      · rename_i filled heq
        rw [heq] at hfill
        have hempty : filled.Moved (filled.emptyDeblockBuf reqLen).1 := ⟨_, _, _, _, _, rfl⟩
        generalize filled.emptyDeblockBuf reqLen = emptied at hempty
        obtain ⟨emptied, bytes⟩ := emptied
        have hrest := hfill.trans (hempty.trans (ih emptied (reqLen - bytes.length)))
        dsimp only
        split
        · rename_i after rest hafter
          rwa [hafter] at hrest
        · rename_i after errno hafter
          rwa [hafter] at hrest

end Ftape.Zftape
