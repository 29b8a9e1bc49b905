import Ftape.Zftape.ReadVolume

/-!
# The residue of a read

`_zft_read()` reports in `resid` what it has not handed out. It starts from the request and takes off, at
the end, what a variable of the loop holds then, which is the number of bytes of the last round.
-/

namespace Ftape.Zftape

open Ftape.Algebra Ftape.Write

variable {α : Type*}

/-- The loop of `_zft_read()` with its variable `result`: the bytes handed out, and `result` as the loop
leaves it, or the error it stops at. All rounds but the first hand out a byte or more, which bounds them. -/
def Reader.readRounds (kernel : Kernel α) : ℕ → Reader α → ℤ → ℤ → Reader α × List α × Except Errno ℤ
  | 0, zftape, _, result => (zftape, [], .ok result)
  | rounds + 1, zftape, reqLen, result =>
    if reqLen ≤ 0 then (zftape, [], .ok result)
    else
      match zftape.refill kernel with
      | (zftape, .error errno) => (zftape, [], .error errno)
      | (zftape, .ok ()) =>
        let (zftape, bytes) := zftape.emptyDeblockBuf reqLen
        let (zftape, rest, outcome) :=
          Reader.readRounds kernel rounds zftape (reqLen - bytes.length) bytes.length
        (zftape, bytes ++ rest, outcome)

/-- `_zft_read()` with what it does to `resid`. -/
def Reader.zftReadResid (kernel : Kernel α) (zftape : Reader α) (reqLen : ℤ) :
    Reader α × Except Errno (List α) :=
  match Reader.checkReadAccess { zftape with resid := reqLen } reqLen with
  | (zftape, .failed errno) => (zftape, .error errno)
  | (zftape, .endOfData) => (zftape, .ok [])
  | (zftape, .granted reqLen clipped) =>
    match zftape.readRounds kernel (reqLen.toNat + 1) reqLen 0 with
    | (zftape, bytes, .error errno) => ({ zftape with resid := zftape.resid - bytes.length }, .error errno)
    | (zftape, bytes, .ok result) =>
      let zftape := if clipped then zftape.atEof bytes.length else zftape
      ({ zftape with resid := zftape.resid - result }, .ok bytes)

/-- The loop hands out what the loop without `result` does. -/
theorem Reader.readRounds_eq_readLoop (kernel : Kernel α) (rounds : ℕ) (zftape : Reader α)
    (reqLen result : ℤ) :
    zftape.readLoop kernel rounds reqLen = ((zftape.readRounds kernel rounds reqLen result).1,
      (zftape.readRounds kernel rounds reqLen result).2.2.map
        fun _ => (zftape.readRounds kernel rounds reqLen result).2.1) := by
  induction rounds generalizing zftape reqLen result with
  | zero => rfl
  | succ rounds ih =>
    rw [readLoop, readRounds]
    by_cases hreq : reqLen ≤ 0
    · rw [if_pos hreq, if_pos hreq]
      rfl
    · rw [if_neg hreq, if_neg hreq]
      generalize zftape.refill kernel = fill
      obtain ⟨filled, outcome⟩ := fill
      cases outcome with
      | error errno => rfl
      | ok _ =>
        dsimp only
        rw [ih _ _ ((filled.emptyDeblockBuf reqLen).2.length : ℤ)]
        cases (Reader.readRounds kernel rounds (filled.emptyDeblockBuf reqLen).1
          (reqLen - (filled.emptyDeblockBuf reqLen).2.length)
          (filled.emptyDeblockBuf reqLen).2.length).2.2 <;> rfl

/-- Between two calls the deblock buffer is used up, with the position in a segment or at its end, or it
holds the rest of the segment that the position is in. -/
structure Reader.Sound (zftape : Reader α) : Prop where
  byte : 0 ≤ zftape.pos.segBytePos
  buffer : zftape.bufLenRd = 0 ∧ zftape.pos.segBytePos ≤ zftape.zftGetSegSz zftape.pos.segPos ∨
    0 < zftape.pos.segBytePos ∧ 0 < zftape.bufLenRd ∧ zftape.bufLenRd = zftape.segSz - zftape.pos.segBytePos ∧
      zftape.segSz = zftape.zftGetSegSz zftape.pos.segPos

/-- The next bytes on the tape are those of segment `s` from byte `b` on: the rest of the segment that the
position is in or, if nothing is left of it, the next segment with something in it. -/
def Reader.NextPiece (zftape : Reader α) (s : ℕ) (b : ℤ) : Prop :=
  b < zftape.zftGetSegSz s ∧
    (s = zftape.pos.segPos ∧ b = zftape.pos.segBytePos ∨
      zftape.pos.segPos < s ∧ b = 0 ∧ zftape.zftGetSegSz zftape.pos.segPos ≤ zftape.pos.segBytePos ∧
        ∀ t, zftape.pos.segPos < t → t < s → zftape.zftGetSegSz t = 0)

/-- There is one next piece. -/
theorem Reader.NextPiece.unique {zftape : Reader α} {s s' : ℕ} {b b' : ℤ} (h : zftape.NextPiece s b)
    (h' : zftape.NextPiece s' b') : s' = s ∧ b' = b := by
  obtain ⟨hsize, hplace⟩ := h
  obtain ⟨hsize', hplace'⟩ := h'
  rcases hplace with ⟨rfl, rfl⟩ | ⟨hlt, rfl, hdone, hempty⟩
  · rcases hplace' with ⟨rfl, rfl⟩ | ⟨-, -, hdone', -⟩
    · exact ⟨rfl, rfl⟩
    · omega
  · rcases hplace' with ⟨rfl, rfl⟩ | ⟨hlt', rfl, -, hempty'⟩
    · omega
    · refine ⟨?_, rfl⟩
      rcases Nat.lt_trichotomy s s' with hless | heq | hmore
      · have := hempty' s hlt hless
        omega
      · exact heq.symm
      · have := hempty s' hlt' hmore
        omega

/-- The loop does nothing for an empty request. -/
theorem Reader.readRounds_of_nonpos (kernel : Kernel α) (rounds : ℕ) (zftape : Reader α)
    {reqLen result : ℤ} (hreq : reqLen ≤ 0) :
    zftape.readRounds kernel rounds reqLen result = (zftape, [], .ok result) := by
  cases rounds with
  | zero => rfl
  | succ rounds => rw [readRounds, if_pos hreq]

section Rounds

variable {kernel : Kernel α} {zftape zftape' : Reader α}

/-- Fetching a segment leaves the position alone. -/
theorem Reader.zftFetchSegment_pos (kernel : Kernel α) (zftape : Reader α) (s : ℕ) :
    (zftape.zftFetchSegment kernel s).1.pos = zftape.pos := by
  rw [zftFetchSegment]
  split
  · rfl
  · dsimp only
    split
    · split_ifs <;> rfl
    · rfl

/-- Fetching a segment does not make bytes of the deblock buffer pending. -/
theorem Reader.zftFetchSegment_bufLenRd (kernel : Kernel α) (s : ℕ) (hbuffer : zftape.bufLenRd = 0) :
    (zftape.zftFetchSegment kernel s).1.bufLenRd = 0 := by
  rw [zftFetchSegment]
  split
  · exact hbuffer
  · dsimp only
    split
    · split_ifs <;> rfl
    · rfl

/-- A segment that is fetched has its size. -/
theorem Reader.zftFetchSegment_size {s size : ℕ}
    (h : (zftape.zftFetchSegment kernel s).2 = .ok size) : size = zftape.zftGetSegSz s := by
  rw [zftFetchSegment] at h
  split at h
  · exact (Except.ok.inj h).symm
  · dsimp only at h
    split at h
    · split_ifs at h with herror hzero
      · exact (Except.ok.inj h).symm.trans hzero.symm
      · exact (Except.ok.inj h).symm
    · exact (Except.ok.inj h).symm

/-- The sizes of the segments stay as they are. -/
theorem Reader.Moved.zftGetSegSz (h : zftape.Moved zftape') (s : ℕ) :
    zftape'.zftGetSegSz s = zftape.zftGetSegSz s := by
  obtain ⟨_, _, _, _, _, rfl⟩ := h
  rfl

/-- Looking for a segment stops at the first one with something in it, with the place in the segment kept
where it is the one the position is in. -/
theorem Reader.fetchNext_ok {rounds size : ℕ} (h : zftape.fetchNext kernel rounds = (zftape', .ok size)) :
    size = zftape.zftGetSegSz zftape'.pos.segPos ∧ 0 < size ∧
      (zftape'.pos = zftape.pos ∨
        zftape.pos.segPos < zftape'.pos.segPos ∧ zftape'.pos.segBytePos = 0 ∧
          ∀ t, zftape.pos.segPos ≤ t → t < zftape'.pos.segPos → zftape.zftGetSegSz t = 0) := by
  induction rounds generalizing zftape with
  | zero => cases h
  | succ rounds ih =>
    rw [fetchNext] at h
    have hpos := zftFetchSegment_pos kernel zftape zftape.pos.segPos
    have hmoved := zftFetchSegment_moved kernel zftape zftape.pos.segPos
    have hfetched := @zftFetchSegment_size _ kernel zftape zftape.pos.segPos
    generalize zftape.zftFetchSegment kernel zftape.pos.segPos = fetch at h hpos hmoved hfetched
    obtain ⟨fetched, result⟩ := fetch
    dsimp only at h hpos hmoved hfetched
    split at h
    · have hzero := hfetched rfl
      obtain ⟨hsize, hfound, hplace⟩ := ih h
      have hsame : ∀ t, Reader.zftGetSegSz { fetched with
          pos := { fetched.pos with segPos := fetched.pos.segPos + 1, segBytePos := 0 } } t =
            zftape.zftGetSegSz t := hmoved.zftGetSegSz
      have hseg : fetched.pos.segPos = zftape.pos.segPos := by rw [hpos]
      rw [hsame] at hsize
      refine ⟨hsize, hfound, Or.inr ?_⟩
      rcases hplace with hplace | ⟨hlt, hbyte, hempty⟩
      · rw [hplace]
        refine ⟨by dsimp only; omega, rfl, fun t hle hlt => ?_⟩
        obtain rfl : t = zftape.pos.segPos := by dsimp only at hlt; omega
        exact hzero.symm
      · dsimp only at hlt hempty
        refine ⟨by omega, hbyte, fun t hle hlt' => ?_⟩
        rcases Nat.eq_or_lt_of_le hle with rfl | hless
        · exact hzero.symm
        · exact (hsame t).symm.trans (hempty t (by omega) hlt')
    · cases h
      rename_i hzero
      rw [hpos]
      exact ⟨hfetched rfl, Nat.pos_of_ne_zero fun heq => hzero (by rw [heq]), Or.inl rfl⟩

/-- Looking for a segment in vain leaves nothing in the deblock buffer, and the position where it was or
at the start of a segment. -/
theorem Reader.fetchNext_error {rounds : ℕ} {errno : Errno} (hbuffer : zftape.bufLenRd = 0)
    (h : zftape.fetchNext kernel rounds = (zftape', .error errno)) :
    zftape'.bufLenRd = 0 ∧ (zftape'.pos = zftape.pos ∨ zftape'.pos.segBytePos = 0) := by
  induction rounds generalizing zftape with
  | zero =>
    cases h
    exact ⟨hbuffer, Or.inl rfl⟩
  | succ rounds ih =>
    rw [fetchNext] at h
    have hpos := zftFetchSegment_pos kernel zftape zftape.pos.segPos
    have hbuffer' := zftFetchSegment_bufLenRd kernel zftape.pos.segPos hbuffer
    generalize zftape.zftFetchSegment kernel zftape.pos.segPos = fetch at h hpos hbuffer'
    obtain ⟨fetched, result⟩ := fetch
    dsimp only at h hpos hbuffer'
    split at h
    · obtain ⟨hempty, hplace⟩ := @ih { fetched with
        pos := { fetched.pos with segPos := fetched.pos.segPos + 1, segBytePos := 0 } } hbuffer' h
      refine ⟨hempty, Or.inr ?_⟩
      rcases hplace with hplace | hplace
      · rw [hplace]
      · exact hplace
    · cases h
      exact ⟨hbuffer', Or.inl hpos⟩

/-- The deblock buffer holds the segment the position is in, and counts what is left of it. -/
structure Reader.Loaded (zftape : Reader α) : Prop where
  byte : 0 ≤ zftape.pos.segBytePos
  room : zftape.pos.segBytePos ≤ zftape.segSz
  nonempty : 0 < zftape.segSz
  size : zftape.segSz = zftape.zftGetSegSz zftape.pos.segPos
  buffer : zftape.bufLenRd = zftape.segSz - zftape.pos.segBytePos

/-- The position is at the end of a segment with something in it. -/
def Reader.AtEnd (zftape : Reader α) : Prop :=
  0 < zftape.zftGetSegSz zftape.pos.segPos ∧
    zftape.pos.segBytePos = zftape.zftGetSegSz zftape.pos.segPos

/-- Filling the deblock buffer passes over segments without anything in them only. -/
theorem Reader.Sound.refill_ok (h : zftape.Sound) (hfill : zftape.refill kernel = (zftape', .ok ())) :
    zftape'.Loaded ∧ (zftape'.pos = zftape.pos ∨
      zftape.pos.segPos < zftape'.pos.segPos ∧ zftape'.pos.segBytePos = 0 ∧
        ∀ t, zftape.pos.segPos ≤ t → t < zftape'.pos.segPos → zftape.zftGetSegSz t = 0) := by
  rw [refill] at hfill
  split_ifs at hfill with hbuffer
  · split at hfill
    next found size hnext =>
      cases hfill
      obtain ⟨hsize, hpos, hplace⟩ := fetchNext_ok hnext
      have hmoved := fetchNext_moved kernel (zftape.segments + 1 - zftape.pos.segPos) zftape
      rw [hnext] at hmoved
      have hbyte := h.byte
      refine ⟨⟨?_, ?_, by dsimp only; omega, ?_, rfl⟩, hplace⟩
      · rcases hplace with hplace | hplace
        · rwa [hplace]
        · exact hplace.2.1.ge
      · dsimp only
        rcases hplace with hplace | hplace
        · have hroom := h.buffer
          rw [hsize, hplace]
          omega
        · omega
      · exact congrArg _ (hsize.trans (hmoved.zftGetSegSz _).symm)
    · cases hfill
  · cases hfill
    have hbuffer' := h.buffer.resolve_left fun h => hbuffer h.1
    exact ⟨⟨h.byte, by omega, by omega, hbuffer'.2.2.2, hbuffer'.2.2.1⟩, Or.inl rfl⟩

/-- A segment that cannot be read leaves the reader sound. -/
theorem Reader.Sound.refill_error {errno : Errno} (h : zftape.Sound)
    (hfill : zftape.refill kernel = (zftape', .error errno)) : zftape'.Sound := by
  rw [refill] at hfill
  split_ifs at hfill with hbuffer
  · split at hfill
    · cases hfill
    next found errno' hnext =>
      cases hfill
      obtain ⟨hempty, hplace⟩ := fetchNext_error hbuffer hnext
      have hmoved := fetchNext_moved kernel (zftape.segments + 1 - zftape.pos.segPos) zftape
      rw [hnext] at hmoved
      rcases hplace with hplace | hplace
      · refine ⟨by rw [hplace]; exact h.byte, Or.inl ⟨hempty, ?_⟩⟩
        have hroom := h.buffer
        rw [hmoved.zftGetSegSz, hplace]
        omega
      · exact ⟨hplace.ge, Or.inl ⟨hempty, by omega⟩⟩
  · cases hfill

/-- Emptying the deblock buffer hands out what is asked for, or what is left of the segment; then the
position is at the start of the next segment. -/
theorem Reader.Loaded.emptyDeblockBuf {reqLen : ℤ} (h : zftape.Loaded) (hreq : 0 < reqLen) :
    (zftape.emptyDeblockBuf reqLen).1.Sound ∧ ¬(zftape.emptyDeblockBuf reqLen).1.AtEnd ∧
      ((zftape.emptyDeblockBuf reqLen).2.length : ℤ) = min reqLen zftape.bufLenRd ∧
      (zftape.bufLenRd < reqLen → (zftape.emptyDeblockBuf reqLen).1.pos.segPos = zftape.pos.segPos + 1 ∧
        (zftape.emptyDeblockBuf reqLen).1.pos.segBytePos = 0) := by
  obtain ⟨hbyte, hroom, hnonempty, hsize, hbuffer⟩ := h
  obtain ⟨n, hn⟩ : ∃ n : ℕ, (if zftape.segSz - zftape.pos.segBytePos < reqLen then
      zftape.segSz - zftape.pos.segBytePos else reqLen) = n := Int.eq_ofNat_of_zero_le (by split <;> omega)
  have hmin : (n : ℤ) = min reqLen zftape.bufLenRd := by split at hn <;> omega
  rw [emptyDeblockBuf_eq zftape hn]
  dsimp only
  rw [window_length]
  by_cases hfull : zftape.segSz ≤ zftape.pos.segBytePos + n
  · rw [if_pos hfull]
    refine ⟨⟨Int.le_refl 0, Or.inl ⟨by dsimp only; omega, ?_⟩⟩, ?_, hmin, fun _ => ⟨rfl, rfl⟩⟩
    · exact Int.natCast_nonneg _
    · rintro ⟨hpos, hend⟩
      dsimp only at hpos hend
      omega
  · rw [if_neg hfull]
    refine ⟨⟨by dsimp only; omega, Or.inr ⟨by dsimp only; omega, by dsimp only; omega, by dsimp only; omega,
      hsize⟩⟩, ?_, hmin, by omega⟩
    rintro ⟨hpos, hend⟩
    change zftape.pos.segBytePos + n = (zftape.zftGetSegSz zftape.pos.segPos : ℤ) at hend
    omega

/-- A round that hands something out takes it from the next piece. -/
theorem Reader.Sound.nextPiece (h : zftape.Sound) (hfill : zftape.refill kernel = (zftape', .ok ()))
    (hleft : 0 < zftape'.bufLenRd) : zftape.NextPiece zftape'.pos.segPos zftape'.pos.segBytePos ∧
      zftape'.bufLenRd = zftape.zftGetSegSz zftape'.pos.segPos - zftape'.pos.segBytePos := by
  obtain ⟨hloaded, hplace⟩ := h.refill_ok hfill
  have hmoved := refill_moved kernel zftape
  rw [hfill] at hmoved
  have hsize := hloaded.size
  rw [hmoved.zftGetSegSz] at hsize
  have hbuffer := hloaded.buffer
  refine ⟨⟨by omega, ?_⟩, by omega⟩
  rcases hplace with hplace | ⟨hlt, hbyte, hempty⟩
  · exact Or.inl ⟨by rw [hplace], by rw [hplace]⟩
  · have hnone := hempty _ (Nat.le_refl _) hlt
    have hstart := h.byte
    exact Or.inr ⟨hlt, hbyte, by omega, fun t hless => hempty t (Nat.le_of_lt hless)⟩

/-- A round that hands nothing out steps over the end of the segment, to the same next piece. -/
theorem Reader.Sound.atEnd {reqLen : ℤ} (h : zftape.Sound) (hreq : 0 < reqLen)
    (hfill : zftape.refill kernel = (zftape', .ok ())) (hleft : zftape'.bufLenRd = 0) :
    zftape.AtEnd ∧ ∀ s b, (zftape'.emptyDeblockBuf reqLen).1.NextPiece s b ↔ zftape.NextPiece s b := by
  obtain ⟨hloaded, hplace⟩ := h.refill_ok hfill
  obtain ⟨-, -, -, hnext⟩ := hloaded.emptyDeblockBuf hreq
  obtain ⟨hseg, hbyte⟩ := hnext (by omega)
  have hmoved := refill_moved kernel zftape
  rw [hfill] at hmoved
  have hsz := (hmoved.trans ⟨_, _, _, _, _, rfl⟩ : zftape.Moved (zftape'.emptyDeblockBuf reqLen).1).zftGetSegSz
  have hsize := hloaded.size
  rw [hmoved.zftGetSegSz] at hsize
  have hbuffer := hloaded.buffer
  have hnonempty := hloaded.nonempty
  have hpos : zftape'.pos = zftape.pos := hplace.resolve_right fun h => by omega
  rw [hpos] at hseg hsize hbuffer
  refine ⟨⟨by omega, by omega⟩, fun s b => ?_⟩
  simp only [NextPiece, hsz, hseg, hbyte]
  constructor
  · rintro ⟨hroom, ⟨rfl, rfl⟩ | ⟨hlt, rfl, hend, hempty⟩⟩
    · exact ⟨hroom, Or.inr ⟨Nat.lt_succ_self _, rfl, by omega, fun t hless hmore => by omega⟩⟩
    · refine ⟨hroom, Or.inr ⟨by omega, rfl, by omega, fun t hless hmore => ?_⟩⟩
      obtain rfl | hless : t = zftape.pos.segPos + 1 ∨ zftape.pos.segPos + 1 < t := by omega
      · omega
      · exact hempty t hless hmore
  · rintro ⟨hroom, ⟨rfl, rfl⟩ | ⟨hlt, rfl, -, hempty⟩⟩
    · omega
    · refine ⟨hroom, ?_⟩
      obtain rfl | hless : s = zftape.pos.segPos + 1 ∨ zftape.pos.segPos + 1 < s := by omega
      · exact Or.inl ⟨rfl, rfl⟩
      · refine Or.inr ⟨hless, rfl, ?_, fun t hmore hlt' => hempty t (by omega) hlt'⟩
        rw [hempty _ (Nat.lt_succ_self _) hless]
        rfl

/-- A loop that comes to its end leaves the whole request in `result` if the next piece covers it, and less
otherwise. -/
theorem Reader.Sound.readRounds_ok {rounds : ℕ} {reqLen before result : ℤ} {bytes : List α}
    (h : zftape.Sound) (hreq : 0 < reqLen) (hrounds : reqLen ≤ rounds) (hend : zftape.AtEnd → reqLen < rounds)
    (hloop : zftape.readRounds kernel rounds reqLen before = (zftape', bytes, .ok result)) :
    (bytes.length : ℤ) = reqLen ∧ result ≤ reqLen ∧
      (result = reqLen ↔ ∃ s b, zftape.NextPiece s b ∧ reqLen ≤ zftape.zftGetSegSz s - b) := by
  induction rounds generalizing zftape reqLen before bytes with
  | zero => omega
  | succ rounds ih =>
    rw [readRounds, if_neg (by omega)] at hloop
    split at hloop
    · cases hloop
    next filled hfill =>
      dsimp only at hloop
      obtain ⟨hloaded, -⟩ := h.refill_ok hfill
      obtain ⟨hsound, hstart, hlength, hover⟩ := hloaded.emptyDeblockBuf hreq
      have hmoved := refill_moved kernel zftape
      rw [hfill] at hmoved
      have hsz := (hmoved.trans ⟨_, _, _, _, _, rfl⟩ :
        zftape.Moved (filled.emptyDeblockBuf reqLen).1).zftGetSegSz
      have hroom := hloaded.room
      have hbuffer := hloaded.buffer
      generalize hrest : (filled.emptyDeblockBuf reqLen).1.readRounds kernel rounds
        (reqLen - (filled.emptyDeblockBuf reqLen).2.length) (filled.emptyDeblockBuf reqLen).2.length =
          rest at hloop
      obtain ⟨last, more, outcome⟩ := rest
      dsimp only at hloop
      cases hloop
      rw [List.length_append, Nat.cast_add]
      by_cases hleft : filled.bufLenRd = 0
      · -- the position was at the end of a segment: the first round hands nothing out
        obtain ⟨hatEnd, hnext⟩ := h.atEnd hreq hfill hleft
        have hnone : ((filled.emptyDeblockBuf reqLen).2.length : ℤ) = 0 := by omega
        have hfuel := hend hatEnd
        rw [hnone, Int.sub_zero] at hrest
        obtain ⟨htotal, hle, hiff⟩ := ih hsound hreq (by omega) (fun h => absurd h hstart) hrest
        rw [hnone, Int.zero_add]
        refine ⟨htotal, hle, hiff.trans ?_⟩
        simp only [hnext, hsz]
      · obtain ⟨hpiece, hpieceLen⟩ := h.nextPiece hfill (by omega)
        by_cases hcover : reqLen ≤ filled.bufLenRd
        · -- the next piece covers the request: there is one round
          have hall : ((filled.emptyDeblockBuf reqLen).2.length : ℤ) = reqLen := by omega
          rw [hall, Int.sub_self, readRounds_of_nonpos kernel _ _ (Int.le_refl 0)] at hrest
          cases hrest
          refine ⟨?_, Int.le_refl _, fun _ => ⟨_, _, hpiece, by omega⟩, fun _ => rfl⟩
          rw [hall, List.length_nil]
          exact Int.add_zero _
        · -- the next piece is used up, and the rest of the request is less than the request
          obtain ⟨htotal, hle, -⟩ := ih hsound (by omega) (by omega) (fun h => absurd h hstart) hrest
          refine ⟨by omega, by omega, ?_, ?_⟩
          · intro heq
            omega
          · rintro ⟨s, b, hother, hlen⟩
            obtain ⟨rfl, rfl⟩ := hpiece.unique hother
            omega

/-- The loop leaves the reader sound, whatever comes of it. -/
theorem Reader.Sound.readRounds (h : zftape.Sound) (kernel : Kernel α) (rounds : ℕ) (reqLen result : ℤ) :
    (zftape.readRounds kernel rounds reqLen result).1.Sound := by
  induction rounds generalizing zftape reqLen result with
  | zero => exact h
  | succ rounds ih =>
    rw [Reader.readRounds]
    split_ifs with hreq
    · exact h
    · split
      · rename_i failed errno hfill
        exact h.refill_error hfill
      · rename_i filled hfill
        exact ih ((h.refill_ok hfill).1.emptyDeblockBuf (by omega)).1 _ _

/-- Dropping what is left in the deblock buffer leaves the reader sound. -/
theorem Reader.Sound.drop (h : zftape.Sound) : Reader.Sound { zftape with bufLenRd := 0 } := by
  refine ⟨h.byte, Or.inl ⟨rfl, ?_⟩⟩
  change zftape.pos.segBytePos ≤ (zftape.zftGetSegSz zftape.pos.segPos : ℤ)
  have hroom := h.buffer
  omega

/-- The reader is sound by its position, its deblock buffer and the sizes of the segments. -/
theorem Reader.Sound.congr (h : zftape.Sound) (hpos : zftape'.pos = zftape.pos)
    (hlen : zftape'.bufLenRd = zftape.bufLenRd) (hsegSz : zftape'.segSz = zftape.segSz)
    (hsize : ∀ s, zftape'.zftGetSegSz s = zftape.zftGetSegSz s) : zftape'.Sound := by
  obtain ⟨hbyte, hbuffer⟩ := h
  refine ⟨by rwa [hpos], ?_⟩
  rwa [hpos, hlen, hsegSz, hsize]

end Rounds

section Call

variable {zftape zftape' : Reader α}

/-- The bytes left up to the file mark of the volume that a call reads. -/
def Reader.leftInVolume (zftape : Reader α) : ℤ :=
  if zftape.ioState = .reading then zftape.remaining
  else (zftape.zftVolumeBySegpos zftape.pos.segPos).2.size - zftape.pos.volumePos

/-- A call comes to the end of the recorded media or to a file mark at once, or the next bytes on the tape
that one segment holds cover the request as the file mark clips it. -/
def Reader.OnePiece (zftape : Reader α) (reqLen : ℤ) : Prop :=
  zftape.zftTapeAtEod = true ∨ min reqLen zftape.leftInVolume ≤ 0 ∨
    ∃ s b, zftape.NextPiece s b ∧ min reqLen zftape.leftInVolume ≤ zftape.zftGetSegSz s - b

/-- What `check_read_access()` keeps of a reader. -/
structure Reader.Accessed (zftape zftape' : Reader α) : Prop where
  sound : zftape.Sound → zftape'.Sound
  piece : ∀ s b, zftape'.NextPiece s b ↔ zftape.NextPiece s b
  size : ∀ s, zftape'.zftGetSegSz s = zftape.zftGetSegSz s
  resid : zftape'.resid = zftape.resid

/-- Clipping a request leaves it at what is asked for, or at what is left. -/
theorem Reader.clipRequest_accessed (zftape : Reader α) (reqLen : ℤ) :
    zftape.Accessed (zftape.clipRequest reqLen).1 ∧
      ((zftape.clipRequest reqLen).2 = .failed .einval ∨
        ∃ clipped, (zftape.clipRequest reqLen).2 = .granted (min reqLen zftape.remaining) clipped) := by
  rw [clipRequest]
  split_ifs with hblock
  · exact ⟨⟨id, fun _ _ => Iff.rfl, fun _ => rfl, rfl⟩, Or.inl rfl⟩
  · dsimp only
    split_ifs with hleft
    · have hmin : min reqLen zftape.remaining = reqLen + (zftape.remaining - reqLen) := by omega
      rw [hmin]
      exact ⟨⟨fun h => h.congr rfl rfl rfl fun _ => rfl, fun _ _ => Iff.rfl, fun _ => rfl, rfl⟩,
        Or.inr ⟨true, rfl⟩⟩
    · have hmin : min reqLen zftape.remaining = reqLen := by omega
      rw [hmin]
      exact ⟨⟨fun h => h.congr rfl rfl rfl fun _ => rfl, fun _ _ => Iff.rfl, fun _ => rfl, rfl⟩,
        Or.inr ⟨false, rfl⟩⟩

/-- One after the other. -/
theorem Reader.Accessed.trans {zftape'' : Reader α} (h : zftape.Accessed zftape')
    (h' : zftape'.Accessed zftape'') : zftape.Accessed zftape'' where
  sound := fun hsound => h'.sound (h.sound hsound)
  piece := fun s b => (h'.piece s b).trans (h.piece s b)
  size := fun s => (h'.size s).trans (h.size s)
  resid := h'.resid.trans h.resid

/-- Granting a request keeps the reader, and grants what is left up to the file mark at most. -/
theorem Reader.checkReadAccess_accessed (zftape : Reader α) (reqLen : ℤ) :
    zftape.Accessed (zftape.checkReadAccess reqLen).1 ∧
      ((∃ errno, (zftape.checkReadAccess reqLen).2 = .failed errno) ∨
        zftape.zftTapeAtEod = true ∧ (zftape.checkReadAccess reqLen).2 = .endOfData ∨
        zftape.zftTapeAtEod = false ∧ ∃ clipped, (zftape.checkReadAccess reqLen).2 =
          .granted (min reqLen zftape.leftInVolume) clipped) := by
  rw [checkReadAccess]
  by_cases hreading : zftape.ioState = .reading
  · rw [if_neg (not_not.mpr hreading), leftInVolume, if_pos hreading]
    by_cases heod : zftape.zftTapeAtEod = true
    · rw [if_pos heod]
      dsimp only
      split_ifs
      · exact ⟨⟨fun h => h.congr rfl rfl rfl fun _ => rfl, fun _ _ => Iff.rfl, fun _ => rfl, rfl⟩,
          Or.inl ⟨_, rfl⟩⟩
      · exact ⟨⟨fun h => h.congr rfl rfl rfl fun _ => rfl, fun _ _ => Iff.rfl, fun _ => rfl, rfl⟩,
          Or.inr (Or.inl ⟨heod, rfl⟩)⟩
    · rw [if_neg heod]
      obtain ⟨haccessed, houtcome⟩ := zftape.clipRequest_accessed reqLen
      refine ⟨haccessed, ?_⟩
      rcases houtcome with houtcome | houtcome
      · exact Or.inl ⟨_, houtcome⟩
      · exact Or.inr (Or.inr ⟨Bool.eq_false_iff.mpr heod, houtcome⟩)
  · rw [if_pos hreading, leftInVolume, if_neg hreading]
    split_ifs with honline hformatted
    · exact ⟨⟨id, fun _ _ => Iff.rfl, fun _ => rfl, rfl⟩, Or.inl ⟨_, rfl⟩⟩
    · exact ⟨⟨id, fun _ _ => Iff.rfl, fun _ => rfl, rfl⟩, Or.inl ⟨_, rfl⟩⟩
    · dsimp only
      have hsame : Reader.zftTapeAtEod { zftape with bufLenRd := 0, ioState := IoState.reading } =
        zftape.zftTapeAtEod := rfl
      rw [hsame]
      by_cases heod : zftape.zftTapeAtEod = true
      · rw [if_pos heod]
        exact ⟨⟨fun h => h.drop.congr rfl rfl rfl fun _ => rfl, fun _ _ => Iff.rfl, fun _ => rfl, rfl⟩,
          Or.inr (Or.inl ⟨heod, rfl⟩)⟩
      · rw [if_neg heod]
        have hfound : Reader.zftVolumeBySegpos { zftape with bufLenRd := 0, ioState := IoState.reading } =
          zftape.zftVolumeBySegpos := rfl
        rw [hfound]
        obtain ⟨hclipped, houtcome⟩ := clipRequest_accessed { zftape with
          bufLenRd := 0, ioState := IoState.reading, eod := 0
          curVtbl := (zftape.zftVolumeBySegpos zftape.pos.segPos).1
          volume := (zftape.zftVolumeBySegpos zftape.pos.segPos).2
          remaining := (zftape.zftVolumeBySegpos zftape.pos.segPos).2.size - zftape.pos.volumePos } reqLen
        refine ⟨Accessed.trans ?_ hclipped, ?_⟩
        · exact ⟨fun h => h.drop.congr rfl rfl rfl fun _ => rfl, fun _ _ => Iff.rfl, fun _ => rfl, rfl⟩
        · rcases houtcome with houtcome | houtcome
          · exact Or.inl ⟨_, houtcome⟩
          · exact Or.inr (Or.inr ⟨Bool.eq_false_iff.mpr heod, houtcome⟩)

/-- What a call does at the end of a file leaves the reader sound, and `resid` alone. -/
theorem Reader.Sound.atEof (h : zftape.Sound) (bytesRead : ℕ) :
    (zftape.atEof bytesRead).Sound ∧ (zftape.atEof bytesRead).resid = zftape.resid := by
  rw [Reader.atEof]
  split_ifs
  · exact ⟨⟨Int.le_refl 0, Or.inl ⟨rfl, Int.natCast_nonneg _⟩⟩, rfl⟩
  · rw [zftPositionBeforeEof]
    split_ifs with hstart
    · obtain ⟨-, hbyte⟩ := hstart
      dsimp only at hbyte
      refine ⟨⟨Int.natCast_nonneg _, Or.inl ⟨?_, Int.le_refl _⟩⟩, rfl⟩
      have hbuffer := h.buffer
      dsimp only
      omega
    · exact ⟨h.congr rfl rfl rfl fun _ => rfl, rfl⟩

/-- A call hands out what it does without its accounts. -/
theorem Reader.zftReadResid_eq_zftRead (kernel : Kernel α) (zftape : Reader α) (reqLen : ℤ) :
    (zftape.zftReadResid kernel reqLen).2 = (zftape.zftRead kernel reqLen).2 := by
  rw [zftReadResid, zftRead]
  generalize Reader.checkReadAccess { zftape with resid := reqLen } reqLen = access
  obtain ⟨granted, outcome⟩ := access
  cases outcome with
  | failed errno => rfl
  | endOfData => rfl
  | granted req clipped =>
    dsimp only
    rw [readRounds_eq_readLoop kernel _ granted req 0]
    generalize granted.readRounds kernel (req.toNat + 1) req 0 = rounds
    obtain ⟨last, bytes, result⟩ := rounds
    cases result <;> rfl

/-- A call leaves the reader sound, whatever comes of it. -/
theorem Reader.Sound.zftReadResid (h : zftape.Sound) (kernel : Kernel α) (reqLen : ℤ) :
    (zftape.zftReadResid kernel reqLen).1.Sound := by
  have hresid : Reader.Sound { zftape with resid := reqLen } := h.congr rfl rfl rfl fun _ => rfl
  have haccess := (checkReadAccess_accessed { zftape with resid := reqLen } reqLen).1.sound hresid
  rw [Reader.zftReadResid]
  split
  · rename_i failed errno heq
    rwa [heq] at haccess
  · rename_i ended heq
    rwa [heq] at haccess
  · rename_i granted req clipped heq
    rw [heq] at haccess
    have hrounds := haccess.readRounds kernel (req.toNat + 1) req 0
    split
    · rename_i last bytes errno hlast
      rw [hlast] at hrounds
      exact hrounds.congr rfl rfl rfl fun _ => rfl
    · rename_i last bytes result hlast
      rw [hlast] at hrounds
      dsimp only
      split_ifs
      · exact (hrounds.atEof _).1.congr rfl rfl rfl fun _ => rfl
      · exact hrounds.congr rfl rfl rfl fun _ => rfl

/-- The loop leaves `resid` alone. -/
theorem Reader.readRounds_resid (kernel : Kernel α) (zftape : Reader α) (rounds : ℕ) (reqLen result : ℤ) :
    (zftape.readRounds kernel rounds reqLen result).1.resid = zftape.resid := by
  have hmoved := readLoop_moved kernel rounds zftape reqLen
  rw [readRounds_eq_readLoop kernel rounds zftape reqLen result] at hmoved
  obtain ⟨_, _, _, _, _, hmoved⟩ := hmoved
  rw [show (zftape.readRounds kernel rounds reqLen result).1 = _ from hmoved]

/-- After a call that does not fail, `resid` is what was asked for less what was handed out if and only if
one segment serves the call. -/
theorem Reader.Sound.resid_iff {kernel : Kernel α} {reqLen : ℤ} {bytes : List α} (h : zftape.Sound)
    (hread : zftape.zftReadResid kernel reqLen = (zftape', .ok bytes)) :
    zftape'.resid = reqLen - bytes.length ↔ zftape.OnePiece reqLen := by
  have hresid : Reader.Sound { zftape with resid := reqLen } := h.congr rfl rfl rfl fun _ => rfl
  obtain ⟨haccessed, houtcome⟩ := checkReadAccess_accessed { zftape with resid := reqLen } reqLen
  have hleft : Reader.leftInVolume { zftape with resid := reqLen } = zftape.leftInVolume := rfl
  have hmore : Reader.zftTapeAtEod { zftape with resid := reqLen } = zftape.zftTapeAtEod := rfl
  have hpiece : ∀ s b, Reader.NextPiece { zftape with resid := reqLen } s b ↔ zftape.NextPiece s b :=
    fun _ _ => Iff.rfl
  rw [hleft, hmore] at houtcome
  rw [Reader.zftReadResid] at hread
  generalize Reader.checkReadAccess { zftape with resid := reqLen } reqLen = access at *
  obtain ⟨granted, outcome⟩ := access
  dsimp only at haccessed houtcome hread
  rcases houtcome with ⟨errno, rfl⟩ | ⟨heod, rfl⟩ | ⟨heod, clipped, rfl⟩
  · cases hread
  · cases hread
    rw [haccessed.resid]
    simp [OnePiece, heod]
  · dsimp only at hread
    generalize hrounds : granted.readRounds kernel ((min reqLen zftape.leftInVolume).toNat + 1)
      (min reqLen zftape.leftInVolume) 0 = rounds at hread
    obtain ⟨last, handed, result⟩ := rounds
    have hkept := readRounds_resid kernel granted ((min reqLen zftape.leftInVolume).toNat + 1)
      (min reqLen zftape.leftInVolume) 0
    have hsound := (haccessed.sound hresid).readRounds kernel
      ((min reqLen zftape.leftInVolume).toNat + 1) (min reqLen zftape.leftInVolume) 0
    rw [hrounds] at hkept hsound
    dsimp only at hkept hsound hread
    cases result with
    | error errno => cases hread
    | ok result =>
      dsimp only at hread
      have hbytes : handed = bytes ∧ zftape'.resid = reqLen - result := by
        cases hread
        refine ⟨rfl, ?_⟩
        dsimp only
        split_ifs
        · rw [(hsound.atEof _).2, hkept, haccessed.resid]
        · rw [hkept, haccessed.resid]
      obtain ⟨rfl, hlast⟩ := hbytes
      rw [hlast]
      by_cases hempty : min reqLen zftape.leftInVolume ≤ 0
      · rw [readRounds_of_nonpos kernel _ _ hempty] at hrounds
        cases hrounds
        exact iff_of_true rfl (Or.inr (Or.inl hempty))
      · obtain ⟨htotal, -, hiff⟩ := (haccessed.sound hresid).readRounds_ok (by omega)
          (by omega) (fun _ => by omega) hrounds
        rw [htotal, sub_right_inj, hiff, OnePiece]
        simp only [heod, hempty, haccessed.piece, haccessed.size, hpiece, Bool.false_eq_true, false_or]
        rfl

end Call

/-- The sample at the start of its volume is sound. -/
theorem sampleReader_sound (size : ℤ) : (sampleReader size).Sound :=
  ⟨Int.le_refl 0, Or.inl ⟨rfl, Int.natCast_nonneg _⟩⟩

/-- A call for one segment of the two. -/
theorem Reader.Sound.resid_one_segment :
    ∃ zftape' bytes, (sampleReader 2048).zftReadResid sampleKernel 1024 = (zftape', .ok bytes) ∧
      (zftape'.resid = 1024 - (bytes.length : ℤ) ↔ (sampleReader 2048).OnePiece 1024) := by
  cases houtcome : ((sampleReader 2048).zftReadResid sampleKernel 1024).2 with
  | error errno =>
    have hok : ((sampleReader 2048).zftReadResid sampleKernel 1024).2.toBool = true := by decide +kernel
    rw [houtcome] at hok
    cases hok
  | ok bytes =>
    have hread : (sampleReader 2048).zftReadResid sampleKernel 1024 = (_, .ok bytes) :=
      Prod.ext rfl houtcome
    exact ⟨_, bytes, hread, Reader.Sound.resid_iff (sampleReader_sound 2048) hread⟩

/-- A call for both segments hands out all of them, and leaves the first one in `resid`. -/
theorem Reader.resid_two_segments :
    ¬∀ (zftape zftape' : Reader Byte) (reqLen : ℤ) (bytes : List Byte), zftape.Sound →
      zftape.zftReadResid sampleKernel reqLen = (zftape', .ok bytes) →
      zftape'.resid = reqLen - bytes.length := by
  intro hall
  have hrun : ((sampleReader 2048).zftReadResid sampleKernel 2048).2.toOption.map List.length = some 2048 := by
    decide +kernel
  have hresid : ((sampleReader 2048).zftReadResid sampleKernel 2048).1.resid = 1024 := by decide +kernel
  generalize hread : (sampleReader 2048).zftReadResid sampleKernel 2048 = read at hrun hresid
  obtain ⟨zftape', outcome⟩ := read
  cases outcome with
  | error errno => cases hrun
  | ok bytes =>
    have hlength : bytes.length = 2048 := Option.some.inj hrun
    have hclaim := hall _ _ _ _ (sampleReader_sound 2048) hread
    dsimp only at hresid
    omega

end Ftape.Zftape
