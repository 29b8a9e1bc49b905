import Ftape.Zftape.Residue

/-!
# Reading stays on the tape

A tape ends with its last data segment: nothing behind it can be read. Then the position of a reader never gets
further than behind that segment, whatever sizes the volumes claim.
-/

namespace Ftape.Zftape

open Ftape.Algebra Ftape.Write

variable {α : Type*} {kernel : Kernel α} {zftape zftape' : Reader α}

/-- The tape ends with its last data segment. -/
structure Reader.Ends (zftape : Reader α) : Prop where
  data : zftape.firstDataSegment ≤ zftape.lastDataSegment + 1
  media : zftape.mediaEnd ≤ zftape.lastDataSegment + 1
  unreadable : ∀ s, zftape.lastDataSegment < s → ∃ errno, zftape.readSegment s = .error errno

/-- The position and the segment in the deblock buffer are on the tape. -/
structure Reader.Inside (zftape : Reader α) : Prop where
  segPos : zftape.pos.segPos ≤ zftape.lastDataSegment + 1
  held : ∀ s, zftape.deblockSegment = some s → s ≤ zftape.lastDataSegment

/-- Between two calls the position is on the tape, and in a segment as long as bytes of it are left to hand out. -/
structure Reader.OnTape (zftape : Reader α) : Prop where
  sound : zftape.Sound
  inside : zftape.Inside
  pending : zftape.bufLenRd ≠ 0 → zftape.pos.segPos ≤ zftape.lastDataSegment

/-- Whether a reader is on the tape is told by its position, its deblock buffer and the sizes of the segments. -/
theorem Reader.OnTape.congr (h : zftape.OnTape) (hpos : zftape'.pos = zftape.pos)
    (hlen : zftape'.bufLenRd = zftape.bufLenRd) (hsegSz : zftape'.segSz = zftape.segSz)
    (hheld : zftape'.deblockSegment = zftape.deblockSegment)
    (hlast : zftape'.lastDataSegment = zftape.lastDataSegment)
    (hsize : ∀ s, zftape'.zftGetSegSz s = zftape.zftGetSegSz s) : zftape'.OnTape := by
  obtain ⟨hsound, ⟨hsegPos, hwithin⟩, hpending⟩ := h
  refine ⟨hsound.congr hpos hlen hsegSz hsize, ⟨?_, ?_⟩, ?_⟩
  · rwa [hpos, hlast]
  · rwa [hheld, hlast]
  · rwa [hlen, hpos, hlast]

/-- Reading leaves the end of the tape where it is. -/
theorem Reader.Ends.moved (h : zftape.Ends) (hmoved : zftape.Moved zftape') : zftape'.Ends := by
  obtain ⟨_, _, _, _, _, rfl⟩ := hmoved
  exact ⟨h.data, h.media, h.unreadable⟩

/-- A segment that is fetched is on the tape. -/
theorem Reader.Inside.zftFetchSegment (h : zftape.Inside) (hends : zftape.Ends) (s : ℕ) :
    (zftape.zftFetchSegment kernel s).1.Inside ∧
      ∀ size, (zftape.zftFetchSegment kernel s).2 = .ok size → s ≤ zftape.lastDataSegment := by
  have hnone : ∀ {fetched : Reader α}, fetched.pos = zftape.pos → fetched.lastDataSegment = zftape.lastDataSegment →
      fetched.deblockSegment = none → fetched.Inside := by
    intro fetched hpos hlast hheld
    exact ⟨by rw [hpos, hlast]; exact h.segPos, by rw [hheld]; rintro _ ⟨⟩⟩
  have hsome : ∀ {fetched : Reader α}, fetched.pos = zftape.pos → fetched.lastDataSegment = zftape.lastDataSegment →
      fetched.deblockSegment = some s → s ≤ zftape.lastDataSegment → fetched.Inside := by
    intro fetched hpos hlast hheld hs
    exact ⟨by rw [hpos, hlast]; exact h.segPos, by rw [hheld, hlast]; rintro _ ⟨⟩; exact hs⟩
  rw [Reader.zftFetchSegment]
  by_cases hcached : zftape.deblockSegment = some s
  · rw [if_pos hcached]
    exact ⟨h, fun _ _ => h.held s hcached⟩
  rw [if_neg hcached]
  dsimp only [zftReleaseDeblockBuffer]
  cases hread : zftape.readSegment s with
  | ok deblockBuffer =>
    have hs : s ≤ zftape.lastDataSegment := by
      by_contra hbehind
      obtain ⟨errno, herror⟩ := hends.unreadable s (Nat.lt_of_not_le hbehind)
      rw [hread] at herror
      cases herror
    exact ⟨hsome rfl rfl rfl hs, fun _ _ => hs⟩
  | error errno =>
    dsimp only
    by_cases hgiven : errno = .eintr ∨ zftape.rawImage = false ∨ zftape.firstDataSegment ≤ s
    · rw [if_pos hgiven]
      exact ⟨hnone rfl rfl rfl, by rintro _ ⟨⟩⟩
    · rw [if_neg hgiven]
      -- only a segment in front of the data is shown as a blank one
      have hs : s ≤ zftape.lastDataSegment := by
        have hdata := hends.data
        have hfront : ¬zftape.firstDataSegment ≤ s := fun hle => hgiven (Or.inr (Or.inr hle))
        omega
      split_ifs
      · exact ⟨hnone rfl rfl rfl, fun _ _ => hs⟩
      · exact ⟨hsome rfl rfl rfl hs, fun _ _ => hs⟩

/-- Looking for a segment stays on the tape, and finds one of it. -/
theorem Reader.Inside.fetchNext (h : zftape.Inside) (hends : zftape.Ends) (rounds : ℕ) :
    (Reader.fetchNext kernel rounds zftape).1.Inside ∧
      ∀ size, (Reader.fetchNext kernel rounds zftape).2 = .ok size →
        (Reader.fetchNext kernel rounds zftape).1.pos.segPos ≤ zftape.lastDataSegment := by
  induction rounds generalizing zftape with
  | zero => exact ⟨h, by rintro _ ⟨⟩⟩
  | succ rounds ih =>
    obtain ⟨hfetched, hon⟩ := @Reader.Inside.zftFetchSegment _ kernel _ h hends zftape.pos.segPos
    have hmoved := zftape.zftFetchSegment_moved kernel zftape.pos.segPos
    have hpos := zftFetchSegment_pos kernel zftape zftape.pos.segPos
    rw [Reader.fetchNext]
    generalize zftape.zftFetchSegment kernel zftape.pos.segPos = fetched at hfetched hon hmoved hpos
    obtain ⟨fetched, result⟩ := fetched
    dsimp only at hfetched hon hmoved hpos ⊢
    have hlast : fetched.lastDataSegment = zftape.lastDataSegment := by
      obtain ⟨_, _, _, _, _, rfl⟩ := hmoved
      rfl
    split
    · have hle := hon 0 rfl
      have hnext : Reader.Inside { fetched with
          pos := { fetched.pos with segPos := fetched.pos.segPos + 1, segBytePos := 0 } } :=
        ⟨by dsimp only; rw [hpos, hlast]; omega, hfetched.held⟩
      rw [← hlast]
      exact ih hnext ((hends.moved hmoved).moved ⟨_, _, _, _, _, rfl⟩)
    · refine ⟨hfetched, fun size hsize => ?_⟩
      rw [hpos]
      exact hon size hsize

/-- Filling the deblock buffer stays on the tape, and fills it with a segment of it. -/
theorem Reader.OnTape.refill (h : zftape.OnTape) (hends : zftape.Ends) :
    (∀ errno, zftape.refill kernel = (zftape', .error errno) → zftape'.OnTape) ∧
      (zftape.refill kernel = (zftape', .ok ()) →
        zftape'.Loaded ∧ zftape'.Inside ∧ zftape'.pos.segPos ≤ zftape'.lastDataSegment) := by
  obtain ⟨hnext, hon⟩ :=
    @Reader.Inside.fetchNext _ kernel _ h.inside hends (zftape.segments + 1 - zftape.pos.segPos)
  have hmoved := fetchNext_moved kernel (zftape.segments + 1 - zftape.pos.segPos) zftape
  constructor
  · intro errno hfill
    have hsound := h.sound.refill_error hfill
    rw [Reader.refill] at hfill
    split_ifs at hfill with hbuffer
    · split at hfill
      · cases hfill
      · rename_i found errno' heq
        cases hfill
        rw [heq] at hnext
        exact ⟨hsound, hnext, fun hpending => absurd (fetchNext_error hbuffer heq).1 hpending⟩
    · cases hfill
  · intro hfill
    refine ⟨(h.sound.refill_ok hfill).1, ?_⟩
    rw [Reader.refill] at hfill
    split_ifs at hfill with hbuffer
    · split at hfill
      · rename_i found size heq
        cases hfill
        rw [heq] at hnext hon hmoved
        have hlast : found.lastDataSegment = zftape.lastDataSegment := by
          obtain ⟨_, _, _, _, _, rfl⟩ := hmoved
          rfl
        refine ⟨⟨hnext.segPos, hnext.held⟩, ?_⟩
        dsimp only
        rw [hlast]
        exact hon size rfl
      · cases hfill
    · cases hfill
      exact ⟨h.inside, h.pending hbuffer⟩

/-- Emptying the deblock buffer goes on to the next segment only once nothing is left. -/
theorem Reader.Loaded.emptyDeblockBuf_onTape {reqLen : ℤ} (h : zftape.Loaded) (hwithin : zftape.Inside)
    (hon : zftape.pos.segPos ≤ zftape.lastDataSegment) (hreq : 0 < reqLen) :
    (zftape.emptyDeblockBuf reqLen).1.OnTape := by
  have hsound := (h.emptyDeblockBuf hreq).1
  have hplace : (zftape.emptyDeblockBuf reqLen).1.pos.segPos = zftape.pos.segPos ∨
      (zftape.emptyDeblockBuf reqLen).1.pos.segPos = zftape.pos.segPos + 1 ∧
        (zftape.emptyDeblockBuf reqLen).1.pos.segBytePos = 0 := by
    rw [Reader.emptyDeblockBuf]
    dsimp only
    split_ifs
    · exact Or.inr ⟨rfl, rfl⟩
    · exact Or.inl rfl
    · exact Or.inr ⟨rfl, rfl⟩
    · exact Or.inl rfl
  have hlast : (zftape.emptyDeblockBuf reqLen).1.lastDataSegment = zftape.lastDataSegment := rfl
  have hheld : (zftape.emptyDeblockBuf reqLen).1.deblockSegment = zftape.deblockSegment := rfl
  generalize (zftape.emptyDeblockBuf reqLen).1 = emptied at hsound hplace hlast hheld ⊢
  refine ⟨hsound, ⟨by omega, ?_⟩, fun hpending => ?_⟩
  · rw [hheld, hlast]
    exact hwithin.held
  · have hbuffer := hsound.buffer.resolve_left fun hnone => hpending hnone.1
    omega

/-- The loop of `_zft_read()` stays on the tape, whatever comes of it. -/
theorem Reader.OnTape.readLoop (h : zftape.OnTape) (hends : zftape.Ends) (rounds : ℕ) (reqLen : ℤ) :
    (Reader.readLoop kernel rounds zftape reqLen).1.OnTape := by
  induction rounds generalizing zftape reqLen with
  | zero => exact h
  | succ rounds ih =>
    rw [Reader.readLoop]
    by_cases hreq : reqLen ≤ 0
    · rw [if_pos hreq]
      exact h
    rw [if_neg hreq]
    have hmoved := zftape.refill_moved kernel
    cases hfill : zftape.refill kernel with
    | mk filled result =>
      rw [hfill] at hmoved
      cases result with
      | error errno => exact (h.refill hends).1 errno hfill
      | ok _ =>
        obtain ⟨hloaded, hwithin, hon⟩ := (h.refill hends).2 hfill
        have hemptied := hloaded.emptyDeblockBuf_onTape hwithin hon (Int.lt_of_not_ge hreq)
        have hempty : filled.Moved (filled.emptyDeblockBuf reqLen).1 := ⟨_, _, _, _, _, rfl⟩
        have hrest := ih hemptied (hends.moved (hmoved.trans hempty))
          (reqLen - (filled.emptyDeblockBuf reqLen).2.length)
        dsimp only
        split
        · rename_i after rest hafter
          rwa [hafter] at hrest
        · rename_i after errno hafter
          rwa [hafter] at hrest

/-- A loop that hands out nothing was not asked for anything. -/
theorem Reader.Sound.readLoop_nil {reqLen : ℤ} (h : zftape.Sound)
    (hloop : zftape.readLoop kernel (reqLen.toNat + 1) reqLen = (zftape', .ok [])) : reqLen ≤ 0 := by
  by_contra hreq
  rw [readRounds_eq_readLoop kernel _ zftape reqLen 0] at hloop
  cases hrounds : zftape.readRounds kernel (reqLen.toNat + 1) reqLen 0 with
  | mk after rest =>
    obtain ⟨bytes, result⟩ := rest
    rw [hrounds] at hloop
    cases result with
    | error errno => cases hloop
    | ok result =>
      obtain rfl : bytes = [] := Except.ok.inj (Prod.mk.inj hloop).2
      have hlength := (h.readRounds_ok (by omega) (by omega) (fun _ => by omega) hrounds).1
      exact hreq hlength.ge

/-- What a call does at the end of a file stays on the tape, as it moves past the end only if nothing was handed
out. -/
theorem Reader.OnTape.atEof (h : zftape.OnTape) {bytesRead : ℕ}
    (hnone : bytesRead = 0 → zftape.pos.segPos ≤ zftape.lastDataSegment) : (zftape.atEof bytesRead).OnTape := by
  have hsound := (h.sound.atEof bytesRead).1
  rw [Reader.atEof] at hsound ⊢
  split_ifs at hsound ⊢ with hpast
  · exact ⟨hsound, ⟨Nat.succ_le_succ (hnone hpast.2), by rintro _ ⟨⟩⟩, fun hpending => absurd rfl hpending⟩
  · rw [zftPositionBeforeEof] at hsound ⊢
    split_ifs at hsound ⊢ with hstart
    · have hseg := h.inside.segPos
      refine ⟨hsound, ⟨Nat.le_trans (Nat.sub_le _ _) hseg, h.inside.held⟩, fun _ => ?_⟩
      dsimp only
      omega
    · exact ⟨hsound, ⟨h.inside.segPos, h.inside.held⟩, h.pending⟩

/-- In front of the end of the recorded media the position is in a segment of the tape. -/
theorem Reader.Ends.segPos_le (h : zftape.Ends) (heod : zftape.zftTapeAtEod = false) :
    zftape.pos.segPos ≤ zftape.lastDataSegment := by
  have hmedia := h.media
  rw [mediaEnd] at hmedia
  rw [zftTapeAtEod] at heod
  split_ifs at hmedia heod with hqic
  · have hfront := (not_or.mp (of_decide_eq_false heod)).1
    omega
  · have hfront := of_decide_eq_false heod
    omega

/-- What `check_read_access()` leaves alone: at most it drops what is left in the deblock buffer. -/
structure Reader.Checked (zftape zftape' : Reader α) : Prop where
  pos : zftape'.pos = zftape.pos
  held : zftape'.deblockSegment = zftape.deblockSegment
  lastDataSegment : zftape'.lastDataSegment = zftape.lastDataSegment
  ends : zftape.Ends → zftape'.Ends
  pending : zftape'.bufLenRd ≠ 0 → zftape.bufLenRd ≠ 0

/-- `check_read_access()` may drop what is left in the deblock buffer. -/
theorem Reader.checkReadAccess_checked (zftape : Reader α) (reqLen : ℤ) :
    zftape.Checked (zftape.checkReadAccess reqLen).1 := by
  have hclip : ∀ (before : Reader α), before.Checked (before.clipRequest reqLen).1 := by
    intro before
    rw [clipRequest]
    dsimp only
    split_ifs
    · exact ⟨rfl, rfl, rfl, id, id⟩
    · exact ⟨rfl, rfl, rfl, fun h => ⟨h.data, h.media, h.unreadable⟩, id⟩
    · exact ⟨rfl, rfl, rfl, fun h => ⟨h.data, h.media, h.unreadable⟩, id⟩
  rw [checkReadAccess]
  dsimp only
  split_ifs
  · exact ⟨rfl, rfl, rfl, id, id⟩
  · exact ⟨rfl, rfl, rfl, id, id⟩
  · exact ⟨rfl, rfl, rfl, fun h => ⟨h.data, h.media, h.unreadable⟩, fun hpending => absurd rfl hpending⟩
  · have hclipped := hclip { zftape with
      bufLenRd := 0, ioState := IoState.reading, eod := 0
      curVtbl := (zftape.zftVolumeBySegpos zftape.pos.segPos).1
      volume := (zftape.zftVolumeBySegpos zftape.pos.segPos).2
      remaining := (zftape.zftVolumeBySegpos zftape.pos.segPos).2.size - zftape.pos.volumePos }
    refine ⟨hclipped.pos, hclipped.held, hclipped.lastDataSegment, fun h => hclipped.ends ?_, fun hpending => ?_⟩
    · exact ⟨h.data, h.media, h.unreadable⟩
    · exact absurd rfl (hclipped.pending hpending)
  · exact ⟨rfl, rfl, rfl, fun h => ⟨h.data, h.media, h.unreadable⟩, id⟩
  · exact ⟨rfl, rfl, rfl, fun h => ⟨h.data, h.media, h.unreadable⟩, id⟩
  · exact hclip zftape

/-- A call of `_zft_read()` stays on the tape. -/
theorem Reader.OnTape.zftRead (h : zftape.OnTape) (hends : zftape.Ends) (reqLen : ℤ) :
    (zftape.zftRead kernel reqLen).1.OnTape := by
  have hresid : Reader.Sound { zftape with resid := reqLen } := h.sound.congr rfl rfl rfl fun _ => rfl
  have hchecked := checkReadAccess_checked { zftape with resid := reqLen } reqLen
  obtain ⟨haccessed, houtcome⟩ := checkReadAccess_accessed { zftape with resid := reqLen } reqLen
  rw [Reader.zftRead]
  generalize Reader.checkReadAccess { zftape with resid := reqLen } reqLen = access at *
  obtain ⟨granted, outcome⟩ := access
  dsimp only at hchecked haccessed houtcome ⊢
  have hgranted : granted.OnTape := by
    refine ⟨haccessed.sound hresid, ⟨?_, ?_⟩, fun hpending => ?_⟩
    · rw [hchecked.pos, hchecked.lastDataSegment]
      exact h.inside.segPos
    · rw [hchecked.held, hchecked.lastDataSegment]
      exact h.inside.held
    · rw [hchecked.pos, hchecked.lastDataSegment]
      exact h.pending (hchecked.pending hpending)
  have hgrantedEnds : granted.Ends := hchecked.ends ⟨hends.data, hends.media, hends.unreadable⟩
  rcases houtcome with ⟨errno, rfl⟩ | ⟨-, rfl⟩ | ⟨heod, clipped, rfl⟩
  · exact hgranted
  · exact hgranted
  have hon : granted.pos.segPos ≤ granted.lastDataSegment := by
    rw [hchecked.pos, hchecked.lastDataSegment]
    exact hends.segPos_le heod
  dsimp only
  generalize min reqLen (Reader.leftInVolume { zftape with resid := reqLen }) = len
  have hloop := @Reader.OnTape.readLoop _ kernel _ hgranted hgrantedEnds (len.toNat + 1) len
  cases hread : granted.readLoop kernel (len.toNat + 1) len with
  | mk after result =>
    rw [hread] at hloop
    cases result with
    | error errno => exact hloop
    | ok bytes =>
      dsimp only at hloop ⊢
      split_ifs
      · refine hloop.atEof fun hnone => ?_
        obtain rfl : bytes = [] := List.eq_nil_of_length_eq_zero hnone
        -- nothing was asked for, so the position is where it was
        rw [readLoop_of_nonpos kernel _ granted (hgranted.sound.readLoop_nil hread)] at hread
        cases hread
        exact hon
      · exact hloop

end Ftape.Zftape
