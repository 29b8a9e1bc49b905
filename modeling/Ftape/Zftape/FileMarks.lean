import Ftape.Zftape.ReadVolume

/-!
# File marks

A tape hands out its files one after the other, with a file mark behind each: the call that finds
nothing left of a file hands out nothing and steps over the mark. `_zft_read()` does so for a volume
with something in it. A volume without a byte takes two calls, unless the position was moved to it
by skipping volumes, which sets `just_before_eof`.
-/

namespace Ftape.Zftape

open Ftape.Algebra Ftape.Write

variable {α : Type*}

/-- A file on a tape: its block size, and the bytes that are left of it. -/
structure TapeFile (α : Type*) where
  blkSz : ℕ
  bytes : List α

/-- One call on a tape. -/
def TapeFile.read : List (TapeFile α) → ℕ → List (TapeFile α) × List α
  | [], _ => ([], [])
  | file :: files, len =>
    match file.bytes with
    | [] => (files, [])
    | bytes => ({ file with bytes := bytes.drop len } :: files, bytes.take len)

/-- Requests of whole blocks of the files they meet, for as long as there are files. -/
def TapeFile.Asked : List (TapeFile α) → List ℕ → Prop
  | [], _ => True
  | _, [] => True
  | file :: files, len :: lens =>
    0 < len ∧ len % file.blkSz = 0 ∧ TapeFile.Asked (TapeFile.read (file :: files) len).1 lens

instance TapeFile.decidableAsked : (files : List (TapeFile α)) → (lens : List ℕ) →
    Decidable (TapeFile.Asked files lens)
  | [], [] => isTrue trivial
  | [], _ :: _ => isTrue trivial
  | _ :: _, [] => isTrue trivial
  | file :: files, len :: lens =>
    have := TapeFile.decidableAsked (TapeFile.read (file :: files) len).1 lens
    inferInstanceAs (Decidable (0 < len ∧ len % file.blkSz = 0 ∧
      TapeFile.Asked (TapeFile.read (file :: files) len).1 lens))

/-- What the calls hand out while there are files, with the number of marks ahead after each. -/
def TapeFile.answers : List (TapeFile α) → List ℕ → List (List α × ℕ)
  | [], _ => []
  | _, [] => []
  | file :: files, len :: lens =>
    let (files, bytes) := TapeFile.read (file :: files) len
    (bytes, files.length) :: TapeFile.answers files lens

/-- The marks of the volumes that end at the position or behind it. -/
def Reader.marksAhead (zftape : Reader α) : ℕ :=
  (zftape.table.volumes.filter (zftape.pos.segPos ≤ ·.endSeg)).length

/-- What calls of `_zft_read()` return, with the number of marks ahead after each. -/
def Reader.answers (kernel : Kernel α) : List ℕ → Reader α → List (Except Errno (List α) × ℕ)
  | [], _ => []
  | len :: lens, zftape =>
    let (zftape, result) := zftape.zftRead kernel len
    (result, zftape.marksAhead) :: Reader.answers kernel lens zftape

/-- Up to the end of the data, calls of whole blocks return what a tape with these files hands out. -/
def Reader.OneReadPerMark (kernel : Kernel α) (zftape : Reader α) (files : List (TapeFile α)) : Prop :=
  ∀ lens, TapeFile.Asked files lens →
    (TapeFile.answers files lens).map (Prod.map Except.ok id) <+: zftape.answers kernel lens

/-- The volumes as files. -/
def Reader.files (zftape : Reader α) (segment : ℕ → ℕ → α) (volumes : List Volinfo) : List (TapeFile α) :=
  volumes.map fun v => ⟨v.blkSz, (zftape.content segment v).take v.size.toNat⟩

/-- The size of a volume ends in its last segment. A volume without a byte has one segment. -/
def Reader.EndsInLast (zftape : Reader α) (segment : ℕ → ℕ → α) (v : Volinfo) : Prop :=
  v.size = 0 ∧ v.startSeg = v.endSeg ∨
    (stretch (zftape.payload segment) v.startSeg v.endSeg).length < v.size ∧
      v.size ≤ (stretch (zftape.payload segment) v.startSeg (v.endSeg + 1)).length

/-- In qic mode the recorded media from the volume `v` on are filled by `v` and the volumes `after`
it without a gap, and they read back. -/
structure Reader.Filled (zftape : Reader α) (segment : ℕ → ℕ → α) (v : Volinfo) (after : List Volinfo) :
    Prop where
  qic : zftape.qicMode = true
  volumes : ∃ before, zftape.table.volumes = before ++ v :: after
  adjacent : (v :: after ++ [zftape.table.eom]).IsChain fun w w' => w'.startSeg = w.endSeg + 1
  ends : ∀ w ∈ v :: after, zftape.EndsInLast segment w
  block : ∀ w ∈ v :: after, 0 < w.blkSz
  readable : ∀ s, v.startSeg ≤ s → s < zftape.mediaEnd → zftape.readSegment s = .ok (segment s)

/-- What calls change: the state of reading, not the device, the tape and its volume table. -/
def Reader.Called (zftape zftape' : Reader α) : Prop :=
  ∃ curVtbl ioState eod pos volume remaining bufLenRd segSz buffer held justBeforeEof resid,
    zftape' = { zftape with
      curVtbl := curVtbl
      ioState := ioState
      eod := eod
      pos := pos
      volume := volume
      remaining := remaining
      bufLenRd := bufLenRd
      segSz := segSz
      deblockBuffer := buffer
      deblockSegment := held
      justBeforeEof := justBeforeEof
      resid := resid }

/-- A device that reads the volume `v`, opened in the state `start`, with `rest` left of it. Nothing
left means that it stands in front of the mark, in the last segment. -/
structure Reader.Within (start zftape : Reader α) (segment : ℕ → ℕ → α) (v : Volinfo) (rest : List α) :
    Prop where
  called : start.Called zftape
  reading : zftape.ioState = .reading
  eod : zftape.eod = 0
  volume : zftape.volume = v
  curVtbl : zftape.curVtbl ≤ zftape.table.volumes.length
  cached : zftape.Cached segment
  first : v.startSeg ≤ zftape.pos.segPos
  last : zftape.pos.segPos ≤ v.endSeg
  left : (0 < zftape.remaining ∧ ∃ stream, zftape.Ahead segment (v.endSeg + 1) stream ∧
      zftape.remaining ≤ stream.length ∧
      (stream.length : ℤ) < zftape.remaining + zftape.zftGetSegSz v.endSeg ∧
      rest = stream.take zftape.remaining.toNat) ∨
    (zftape.remaining ≤ 0 ∧ rest = [] ∧ zftape.justBeforeEof = true ∧ zftape.pos.segPos = v.endSeg)

/-- Calls after calls. -/
theorem Reader.Called.trans {zftape zftape' zftape'' : Reader α} (h : zftape.Called zftape')
    (h' : zftape'.Called zftape'') : zftape.Called zftape'' := by
  obtain ⟨_, _, _, _, _, _, _, _, _, _, _, _, rfl⟩ := h
  obtain ⟨_, _, _, _, _, _, _, _, _, _, _, _, rfl⟩ := h'
  exact ⟨_, _, _, _, _, _, _, _, _, _, _, _, rfl⟩

/-- The recorded media go on behind a volume: with the next one, or with their end. -/
theorem Reader.Filled.next {zftape : Reader α} {segment : ℕ → ℕ → α} {v w : Volinfo}
    {after : List Volinfo} (h : zftape.Filled segment v (w :: after)) :
    w.startSeg = v.endSeg + 1 ∧ zftape.Filled segment w after := by
  obtain ⟨hqic, ⟨before, hvolumes⟩, hadjacent, hends, hblock, hread⟩ := h
  obtain ⟨hnext, hadjacent⟩ := List.isChain_cons_cons.mp hadjacent
  refine ⟨hnext, hqic, ⟨before ++ [v], by simp [hvolumes]⟩, hadjacent,
    fun x hx => hends x (List.mem_cons_of_mem v hx), fun x hx => hblock x (List.mem_cons_of_mem v hx),
    fun s hs => hread s ?_⟩
  have hv := hends v List.mem_cons_self
  have hlength : (stretch (zftape.payload segment) v.startSeg v.endSeg).length <
      (stretch (zftape.payload segment) v.startSeg (v.endSeg + 1)).length ∨ v.startSeg = v.endSeg := by
    rcases hv with ⟨-, heq⟩ | ⟨hlow, hhigh⟩
    · exact Or.inr heq
    · exact Or.inl (by omega)
  rcases hlength with hlt | heq
  · have hstart : v.startSeg < v.endSeg + 1 := by
      by_contra hle
      rw [stretch_of_le (Nat.le_of_not_lt hle)] at hlt
      exact absurd hlt (Nat.not_lt_zero _)
    omega
  · omega

/-- A volume of the table ends in front of the end of the recorded media. -/
theorem Reader.Filled.endSeg_lt {zftape : Reader α} {segment : ℕ → ℕ → α} {v : Volinfo}
    {after : List Volinfo} (h : zftape.Filled segment v after) (hordered : zftape.table.Ordered) :
    v.startSeg ≤ v.endSeg ∧ v.endSeg < zftape.mediaEnd := by
  obtain ⟨before, hvolumes⟩ := h.volumes
  have hentries : zftape.table.entries = before ++ v :: (after ++ [zftape.table.eom]) := by
    rw [VolumeTable.entries, hvolumes, List.append_assoc, List.cons_append]
  have hsorted := hordered.sorted
  rw [hentries] at hsorted
  have heom : v.endSeg < zftape.table.eom.startSeg :=
    List.rel_of_pairwise_cons (List.pairwise_append.mp hsorted).2.1 (by simp)
  rw [mediaEnd, h.qic, if_pos rfl]
  exact ⟨hordered.filled v (by simp [hentries]), heom⟩

/-- The bytes of a volume are in its segments. -/
theorem Reader.Filled.content_take {zftape : Reader α} {segment : ℕ → ℕ → α} {v : Volinfo}
    {after : List Volinfo} (h : zftape.Filled segment v after) (hordered : zftape.table.Ordered) :
    (zftape.content segment v).take v.size.toNat =
      (stretch (zftape.payload segment) v.startSeg (v.endSeg + 1)).take v.size.toNat := by
  obtain ⟨hle, hlt⟩ := h.endSeg_lt hordered
  apply stretch_take (Nat.le_succ_of_le hle) hlt
  rcases h.ends v List.mem_cons_self with ⟨hzero, -⟩ | ⟨-, hhigh⟩
  · rw [hzero]
    exact Nat.zero_le _
  · exact Int.toNat_le.mpr hhigh

/-- In a volume, its own mark and those behind it are ahead; behind its end, only those. -/
theorem Reader.Filled.marksAhead_eq {zftape : Reader α} {segment : ℕ → ℕ → α} {v : Volinfo}
    {after : List Volinfo} (h : zftape.Filled segment v after) (hordered : zftape.table.Ordered)
    (hfirst : v.startSeg ≤ zftape.pos.segPos) (hlast : zftape.pos.segPos ≤ v.endSeg + 1) :
    zftape.marksAhead = if zftape.pos.segPos ≤ v.endSeg then after.length + 1 else after.length := by
  obtain ⟨before, hvolumes⟩ := h.volumes
  obtain ⟨hsorted, hfilled⟩ := hordered
  rw [VolumeTable.entries, hvolumes, List.append_assoc] at hsorted hfilled
  obtain ⟨-, hbehind, hcross⟩ := List.pairwise_append.mp hsorted
  have hbefore : before.filter (zftape.pos.segPos ≤ ·.endSeg) = [] := by
    rw [List.filter_eq_nil_iff]
    intro w hw
    have := hcross w hw v (by simp)
    simp only [decide_eq_true_eq]
    omega
  have hafter : after.filter (zftape.pos.segPos ≤ ·.endSeg) = after := by
    rw [List.filter_eq_self]
    intro w hw
    have := List.rel_of_pairwise_cons hbehind (show w ∈ _ by simp [hw])
    have := hfilled w (by simp [hw])
    simp only [decide_eq_true_eq]
    omega
  rw [marksAhead, hvolumes, List.filter_append, hbefore, List.nil_append, List.filter_cons, hafter]
  simp only [decide_eq_true_eq]
  split <;> rfl

/-- The start of the next volume, reached by calls, is the start of a volume. -/
theorem Reader.Called.atVolume {start zftape : Reader α} {segment : ℕ → ℕ → α} {v w : Volinfo}
    {after : List Volinfo} (hcalled : start.Called zftape) (hstart : start.AtVolume v)
    (hfilled : start.Filled segment v (w :: after)) (hidle : zftape.ioState = .idle)
    (hcur : zftape.curVtbl ≤ zftape.table.volumes.length) (hseg : zftape.pos.segPos = v.endSeg + 1)
    (hbyte : zftape.pos.segBytePos = 0) (hvolume : zftape.pos.volumePos = 0) :
    zftape.AtVolume w ∧ zftape.Filled segment w after := by
  obtain ⟨_, _, _, pos, _, _, _, _, _, _, _, _, rfl⟩ := hcalled
  obtain ⟨hnext, hqic, ⟨before, hvolumes⟩, hadjacent, hends, hblock, hread⟩ := hfilled.next
  refine ⟨⟨hidle, hstart.online, hstart.formatted, hseg.trans hnext.symm, hbyte, hvolume, hcur,
    fun _ => ⟨(hstart.qic hqic).1, ?_⟩, fun hraw => ?_, hstart.closed, hstart.onTape⟩,
    ⟨hqic, ⟨before, hvolumes⟩, hadjacent, hends, hblock, hread⟩⟩
  · rw [hvolumes]
    simp
  · exact absurd (hraw.symm.trans hqic) Bool.false_ne_true

/-- The first call on a volume opens it. -/
theorem Reader.AtVolume.within {zftape : Reader α} {segment : ℕ → ℕ → α} {v : Volinfo}
    {after : List Volinfo} (h : zftape.AtVolume v) (hfilled : zftape.Filled segment v after)
    (hcached : zftape.Cached segment) (hmark : 0 < v.size ∨ zftape.justBeforeEof = true) :
    zftape.Within (zftape.opened v) segment v ((zftape.content segment v).take v.size.toNat) := by
  have hordered := (h.qic hfilled.qic).1
  obtain ⟨hle, hlt⟩ := hfilled.endSeg_lt hordered
  have hlookup : (zftape.opened v).curVtbl ≤ zftape.table.volumes.length := by
    obtain ⟨before, hvolumes⟩ := hfilled.volumes
    have hentries : zftape.table.entries = before ++ v :: (after ++ [zftape.table.eom]) := by
      rw [VolumeTable.entries, hvolumes, List.append_assoc, List.cons_append]
    rw [opened, h.segPos, zftVolumeBySegpos_of_ordered hfilled.qic hordered hentries h.curVtbl
      (Nat.le_refl _) hle, hvolumes, List.length_append]
    exact Nat.le_add_right _ _
  refine ⟨⟨_, _, _, _, _, _, _, _, _, _, _, _, rfl⟩, rfl, rfl, rfl, hlookup, hcached, h.segPos.ge,
    h.segPos.trans_le hle, ?_⟩
  rcases hfilled.ends v List.mem_cons_self with ⟨hzero, hone⟩ | ⟨hlow, hhigh⟩
  · right
    refine ⟨hzero.le, ?_, hmark.resolve_left (by omega), h.segPos.trans hone⟩
    rw [hzero]
    rfl
  · left
    refine ⟨lt_of_le_of_lt (Int.natCast_nonneg _) hlow, stretch (zftape.payload segment) v.startSeg (v.endSeg + 1),
      ⟨hcached, ?_, Nat.le_trans hlt h.onTape, h.segBytePos.ge, ?_, Or.inl ⟨rfl, h.segBytePos⟩⟩,
      hhigh, ?_, hfilled.content_take hordered⟩
    · intro s hs hs'
      exact hfilled.readable s (h.segPos ▸ hs) (Nat.lt_of_lt_of_le hs' hlt)
    · change _ = ahead (zftape.payload segment) _ zftape.pos.segPos zftape.pos.segBytePos.toNat
      rw [h.segPos, h.segBytePos]
      rfl
    · change _ < v.size + (zftape.zftGetSegSz v.endSeg : ℤ)
      rw [stretch_succ hle, List.length_append, payload_length]
      push_cast
      omega

/-- With less ahead than the last segment holds, the position is in it, or behind it. -/
theorem Reader.Ahead.le_segPos {zftape : Reader α} {segment : ℕ → ℕ → α} {last : ℕ} {rest : List α}
    (h : zftape.Ahead segment (last + 1) rest) (hlength : rest.length < zftape.zftGetSegSz last) :
    last ≤ zftape.pos.segPos := by
  by_contra hlt
  have hoffset : zftape.pos.segBytePos.toNat ≤ (zftape.payload segment zftape.pos.segPos).length := by
    rw [payload_length]
    rcases h.buffer with ⟨-, hzero⟩ | ⟨-, hsize, hlen, hpos⟩
    · rw [hzero]
      exact Nat.zero_le _
    · omega
  have hle := le_length_ahead (Nat.lt_of_not_le hlt) hoffset
  rw [← h.rest_eq, payload_length] at hle
  omega

/-- At the end of its volume, but not at the mark, the device stands in the last segment. -/
theorem Reader.atEof_of_upTo {zftape : Reader α} {bytesRead : ℕ}
    (heof : ¬(zftape.justBeforeEof = true ∧ bytesRead = 0))
    (hupto : zftape.UpTo (zftape.volume.endSeg + 1)) (hle : zftape.volume.endSeg ≤ zftape.pos.segPos) :
    ∃ pos, zftape.atEof bytesRead = { zftape with justBeforeEof := true, pos := pos } ∧
      pos.segPos = zftape.volume.endSeg := by
  rw [atEof, if_neg heof, zftPositionBeforeEof]
  rcases hupto with hlt | ⟨heq, hbyte⟩
  · have hseg : zftape.pos.segPos = zftape.volume.endSeg := by omega
    rw [if_neg fun hbehind => by rw [hseg] at hbehind; exact absurd hbehind.1 (Nat.succ_ne_self _).symm]
    exact ⟨_, rfl, hseg⟩
  · rw [if_pos ⟨heq, hbyte⟩]
    refine ⟨_, rfl, ?_⟩
    simp only [heq, Nat.add_sub_cancel]

/-- A call within a volume hands out what it asks for, or what is left, and steps over no mark. -/
theorem Reader.Within.zftRead_bytes (kernel : Kernel α) {start zftape : Reader α}
    {segment : ℕ → ℕ → α} {v : Volinfo} {after : List Volinfo} {rest : List α}
    (h : start.Within zftape segment v rest) (hstart : start.AtVolume v)
    (hfilled : start.Filled segment v after) (hrest : rest ≠ []) {len : ℕ} (hpos : 0 < len)
    (hblock : len % v.blkSz = 0) :
    ∃ zftape', zftape.zftRead kernel len = (zftape', .ok (rest.take len)) ∧
      start.Within zftape' segment v (rest.drop len) := by
  obtain ⟨hcalled, hreading, heod, rfl, hcur, hcached, hfirst, hlast, hleft⟩ := h
  obtain ⟨hsize, stream, hahead, hfits, hshort, rfl⟩ := hleft.resolve_right fun hmark => hrest hmark.2.1
  obtain ⟨remaining, hremaining⟩ := Int.eq_ofNat_of_zero_le hsize.le
  obtain ⟨hle, hlt⟩ := hfilled.endSeg_lt (hstart.qic hfilled.qic).1
  have hclosed : zftape.Closed := by
    obtain ⟨_, _, _, _, _, _, _, _, _, _, _, _, rfl⟩ := hcalled
    exact hstart.closed
  have hmedia : zftape.volume.endSeg + 1 ≤ zftape.mediaEnd := by
    obtain ⟨_, _, _, _, _, _, _, _, _, _, _, _, rfl⟩ := hcalled
    exact hlt
  have hn : (if zftape.remaining ≤ len then zftape.remaining else len) = (min remaining len : ℕ) := by
    split <;> omega
  obtain ⟨moved, hread, hmoved, hahead', hle', hupto⟩ := zftRead_of_ahead kernel hreading heod hclosed
    hmedia hahead hblock hn (by omega) (by omega)
  have hsize' : moved.zftGetSegSz zftape.volume.endSeg = zftape.zftGetSegSz zftape.volume.endSeg := by
    obtain ⟨_, _, _, _, _, rfl⟩ := hmoved
    rfl
  have hcalled' : ∀ pos justBeforeEof,
      start.Called { moved with pos := pos, justBeforeEof := justBeforeEof } := by
    intro pos justBeforeEof
    obtain ⟨_, _, _, _, _, rfl⟩ := hmoved
    exact hcalled.trans ⟨_, _, _, _, _, _, _, _, _, _, _, _, rfl⟩
  have hsame : moved.ioState = .reading ∧ moved.eod = 0 ∧ moved.volume = zftape.volume ∧
      moved.curVtbl ≤ moved.table.volumes.length ∧ moved.remaining = zftape.remaining - len := by
    obtain ⟨_, _, _, _, _, rfl⟩ := hmoved
    exact ⟨hreading, heod, rfl, hcur, rfl⟩
  obtain ⟨hreading', heod', hvolume', hcur', hremaining'⟩ := hsame
  refine ⟨if zftape.remaining ≤ len then moved.atEof (min remaining len) else moved, ?_, ?_⟩
  · rw [hread, List.take_take]
    congr 3
    omega
  · by_cases hclip : zftape.remaining ≤ len
    · have hbehind : zftape.volume.endSeg ≤ moved.pos.segPos := by
        apply hahead'.le_segPos
        rw [List.length_drop, hsize']
        omega
      rw [← hvolume'] at hupto hbehind
      obtain ⟨pos, heof, hpos'⟩ := atEof_of_upTo
        (fun hmark : _ ∧ min remaining len = 0 => by omega) hupto hbehind
      rw [hvolume'] at hpos'
      rw [if_pos hclip, heof]
      exact ⟨hcalled' pos true, hreading', heod', hvolume', hcur', hahead'.cached, hpos'.symm ▸ hle,
        hpos'.le, Or.inr ⟨hremaining'.trans_le (by omega), List.drop_of_length_le (by
          rw [List.length_take]
          omega), rfl, hpos'⟩⟩
    · have hmin : min remaining len = len := by omega
      rw [hmin] at hahead'
      rw [if_neg hclip]
      have hlt' : moved.pos.segPos < zftape.volume.endSeg + 1 := by
        apply lt_of_ahead
        rw [← hahead'.rest_eq, List.length_drop]
        omega
      refine ⟨hcalled' moved.pos moved.justBeforeEof, hreading', heod', hvolume', hcur', hahead'.cached,
        hfirst.trans hle', Nat.le_of_lt_succ hlt', Or.inl ⟨by omega, stream.drop len, hahead', ?_, ?_, ?_⟩⟩
      · rw [List.length_drop]
        omega
      · rw [List.length_drop, hsize']
        omega
      · rw [List.drop_take]
        congr 1
        omega

/-- A call behind the last byte of a volume hands out nothing. -/
theorem Reader.zftRead_behind (kernel : Kernel α) {zftape : Reader α} (hreading : zftape.ioState = .reading)
    (heod : zftape.eod = 0) (hclosed : zftape.Closed) (hlt : zftape.pos.segPos < zftape.mediaEnd)
    (hsize : zftape.remaining ≤ 0) {len : ℕ} (hblock : len % zftape.volume.blkSz = 0) :
    zftape.zftRead kernel len =
      (Reader.atEof { zftape with resid := len, remaining := zftape.remaining - len } 0, .ok []) := by
  have hmore : ({ zftape with resid := (len : ℤ) } : Reader α).zftTapeAtEod = false :=
    zftTapeAtEod_of_lt _ hclosed hlt
  have haccess := checkReadAccess_of_reading { zftape with resid := (len : ℤ) } hreading heod len
  rw [hmore, if_neg Bool.false_ne_true, clipRequest_of_dvd { zftape with resid := (len : ℤ) } hblock,
    if_pos (by dsimp only; omega)] at haccess
  simp only [zftRead, haccess, readLoop_of_nonpos kernel _ _ hsize, if_true, List.length_nil]

/-- In front of the mark, a call steps over it: to the start of the segment behind the volume. -/
theorem Reader.Within.zftRead_mark (kernel : Kernel α) {start zftape : Reader α}
    {segment : ℕ → ℕ → α} {v : Volinfo} {after : List Volinfo}
    (h : start.Within zftape segment v []) (hstart : start.AtVolume v)
    (hfilled : start.Filled segment v after) {len : ℕ} (hblock : len % v.blkSz = 0) :
    ∃ zftape', zftape.zftRead kernel len = (zftape', .ok []) ∧ start.Called zftape' ∧
      zftape'.ioState = .idle ∧ zftape'.curVtbl ≤ zftape'.table.volumes.length ∧
      zftape'.pos.segPos = v.endSeg + 1 ∧ zftape'.pos.segBytePos = 0 ∧ zftape'.pos.volumePos = 0 ∧
      zftape'.justBeforeEof = false ∧ zftape'.deblockSegment = none := by
  obtain ⟨hcalled, hreading, heod, rfl, hcur, -, -, -, hleft⟩ := h
  have hmark : zftape.remaining ≤ 0 ∧ zftape.justBeforeEof = true ∧
      zftape.pos.segPos = zftape.volume.endSeg := by
    rcases hleft with ⟨hsize, stream, -, hfits, -, hnil⟩ | ⟨hsize, -, hjust, hseg⟩
    · have hlength := congrArg List.length hnil
      rw [List.length_nil, List.length_take] at hlength
      omega
    · exact ⟨hsize, hjust, hseg⟩
  obtain ⟨hsize, hjust, hseg⟩ := hmark
  obtain ⟨hle, hlt⟩ := hfilled.endSeg_lt (hstart.qic hfilled.qic).1
  have hmedia : zftape.Closed ∧ zftape.pos.segPos < zftape.mediaEnd := by
    obtain ⟨_, _, _, _, _, _, _, _, _, _, _, _, rfl⟩ := hcalled
    exact ⟨hstart.closed, hseg.trans_lt hlt⟩
  refine ⟨_, zftRead_behind kernel hreading heod hmedia.1 hmedia.2 hsize hblock, ?_⟩
  rw [atEof, if_pos ⟨hjust, rfl⟩]
  exact ⟨hcalled.trans ⟨_, _, _, _, _, _, _, _, _, _, _, _, rfl⟩, rfl, hcur, congrArg (· + 1) hseg,
    rfl, rfl, rfl, rfl⟩

/-- A device that stands in the volume `v`, at its start or within it, with `rest` left of it: its
calls return what they return once the volume is open. -/
def Reader.Stands (kernel : Kernel α) (zftape : Reader α) (segment : ℕ → ℕ → α) (v : Volinfo)
    (after : List Volinfo) (rest : List α) : Prop :=
  ∃ start within : Reader α, start.AtVolume v ∧ start.Filled segment v after ∧
    start.Called zftape ∧ start.Within within segment v rest ∧
    ∀ len : ℕ, zftape.zftRead kernel len = within.zftRead kernel len

/-- The files from the position on, with `rest` left of the first. -/
def Reader.filesFrom (zftape : Reader α) (segment : ℕ → ℕ → α) (v : Volinfo) (after : List Volinfo)
    (rest : List α) : List (TapeFile α) :=
  ⟨v.blkSz, rest⟩ :: zftape.files segment after

/-- Calls leave the files as they are. -/
theorem Reader.Called.files_eq {zftape zftape' : Reader α} (h : zftape.Called zftape')
    (segment : ℕ → ℕ → α) (volumes : List Volinfo) :
    zftape'.files segment volumes = zftape.files segment volumes := by
  obtain ⟨_, _, _, _, _, _, _, _, _, _, _, _, rfl⟩ := h
  rfl

/-- The marks ahead of a device that calls have moved within a volume or to its end. -/
theorem Reader.Called.marksAhead_eq {start zftape : Reader α} {segment : ℕ → ℕ → α} {v : Volinfo}
    {after : List Volinfo} (h : start.Called zftape) (hfilled : start.Filled segment v after)
    (hordered : start.table.Ordered) (hfirst : v.startSeg ≤ zftape.pos.segPos)
    (hlast : zftape.pos.segPos ≤ v.endSeg + 1) :
    zftape.marksAhead = if zftape.pos.segPos ≤ v.endSeg then after.length + 1 else after.length := by
  obtain ⟨_, _, _, _, _, _, _, _, _, _, _, _, rfl⟩ := h
  obtain ⟨hqic, hvolumes, hadjacent, hends, hblock, hread⟩ := hfilled
  exact Filled.marksAhead_eq ⟨hqic, hvolumes, hadjacent, hends, hblock, hread⟩ hordered hfirst hlast

/-- The start of a volume, unless its mark is reached at once. -/
theorem Reader.AtVolume.stands (kernel : Kernel α) {zftape : Reader α} {segment : ℕ → ℕ → α} {v : Volinfo}
    {after : List Volinfo} (h : zftape.AtVolume v) (hfilled : zftape.Filled segment v after)
    (hcached : zftape.Cached segment) (hmark : 0 < v.size ∨ zftape.justBeforeEof = true) :
    zftape.Stands kernel segment v after ((zftape.content segment v).take v.size.toNat) :=
  ⟨zftape, zftape.opened v, h, hfilled, ⟨_, _, _, _, _, _, _, _, _, _, _, _, rfl⟩,
    h.within hfilled hcached hmark, fun len => h.zftRead_eq len⟩

/-- A call with bytes left of the volume. -/
theorem Reader.Stands.zftRead_bytes {kernel : Kernel α} {zftape : Reader α} {segment : ℕ → ℕ → α}
    {v : Volinfo} {after : List Volinfo} {rest : List α}
    (h : zftape.Stands kernel segment v after rest) (hrest : rest ≠ []) {len : ℕ} (hpos : 0 < len)
    (hblock : len % v.blkSz = 0) :
    ∃ zftape', zftape.zftRead kernel len = (zftape', .ok (rest.take len)) ∧ zftape.Called zftape' ∧
      zftape'.marksAhead = after.length + 1 ∧
      zftape'.Stands kernel segment v after (rest.drop len) := by
  obtain ⟨start, within, hstart, hfilled, hcalled, hwithin, hsame⟩ := h
  obtain ⟨zftape', hread, hwithin'⟩ :=
    hwithin.zftRead_bytes kernel hstart hfilled hrest hpos hblock
  have hordered := (hstart.qic hfilled.qic).1
  have hmarks := hwithin'.called.marksAhead_eq hfilled hordered hwithin'.first
    (Nat.le_succ_of_le hwithin'.last)
  rw [if_pos hwithin'.last] at hmarks
  refine ⟨zftape', (hsame len).trans hread, ?_, hmarks, start, zftape', hstart, hfilled,
    hwithin'.called, hwithin', fun _ => rfl⟩
  have hcalled' := hwithin'.called
  obtain ⟨_, _, _, _, _, _, _, _, _, _, _, _, rfl⟩ := hcalled
  obtain ⟨_, _, _, _, _, _, _, _, _, _, _, _, rfl⟩ := hcalled'
  exact ⟨_, _, _, _, _, _, _, _, _, _, _, _, rfl⟩

/-- A call with nothing left of the volume. -/
theorem Reader.Stands.zftRead_mark {kernel : Kernel α} {zftape : Reader α} {segment : ℕ → ℕ → α}
    {v : Volinfo} {after : List Volinfo} (h : zftape.Stands kernel segment v after []) {len : ℕ}
    (hblock : len % v.blkSz = 0) :
    ∃ zftape', zftape.zftRead kernel len = (zftape', .ok []) ∧ zftape.Called zftape' ∧
      zftape'.marksAhead = after.length ∧
      ∀ w ws, after = w :: ws → zftape'.AtVolume w ∧ zftape'.Filled segment w ws ∧
        zftape'.Cached segment ∧ zftape'.justBeforeEof = false := by
  obtain ⟨start, within, hstart, hfilled, hcalled, hwithin, hsame⟩ := h
  obtain ⟨zftape', hread, hcalled', hidle, hcur, hseg, hbyte, hvolume, hjust, hheld⟩ :=
    hwithin.zftRead_mark kernel hstart hfilled hblock
  have hordered := (hstart.qic hfilled.qic).1
  have hle := (hfilled.endSeg_lt hordered).1
  have hmarks := hcalled'.marksAhead_eq hfilled hordered (by omega) (by omega)
  rw [if_neg (by omega)] at hmarks
  refine ⟨zftape', (hsame len).trans hread, ?_, hmarks, ?_⟩
  · obtain ⟨_, _, _, _, _, _, _, _, _, _, _, _, rfl⟩ := hcalled
    obtain ⟨_, _, _, _, _, _, _, _, _, _, _, _, rfl⟩ := hcalled'
    exact ⟨_, _, _, _, _, _, _, _, _, _, _, _, rfl⟩
  · rintro w ws rfl
    obtain ⟨hatVolume, hfilled'⟩ := hcalled'.atVolume hstart hfilled hidle hcur hseg hbyte hvolume
    refine ⟨hatVolume, hfilled', ?_, hjust⟩
    intro s hs
    rw [hheld] at hs
    cases hs

/-- One call of a run. -/
theorem Reader.oneReadPerMark_cons {kernel : Kernel α} {zftape zftape' : Reader α}
    {file : TapeFile α} {files : List (TapeFile α)} {len : ℕ}
    (hread : zftape.zftRead kernel len = (zftape', .ok (TapeFile.read (file :: files) len).2))
    (hmarks : zftape'.marksAhead = (TapeFile.read (file :: files) len).1.length) (lens : List ℕ) :
    (TapeFile.answers (file :: files) (len :: lens)).map (Prod.map Except.ok id) <+:
        zftape.answers kernel (len :: lens) ↔
      (TapeFile.answers (TapeFile.read (file :: files) len).1 lens).map (Prod.map Except.ok id) <+:
        zftape'.answers kernel lens := by
  simp only [TapeFile.answers, Reader.answers, hread, List.map_cons, Prod.map, id, hmarks,
    List.cons_prefix_cons, true_and]

/-- From where a device stands, with bytes in every volume behind, each mark takes one call. -/
theorem Reader.Stands.oneReadPerMark {kernel : Kernel α} {zftape : Reader α} {segment : ℕ → ℕ → α}
    {v : Volinfo} {after : List Volinfo} {rest : List α}
    (h : zftape.Stands kernel segment v after rest) (hpositive : ∀ w ∈ after, 0 < w.size) :
    zftape.OneReadPerMark kernel (zftape.filesFrom segment v after rest) := by
  intro lens hasked
  induction lens generalizing zftape v after rest with
  | nil => exact List.nil_prefix
  | cons len lens ih =>
    obtain ⟨hpos, hblock, hasked⟩ := hasked
    cases rest with
    | nil =>
      obtain ⟨zftape', hread, hcalled, hmarks, hnext⟩ := h.zftRead_mark hblock
      have hlength : zftape'.marksAhead = (zftape.files segment after).length := by
        rw [hmarks, files, List.length_map]
      refine (oneReadPerMark_cons hread hlength lens).mpr ?_
      cases after with
      | nil => simp [TapeFile.read, files, TapeFile.answers]
      | cons w ws =>
        obtain ⟨hstart, hfilled, hcached, -⟩ := hnext w ws rfl
        have hw := hstart.stands kernel hfilled hcached
          (Or.inl (hpositive w List.mem_cons_self))
        have hfiles : (TapeFile.read (zftape.filesFrom segment v (w :: ws) []) len).1 =
            zftape'.filesFrom segment w ws ((zftape'.content segment w).take w.size.toNat) :=
          (hcalled.files_eq segment (w :: ws)).symm
        have hasked' : TapeFile.Asked (TapeFile.read (zftape.filesFrom segment v (w :: ws) []) len).1 lens :=
          hasked
        rw [hfiles] at hasked'
        have hrun := ih hw (fun x hx => hpositive x (List.mem_cons_of_mem w hx)) hasked'
        rw [← hfiles] at hrun
        exact hrun
    | cons a rest =>
      obtain ⟨zftape', hread, hcalled, hmarks, hstands⟩ := h.zftRead_bytes (List.cons_ne_nil a rest) hpos hblock
      have hlength : zftape'.marksAhead =
          (TapeFile.read (zftape.filesFrom segment v after (a :: rest)) len).1.length := by
        rw [hmarks, filesFrom, TapeFile.read, List.length_cons, files, List.length_map]
      refine (oneReadPerMark_cons hread hlength lens).mpr ?_
      have hfiles : (TapeFile.read (zftape.filesFrom segment v after (a :: rest)) len).1 =
          zftape'.filesFrom segment v after ((a :: rest).drop len) := by
        rw [filesFrom, TapeFile.read, filesFrom, hcalled.files_eq]
      have hasked' : TapeFile.Asked (TapeFile.read (zftape.filesFrom segment v after (a :: rest)) len).1 lens :=
        hasked
      rw [hfiles] at hasked'
      have hrun := ih hstands hpositive hasked'
      rw [← hfiles] at hrun
      exact hrun

/-- What holds of every run holds of every run behind a call. -/
theorem Reader.OneReadPerMark.after_call {kernel : Kernel α} {zftape zftape' : Reader α}
    {file : TapeFile α} {files : List (TapeFile α)} {len : ℕ}
    (h : zftape.OneReadPerMark kernel (file :: files)) (hpos : 0 < len) (hblock : len % file.blkSz = 0)
    (hread : zftape.zftRead kernel len = (zftape', .ok (TapeFile.read (file :: files) len).2))
    (hmarks : zftape'.marksAhead = (TapeFile.read (file :: files) len).1.length) :
    zftape'.OneReadPerMark kernel (TapeFile.read (file :: files) len).1 := by
  intro lens hasked
  exact (oneReadPerMark_cons hread hmarks lens).mp (h (len :: lens) ⟨hpos, hblock, hasked⟩)

/-- The first call on a volume without a byte that skipping has not reached stays in front of the
mark. -/
theorem Reader.AtVolume.zftRead_empty (kernel : Kernel α) {zftape : Reader α} {v : Volinfo}
    (h : zftape.AtVolume v) (hsize : v.size = 0) (hend : v.startSeg = v.endSeg)
    (hjust : zftape.justBeforeEof = false) {len : ℕ} (hblock : len % v.blkSz = 0) :
    ∃ zftape', zftape.zftRead kernel len = (zftape', .ok []) ∧ zftape.Called zftape' ∧
      zftape'.pos.segPos = v.endSeg := by
  have hopen : zftape.zftRead kernel len = (zftape.opened v).zftRead kernel len := h.zftRead_eq len
  have hsize' : (zftape.opened v).remaining ≤ 0 := hsize.le
  have hbehind := @zftRead_behind α kernel (zftape.opened v) rfl rfl h.closed h.lookup.2 hsize' len hblock
  have hread := hopen.trans hbehind
  have hhere : zftape.pos.segPos = v.endSeg := h.segPos.trans hend
  have hmark : ¬(zftape.justBeforeEof = true ∧ 0 = 0) := fun hmark =>
    Bool.false_ne_true (hjust.symm.trans hmark.1)
  obtain ⟨pos, heof, hpos⟩ := @atEof_of_upTo α { zftape.opened v with
    resid := len, remaining := (zftape.opened v).remaining - len } 0 hmark
    (Or.inl (Nat.lt_succ_of_le hhere.le)) hhere.ge
  rw [heof] at hread
  exact ⟨_, hread, ⟨_, _, _, _, _, _, _, _, _, _, _, _, rfl⟩, hpos⟩

/-- Such a volume takes a call more than its mark. -/
theorem Reader.AtVolume.not_oneReadPerMark {kernel : Kernel α} {zftape : Reader α}
    {segment : ℕ → ℕ → α} {v : Volinfo} {after : List Volinfo} (h : zftape.AtVolume v)
    (hfilled : zftape.Filled segment v after) (hsize : v.size = 0)
    (hjust : zftape.justBeforeEof = false) :
    ¬zftape.OneReadPerMark kernel (zftape.files segment (v :: after)) := by
  intro hone
  have hend : v.startSeg = v.endSeg := by
    rcases hfilled.ends v List.mem_cons_self with ⟨-, heq⟩ | ⟨hlow, -⟩
    · exact heq
    · omega
  have hblock : v.blkSz % v.blkSz = 0 := Nat.mod_self _
  obtain ⟨zftape', hread, hcalled, hpos⟩ := h.zftRead_empty kernel hsize hend hjust hblock
  have hmarks := hcalled.marksAhead_eq hfilled (h.qic hfilled.qic).1 (hend.trans hpos.symm).le
    (Nat.le_succ_of_le hpos.le)
  rw [if_pos hpos.le] at hmarks
  have hasked : TapeFile.Asked (zftape.files segment (v :: after)) [v.blkSz] := by
    refine ⟨hfilled.block v List.mem_cons_self, hblock, ?_⟩
    generalize (TapeFile.read _ _).1 = files
    cases files <;> trivial
  have hanswers := hone _ hasked
  simp only [files, List.map_cons, hsize, Int.toNat_zero, List.take_zero, TapeFile.answers,
    TapeFile.read, Reader.answers, hread, Prod.map, id, List.length_map, hmarks] at hanswers
  have hpair := (List.cons_prefix_cons.mp hanswers).1
  exact absurd (congrArg Prod.snd hpair) (Nat.succ_ne_self _).symm

/-- The first volume has a byte, or was reached by skipping. -/
theorem Reader.AtVolume.mark_of_oneReadPerMark {kernel : Kernel α} {zftape : Reader α}
    {segment : ℕ → ℕ → α} {v : Volinfo} {after : List Volinfo} (h : zftape.AtVolume v)
    (hfilled : zftape.Filled segment v after)
    (hone : zftape.OneReadPerMark kernel (zftape.files segment (v :: after))) :
    0 < v.size ∨ zftape.justBeforeEof = true := by
  by_contra hnot
  push Not at hnot
  have hsize : v.size = 0 := by
    rcases hfilled.ends v List.mem_cons_self with ⟨hzero, -⟩ | ⟨hlow, -⟩
    · exact hzero
    · omega
  exact h.not_oneReadPerMark hfilled hsize (Bool.eq_false_iff.mpr hnot.2) hone

/-- A call for the mark leads from a volume to the next. -/
theorem Reader.OneReadPerMark.next_volume {kernel : Kernel α} {zftape : Reader α}
    {segment : ℕ → ℕ → α} {v w : Volinfo} {ws : List Volinfo}
    (hone : zftape.OneReadPerMark kernel (zftape.filesFrom segment v (w :: ws) []))
    (hstands : zftape.Stands kernel segment v (w :: ws) []) (hblk : 0 < v.blkSz) :
    ∃ zftape' : Reader α, zftape'.AtVolume w ∧ zftape'.Filled segment w ws ∧ zftape'.Cached segment ∧
      zftape'.justBeforeEof = false ∧
      zftape'.OneReadPerMark kernel (zftape'.files segment (w :: ws)) := by
  obtain ⟨zftape', hread, hcalled, hmarks, hnext⟩ := hstands.zftRead_mark (Nat.mod_self v.blkSz)
  obtain ⟨hvolume, hfilled, hcached, hjust⟩ := hnext w ws rfl
  refine ⟨zftape', hvolume, hfilled, hcached, hjust, ?_⟩
  rw [hcalled.files_eq]
  apply hone.after_call hblk (Nat.mod_self v.blkSz) hread
  rw [hmarks, TapeFile.read, files, List.length_map]

/-- A call for all that is left of a volume, and then one for the mark. -/
theorem Reader.OneReadPerMark.rest_volume {kernel : Kernel α} {zftape : Reader α}
    {segment : ℕ → ℕ → α} {v w : Volinfo} {ws : List Volinfo} {rest : List α}
    (hone : zftape.OneReadPerMark kernel (zftape.filesFrom segment v (w :: ws) rest))
    (hstands : zftape.Stands kernel segment v (w :: ws) rest) (hblk : 0 < v.blkSz) :
    ∃ zftape' : Reader α, zftape'.AtVolume w ∧ zftape'.Filled segment w ws ∧ zftape'.Cached segment ∧
      zftape'.justBeforeEof = false ∧
      zftape'.OneReadPerMark kernel (zftape'.files segment (w :: ws)) := by
  cases rest with
  | nil => exact hone.next_volume hstands hblk
  | cons a rest =>
    have hlength : (a :: rest).length ≤ v.blkSz * (a :: rest).length := Nat.le_mul_of_pos_left _ hblk
    have hpos : 0 < v.blkSz * (a :: rest).length := Nat.mul_pos hblk (Nat.succ_pos _)
    have hblock : v.blkSz * (a :: rest).length % v.blkSz = 0 := Nat.mul_mod_right _ _
    obtain ⟨zftape', hread, hcalled, hmarks, hstands'⟩ :=
      hstands.zftRead_bytes (List.cons_ne_nil a rest) hpos hblock
    have hall : (a :: rest).drop (v.blkSz * (a :: rest).length) = [] := List.drop_of_length_le hlength
    have hmarks' : zftape'.marksAhead = (TapeFile.read (zftape.filesFrom segment v (w :: ws) (a :: rest))
        (v.blkSz * (a :: rest).length)).1.length := by
      simp only [hmarks, filesFrom, TapeFile.read, files, List.length_cons, List.length_map]
    have hone' : zftape'.OneReadPerMark kernel (TapeFile.read
        (zftape.filesFrom segment v (w :: ws) (a :: rest)) (v.blkSz * (a :: rest).length)).1 :=
      hone.after_call hpos hblock hread hmarks'
    have hfiles : (TapeFile.read (zftape.filesFrom segment v (w :: ws) (a :: rest))
        (v.blkSz * (a :: rest).length)).1 = zftape'.filesFrom segment v (w :: ws) [] := by
      simp only [filesFrom, TapeFile.read, hcalled.files_eq, hall]
    rw [hfiles] at hone'
    rw [hall] at hstands'
    exact hone'.next_volume hstands' hblk

/-- In a run from the start of a volume each mark takes one call just if no volume without a byte
is met, other than one that skipping has reached. -/
theorem Reader.AtVolume.oneReadPerMark_iff (kernel : Kernel α) {zftape : Reader α}
    {segment : ℕ → ℕ → α} {v : Volinfo} {after : List Volinfo} (hvolume : zftape.AtVolume v)
    (hcached : zftape.Cached segment) (hfilled : zftape.Filled segment v after) :
    zftape.OneReadPerMark kernel (zftape.files segment (v :: after)) ↔
      (0 < v.size ∨ zftape.justBeforeEof = true) ∧ ∀ w ∈ after, 0 < w.size := by
  constructor
  · intro hone
    induction after generalizing zftape v with
    | nil =>
      refine ⟨hvolume.mark_of_oneReadPerMark hfilled hone, ?_⟩
      intro w hw
      cases hw
    | cons w ws ih =>
      have hmark := hvolume.mark_of_oneReadPerMark hfilled hone
      obtain ⟨zftape', hvolume', hfilled', hcached', hjust, hone'⟩ :=
        OneReadPerMark.rest_volume hone (hvolume.stands kernel hfilled hcached hmark)
          (hfilled.block v List.mem_cons_self)
      obtain ⟨hmark', hpositive⟩ := ih hvolume' hcached' hfilled' hone'
      rw [hjust] at hmark'
      refine ⟨hmark, fun x hx => ?_⟩
      rcases List.mem_cons.mp hx with rfl | hx
      · exact hmark'.resolve_right Bool.false_ne_true
      · exact hpositive x hx
  · rintro ⟨hmark, hpositive⟩
    exact (hvolume.stands kernel hfilled hcached hmark).oneReadPerMark hpositive

/-- Segments of one sector of payload, with a volume of a segment in front of two volumes of `size`
bytes, a segment each. -/
def markReader (size : ℤ) : Reader Byte :=
  { sampleReader 1024 with
    table := ⟨[⟨5, 5, 1024, 1024, 1024, false⟩, ⟨6, 6, size, 1024, 1024, false⟩,
      ⟨7, 7, size, 1024, 1024, false⟩], ⟨8, 32, 0, 0, 1024, false⟩⟩ }

/-- The sample stands at the start of its first volume. -/
theorem markReader_atVolume (size : ℤ) :
    (markReader size).AtVolume ⟨5, 5, 1024, 1024, 1024, false⟩ where
  idle := rfl
  online := rfl
  formatted := rfl
  segPos := rfl
  segBytePos := rfl
  volumePos := rfl
  curVtbl := by simp [markReader, sampleReader]
  qic := fun _ => ⟨⟨by simp [markReader, VolumeTable.entries], by simp [markReader, VolumeTable.entries]⟩,
    by simp [markReader]⟩
  raw := fun h => by cases h
  closed := by simp [Reader.Closed, markReader]
  onTape := by simp [Reader.mediaEnd, markReader, sampleReader]

/-- Its volumes fill the recorded media. -/
theorem markReader_filled {size : ℤ} (hsize : size = 0 ∨ size = 1024) :
    (markReader size).Filled (fun s _ => s) ⟨5, 5, 1024, 1024, 1024, false⟩
      [⟨6, 6, size, 1024, 1024, false⟩, ⟨7, 7, size, 1024, 1024, false⟩] where
  qic := rfl
  volumes := ⟨[], rfl⟩
  adjacent := by simp [markReader]
  ends := by
    have hone : ∀ s, (markReader size).EndsInLast (fun s _ => s) ⟨s, s, 1024, 1024, 1024, false⟩ := by
      intro s
      right
      rw [stretch_succ (Nat.le_refl s), stretch_of_le (Nat.le_refl s), List.nil_append,
        Reader.payload_length]
      have hsegment : (markReader size).zftGetSegSz s = 1024 := by
        change (markReader 0).zftGetSegSz 0 = 1024
        decide +kernel
      simp [hsegment]
    have hempty : ∀ s, (markReader size).EndsInLast (fun s _ => s) ⟨s, s, 0, 1024, 1024, false⟩ :=
      fun s => Or.inl ⟨rfl, rfl⟩
    rcases hsize with rfl | rfl
    · simp only [List.forall_mem_cons]
      exact ⟨hone 5, hempty 6, hempty 7, by simp⟩
    · simp only [List.forall_mem_cons]
      exact ⟨hone 5, hone 6, hone 7, by simp⟩
  block := by simp
  readable := fun _ _ _ => rfl

/-- Three volumes of a segment each: every mark takes one call. -/
theorem Reader.AtVolume.oneReadPerMark_three_volumes :
    (markReader 1024).OneReadPerMark sampleKernel ((markReader 1024).files (fun s _ => s)
      [⟨5, 5, 1024, 1024, 1024, false⟩, ⟨6, 6, 1024, 1024, 1024, false⟩,
        ⟨7, 7, 1024, 1024, 1024, false⟩]) :=
  (Reader.AtVolume.oneReadPerMark_iff sampleKernel (markReader_atVolume 1024)
    (by simp [Reader.Cached, markReader, sampleReader]) (markReader_filled (Or.inr rfl))).mpr (by simp)

/-- Behind a volume of a segment, two volumes without a byte take two calls each. -/
theorem Reader.AtVolume.oneReadPerMark_empty_volumes :
    (markReader 0).AtVolume ⟨5, 5, 1024, 1024, 1024, false⟩ ∧
      TapeFile.Asked ((markReader 0).files (fun s _ => s) (markReader 0).table.volumes)
        [1024, 1024, 1024, 1024] ∧
      ¬(markReader 0).OneReadPerMark sampleKernel
        ((markReader 0).files (fun s _ => s) (markReader 0).table.volumes) := by
  have hasked : TapeFile.Asked ((markReader 0).files (fun s _ => s) (markReader 0).table.volumes)
      [1024, 1024, 1024, 1024] := by decide +kernel
  refine ⟨markReader_atVolume 0, hasked, fun hone => ?_⟩
  have hmarks := (hone _ hasked).map Prod.snd
  revert hmarks
  decide +kernel

end Ftape.Zftape
