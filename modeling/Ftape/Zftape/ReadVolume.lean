import Ftape.Zftape.ReadStream
import Ftape.Zftape.StreamOrder
import Mathlib.Data.List.TakeWhile

/-!
# Reading a volume from its start

The volume table is looked up by segment. In a table in order the lookup of a segment of a volume
finds that volume, wherever the previous lookup ended. The first call at the start of a volume opens
it, and the calls hand out its stream.
-/

namespace Ftape.Zftape

open Ftape.Algebra Ftape.Write

variable {α : Type*}

/-- The volumes lie one behind the other, as the sanity check of the volume table demands. -/
structure VolumeTable.Ordered (table : VolumeTable) : Prop where
  sorted : table.entries.Pairwise fun v w => v.endSeg < w.startSeg
  filled : ∀ v ∈ table.entries, v.startSeg ≤ v.endSeg

/-- The walk forwards stops at the volume of the segment, or stays behind it. -/
theorem walkForwards_eq {before after : List Volinfo} {v : Volinfo} {segPos : ℕ} (cur : ℕ)
    (hbefore : ∀ w ∈ before, w.endSeg < segPos) (hv : segPos ≤ v.endSeg)
    (hafter : ∀ w ∈ after, segPos ≤ w.endSeg) :
    walkForwards (before ++ v :: after) segPos cur = max before.length cur := by
  have hstop : ∀ w ∈ v :: after, segPos ≤ w.endSeg := by
    intro w hw
    cases hw with
    | head => exact hv
    | tail _ hw => exact hafter w hw
  unfold walkForwards
  cases Nat.le_total cur before.length with
  | inl hcur =>
    have hpass : ∀ w ∈ before.drop cur, decide (w.endSeg < segPos) = true := by
      intro w hw
      exact decide_eq_true (hbefore w (List.mem_of_mem_drop hw))
    rw [List.drop_append_of_le_length hcur, List.takeWhile_append_of_pos hpass,
      List.takeWhile_cons_of_neg (by simpa using hv), List.append_nil, List.length_drop]
    omega
  | inr hcur =>
    have hnone : ((before ++ v :: after).drop cur).takeWhile (·.endSeg < segPos) = [] := by
      obtain ⟨n, rfl⟩ := Nat.exists_eq_add_of_le hcur
      have hdrop : ∀ w ∈ (before ++ v :: after).drop (before.length + n), w ∈ v :: after := by
        intro w hw
        rw [← List.drop_drop, List.drop_left] at hw
        exact List.mem_of_mem_drop hw
      rw [List.takeWhile_eq_nil_iff]
      intro hlength
      simpa using hstop _ (hdrop _ (List.get_mem _ ⟨0, hlength⟩))
    rw [hnone]
    simp [hcur]

/-- The walk backwards stops at the volume of the segment. -/
theorem walkBackwards_eq {before after : List Volinfo} {v : Volinfo} {segPos : ℕ} (cur : ℕ)
    (hv : v.startSeg ≤ segPos) (hafter : ∀ w ∈ after, segPos < w.startSeg)
    (hcur : before.length ≤ cur) (hlength : cur ≤ before.length + after.length) :
    walkBackwards (before ++ v :: after) segPos cur = before.length := by
  obtain ⟨n, rfl⟩ := Nat.exists_eq_add_of_le hcur
  have htake : (before ++ v :: after).take (before.length + n + 1) = before ++ v :: after.take n := by
    rw [Nat.add_assoc, List.take_length_add_append, List.take_succ_cons]
  have hpass : ∀ w ∈ (after.take n).reverse, decide (segPos < w.startSeg) = true := by
    intro w hw
    exact decide_eq_true (hafter w (List.mem_of_mem_take (List.mem_reverse.mp hw)))
  rw [walkBackwards, htake, List.reverse_append, List.reverse_cons, List.append_assoc,
    List.takeWhile_append_of_pos hpass, List.singleton_append, List.takeWhile_cons_of_neg (by simpa using hv),
    List.append_nil, List.length_reverse, List.length_take]
  omega

/-- A segment of a volume is looked up as that volume, wherever the previous lookup ended. -/
theorem Reader.zftVolumeBySegpos_of_ordered {zftape : Reader α} {before after : List Volinfo}
    {v : Volinfo} {segPos : ℕ} (hqic : zftape.qicMode = true) (hordered : zftape.table.Ordered)
    (hentries : zftape.table.entries = before ++ v :: after)
    (hcur : zftape.curVtbl ≤ zftape.table.volumes.length)
    (hstart : v.startSeg ≤ segPos) (hend : segPos ≤ v.endSeg) :
    zftape.zftVolumeBySegpos segPos = (before.length, v) := by
  obtain ⟨hsorted, hfilled⟩ := hordered
  rw [hentries] at hsorted hfilled
  obtain ⟨-, htail, hcross⟩ := List.pairwise_append.mp hsorted
  have hbefore : ∀ w ∈ before, w.endSeg < segPos := by
    intro w hw
    have := hcross w hw v List.mem_cons_self
    omega
  have hafter : ∀ w ∈ after, segPos < w.startSeg := by
    intro w hw
    have := List.rel_of_pairwise_cons htail hw
    omega
  have hafter_end : ∀ w ∈ after, segPos ≤ w.endSeg := by
    intro w hw
    have := hafter w hw
    have := hfilled w (by simp [hw])
    omega
  have hlength : zftape.table.volumes.length = before.length + after.length := by
    have := congrArg List.length hentries
    simp only [VolumeTable.entries, List.length_append, List.length_cons, List.length_nil] at this
    omega
  have hhead : ¬segPos < ((before ++ v :: after).headD zftape.table.eom).startSeg := by
    cases before with
    | nil => simpa using hstart
    | cons w before =>
      have := hbefore w List.mem_cons_self
      have := hfilled w (by simp)
      simp only [List.cons_append, List.headD_cons]
      omega
  have hforwards := walkForwards_eq zftape.curVtbl hbefore hend hafter_end
  have hbackwards := walkBackwards_eq (max before.length zftape.curVtbl) hstart hafter
    (Nat.le_max_left _ _) (by omega)
  simp only [zftVolumeBySegpos, hqic, if_true, hentries, if_neg hhead, hforwards, hbackwards]
  simp

/-- An idle device at the start of a volume: in qic mode one of a table in order, else that of the
raw device. -/
structure Reader.AtVolume (zftape : Reader α) (v : Volinfo) : Prop where
  idle : zftape.ioState = .idle
  online : zftape.offline = false
  formatted : zftape.formatted = true
  segPos : zftape.pos.segPos = v.startSeg
  segBytePos : zftape.pos.segBytePos = 0
  volumePos : zftape.pos.volumePos = 0
  curVtbl : zftape.curVtbl ≤ zftape.table.volumes.length
  qic : zftape.qicMode = true → zftape.table.Ordered ∧ v ∈ zftape.table.volumes
  raw : zftape.qicMode = false → v = zftape.tapeVtbl ∧ zftape.capacity = zftape.zftGetCapacity ∧
    zftape.zftFirstSegment ≤ zftape.lastDataSegment
  closed : zftape.Closed
  onTape : zftape.mediaEnd ≤ zftape.segments

/-- The payloads from the start of a volume to the end of the recorded media. -/
def Reader.content (zftape : Reader α) (segment : ℕ → ℕ → α) (v : Volinfo) : List α :=
  stretch (zftape.payload segment) v.startSeg zftape.mediaEnd

/-- The raw device has the size of its content. -/
theorem Reader.content_tapeVtbl (zftape : Reader α) (segment : ℕ → ℕ → α)
    (hqic : zftape.qicMode = false) :
    (zftape.content segment zftape.tapeVtbl).length = zftape.zftGetCapacity := by
  have hend : zftape.mediaEnd = zftape.lastDataSegment + 1 := by
    rw [mediaEnd, hqic, if_neg Bool.false_ne_true]
  have hlength : ∀ s, (zftape.payload segment s).length = zftape.zftGetSegSz s :=
    zftape.payload_length segment
  simp only [content, hend, stretch, List.length_flatMap, hlength]
  rfl

/-- The volume at the position is found, in front of the end of the recorded media. -/
theorem Reader.AtVolume.lookup {zftape : Reader α} {v : Volinfo} (h : zftape.AtVolume v) :
    (zftape.zftVolumeBySegpos zftape.pos.segPos).2 = v ∧ zftape.pos.segPos < zftape.mediaEnd := by
  cases hqic : zftape.qicMode with
  | true =>
    obtain ⟨hordered, hmem⟩ := h.qic hqic
    obtain ⟨before, after, hvolumes⟩ := List.append_of_mem hmem
    have hentries : zftape.table.entries = before ++ v :: (after ++ [zftape.table.eom]) := by
      rw [VolumeTable.entries, hvolumes, List.append_assoc, List.cons_append]
    have hsorted := hordered.sorted
    rw [hentries] at hsorted
    have heom : v.endSeg < zftape.table.eom.startSeg :=
      List.rel_of_pairwise_cons (List.pairwise_append.mp hsorted).2.1 (by simp)
    have hfilled := hordered.filled v (by simp [hentries])
    rw [h.segPos, zftVolumeBySegpos_of_ordered hqic hordered hentries h.curVtbl (Nat.le_refl _) hfilled,
      mediaEnd, hqic, if_pos rfl]
    exact ⟨rfl, by omega⟩
  | false =>
    obtain ⟨hv, -, hfirst⟩ := h.raw hqic
    have hpos : zftape.pos.segPos = zftape.zftFirstSegment := h.segPos.trans (congrArg Volinfo.startSeg hv)
    rw [hpos, mediaEnd, hqic, if_neg Bool.false_ne_true]
    refine ⟨?_, by omega⟩
    have hlast : ¬zftape.lastDataSegment < zftape.zftFirstSegment := by omega
    simp only [zftVolumeBySegpos, hqic, if_neg Bool.false_ne_true, if_neg hlast, hv]

/-- The device once the first call has opened the volume. -/
def Reader.opened (zftape : Reader α) (v : Volinfo) : Reader α :=
  { zftape with
    bufLenRd := 0
    ioState := .reading
    eod := 0
    curVtbl := (zftape.zftVolumeBySegpos zftape.pos.segPos).1
    volume := v
    remaining := v.size }

/-- The first call reads on from the opened volume. -/
theorem Reader.AtVolume.zftRead_eq {kernel : Kernel α} {zftape : Reader α} {v : Volinfo}
    (h : zftape.AtVolume v) (len : ℤ) :
    zftape.zftRead kernel len = (zftape.opened v).zftRead kernel len := by
  obtain ⟨hvolume, hlt⟩ := h.lookup
  have hidle : ({ zftape with resid := len } : Reader α).ioState ≠ .reading := by
    rw [h.idle]
    decide
  have hmore : Reader.zftTapeAtEod { zftape with resid := len, bufLenRd := 0, ioState := .reading } = false :=
    zftTapeAtEod_of_lt _ h.closed hlt
  have hvolume' : (Reader.zftVolumeBySegpos
      { zftape with resid := len, bufLenRd := 0, ioState := .reading } zftape.pos.segPos).2 = v := hvolume
  have hopened : ({ zftape.opened v with resid := len } : Reader α).zftTapeAtEod = false :=
    zftTapeAtEod_of_lt _ h.closed hlt
  have haccess : Reader.checkReadAccess { zftape with resid := len } len =
      Reader.clipRequest { zftape.opened v with resid := len } len := by
    rw [checkReadAccess, if_pos hidle, if_neg (by simp [h.online]), if_neg (by simp [h.formatted])]
    simp only [hmore, h.volumePos, sub_zero]
    rw [if_neg Bool.false_ne_true, hvolume']
    rfl
  have haccess' := checkReadAccess_of_reading { zftape.opened v with resid := len } rfl rfl len
  rw [hopened, if_neg Bool.false_ne_true] at haccess'
  simp only [zftRead, haccess, haccess']

/-- A run from the start of a volume that the recorded media hold. -/
theorem Reader.AtVolume.readUntilEof_of_fits {zftape : Reader α} {v : Volinfo}
    {segment : ℕ → ℕ → α} {lens : List ℕ} (h : zftape.AtVolume v) (kernel : Kernel α) (hcached : zftape.Cached segment)
    (hlens : ∀ len ∈ lens, 0 < len ∧ len % v.blkSz = 0)
    (hfits : v.size ≤ (zftape.content segment v).length)
    (hread : ∀ s, v.startSeg ≤ s → s < zftape.mediaEnd →
      ((stretch (zftape.payload segment) v.startSeg s).length : ℤ) < min v.size lens.sum →
      zftape.readSegment s = .ok (segment s)) :
    ∃ eof, zftape.readUntilEof kernel lens =
        .ok (((zftape.content segment v).take v.size.toNat).take lens.sum, eof) ∧
      (eof = true → v.size ≤ lens.sum) := by
  have hlt := h.lookup.2
  rw [h.segPos] at hlt
  -- only the segments up to `reach` are needed
  obtain ⟨reach, hreach, hmedia, hwanted, hbegin⟩ :=
    exists_stretch_of_le (zftape.payload segment) (n := (min v.size lens.sum).toNat)
      (Nat.le_of_lt hlt) (by change _ ≤ (zftape.content segment v).length; omega)
  have hahead : (zftape.opened v).Ahead segment reach
      (stretch (zftape.payload segment) v.startSeg reach) := by
    refine ⟨hcached, ?_, Nat.le_trans hmedia h.onTape, h.segBytePos.ge, ?_, Or.inl ⟨rfl, h.segBytePos⟩⟩
    · intro s hs hs'
      have hs_start : v.startSeg ≤ s := h.segPos ▸ hs
      exact hread s hs_start (by omega) (by have := hbegin s hs_start hs'; omega)
    · change _ = ahead (zftape.payload segment) reach zftape.pos.segPos zftape.pos.segBytePos.toNat
      rw [h.segPos, h.segBytePos]
      rfl
  have hdelivers : (zftape.opened v).Delivers segment reach v.blkSz
      (stretch (zftape.payload segment) v.startSeg reach) :=
    ⟨rfl, rfl, h.closed, hmedia, rfl, fun _ => hahead⟩
  obtain ⟨eof, hrun, heof⟩ := hdelivers.readUntilEof_of_rest lens kernel hlens (by
    change min v.size _ ≤ _
    omega)
  have hsame : zftape.readUntilEof kernel lens = (zftape.opened v).readUntilEof kernel lens := by
    cases lens with
    | nil => rfl
    | cons len lens => rw [readUntilEof, readUntilEof, h.zftRead_eq]
  refine ⟨eof, ?_, heof⟩
  change (zftape.opened v).readUntilEof kernel lens = Except.ok (List.take lens.sum
    (List.take v.size.toNat _), eof) at hrun
  rw [hsame, hrun, List.take_take, List.take_take, content, stretch_take hreach hmedia (by omega)]

/-- Calls of any lengths from the start of a volume hand out the payloads from its start on, cut at
its size: what came before the first empty call is the whole of it. -/
theorem Reader.AtVolume.zftRead_stream (kernel : Kernel α) {zftape : Reader α} {v : Volinfo}
    {segment : ℕ → ℕ → α} {lens : List ℕ} (hvolume : zftape.AtVolume v)
    (hcached : zftape.Cached segment) (hlens : ∀ len ∈ lens, 0 < len ∧ len % v.blkSz = 0)
    (hfits : zftape.qicMode = true → v.size ≤ (zftape.content segment v).length)
    (hread : ∀ s, v.startSeg ≤ s → s < zftape.mediaEnd →
      ((stretch (zftape.payload segment) v.startSeg s).length : ℤ) < min v.size lens.sum →
      zftape.readSegment s = .ok (segment s)) :
    ∃ bytes eof, zftape.readUntilEof kernel lens = .ok (bytes, eof) ∧
      bytes = ((zftape.content segment v).take v.size.toNat).take lens.sum ∧
      (eof = true → bytes = (zftape.content segment v).take v.size.toNat) := by
  have hsize : v.size ≤ (zftape.content segment v).length := by
    cases hqic : zftape.qicMode with
    | true => exact hfits hqic
    | false =>
      obtain ⟨rfl, hcapacity, -⟩ := hvolume.raw hqic
      rw [content_tapeVtbl zftape segment hqic, ← hcapacity]
      exact Int.le_refl _
  obtain ⟨eof, hrun, heof⟩ :=
    hvolume.readUntilEof_of_fits kernel hcached hlens hsize hread
  refine ⟨_, eof, hrun, rfl, ?_⟩
  intro htrue
  apply List.take_of_length_le
  rw [List.length_take]
  have := heof htrue
  omega

/-- A tape of segments with one sector of payload, and a volume in the segments 5 and 6 whose entry
in the volume table gives `size`. -/
def sampleReader (size : ℤ) : Reader Byte where
  readSegment := fun s => .ok fun _ => s
  badSectorMap := fun _ => 0x0fffffff
  segments := 32
  firstDataSegment := 2
  lastDataSegment := 31
  offline := false
  formatted := true
  qicMode := true
  rawImage := false
  blkSz := 1024
  capacity := 30 * 1024
  table := ⟨[⟨5, 6, size, 2 * 1024, 1024, false⟩], ⟨7, 32, 0, 0, 1024, false⟩⟩
  curVtbl := 1
  ioState := .idle
  eod := 0
  pos := ⟨5, 0, 0, 3 * 1024⟩
  volume := ⟨7, 32, 0, 0, 1024, false⟩
  remaining := 0
  bufLenRd := 0
  segSz := 0
  deblockBuffer := fun _ => 0
  deblockSegment := none
  justBeforeEof := false
  resid := 0

/-- The sample stands at the start of its volume. -/
theorem sampleReader_atVolume (size : ℤ) :
    (sampleReader size).AtVolume ⟨5, 6, size, 2 * 1024, 1024, false⟩ where
  idle := rfl
  online := rfl
  formatted := rfl
  segPos := rfl
  segBytePos := rfl
  volumePos := rfl
  curVtbl := by simp [sampleReader]
  qic := fun _ => ⟨⟨by simp [sampleReader, VolumeTable.entries],
    by simp [sampleReader, VolumeTable.entries]⟩, by simp [sampleReader]⟩
  raw := fun h => by cases h
  closed := by simp [Reader.Closed, sampleReader]
  onTape := by simp [Reader.mediaEnd, sampleReader]

/-- Two segments read in three calls. -/
theorem Reader.AtVolume.zftRead_stream_two_segments :
    ∃ bytes eof, (sampleReader 2048).readUntilEof sampleKernel [1024, 1024, 1024] = .ok (bytes, eof) ∧
      bytes = (((sampleReader 2048).content (fun s _ => s) ⟨5, 6, 2048, 2 * 1024, 1024, false⟩).take
        2048).take 3072 ∧
      (eof = true → bytes = ((sampleReader 2048).content (fun s _ => s)
        ⟨5, 6, 2048, 2 * 1024, 1024, false⟩).take 2048) :=
  Reader.AtVolume.zftRead_stream sampleKernel (sampleReader_atVolume 2048) (by simp [Reader.Cached, sampleReader]) (by decide)
    (fun _ => by decide +kernel) (fun _ _ _ _ => rfl)

/-- The volume table gives a volume of two segments three segments of payload. What its calls hand out
then depends on how they cut the volume. -/
theorem Reader.AtVolume.zftRead_stream_oversized :
    (sampleReader 3072).AtVolume ⟨5, 6, 3072, 2 * 1024, 1024, false⟩ ∧
      (∀ s, ∃ buffer, (sampleReader 3072).readSegment s = .ok buffer) ∧
      ¬∃ content : List Byte, ∀ lens bytes, (∀ len ∈ lens, 0 < len ∧ len % 1024 = 0) →
        (sampleReader 3072).readUntilEof sampleKernel lens = .ok (bytes, true) → bytes = content := by
  refine ⟨sampleReader_atVolume 3072, fun s => ⟨_, rfl⟩, ?_⟩
  intro hexists
  obtain ⟨content, hcontent⟩ := hexists
  have hrun : ∀ lens n, (∀ len ∈ lens, 0 < len ∧ len % 1024 = 0) →
      ((sampleReader 3072).readUntilEof sampleKernel lens).toOption.map
        (fun run => (run.1.length, run.2)) = some (n, true) → content.length = n := by
    intro lens n hlens hlength
    cases hread : (sampleReader 3072).readUntilEof sampleKernel lens with
    | error errno =>
      rw [hread] at hlength
      cases hlength
    | ok run =>
      obtain ⟨bytes, eof⟩ := run
      rw [hread] at hlength
      obtain ⟨hbytes, rfl⟩ := Prod.mk.inj (Option.some.inj hlength)
      rw [← hcontent lens bytes hlens hread]
      exact hbytes
  have hsmall := hrun [1024, 1024, 1024] 2048 (by decide) (by decide +kernel)
  have hlarge := hrun [3072, 1024] 3072 (by decide) (by decide +kernel)
  omega

end Ftape.Zftape
