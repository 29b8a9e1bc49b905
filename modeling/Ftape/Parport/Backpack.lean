import Ftape.Parport.Crc
import Ftape.Zftape.Fetch

/-!
# Reading from a Backpack drive

The drive has the segment buffers in its own memory, and the driver fetches a buffer through the parallel
port when it is needed. The drive takes the checksum of what it sends, the driver that of what it gets. A
transfer that fails the comparison is repeated once. As far as the checksum can tell, the line may do
what it likes: a buffer that is handed out is the one in the memory of the drive.
-/

namespace Ftape.Parport

open Ftape.Algebra Ftape.Write Ftape.Zftape

/-- `BPCK_FDC_POLL_SIZE`. -/
def bpckFdcPollSize : ℕ := 512

/-- What the drive answers while a buffer is read: the bytes as they arrive, `FT_BPCK_STAT_ECC_ERROR`, and
the checksum register. -/
structure Answer where
  received : ℕ → Byte
  eccError : Bool
  crc : BitVec 16

/-- `crc` of `bpck_fdc_t`, and `buffer`, which is the memory of each buffer of the ring. -/
structure Bpck where
  crc : BitVec 16
  buffer : ℕ → Byte

section Transfer

variable (answer : Answer)

/-- The loops that read the data, with a look at the interrupts in front of each piece. -/
def pollLoop (limit : ℕ) : ℕ → ℕ × (ℕ → Byte) → ℕ × (ℕ → Byte)
  | 0, s => s
  | rounds + 1, (i, virtual) =>
    if i < limit then
      pollLoop limit rounds (i + bpckFdcPollSize, blit virtual i answer.received i bpckFdcPollSize)
    else (i, virtual)

/-- `bpck_fdc_crc_check()`: whether the checksums differ. -/
def bpckFdcCrcCheck (bpck : Bpck) : Bool × Bpck := (answer.crc ≠ bpck.crc, { bpck with crc := 0xffff })

/-- The size that `bpck_fdc_read()` starts with, an `unsigned int`. -/
@[irreducible] def firstSize (passEcc : Bool) (bytes : ℕ) : ℕ :=
  if passEcc then bytes else (bytes + 2 ^ 32 - ftEccSectors * ftSectorSize) % 2 ^ 32

/-- The part of `bpck_fdc_read()` that fetches the data: without the error correction sectors at first,
and these as well if the drive has found an error. -/
def readData (passEcc : Bool) (bytes : ℕ) (virtual : ℕ → Byte) : ℕ × (ℕ → Byte) :=
  let size := firstSize passEcc bytes
  let read := pollLoop answer size size (0, virtual)
  if answer.eccError then pollLoop answer bytes bytes read else read

/-- `bpck_fdc_read()`. -/
def bpckFdcRead (passEcc : Bool) (bytes : ℕ) (bpck : Bpck) : BpckError × Bpck :=
  let read := readData answer passEcc bytes bpck.buffer
  let result : BpckError := if answer.eccError then .eccError else .noError
  let check := bpckFdcCrcCheck answer
    { bpck with buffer := read.2, crc := bpckFdcGenerateCrc bpck.crc (window read.2 0 read.1) }
  (if check.1 then .crcError else result, check.2)

end Transfer

section Driver

variable (controller : Controller) {setting : Isr.Setting} (passEcc : Bool) (ring : RingBuffer setting)

/-- The end of `bpck_fdc_correct_and_copy()`. -/
def finishRead : BpckError × Bpck → Bpck × Except Errno ℕ
  | (.noError, bpck) => (bpck, .ok (ring.buff.bytes - 3 * ftSectorSize))
  | (.eccError, bpck) =>
    match ftapeEccCorrect controller ring bpck.buffer with
    | (memory, .ok _) => ({ bpck with buffer := memory }, .ok (ring.buff.bytes - 3 * ftSectorSize))
    | (memory, .error errno) => ({ bpck with buffer := memory }, .error errno)
  | (.crcError, bpck) => (bpck, .error .eio)

/-- `bpck_fdc_correct_and_copy()`, with the answers of the drive to the first transfer and to the second. -/
def bpckFdcCorrectAndCopy (first second : Answer) (bpck : Bpck) : Bpck × Except Errno ℕ :=
  if ring.buff.bytes ≤ 3 * ftSectorSize then (bpck, .ok 0)
  else
    let (result, bpck) := bpckFdcRead first passEcc ring.buff.bytes bpck
    if result = .crcError then
      finishRead controller ring (bpckFdcRead second passEcc ring.buff.bytes bpck)
    else finishRead controller ring (result, bpck)

end Driver

/-- What the line does to data: nothing, or it changes a run of up to sixteen bits, or an odd number of bits. -/
inductive Damage (sent received : List Byte) : Prop
  | burst (front a b back : List Bool) (hsent : dataBits sent = front ++ a ++ back)
      (hreceived : dataBits received = front ++ b ++ back) (hlength : a.length = b.length)
      (hshort : a.length ≤ 16)
  | odd (hlength : sent.length = received.length)
      (hparity : (dataBits sent).count true % 2 ≠ (dataBits received).count true % 2)

/-- The bytes that `bpck_fdc_read()` transfers. -/
def Answer.transferred (passEcc : Bool) (bytes : ℕ) (answer : Answer) : ℕ :=
  polled (if answer.eccError then bytes else firstSize passEcc bytes)

/-- An answer of a drive with this memory: the line may damage the data, the checksum is that of the data
that was sent. -/
structure Answer.From (passEcc : Bool) (bytes : ℕ) (memory : ℕ → Byte) (answer : Answer) : Prop where
  crc : answer.crc = bpckFdcGenerateCrc 0xffff (window memory 0 (answer.transferred passEcc bytes))
  damage : Damage (window memory 0 (answer.transferred passEcc bytes))
    (window answer.received 0 (answer.transferred passEcc bytes))

section Checksums

/-- The bits of two parts. -/
theorem dataBits_append (a b : List Byte) : dataBits (a ++ b) = dataBits a ++ dataBits b := List.flatMap_append

/-- A line that leaves the data as it is. -/
theorem Damage.refl (sent : List Byte) : Damage sent sent :=
  .burst [] [] [] (dataBits sent) rfl rfl rfl (Nat.zero_le _)

/-- A line that changes one byte. -/
theorem Damage.byte {memory received : ℕ → Byte} {k n : ℕ} (hk : k < n) (h : ∀ i, i ≠ k → received i = memory i) :
    Damage (window memory 0 n) (window received 0 n) := by
  obtain ⟨m, rfl⟩ := Nat.exists_eq_add_of_lt hk
  have hsplit : ∀ mem : ℕ → Byte, dataBits (window mem 0 (k + m + 1)) =
      dataBits (window mem 0 k) ++ byteBits (mem k) ++ dataBits (window mem (k + 1) m) := by
    intro mem
    rw [Nat.add_assoc, window_append, Nat.zero_add, window_succ, dataBits_append, List.append_assoc]
    rfl
  have hfront : window received 0 k = window memory 0 k := window_congr fun i hi => h (0 + i) (by omega)
  have hback : window received (k + 1) m = window memory (k + 1) m := window_congr fun i _ => h (k + 1 + i) (by omega)
  refine .burst _ (byteBits (memory k)) (byteBits (received k)) _ (hsplit memory) ?_ ?_ ?_
  · rw [hsplit received, hfront, hback]
  · simp [byteBits, topBits]
  · simp [byteBits, topBits]

/-- A byte is determined by its bits. -/
theorem byteBits_injective : Function.Injective byteBits := by
  intro a b h
  refine BitVec.eq_of_getMsbD_eq fun i hi => ?_
  have hbit := congrArg (fun bits : List Bool => bits.getD i false) h
  simpa [byteBits, topBits, List.getD_eq_getElem?_getD, hi] using hbit

/-- Data is determined by its bits. -/
theorem dataBits_injective {a b : List Byte} (h : dataBits a = dataBits b) : a = b := by
  induction a generalizing b with
  | nil =>
    have hlength := congrArg List.length h
    rw [dataBits_length, dataBits_length, List.length_nil] at hlength
    exact (List.length_eq_zero_iff.mp (by omega)).symm
  | cons byte a ih =>
    cases b with
    | nil =>
      have hlength := congrArg List.length h
      rw [dataBits_length, dataBits_length, List.length_nil, List.length_cons] at hlength
      omega
    | cons byte' b =>
      have hsplit : byteBits byte ++ dataBits a = byteBits byte' ++ dataBits b := h
      obtain ⟨hbyte, hrest⟩ := List.append_inj hsplit (by simp [byteBits, topBits])
      rw [byteBits_injective hbyte, ih hrest]

/-- The checksum tells damaged data from what was sent. -/
theorem Damage.eq_of_crc_eq {sent received : List Byte} (h : Damage sent received) {crc : BitVec 16}
    (hcrc : bpckFdcGenerateCrc crc sent = bpckFdcGenerateCrc crc received) : sent = received := by
  rw [bpckFdcGenerateCrc_eq, bpckFdcGenerateCrc_eq] at hcrc
  cases h with
  | burst front a b back hsent hreceived hlength hshort =>
    rw [hsent, hreceived] at hcrc
    by_cases heq : a = b
    · subst heq
      exact dataBits_injective (hsent.trans hreceived.symm)
    · exact absurd hcrc (shiftBits_ne_of_burst (by decide) crc hlength hshort heq)
  | odd hlength hparity =>
    have heven : (checkPolynomial crcPolynomial).eval 1 = 0 := by
      rw [checkPolynomial_crcPolynomial, Polynomial.eval_add, Polynomial.eval_add, Polynomial.eval_add]
      simp only [Polynomial.eval_pow, Polynomial.eval_X, Polynomial.eval_one, one_pow]
      decide
    refine absurd hcrc (shiftBits_ne_of_parity (by decide) crc heven ?_ hparity)
    rw [dataBits_length, dataBits_length, hlength]

end Checksums

section Reading

variable {answer : Answer} {passEcc : Bool} {bytes : ℕ} {bpck : Bpck}

/-- The loop reads whole pieces up to the limit. -/
theorem pollLoop_spec (answer : Answer) (limit rounds i : ℕ) (virtual : ℕ → Byte)
    (h : limit ≤ i + rounds * 512) :
    (pollLoop answer limit rounds (i, virtual)).1 = i + polled (limit - i) ∧
      ∀ a, (pollLoop answer limit rounds (i, virtual)).2 a =
        if i ≤ a ∧ a < i + polled (limit - i) then answer.received a else virtual a := by
  induction rounds generalizing i virtual with
  | zero =>
    have hnone : polled (limit - i) = 0 := by
      rw [polled]
      omega
    refine ⟨by rw [hnone]; rfl, fun a => ?_⟩
    rw [hnone, if_neg (by omega)]
    rfl
  | succ rounds ih =>
    rw [pollLoop, bpckFdcPollSize]
    split
    next hmore =>
      have hpiece : i + polled (limit - i) = i + 512 + polled (limit - (i + 512)) := by
        rw [polled, polled]
        omega
      obtain ⟨hend, hcontents⟩ := ih (i + 512) (blit virtual i answer.received i 512) (by omega)
      refine ⟨hend.trans hpiece.symm, fun a => ?_⟩
      rw [hcontents, hpiece]
      by_cases hin : i + 512 ≤ a ∧ a < i + 512 + polled (limit - (i + 512))
      · rw [if_pos hin, if_pos (by omega)]
      · rw [if_neg hin, blit]
        by_cases hpiece : i ≤ a ∧ a < i + 512
        · rw [if_pos hpiece, if_pos (by omega)]
          congr 1
          omega
        · rw [if_neg hpiece, if_neg (by omega)]
    next hdone =>
      have hnone : polled (limit - i) = 0 := by
        rw [polled]
        omega
      refine ⟨by rw [hnone]; rfl, fun a => ?_⟩
      rw [hnone, if_neg (by omega)]

/-- The pieces of a part and those of the rest are the pieces of the whole. -/
theorem polled_add {size : ℕ} (h : size ≤ bytes) : polled size + polled (bytes - polled size) = polled bytes := by
  rw [polled, polled, polled]
  omega

/-- The data that is fetched is what has arrived. -/
theorem readData_spec (answer : Answer) (virtual : ℕ → Byte) (hsize : firstSize passEcc bytes ≤ bytes) :
    (readData answer passEcc bytes virtual).1 = answer.transferred passEcc bytes ∧
      window (readData answer passEcc bytes virtual).2 0 (answer.transferred passEcc bytes) =
        window answer.received 0 (answer.transferred passEcc bytes) := by
  obtain ⟨hend, hcontents⟩ := pollLoop_spec answer (firstSize passEcc bytes) (firstSize passEcc bytes) 0 virtual
    (by omega)
  simp only [Nat.zero_add, Nat.sub_zero] at hend hcontents
  rw [readData, Answer.transferred]
  cases answer.eccError with
  | false =>
    simp only [Bool.false_eq_true, if_false]
    refine ⟨hend, window_congr fun a ha => ?_⟩
    rw [Nat.zero_add, hcontents, if_pos ⟨Nat.zero_le _, ha⟩]
  | true =>
    simp only [if_true]
    obtain ⟨hend', hcontents'⟩ := pollLoop_spec answer bytes bytes
      (pollLoop answer (firstSize passEcc bytes) (firstSize passEcc bytes) (0, virtual)).1
      (pollLoop answer (firstSize passEcc bytes) (firstSize passEcc bytes) (0, virtual)).2 (by omega)
    rw [Prod.mk.eta, hend, polled_add hsize] at hend' hcontents'
    refine ⟨hend', window_congr fun a ha => ?_⟩
    rw [Nat.zero_add, hcontents']
    split
    · rfl
    next hfront => rw [hcontents, if_pos ⟨Nat.zero_le _, by omega⟩]

/-- What a transfer ends with. -/
theorem bpckFdcRead_spec (answer : Answer) (bpck : Bpck) (hsize : firstSize passEcc bytes ≤ bytes) :
    (bpckFdcRead answer passEcc bytes bpck).2.crc = 0xffff ∧
      window (bpckFdcRead answer passEcc bytes bpck).2.buffer 0 (answer.transferred passEcc bytes) =
        window answer.received 0 (answer.transferred passEcc bytes) ∧
      (bpckFdcRead answer passEcc bytes bpck).1 =
        if answer.crc = bpckFdcGenerateCrc bpck.crc
            (window answer.received 0 (answer.transferred passEcc bytes)) then
          if answer.eccError then .eccError else .noError
        else .crcError := by
  obtain ⟨hend, hdata⟩ := readData_spec answer bpck.buffer hsize
  rw [bpckFdcRead]
  simp only [bpckFdcCrcCheck, hend, hdata]
  refine ⟨trivial, trivial, ?_⟩
  by_cases hsame : answer.crc = bpckFdcGenerateCrc bpck.crc
      (window answer.received 0 (answer.transferred passEcc bytes))
  · rw [if_pos hsame, if_neg (by simpa using hsame)]
  · rw [if_neg hsame, if_pos (by simpa using hsame)]

/-- A transfer passes the comparison exactly if the line did no damage. -/
theorem bpckFdcRead_of_from {memory : ℕ → Byte} (hsize : firstSize passEcc bytes ≤ bytes)
    (hcrc : bpck.crc = 0xffff) (hfrom : answer.From passEcc bytes memory) :
    (bpckFdcRead answer passEcc bytes bpck).1 =
      if window answer.received 0 (answer.transferred passEcc bytes) =
          window memory 0 (answer.transferred passEcc bytes) then
        if answer.eccError then .eccError else .noError
      else .crcError := by
  obtain ⟨-, -, hresult⟩ := bpckFdcRead_spec answer bpck hsize
  rw [hresult, hcrc, hfrom.crc]
  refine if_congr ⟨fun h => (hfrom.damage.eq_of_crc_eq h).symm, fun h => ?_⟩ rfl rfl
  rw [h]

end Reading

/-- A buffer is asked for: the memory of the drive for it, and its answers to two transfers. -/
structure Request (setting : Isr.Setting) (passEcc : Bool) where
  ring : RingBuffer setting
  memory : ℕ → Byte
  first : Answer
  second : Answer
  first_from : first.From passEcc ring.buff.bytes memory
  second_from : second.From passEcc ring.buff.bytes memory

section Requests

variable (controller : Controller) {setting : Isr.Setting} {passEcc : Bool}

/-- The answer brings the memory of the drive over. -/
def Request.Brings (request : Request setting passEcc) (answer : Answer) (buffer : ℕ → Byte) : Prop :=
  (answer = request.first ∨ answer = request.second) ∧
    window buffer 0 (answer.transferred passEcc request.ring.buff.bytes) =
      window request.memory 0 (answer.transferred passEcc request.ring.buff.bytes)

/-- The line has damaged both transfers. -/
def Request.Damaged (request : Request setting passEcc) : Prop :=
  ∀ answer, answer = request.first ∨ answer = request.second →
    window answer.received 0 (answer.transferred passEcc request.ring.buff.bytes) ≠
      window request.memory 0 (answer.transferred passEcc request.ring.buff.bytes)

/-- How a request may end: there is no data, the memory of the drive is in the buffer as it is or as the
error correction left it, or the line has damaged both transfers. -/
inductive Request.Ends (request : Request setting passEcc) : Bpck × Except Errno ℕ → Prop
  | empty (bpck : Bpck) (hempty : request.ring.buff.bytes ≤ 3 * ftSectorSize) : request.Ends (bpck, .ok 0)
  | intact (answer : Answer) (bpck : Bpck) (hgood : answer.eccError = false)
      (hbrings : request.Brings answer bpck.buffer) :
      request.Ends (bpck, .ok (request.ring.buff.bytes - 3 * ftSectorSize))
  | corrected (answer : Answer) (buffer : ℕ → Byte) (bpck : Bpck) (hbad : answer.eccError = true)
      (hbrings : request.Brings answer buffer)
      (hbuffer : bpck.buffer = (ftapeEccCorrect controller request.ring buffer).1) :
      request.Ends (bpck, (ftapeEccCorrect controller request.ring buffer).2.map fun _ =>
        request.ring.buff.bytes - 3 * ftSectorSize)
  | damaged (bpck : Bpck) (hdamaged : request.Damaged) : request.Ends (bpck, .error .eio)

/-- The requests are served one after the other. -/
def serve : List (Request setting passEcc) → Bpck → List (Bpck × Except Errno ℕ)
  | [], _ => []
  | request :: requests, bpck =>
    let outcome := bpckFdcCorrectAndCopy controller passEcc request.ring request.first request.second bpck
    outcome :: serve requests outcome.1

variable {controller} {request : Request setting passEcc} {bpck : Bpck}

/-- The size that `bpck_fdc_read()` starts with is no more than the buffer. -/
theorem firstSize_le (hdata : 3 * ftSectorSize < request.ring.buff.bytes) :
    firstSize passEcc request.ring.buff.bytes ≤ request.ring.buff.bytes := by
  have hbytes := request.ring.zapped.run_bytes request.ring.reports request.ring.mem
  rw [ftSectorSize] at hbytes hdata
  rw [firstSize, ftEccSectors, ftSectorSize]
  split
  · exact le_rfl
  · omega

/-- A transfer that passes is finished with the memory of the drive. -/
theorem Request.ends_finishRead {answer : Answer} (hanswer : answer = request.first ∨ answer = request.second)
    (hfrom : answer.From passEcc request.ring.buff.bytes request.memory)
    (hdata : 3 * ftSectorSize < request.ring.buff.bytes) (hcrc : bpck.crc = 0xffff)
    (hpassed : (bpckFdcRead answer passEcc request.ring.buff.bytes bpck).1 ≠ .crcError) :
    request.Ends controller
        (finishRead controller request.ring (bpckFdcRead answer passEcc request.ring.buff.bytes bpck)) ∧
      (finishRead controller request.ring
        (bpckFdcRead answer passEcc request.ring.buff.bytes bpck)).1.crc = 0xffff := by
  obtain ⟨hcrc', hbuffer, -⟩ := bpckFdcRead_spec answer bpck (firstSize_le hdata)
  have hresult := bpckFdcRead_of_from (firstSize_le hdata) hcrc hfrom
  generalize bpckFdcRead answer passEcc request.ring.buff.bytes bpck = read at *
  obtain ⟨result, bpck'⟩ := read
  dsimp only at hresult hpassed hbuffer hcrc'
  split at hresult
  next hsame =>
    have hbrings : request.Brings answer bpck'.buffer := ⟨hanswer, hbuffer.trans hsame⟩
    by_cases hecc : answer.eccError = true
    · rw [if_pos hecc] at hresult
      subst hresult
      rw [finishRead]
      cases hcorrect : ftapeEccCorrect controller request.ring bpck'.buffer with
      | mk memory outcome =>
        have hends : request.Ends controller ({ bpck' with buffer := memory },
            (ftapeEccCorrect controller request.ring bpck'.buffer).2.map fun _ =>
              request.ring.buff.bytes - 3 * ftSectorSize) :=
          Request.Ends.corrected answer bpck'.buffer _ hecc hbrings (by rw [hcorrect])
        rw [hcorrect] at hends
        cases outcome with
        | ok size => exact ⟨hends, hcrc'⟩
        | error errno => exact ⟨hends, hcrc'⟩
    · rw [if_neg hecc] at hresult
      subst hresult
      exact ⟨Request.Ends.intact answer bpck' (Bool.not_eq_true _ ▸ hecc) hbrings, hcrc'⟩
  next => exact absurd hresult hpassed

/-- A transfer that fails the comparison was damaged. -/
theorem Request.ne_of_crcError {answer : Answer}
    (hfrom : answer.From passEcc request.ring.buff.bytes request.memory)
    (hdata : 3 * ftSectorSize < request.ring.buff.bytes) (hcrc : bpck.crc = 0xffff)
    (hfailed : (bpckFdcRead answer passEcc request.ring.buff.bytes bpck).1 = .crcError) :
    window answer.received 0 (answer.transferred passEcc request.ring.buff.bytes) ≠
      window request.memory 0 (answer.transferred passEcc request.ring.buff.bytes) := by
  intro hsame
  rw [bpckFdcRead_of_from (firstSize_le hdata) hcrc hfrom, if_pos hsame] at hfailed
  split at hfailed
  · exact BpckError.noConfusion hfailed
  · exact BpckError.noConfusion hfailed

/-- One request. -/
theorem Request.ends_correctAndCopy (controller : Controller) (request : Request setting passEcc)
    (hcrc : bpck.crc = 0xffff) :
    request.Ends controller
        (bpckFdcCorrectAndCopy controller passEcc request.ring request.first request.second bpck) ∧
      (bpckFdcCorrectAndCopy controller passEcc request.ring request.first request.second bpck).1.crc =
        0xffff := by
  rw [bpckFdcCorrectAndCopy]
  split
  next hempty => exact ⟨Request.Ends.empty bpck hempty, hcrc⟩
  next hdata =>
    have hdata := not_le.mp hdata
    obtain ⟨hcrc₁, -, -⟩ := bpckFdcRead_spec request.first bpck (firstSize_le hdata)
    dsimp only
    split
    next hfirst =>
      by_cases hsecond : (bpckFdcRead request.second passEcc request.ring.buff.bytes
          (bpckFdcRead request.first passEcc request.ring.buff.bytes bpck).2).1 = .crcError
      · obtain ⟨hcrc₂, -, -⟩ := bpckFdcRead_spec request.second
          (bpckFdcRead request.first passEcc request.ring.buff.bytes bpck).2 (firstSize_le hdata)
        have hdamaged : request.Damaged := by
          rintro answer (rfl | rfl)
          · exact Request.ne_of_crcError request.first_from hdata hcrc hfirst
          · exact Request.ne_of_crcError request.second_from hdata hcrc₁ hsecond
        generalize bpckFdcRead request.second passEcc request.ring.buff.bytes
          (bpckFdcRead request.first passEcc request.ring.buff.bytes bpck).2 = read at hsecond hcrc₂ ⊢
        obtain ⟨result, bpck'⟩ := read
        subst hsecond
        exact ⟨Request.Ends.damaged bpck' hdamaged, hcrc₂⟩
      · exact Request.ends_finishRead (Or.inr rfl) request.second_from hdata hcrc₁ hsecond
    next hpassed => exact Request.ends_finishRead (Or.inl rfl) request.first_from hdata hcrc hpassed

/-- A drive that is read through a line with bursts of errors hands out its own memory: whatever buffers are
asked for, each of them arrives, is corrected, or is reported as damaged if both of its transfers were. -/
theorem serve_ends (controller : Controller) (requests : List (Request setting passEcc)) (buffer : ℕ → Byte) :
    List.Forall₂ (fun request outcome => request.Ends controller outcome) requests
      (serve controller requests ⟨0xffff, buffer⟩) := by
  have hrun : ∀ bpck : Bpck, bpck.crc = 0xffff →
      List.Forall₂ (fun request outcome => request.Ends controller outcome) requests
        (serve controller requests bpck) := by
    induction requests with
    | nil => exact fun _ _ => List.Forall₂.nil
    | cons request requests ih =>
      intro bpck hcrc
      obtain ⟨hends, hcrc'⟩ := request.ends_correctAndCopy controller hcrc
      exact List.Forall₂.cons hends (ih _ hcrc')
  exact hrun _ rfl

/-- A buffer of which the drive finds no sector in error is handed out as it is in the memory of the drive, if the
line has not damaged both transfers. -/
theorem Request.Ends.of_good {outcome : Bpck × Except Errno ℕ} (h : request.Ends controller outcome)
    (hdata : 3 * ftSectorSize < request.ring.buff.bytes) (hgood : ¬request.Damaged)
    (hecc : ∀ answer, answer = request.first ∨ answer = request.second → answer.eccError = false) :
    outcome.2 = .ok (request.ring.buff.bytes - 3 * ftSectorSize) ∧
      window outcome.1.buffer 0 (polled (firstSize passEcc request.ring.buff.bytes)) =
        window request.memory 0 (polled (firstSize passEcc request.ring.buff.bytes)) := by
  cases h with
  | empty bpck hempty => exact absurd hempty (not_le.mpr hdata)
  | intact answer bpck hanswer hbrings =>
    obtain ⟨-, hmemory⟩ := hbrings
    rw [Answer.transferred, hanswer, if_neg Bool.false_ne_true] at hmemory
    exact ⟨rfl, hmemory⟩
  | corrected answer buffer bpck hbad hbrings =>
    rw [hecc answer hbrings.1] at hbad
    cases hbad
  | damaged bpck hdamaged => exact absurd hdamaged hgood

end Requests

/-- What a drive sends of segment 5 of the spotted tape, with the bits of some byte changed by the line. -/
def spottedAnswer (change : ℕ → Byte) : Answer where
  received := fun i => spottedRead.virtual i ^^^ change i
  eccError := false
  crc := bpckFdcGenerateCrc 0xffff (window spottedRead.virtual 0 (polled (firstSize false spottedRead.buff.bytes)))

/-- Without an error, the error correction sectors are not transferred. -/
theorem transferred_spottedAnswer (change : ℕ → Byte) (bytes : ℕ) :
    (spottedAnswer change).transferred false bytes = polled (firstSize false bytes) :=
  congrArg polled (if_neg Bool.false_ne_true)

/-- The answer of the drive, if the line changes it like this. -/
theorem spottedAnswer_from {change : ℕ → Byte}
    (h : Damage (window spottedRead.virtual 0 (polled (firstSize false spottedRead.buff.bytes)))
      (window (spottedAnswer change).received 0 (polled (firstSize false spottedRead.buff.bytes)))) :
    (spottedAnswer change).From false spottedRead.buff.bytes spottedRead.virtual where
  crc := by
    rw [transferred_spottedAnswer]
    rfl
  damage := by
    rw [transferred_spottedAnswer]
    exact h

/-- A buffer whose first transfer is damaged in the byte at 700, and whose second transfer is good. -/
def damagedOnce : Request Isr.spottedTape false where
  ring := spottedRead
  memory := spottedRead.virtual
  first := spottedAnswer fun i => if i = 700 then 0x5a else 0
  second := spottedAnswer fun _ => 0
  first_from := by
    have hinside : 700 < polled (firstSize false spottedRead.buff.bytes) := by decide +kernel
    refine spottedAnswer_from (Damage.byte hinside fun i hi => ?_)
    change spottedRead.virtual i ^^^ (if i = 700 then 0x5a else 0) = spottedRead.virtual i
    rw [if_neg hi]
    exact BitVec.xor_zero
  second_from := by
    have hsame : (spottedAnswer fun _ => 0).received = spottedRead.virtual := funext fun _ => BitVec.xor_zero
    refine spottedAnswer_from ?_
    rw [hsame]
    exact Damage.refl _

/-- The damaged transfer is repeated, and the good one is handed out. -/
theorem serve_ends_damagedOnce :
    ∃ bpck : Bpck, serve ⟨.bpck, ⟨8, false, Or.inr rfl⟩, true⟩ [damagedOnce] ⟨0xffff, fun _ => 0⟩ =
        [(bpck, .ok (damagedOnce.ring.buff.bytes - 3 * ftSectorSize))] ∧
      window bpck.buffer 0 (polled (firstSize false damagedOnce.ring.buff.bytes)) =
        window damagedOnce.memory 0 (polled (firstSize false damagedOnce.ring.buff.bytes)) := by
  have hgood : ¬damagedOnce.Damaged := fun hdamaged =>
    hdamaged _ (.inr rfl) (window_congr fun i _ => BitVec.xor_zero)
  have hecc : ∀ answer, answer = damagedOnce.first ∨ answer = damagedOnce.second → answer.eccError = false := by
    rintro answer (rfl | rfl)
    · rfl
    · rfl
  have hdata : 3 * ftSectorSize < damagedOnce.ring.buff.bytes := by decide +kernel
  have hends := serve_ends ⟨.bpck, ⟨8, false, Or.inr rfl⟩, true⟩ [damagedOnce] fun _ => 0
  rw [serve, serve] at hends ⊢
  generalize bpckFdcCorrectAndCopy _ _ _ _ _ _ = outcome at hends ⊢
  obtain ⟨bpck, answer⟩ := outcome
  cases hends with
  | cons hends _ =>
    obtain ⟨rfl, hmemory⟩ := hends.of_good hdata hgood hecc
    exact ⟨bpck, rfl, hmemory⟩

end Ftape.Parport
