import Ftape.Compressor.Lzrw3

/-!
# Decompression ends

Whatever the compressed data is, each item writes, and the decompressor stops when it has written too much. How much
it has written depends on the items alone, and neither on the hash table nor on what the items copy.
-/

namespace Ftape.Compressor

open Ftape.Algebra

/-- Behind some items of a group, and whether they have written too much. -/
def passGroup (input : ℕ → Byte) (limit : ℕ) : ℕ → Place → Bool × Place
  | 0, place => (false, place)
  | unroll + 1, place =>
    if limit < (place.pastItem input).out then (true, place.pastItem input)
    else passGroup input limit unroll (place.pastItem input)

/-- The items that are unrolled at a place. -/
def unrolled (srcLen : ℤ) (place : Place) : ℕ := if place.src ≤ srcLen - (maxCmpGroup - 2 : ℕ) then 16 else 1

/-- The length of the output from a place on. -/
def outLength (input : ℕ → Byte) (srcLen : ℤ) (limit : ℕ) : ℕ → Place → ℕ
  | 0, _ => 0
  | rounds + 1, place =>
    if place.src = srcLen then place.out
    else
      match passGroup input limit (unrolled srcLen (place.loaded input)) (place.loaded input) with
      | (true, _) => 0
      | (false, place) => outLength input srcLen limit rounds place

/-- The length of what compressed or stored data stands for, or zero if that is too much. -/
def uncompressedLength (input : ℕ → Byte) (srcLen : ℤ) (limit : ℕ) : ℕ :=
  if srcLen < 0 then (-srcLen).toNat else outLength input srcLen limit (limit + 2) Place.first

section Items

variable {input : ℕ → Byte} {room limit : ℕ} {d : Decompressor} {place : Place}

/-- A byte of the input. -/
theorem readInput_ends (src : ℕ) : (readInput input room src).Ends fun byte => byte = input src :=
  Recorded.Ends.bind (Recorded.Ends.note _) fun _ _ => Recorded.Ends.pure rfl

/-- A byte that is copied. -/
theorem read_ends (p : Pointer) : (d.read room p).Ends fun _ => True := by
  cases p with
  | startString offset => exact Recorded.Ends.bind (Recorded.Ends.note _) fun _ _ => Recorded.Ends.pure trivial
  | output offset => exact Recorded.Ends.bind (Recorded.Ends.note _) fun _ _ => Recorded.Ends.pure trivial

/-- A byte is written. -/
theorem put_ends (hat : d.At place) (byte : Byte) :
    (d.put room byte).Ends fun d' => d'.At { place with out := place.out + 1 } ∧ d'.literals = d.literals := by
  refine Recorded.Ends.bind (Recorded.Ends.note _) fun _ _ => Recorded.Ends.pure ⟨⟨hat.src, ?_, hat.control⟩, rfl⟩
  exact congrArg (· + 1) hat.dst

/-- The hash table does not move the decompressor. -/
theorem setHash_ends (hat : d.At place) (i : ℕ) (p : Pointer) : (d.setHash i p).Ends fun d' => d'.At place :=
  Recorded.Ends.bind (Recorded.Ends.note _) fun _ _ => Recorded.Ends.pure ⟨hat.src, hat.dst, hat.control⟩

/-- Nor do literals that enter it. -/
theorem enter_ends (hat : d.At place) (r : ℤ) : (d.enter room r).Ends fun d' => d'.At place :=
  Recorded.Ends.bind (Recorded.Ends.note _) fun _ _ => setHash_ends hat _ _

/-- A copy. -/
theorem copyLoop_ends (hat : d.At place) (length : ℕ) (p : Pointer) :
    (copyLoop room length p d).Ends fun d' => d'.At { place with out := place.out + length } := by
  induction length generalizing d place p with
  | zero => exact Recorded.Ends.pure hat
  | succ length ih =>
    refine Recorded.Ends.bind (read_ends p) fun byte _ => ?_
    refine Recorded.Ends.bind (put_ends hat byte) fun d' hd' => ?_
    refine (ih hd'.1 p.succ).mono fun d'' hd'' => ?_
    rwa [Nat.add_right_comm, Nat.add_assoc] at hd''

/-- Pending literals enter the hash table. -/
theorem flushLiterals_ends (hat : d.At place) (ziv : ℕ) :
    (flushLiterals room ziv d).Ends fun d' => d'.At place := by
  rw [flushLiterals]
  by_cases hpending : 0 < d.literals
  · rw [if_pos hpending]
    refine Recorded.Ends.bind (enter_ends hat _) fun d' hd' => ?_
    have hsecond : (flushSecond room (ziv - d.literals) d').Ends fun d'' => d''.At place := by
      rw [flushSecond]
      by_cases htwo : d'.literals = 2
      · rw [if_pos htwo]
        exact enter_ends hd' _
      · rw [if_neg htwo]
        exact Recorded.Ends.pure hd'
    exact Recorded.Ends.bind hsecond fun d'' hd'' => Recorded.Ends.pure ⟨hd''.src, hd''.dst, hd''.control⟩
  · rw [if_neg hpending]
    exact Recorded.Ends.pure hat

/-- A copy item. -/
theorem copyItem_ends (hat : d.At place) :
    (copyItem input room d).Ends fun d' =>
      d'.At { place with src := place.src + 2, out := place.out + copyLength (input place.src) } := by
  rw [copyItem]
  refine Recorded.Ends.bind (readInput_ends d.src) fun lenmt hlenmt => ?_
  refine Recorded.Ends.bind (readInput_ends (d.src + 1)) fun low _ => ?_
  refine Recorded.Ends.bind (Recorded.Ends.note _) fun _ _ => ?_
  have hat' : ({ d with src := d.src + 2 } : Decompressor).At { place with src := place.src + 2 } :=
    ⟨congrArg (· + 2) hat.src, hat.dst, hat.control⟩
  refine Recorded.Ends.bind (copyLoop_ends hat' _ _) fun d' hd' => ?_
  refine Recorded.Ends.bind (flushLiterals_ends hd' _) fun d'' hd'' => ?_
  rw [hlenmt, hat.src] at hd''
  exact setHash_ends hd'' _ _

/-- A literal item. -/
theorem literalItem_ends (hat : d.At place) :
    (literalItem input room d).Ends fun d' => d'.At { place with src := place.src + 1, out := place.out + 1 } := by
  rw [literalItem]
  refine Recorded.Ends.bind (readInput_ends d.src) fun byte _ => ?_
  have hat' : ({ d with src := d.src + 1 } : Decompressor).At { place with src := place.src + 1 } :=
    ⟨congrArg (· + 1) hat.src, hat.dst, hat.control⟩
  refine Recorded.Ends.bind (put_ends hat' byte) fun d' hd' => ?_
  rw [hashLiteral]
  have hcounted : ({ d' with literals := d'.literals + 1 } : Decompressor).At
      { place with src := place.src + 1, out := place.out + 1 } := ⟨hd'.1.src, hd'.1.dst, hd'.1.control⟩
  by_cases hthree : d'.literals + 1 = 3
  · rw [if_pos hthree]
    exact Recorded.Ends.bind (enter_ends hcounted _) fun d'' hd'' =>
      Recorded.Ends.pure ⟨hd''.src, hd''.dst, hd''.control⟩
  · rw [if_neg hthree]
    exact Recorded.Ends.pure hcounted

/-- An item leads to the next place. -/
theorem decompressItem_ends (hat : d.At place) :
    (decompressItem input room d).Ends fun d' => d'.At (place.pastItem input) := by
  rw [decompressItem, copyOrLiteral, hat.control, Place.pastItem]
  by_cases hcopy : place.control &&& 1 ≠ 0
  · rw [if_pos hcopy, if_pos hcopy]
    refine Recorded.Ends.bind (copyItem_ends hat) fun d' hd' => Recorded.Ends.pure ⟨hd'.src, hd'.dst, ?_⟩
    exact congrArg (· >>> 1) hd'.control
  · rw [if_neg hcopy, if_neg hcopy]
    refine Recorded.Ends.bind (literalItem_ends hat) fun d' hd' => Recorded.Ends.pure ⟨hd'.src, hd'.dst, ?_⟩
    exact congrArg (· >>> 1) hd'.control

/-- A control word leads to the first item behind it. -/
theorem loadControl_ends (hat : d.At place) :
    (loadControl input room d).Ends fun d' => d'.At (place.loaded input) := by
  rw [loadControl, hat.control]
  by_cases hone : place.control = 1
  · rw [if_pos hone, Place.loaded_of_eq hone]
    refine Recorded.Ends.bind (readInput_ends d.src) fun _ _ => ?_
    refine Recorded.Ends.bind (readInput_ends (d.src + 1)) fun _ _ => ?_
    exact Recorded.Ends.pure ⟨congrArg (· + 2) hat.src, hat.dst, congrArg (controlWord input) hat.src⟩
  · rw [if_neg hone, Place.loaded_of_ne hone]
    exact Recorded.Ends.pure hat

/-- The inner loop passes a group. -/
theorem innerLoop_ends (hat : d.At place) (unroll : ℕ) :
    (innerLoop input room limit unroll d).Ends fun result =>
      result.1 = (passGroup input limit unroll place).1 ∧ result.2.At (passGroup input limit unroll place).2 := by
  induction unroll generalizing d place with
  | zero => exact Recorded.Ends.pure ⟨rfl, hat⟩
  | succ unroll ih =>
    rw [innerLoop, passGroup]
    refine Recorded.Ends.bind (decompressItem_ends hat) fun d' hd' => ?_
    rw [hd'.dst]
    by_cases hlimit : limit < (place.pastItem input).out
    · rw [if_pos hlimit, if_pos hlimit]
      exact Recorded.Ends.pure ⟨rfl, hd'⟩
    · rw [if_neg hlimit, if_neg hlimit]
      exact ih hd'

/-- A group that does not write too much writes something. -/
theorem passGroup_out (unroll : ℕ) (hgroup : (passGroup input limit (unroll + 1) place).1 = false) :
    place.out < (passGroup input limit (unroll + 1) place).2.out ∧
      (passGroup input limit (unroll + 1) place).2.out ≤ limit := by
  induction unroll generalizing place with
  | zero =>
    obtain ⟨-, -, hgrows, -⟩ := Place.pastItem_spec input place
    rw [passGroup] at hgroup ⊢
    by_cases hlimit : limit < (place.pastItem input).out
    · rw [if_pos hlimit] at hgroup
      cases hgroup
    · rw [if_neg hlimit, passGroup]
      exact ⟨hgrows, Nat.le_of_not_lt hlimit⟩
  | succ unroll ih =>
    obtain ⟨-, -, hgrows, -⟩ := Place.pastItem_spec input place
    rw [passGroup] at hgroup ⊢
    by_cases hlimit : limit < (place.pastItem input).out
    · rw [if_pos hlimit] at hgroup
      cases hgroup
    · rw [if_neg hlimit] at hgroup ⊢
      obtain ⟨hgrows', hle⟩ := ih hgroup
      exact ⟨lt_trans hgrows hgrows', hle⟩

/-- The outer loop ends. -/
theorem outerLoop_ends {srcLen : ℤ} {rounds : ℕ} (hat : d.At place) (hout : place.out ≤ limit)
    (hrounds : limit + 2 ≤ rounds + place.out) :
    (outerLoop input room srcLen limit rounds d).Ends fun result =>
      result.1 = outLength input srcLen limit rounds place := by
  induction rounds generalizing d place with
  | zero => omega
  | succ rounds ih =>
    rw [outerLoop, outLength, hat.src]
    by_cases hend : (place.src : ℤ) = srcLen
    · rw [if_pos hend, if_pos hend]
      exact Recorded.Ends.pure hat.dst
    · rw [if_neg hend, if_neg hend]
      refine Recorded.Ends.bind (loadControl_ends hat) fun d' hd' => ?_
      rw [hd'.src]
      change (innerLoop input room limit (unrolled srcLen (place.loaded input)) d' >>= _).Ends _
      obtain ⟨unroll, hunroll⟩ : ∃ unroll, unrolled srcLen (place.loaded input) = unroll + 1 := by
        rw [unrolled]
        by_cases hfar : ((place.loaded input).src : ℤ) ≤ srcLen - (maxCmpGroup - 2 : ℕ)
        · rw [if_pos hfar]
          exact ⟨15, rfl⟩
        · rw [if_neg hfar]
          exact ⟨0, rfl⟩
      rw [hunroll]
      refine Recorded.Ends.bind (innerLoop_ends hd' _) ?_
      have hgroup := @passGroup_out input limit (place.loaded input) unroll
      rintro ⟨overrun, d''⟩ ⟨hoverrun, hd''⟩
      generalize passGroup input limit (unroll + 1) (place.loaded input) = group at hgroup hoverrun hd''
      obtain ⟨overrun', place'⟩ := group
      obtain rfl : overrun = overrun' := hoverrun
      cases overrun with
      | true => exact Recorded.Ends.pure rfl
      | false =>
        obtain ⟨hgrows, hle⟩ := hgroup rfl
        rw [Place.loaded_out] at hgrows
        dsimp only at hgrows hle
        exact ih hd'' hle (by omega)

end Items

/-- Decompression ends, and the length of its output depends on the data only. -/
theorem compressDecompress_ends (input : ℕ → Byte) (room : ℕ) (srcLen : ℤ) (limit : ℕ) (output : ℕ → Byte) :
    (compressDecompress input room srcLen limit output).Ends fun result =>
      result.1 = uncompressedLength input srcLen limit := by
  rw [compressDecompress, uncompressedLength]
  by_cases hstored : srcLen < 0
  · rw [if_pos hstored, if_pos hstored]
    refine Recorded.Ends.bind (Recorded.Ends.note _) fun _ _ => ?_
    exact Recorded.Ends.bind (Recorded.Ends.note _) fun _ _ => Recorded.Ends.pure rfl
  · rw [if_neg hstored, if_neg hstored]
    exact outerLoop_ends ⟨rfl, rfl, rfl⟩ (Nat.zero_le limit) le_rfl

end Ftape.Compressor
