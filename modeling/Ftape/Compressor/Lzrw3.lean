import Ftape.Algebra.Recorded
import Ftape.Algebra.Window
import Ftape.Basic

/-!
# LZRW3 decompression

Compressed data is a sequence of items, sixteen of them behind each control word. An item is a byte, or
a copy of bytes that were already decompressed. A copy does not say where it copies from: it names an
entry of a table that the decompressor keeps. Each access to the buffers and to the table is recorded.
The decompressor ends where the data ends, or when it has written more than was asked for. It reads on
behind the data if no item ends there.
-/

namespace Ftape.Compressor

open Ftape.Algebra

/-- The memory that an access goes to. -/
inductive Region where
  | segment
  | cluster
  | scratch
  | hash
  | startString
deriving DecidableEq

/-- An access to `bytes` cells of a memory of `size` cells. -/
structure Access where
  region : Region
  address : ℤ
  bytes : ℕ
  size : ℕ
deriving DecidableEq

/-- The access stays inside the memory it goes to. -/
def Access.Inside (access : Access) : Prop :=
  0 ≤ access.address ∧ access.address + access.bytes ≤ access.size

instance (access : Access) : Decidable access.Inside := inferInstanceAs (Decidable (_ ∧ _))

/-- A loop of the model runs out of rounds. -/
inductive Halt where
  | outOfRounds

/-- `FLAG_BYTES`. -/
def flagBytes : ℕ := 4

/-- `MAX_CMP_GROUP`. -/
def maxCmpGroup : ℕ := 2 + 16 * 2

/-- `HASH_TABLE_LENGTH`. -/
def hashTableLength : ℕ := 4096

/-- `START_STRING_18`. -/
def startString18 : List Byte :=
  [49, 50, 51, 52, 53, 54, 55, 56, 57, 48, 49, 50, 51, 52, 53, 54, 55, 56]

/-- A `UBYTE *` into `START_STRING_18` or into the output. -/
inductive Pointer where
  | startString (offset : ℕ)
  | output (offset : ℕ)

/-- `p + 1`. -/
def Pointer.succ : Pointer → Pointer
  | .startString offset => .startString (offset + 1)
  | .output offset => .output (offset + 1)

/-- `HASH()` of three bytes. The overflow of the product is above the bits that are taken. -/
def hashOf (a b c : Byte) : ℕ :=
  ((40543 * ((a.toNat <<< 8) ^^^ (b.toNat <<< 4) ^^^ c.toNat)) >>> 4) &&& 0xfff

/-- The variables of `compress_decompress()`. `src` and `dst` are the offsets of `p_src` and `p_dst`. -/
structure Decompressor where
  src : ℕ
  dst : ℕ
  control : ℕ
  literals : ℕ
  hash : ℕ → Pointer
  output : ℕ → Byte

section Decompress

variable (input : ℕ → Byte) (room : ℕ)

/-- `*p_src`. -/
def readInput (src : ℕ) : Recorded Access Halt Byte := do
  Recorded.note ⟨.cluster, src, 1, room⟩
  pure (input src)

/-- `*p`. -/
def Decompressor.read (d : Decompressor) : Pointer → Recorded Access Halt Byte
  | .startString offset => do
    Recorded.note ⟨.startString, offset, 1, startString18.length⟩
    pure (startString18.getD offset 0)
  | .output offset => do
    Recorded.note ⟨.scratch, offset, 1, room⟩
    pure (d.output offset)

/-- `*p_dst++=` a byte. -/
def Decompressor.put (d : Decompressor) (byte : Byte) : Recorded Access Halt Decompressor := do
  Recorded.note ⟨.scratch, d.dst, 1, room⟩
  pure { d with dst := d.dst + 1, output := Function.update d.output d.dst byte }

/-- `hash[i]=p`. -/
def Decompressor.setHash (d : Decompressor) (i : ℕ) (p : Pointer) : Recorded Access Halt Decompressor := do
  Recorded.note ⟨.hash, i, 1, hashTableLength⟩
  pure { d with hash := Function.update d.hash i p }

/-- `hash[HASH(r)]=r`. -/
def Decompressor.enter (d : Decompressor) (r : ℤ) : Recorded Access Halt Decompressor := do
  Recorded.note ⟨.scratch, r, 3, room⟩
  d.setHash (hashOf (d.output r.toNat) (d.output (r.toNat + 1)) (d.output (r.toNat + 2)))
    (.output r.toNat)

/-- The copy of a copy item. -/
def copyLoop : ℕ → Pointer → Decompressor → Recorded Access Halt Decompressor
  | 0, _, d => pure d
  | rounds + 1, p, d => do
    let byte ← d.read room p
    let d ← d.put room byte
    copyLoop rounds p.succ d

/-- The second of two pending literals. -/
def flushSecond (r : ℤ) (d : Decompressor) : Recorded Access Halt Decompressor :=
  if d.literals = 2 then d.enter room (r + 1) else pure d

/-- The pending literals enter the hash table in front of a copy item that starts at `p_ziv`. -/
def flushLiterals (ziv : ℕ) (d : Decompressor) : Recorded Access Halt Decompressor :=
  if 0 < d.literals then do
    let r : ℤ := ziv - d.literals
    let d ← d.enter room r
    let d ← flushSecond room r d
    pure { d with literals := 0 }
  else pure d

/-- A copy item. -/
def copyItem (d : Decompressor) : Recorded Access Halt Decompressor := do
  let ziv := d.dst
  let lenmt ← readInput input room d.src
  let low ← readInput input room (d.src + 1)
  let hte := ((lenmt.toNat &&& 0xf0) <<< 4) ||| low.toNat
  Recorded.note ⟨.hash, hte, 1, hashTableLength⟩
  let d ← copyLoop room ((lenmt.toNat &&& 0xf) + 3) (d.hash hte) { d with src := d.src + 2 }
  let d ← flushLiterals room ziv d
  d.setHash hte (.output ziv)

/-- The oldest of three pending literals enters the hash table. -/
def hashLiteral (d : Decompressor) : Recorded Access Halt Decompressor :=
  if d.literals = 3 then do
    let d ← d.enter room (d.dst - 3 : ℤ)
    pure { d with literals := 2 }
  else pure d

/-- A literal item. -/
def literalItem (d : Decompressor) : Recorded Access Halt Decompressor := do
  let byte ← readInput input room d.src
  let d ← { d with src := d.src + 1 }.put room byte
  hashLiteral room { d with literals := d.literals + 1 }

/-- The item that the next bit of the control word announces. -/
def copyOrLiteral (d : Decompressor) : Recorded Access Halt Decompressor :=
  if d.control &&& 1 ≠ 0 then copyItem input room d else literalItem input room d

/-- An item, with the shift of the control word behind it. -/
def decompressItem (d : Decompressor) : Recorded Access Halt Decompressor := do
  let d ← copyOrLiteral input room d
  pure { d with control := d.control >>> 1 }

/-- The inner loop, and whether it has returned because of too much output. -/
def innerLoop (limit : ℕ) : ℕ → Decompressor → Recorded Access Halt (Bool × Decompressor)
  | 0, d => pure (false, d)
  | unroll + 1, d => do
    let d ← decompressItem input room d
    if limit < d.dst then pure (true, d) else innerLoop limit unroll d

/-- A control word with the bit that ends the group. -/
def controlWord (src : ℕ) : ℕ :=
  (0x10000 ||| (input src).toNat) ||| ((input (src + 1)).toNat <<< 8)

/-- A new control word is read when all bits of the last one were taken. -/
def loadControl (d : Decompressor) : Recorded Access Halt Decompressor :=
  if d.control = 1 then do
    let _ ← readInput input room d.src
    let _ ← readInput input room (d.src + 1)
    pure { d with src := d.src + 2, control := controlWord input d.src }
  else pure d

/-- The outer loop: the length and the contents of the output. -/
def outerLoop (srcLen : ℤ) (limit : ℕ) :
    ℕ → Decompressor → Recorded Access Halt (ℕ × (ℕ → Byte))
  | 0, _ => .halt .outOfRounds
  | rounds + 1, d =>
    if d.src = srcLen then pure (d.dst, d.output)
    else do
      let d ← loadControl input room d
      let unroll := if d.src ≤ srcLen - (maxCmpGroup - 2 : ℕ) then 16 else 1
      let (overrun, d) ← innerLoop input room limit unroll d
      if overrun then pure (0, d.output) else outerLoop srcLen limit rounds d

/-- `compress_decompress()`. Each item writes, which bounds the rounds. A negative length stands for
data that is not compressed. -/
def compressDecompress (srcLen : ℤ) (limit : ℕ) (output : ℕ → Byte) :
    Recorded Access Halt (ℕ × (ℕ → Byte)) :=
  if srcLen < 0 then do
    let length := (-srcLen).toNat
    Recorded.note ⟨.cluster, 0, length, room⟩
    Recorded.note ⟨.scratch, 0, length, room⟩
    pure (length, blit output 0 input 0 length)
  else
    outerLoop input room srcLen limit (limit + 2)
      ⟨flagBytes, 0, 1, 0, fun _ => .startString 0, output⟩

end Decompress

/-- A place between two items of the compressed data: the bytes in front of it, the bytes of output in
front of it, and the rest of the control word. -/
structure Place where
  src : ℕ
  out : ℕ
  control : ℕ

/-- The place in front of the first item. -/
def Place.first : Place := ⟨flagBytes, 0, 1⟩

/-- The bytes that a copy item stands for. -/
def copyLength (lenmt : Byte) : ℕ := (lenmt.toNat &&& 0xf) + 3

/-- Behind the control word that may stand here. -/
def Place.loaded (input : ℕ → Byte) (place : Place) : Place :=
  if place.control = 1 then ⟨place.src + 2, place.out, controlWord input place.src⟩ else place

/-- Behind an item. -/
def Place.pastItem (input : ℕ → Byte) (place : Place) : Place :=
  if place.control &&& 1 ≠ 0 then
    ⟨place.src + 2, place.out + copyLength (input place.src), place.control >>> 1⟩
  else ⟨place.src + 1, place.out + 1, place.control >>> 1⟩

/-- Behind an item with its control word. -/
def Place.next (input : ℕ → Byte) (place : Place) : Place := (place.loaded input).pastItem input

/-- The places of compressed data up to its end, and up to the item that exceeds the output. -/
inductive Reached (input : ℕ → Byte) (srcLen : ℤ) (limit : ℕ) : Place → Prop
  | first : Reached input srcLen limit Place.first
  | next {place : Place} : Reached input srcLen limit place → (place.src : ℤ) ≠ srcLen →
      place.out ≤ limit → Reached input srcLen limit (place.next input)

/-- Each item of compressed data lies in the buffer, as far as neither the data nor the room for the
output has ended in front of it. -/
def ItemsInside (input : ℕ → Byte) (room : ℕ) (srcLen : ℤ) (limit : ℕ) : Prop :=
  ∀ place, Reached input srcLen limit place → (place.src : ℤ) ≠ srcLen → place.out ≤ limit →
    (place.next input).src ≤ room

/-- The items lie in the buffer if so many of them do, and the data ends behind these. -/
theorem itemsInside_of_ends {input : ℕ → Byte} {room n : ℕ} {srcLen : ℤ} (limit : ℕ)
    (hend : (((Place.next input)^[n] Place.first).src : ℤ) = srcLen)
    (hitems : ∀ k < n, ((Place.next input)^[k + 1] Place.first).src ≤ room) :
    ItemsInside input room srcLen limit := by
  have hplace : ∀ place, Reached input srcLen limit place → ∃ k ≤ n, place = (Place.next input)^[k] Place.first := by
    intro place hreached
    induction hreached with
    | first => exact ⟨0, Nat.zero_le _, rfl⟩
    | next _ hmore _ ih =>
      obtain ⟨k, hk, rfl⟩ := ih
      have hne : k ≠ n := fun heq => hmore (heq ▸ hend)
      exact ⟨k + 1, by omega, (Function.iterate_succ_apply' _ _ _).symm⟩
  intro place hreached hmore _
  obtain ⟨k, hk, rfl⟩ := hplace place hreached
  have hne : k ≠ n := fun heq => hmore (heq ▸ hend)
  exact (congrArg Place.src (Function.iterate_succ_apply' (Place.next input) k Place.first)).symm.trans_le
    (hitems k (by omega))

/-- The variables of the decompressor at a place. -/
structure Decompressor.At (place : Place) (d : Decompressor) : Prop where
  src : d.src = place.src
  dst : d.dst = place.out
  control : d.control = place.control

/-- A pointer of the hash table goes to the start string, or to output in front of `dst`. -/
def Pointer.Behind (dst : ℕ) : Pointer → Prop
  | .startString offset => offset = 0
  | .output offset => offset ≤ dst

/-- The hash table points backwards, and pending literals were written. -/
structure Decompressor.Consistent (d : Decompressor) : Prop where
  hash : ∀ i, (d.hash i).Behind d.dst
  literals : d.literals ≤ 2
  written : d.literals ≤ d.dst

/-- A routine of the decompressor stays inside the memories. -/
abbrev StaysInside {Value : Type} (post : Value → Prop) (routine : Recorded Access Halt Value) : Prop :=
  routine.Guards (fun _ => True) Access.Inside post

section Safety

variable {input : ℕ → Byte} {room : ℕ} {d : Decompressor}

/-- An access that ends inside. -/
theorem inside_of_le {region : Region} {address bytes size : ℕ} (h : address + bytes ≤ size) :
    (⟨region, address, bytes, size⟩ : Access).Inside := by
  refine ⟨Int.natCast_nonneg address, ?_⟩
  dsimp only
  omega

/-- A single access. -/
theorem staysInside_note {access : Access} (h : access.Inside) :
    StaysInside (fun _ => True) (Recorded.note access) :=
  Recorded.Guards.note fun _ => h

/-- A pointer in front of `dst` stays in front of what is written from there. -/
theorem Pointer.Behind.mono {p : Pointer} {dst dst' : ℕ} (h : p.Behind dst) (hdst : dst ≤ dst') :
    p.Behind dst' := by
  cases p with
  | startString offset => exact h
  | output offset => exact le_trans h hdst

/-- The low nibble of a byte. -/
theorem nibble_lt (a : ℕ) : a &&& 0xf < 16 := by
  rw [show (0xf : ℕ) = 2 ^ 4 - 1 from rfl, Nat.and_two_pow_sub_one_eq_mod]
  exact Nat.mod_lt _ (by decide)

/-- The entry that a copy item names. -/
theorem hte_lt (lenmt low : Byte) : ((lenmt.toNat &&& 0xf0) <<< 4) ||| low.toNat < hashTableLength := by
  have hhigh : (lenmt.toNat &&& 0xf0) <<< 4 < 2 ^ 12 := by
    rw [Nat.shiftLeft_eq]
    have h : lenmt.toNat &&& 0xf0 ≤ 0xf0 := Nat.and_le_right
    omega
  have hlow : low.toNat < 2 ^ 12 := lt_trans low.isLt (by decide)
  exact Nat.or_lt_two_pow hhigh hlow

/-- The entry of three bytes. -/
theorem hashOf_lt (a b c : Byte) : hashOf a b c < hashTableLength := by
  rw [hashOf, show (0xfff : ℕ) = 2 ^ 12 - 1 from rfl, Nat.and_two_pow_sub_one_eq_mod]
  exact Nat.mod_lt _ (by decide)

/-- A byte of the input. -/
theorem readInput_inside {src : ℕ} (h : src < room) :
    StaysInside (fun byte => byte = input src) (readInput input room src) := by
  exact Recorded.Guards.bind (staysInside_note (inside_of_le h)) fun _ _ => Recorded.Guards.pure rfl

/-- A byte of the output is written. -/
theorem put_inside {byte : Byte} (h : d.dst < room) :
    StaysInside (fun d' => d' = { d with
      dst := d.dst + 1, output := Function.update d.output d.dst byte }) (d.put room byte) := by
  exact Recorded.Guards.bind (staysInside_note (inside_of_le h)) fun _ _ => Recorded.Guards.pure rfl

/-- An entry of the hash table is written. -/
theorem setHash_inside {i : ℕ} {p : Pointer} (h : i < hashTableLength) :
    StaysInside (fun d' => d' = { d with hash := Function.update d.hash i p }) (d.setHash i p) := by
  exact Recorded.Guards.bind (staysInside_note (inside_of_le h)) fun _ _ => Recorded.Guards.pure rfl

/-- A table that points backwards does so after a new entry. -/
theorem update_behind {hash : ℕ → Pointer} {dst i : ℕ} {p : Pointer} (hhash : ∀ i, (hash i).Behind dst)
    (hp : p.Behind dst) (j : ℕ) : (Function.update hash i p j).Behind dst := by
  rw [Function.update_apply]
  split
  · exact hp
  · exact hhash j

/-- What hashing leaves of the variables. -/
structure Decompressor.Hashed (d d' : Decompressor) : Prop where
  src : d'.src = d.src
  dst : d'.dst = d.dst
  control : d'.control = d.control
  literals : d'.literals = d.literals
  hash : (∀ i, (d.hash i).Behind d.dst) → ∀ i, (d'.hash i).Behind d.dst

/-- Three bytes that were written enter the hash table. -/
theorem enter_inside {r : ℤ} (hr : 0 ≤ r) (hdst : r + 3 ≤ d.dst) (hroom : d.dst ≤ room) :
    StaysInside (fun d' => d.Hashed d') (d.enter room r) := by
  refine Recorded.Guards.bind (staysInside_note ⟨hr, ?_⟩) fun _ _ => ?_
  · dsimp only
    omega
  · refine (setHash_inside (hashOf_lt _ _ _)).mono ?_
    rintro d' rfl
    refine ⟨rfl, rfl, rfl, rfl, fun hhash => update_behind hhash ?_⟩
    change r.toNat ≤ d.dst
    omega

/-- A pointer has so many bytes in front of the end of the memory it goes to. -/
def Pointer.Holds (room n : ℕ) : Pointer → Prop
  | .startString offset => offset + n ≤ startString18.length
  | .output offset => offset + n ≤ room

/-- A pointer that goes backwards has the bytes of a copy. -/
theorem Pointer.Behind.holds {p : Pointer} {dst n : ℕ} (h : p.Behind dst)
    (hn : n ≤ startString18.length) (hroom : dst + n ≤ room) : p.Holds room n := by
  cases p with
  | startString offset =>
    have hzero : offset = 0 := h
    rw [Pointer.Holds, hzero, Nat.zero_add]
    exact hn
  | output offset => exact le_trans (Nat.add_le_add_right h n) hroom

/-- The next byte of a pointer. -/
theorem Pointer.Holds.succ {p : Pointer} {n : ℕ} (h : p.Holds room (n + 1)) : p.succ.Holds room n := by
  cases p with
  | startString offset =>
    rw [Pointer.Holds] at h
    rw [Pointer.succ, Pointer.Holds]
    omega
  | output offset =>
    rw [Pointer.Holds] at h
    rw [Pointer.succ, Pointer.Holds]
    omega

/-- A byte is read where a pointer goes. -/
theorem read_inside {p : Pointer} {n : ℕ} (h : p.Holds room (n + 1)) :
    StaysInside (fun _ => True) (d.read room p) := by
  cases p with
  | startString offset =>
    rw [Pointer.Holds] at h
    exact Recorded.Guards.bind (staysInside_note (inside_of_le (by omega))) fun _ _ =>
      Recorded.Guards.pure trivial
  | output offset =>
    rw [Pointer.Holds] at h
    exact Recorded.Guards.bind (staysInside_note (inside_of_le (by omega))) fun _ _ =>
      Recorded.Guards.pure trivial

/-- What a copy leaves of the variables. -/
structure Decompressor.Copied (n : ℕ) (d d' : Decompressor) : Prop where
  src : d'.src = d.src
  dst : d'.dst = d.dst + n
  control : d'.control = d.control
  literals : d'.literals = d.literals
  hash : d'.hash = d.hash

/-- A copy stays inside. -/
theorem copyLoop_inside {rounds : ℕ} {p : Pointer} (hp : p.Holds room rounds)
    (hdst : d.dst + rounds ≤ room) : StaysInside (d.Copied rounds) (copyLoop room rounds p d) := by
  induction rounds generalizing p d with
  | zero => exact Recorded.Guards.pure ⟨rfl, rfl, rfl, rfl, rfl⟩
  | succ rounds ih =>
    rw [copyLoop]
    refine Recorded.Guards.bind (read_inside hp) fun byte _ => ?_
    refine Recorded.Guards.bind (put_inside (by omega)) ?_
    rintro d' rfl
    refine (ih hp.succ (by dsimp only; omega)).mono fun d' h => ?_
    refine ⟨h.src, ?_, h.control, h.literals, h.hash⟩
    rw [h.dst]
    dsimp only
    omega

/-- The pending literals enter the hash table behind the copy. -/
theorem flushLiterals_inside {ziv : ℕ} (hliterals : d.literals ≤ 2) (hwritten : d.literals ≤ ziv)
    (hziv : ziv + 3 ≤ d.dst) (hroom : d.dst ≤ room) :
    StaysInside (fun d' => d'.src = d.src ∧ d'.dst = d.dst ∧ d'.control = d.control ∧ d'.literals = 0 ∧
      ((∀ i, (d.hash i).Behind d.dst) → ∀ i, (d'.hash i).Behind d.dst)) (flushLiterals room ziv d) := by
  rw [flushLiterals]
  split
  next hpos =>
    refine Recorded.Guards.bind (enter_inside (by omega) (by omega) hroom) fun d₁ h₁ => ?_
    have hsecond : StaysInside (fun d₂ => d₁.Hashed d₂) (flushSecond room (ziv - d.literals : ℤ) d₁) := by
      rw [flushSecond]
      split
      · exact enter_inside (by omega) (by rw [h₁.dst]; omega) (by rw [h₁.dst]; omega)
      · exact Recorded.Guards.pure ⟨rfl, rfl, rfl, rfl, fun hhash => hhash⟩
    refine Recorded.Guards.bind hsecond fun d₂ h₂ => Recorded.Guards.pure ?_
    refine ⟨h₂.src.trans h₁.src, h₂.dst.trans h₁.dst, h₂.control.trans h₁.control, rfl, fun hhash => ?_⟩
    have hfirst := h₁.hash hhash
    rw [← h₁.dst] at hfirst ⊢
    exact h₂.hash hfirst
  next hzero =>
    refine Recorded.Guards.pure ⟨rfl, rfl, rfl, by omega, fun hhash => hhash⟩

/-- A copy item stays inside. -/
theorem copyItem_inside (hd : d.Consistent) (hsrc : d.src + 2 ≤ room) (hdst : d.dst + 18 ≤ room) :
    StaysInside (fun d' => d'.Consistent ∧ d'.src = d.src + 2 ∧
      d'.dst = d.dst + copyLength (input d.src) ∧ d'.control = d.control) (copyItem input room d) := by
  rw [copyItem]
  refine Recorded.Guards.bind (readInput_inside (by omega)) ?_
  rintro lenmt rfl
  refine Recorded.Guards.bind (readInput_inside (by omega)) ?_
  rintro low rfl
  have hte := hte_lt (input d.src) (input (d.src + 1))
  have hlength : copyLength (input d.src) ≤ 18 := by
    have := nibble_lt (input d.src).toNat
    rw [copyLength]
    omega
  refine Recorded.Guards.bind (staysInside_note (inside_of_le hte)) fun _ _ => ?_
  have hholds := (hd.hash (((input d.src).toNat &&& 0xf0) <<< 4 ||| (input (d.src + 1)).toNat)).holds
    (n := copyLength (input d.src)) hlength (by omega : _ ≤ room)
  have hfits : d.dst + copyLength (input d.src) ≤ room := by omega
  refine Recorded.Guards.bind (copyLoop_inside hholds hfits) fun d₁ h₁ => ?_
  have hdst₁ : d₁.dst = d.dst + copyLength (input d.src) := h₁.dst
  have hliterals₁ : d₁.literals = d.literals := h₁.literals
  have hgrows : 3 ≤ copyLength (input d.src) := Nat.le_add_left 3 _
  have hhash₁ : ∀ i, (d₁.hash i).Behind d₁.dst := by
    intro i
    rw [h₁.hash, hdst₁]
    exact (hd.hash i).mono (by omega)
  refine Recorded.Guards.bind (flushLiterals_inside (by rw [hliterals₁]; exact hd.literals)
    (by rw [hliterals₁]; exact hd.written) (by omega) (by omega)) fun d₂ h₂ => ?_
  obtain ⟨hsrc₂, hdst₂, hcontrol₂, hliterals₂, hhash₂⟩ := h₂
  refine (setHash_inside hte).mono ?_
  rintro d₃ rfl
  refine ⟨⟨?_, ?_, ?_⟩, ?_, ?_, ?_⟩
  · change ∀ i, (Function.update d₂.hash _ (Pointer.output d.dst) i).Behind d₂.dst
    rw [hdst₂]
    refine update_behind (hhash₂ hhash₁) ?_
    change d.dst ≤ d₁.dst
    omega
  · change d₂.literals ≤ 2
    omega
  · change d₂.literals ≤ d₂.dst
    omega
  · exact hsrc₂.trans h₁.src
  · exact hdst₂.trans hdst₁
  · exact hcontrol₂.trans h₁.control

/-- A literal item stays inside. -/
theorem literalItem_inside (hd : d.Consistent) (hsrc : d.src + 1 ≤ room) (hdst : d.dst + 1 ≤ room) :
    StaysInside (fun d' => d'.Consistent ∧ d'.src = d.src + 1 ∧ d'.dst = d.dst + 1 ∧
      d'.control = d.control) (literalItem input room d) := by
  rw [literalItem]
  refine Recorded.Guards.bind (readInput_inside (by omega)) ?_
  rintro byte rfl
  refine Recorded.Guards.bind (put_inside (by exact hdst)) ?_
  rintro d₁ rfl
  have hhash : ∀ i, (d.hash i).Behind (d.dst + 1) := fun i => (hd.hash i).mono (Nat.le_succ _)
  have hliterals := hd.literals
  have hwritten := hd.written
  rw [hashLiteral]
  split
  next hthree =>
    have hthree : d.literals + 1 = 3 := hthree
    refine Recorded.Guards.bind (enter_inside ?_ ?_ ?_) fun d₂ h₂ => Recorded.Guards.pure ?_
    · dsimp only
      omega
    · dsimp only
      omega
    · exact hdst
    · have hdst₂ : d₂.dst = d.dst + 1 := h₂.dst
      refine ⟨⟨?_, le_rfl, ?_⟩, h₂.src, hdst₂, h₂.control⟩
      · change ∀ i, (d₂.hash i).Behind d₂.dst
        rw [hdst₂]
        exact h₂.hash hhash
      · change 2 ≤ d₂.dst
        omega
  next hfew =>
    have hfew : ¬d.literals + 1 = 3 := hfew
    refine Recorded.Guards.pure ⟨⟨hhash, ?_, ?_⟩, rfl, rfl, rfl⟩
    · dsimp only
      omega
    · dsimp only
      omega

/-- An item leads to the next place. -/
theorem decompressItem_inside {place : Place} (hd : d.Consistent) (hat : d.At place)
    (hsrc : (place.pastItem input).src ≤ room) (hdst : d.dst + 18 ≤ room) :
    StaysInside (fun d' => d'.Consistent ∧ d'.At (place.pastItem input)) (decompressItem input room d) := by
  have hitem : StaysInside (fun d' => d'.Consistent ∧ d'.src = (place.pastItem input).src ∧
      d'.dst = (place.pastItem input).out ∧ d'.control = place.control) (copyOrLiteral input room d) := by
    rw [Place.pastItem] at hsrc ⊢
    rw [copyOrLiteral, hat.control]
    split_ifs at hsrc ⊢
    · refine (copyItem_inside hd (by rw [hat.src]; exact hsrc) hdst).mono ?_
      rintro d' ⟨hd', hsrc', hdst', hcontrol'⟩
      rw [hat.src] at hsrc' hdst'
      rw [hat.dst] at hdst'
      exact ⟨hd', hsrc', hdst', hcontrol'.trans hat.control⟩
    · refine (literalItem_inside hd (by rw [hat.src]; exact hsrc) (by omega)).mono ?_
      rintro d' ⟨hd', hsrc', hdst', hcontrol'⟩
      rw [hat.src] at hsrc'
      rw [hat.dst] at hdst'
      exact ⟨hd', hsrc', hdst', hcontrol'.trans hat.control⟩
  refine Recorded.Guards.bind hitem ?_
  rintro d' ⟨hd', hsrc', hdst', hcontrol'⟩
  refine Recorded.Guards.pure ⟨⟨hd'.hash, hd'.literals, hd'.written⟩, hsrc', hdst', ?_⟩
  dsimp only
  rw [hcontrol', Place.pastItem]
  split <;> rfl

end Safety

/-- An item takes one or two bytes, and one bit of the control word. -/
theorem Place.pastItem_spec (input : ℕ → Byte) (place : Place) :
    place.src < (place.pastItem input).src ∧ (place.pastItem input).src ≤ place.src + 2 ∧
      place.out < (place.pastItem input).out ∧ (place.pastItem input).control = place.control >>> 1 := by
  rw [Place.pastItem]
  split
  · refine ⟨?_, le_rfl, ?_, rfl⟩
    · exact Nat.lt_add_of_pos_right (by decide)
    · rw [copyLength]
      dsimp only
      omega
  · exact ⟨Nat.lt_succ_self _, Nat.le_succ _, Nat.lt_succ_self _, rfl⟩

/-- A control word does not write. -/
theorem Place.loaded_out (input : ℕ → Byte) (place : Place) : (place.loaded input).out = place.out := by
  rw [Place.loaded]
  split <;> rfl

/-- A control word ends in the bit above its sixteen items. -/
theorem controlWord_bounds (input : ℕ → Byte) (src : ℕ) :
    2 ^ 16 ≤ controlWord input src ∧ controlWord input src < 2 ^ 17 := by
  have hlow : (input src).toNat < 2 ^ 17 := lt_trans (input src).isLt (by decide)
  have hhigh : (input (src + 1)).toNat <<< 8 < 2 ^ 17 := by
    rw [Nat.shiftLeft_eq]
    have := (input (src + 1)).isLt
    omega
  refine ⟨?_, Nat.or_lt_two_pow (Nat.or_lt_two_pow (by decide) hlow) hhigh⟩
  exact le_trans Nat.left_le_or Nat.left_le_or

/-- A place whose control word has bits left needs no new one. -/
theorem Place.loaded_of_ne {input : ℕ → Byte} {place : Place} (h : place.control ≠ 1) :
    place.loaded input = place := if_neg h

/-- A new control word is read where no bits are left. -/
theorem Place.loaded_of_eq {input : ℕ → Byte} {place : Place} (h : place.control = 1) :
    place.loaded input = ⟨place.src + 2, place.out, controlWord input place.src⟩ := if_pos h

section Loops

variable {input : ℕ → Byte} {room limit : ℕ} {srcLen : ℤ} {d : Decompressor}

/-- The control word is read. -/
theorem loadControl_inside {place : Place} (hd : d.Consistent) (hat : d.At place)
    (hsrc : (place.loaded input).src ≤ room) :
    StaysInside (fun d' => d'.Consistent ∧ d'.At (place.loaded input)) (loadControl input room d) := by
  rw [loadControl, hat.control]
  split
  next hone =>
    rw [Place.loaded_of_eq hone] at hsrc ⊢
    have hsrc : d.src + 2 ≤ room := by
      rw [hat.src]
      exact hsrc
    refine Recorded.Guards.bind (readInput_inside (by omega)) fun _ _ => ?_
    refine Recorded.Guards.bind (readInput_inside (by omega)) fun _ _ => Recorded.Guards.pure ?_
    refine ⟨⟨hd.hash, hd.literals, hd.written⟩, ?_, hat.dst, ?_⟩
    · change d.src + 2 = place.src + 2
      rw [hat.src]
    · change controlWord input d.src = controlWord input place.src
      rw [hat.src]
  next hmore =>
    rw [Place.loaded_of_ne hmore]
    exact Recorded.Guards.pure ⟨hd, hat⟩

/-- Where the decompressor stands in front of an item: at a place that the compressed data has. -/
structure Standing (input : ℕ → Byte) (srcLen : ℤ) (limit : ℕ) (place : Place) (d : Decompressor) : Prop where
  consistent : d.Consistent
  at_place : d.At place
  reached : Reached input srcLen limit place
  out : place.out ≤ limit

/-- The inner loop passes `n` items of a group. None of them ends where the data ends but the last. -/
theorem innerLoop_inside {n : ℕ} {place : Place} (hitems : ItemsInside input room srcLen limit)
    (hroom : limit + 18 ≤ room) (hd : d.Consistent) (hat : d.At (place.loaded input))
    (hreached : Reached input srcLen limit place) (hend : (place.src : ℤ) ≠ srcLen)
    (hout : place.out ≤ limit) (hcontrol : 2 ^ (n + 1) ≤ (place.loaded input).control)
    (hfar : n = 0 ∨ ((place.loaded input).src : ℤ) + 2 * (n + 1) ≤ srcLen) :
    StaysInside (fun result => result.1 = false → ∃ place', Standing input srcLen limit place' result.2 ∧
      place'.control = (place.loaded input).control >>> (n + 1) ∧
      (place.loaded input).src < place'.src ∧ place.out < place'.out)
      (innerLoop input room limit (n + 1) d) := by
  induction n generalizing place d with
  | zero =>
    obtain ⟨hsrc, -, hgrows, hshift⟩ := Place.pastItem_spec input (place.loaded input)
    have hloaded := Place.loaded_out input place
    have hdst : d.dst = place.out := hat.dst.trans hloaded
    refine Recorded.Guards.bind (decompressItem_inside hd hat (hitems place hreached hend hout)
      (by omega)) ?_
    rintro d₁ ⟨hd₁, hat₁⟩
    split
    · exact Recorded.Guards.pure (fun hfalse => Bool.noConfusion hfalse)
    next hfits =>
      refine Recorded.Guards.pure fun _ => ⟨place.next input, ⟨hd₁, hat₁, hreached.next hend hout, ?_⟩,
        hshift, hsrc, by rw [← hloaded]; exact hgrows⟩
      rw [Place.next, ← hat₁.dst]
      exact Nat.not_lt.mp hfits
  | succ n ih =>
    obtain ⟨hsrc, hsrcLe, hgrows, hshift⟩ := Place.pastItem_spec input (place.loaded input)
    have hloaded := Place.loaded_out input place
    have hdst : d.dst = place.out := hat.dst.trans hloaded
    refine Recorded.Guards.bind (decompressItem_inside hd hat (hitems place hreached hend hout)
      (by omega)) ?_
    rintro d₁ ⟨hd₁, hat₁⟩
    split
    · exact Recorded.Guards.pure (fun hfalse => Bool.noConfusion hfalse)
    next hfits =>
      -- the group has items left, so that no control word stands here, and the data does not end here
      have hcontrol' : 2 ^ (n + 1) ≤ (place.next input).control := by
        rw [Place.next, hshift, Nat.shiftRight_eq_div_pow, Nat.pow_one, Nat.le_div_iff_mul_le (by decide)]
        rwa [Nat.pow_succ] at hcontrol
      have hmore : (place.next input).control ≠ 1 := by
        have : 2 ≤ 2 ^ (n + 1) := Nat.le_self_pow (Nat.succ_ne_zero n) 2
        omega
      have hsame : (place.next input).loaded input = place.next input := Place.loaded_of_ne hmore
      have hfar' : ((place.next input).src : ℤ) + 2 * (n + 1) ≤ srcLen := by
        have hfar := hfar.resolve_left (Nat.succ_ne_zero n)
        rw [Place.next]
        push_cast at hfar
        omega
      refine (@ih d₁ (place.next input) hd₁ (by rw [hsame]; exact hat₁) (hreached.next hend hout)
        (by omega) ?_ (by rw [hsame]; exact hcontrol') (Or.inr (by rw [hsame]; exact hfar'))).mono ?_
      · rw [Place.next, ← hat₁.dst]
        exact Nat.not_lt.mp hfits
      · intro result hresult hfalse
        obtain ⟨place', hstanding, hplace', hsrc', hout'⟩ := hresult hfalse
        rw [hsame] at hplace' hsrc'
        refine ⟨place', hstanding, ?_, lt_trans hsrc hsrc', ?_⟩
        · rw [hplace', Place.next, hshift, ← Nat.shiftRight_add, Nat.add_comm 1]
        · rw [← hloaded]
          exact lt_trans hgrows hout'

/-- Where the outer loop stands: the last items of the data are taken one by one. -/
structure OuterStanding (input : ℕ → Byte) (srcLen : ℤ) (limit : ℕ) (place : Place)
    (d : Decompressor) : Prop extends Standing input srcLen limit place d where
  control : 1 ≤ place.control
  near : place.control = 1 ∨ srcLen < place.src + 32

/-- The outer loop stays inside. -/
theorem outerLoop_inside {rounds : ℕ} {place : Place} (hitems : ItemsInside input room srcLen limit)
    (hroom : limit + 18 ≤ room) (h : OuterStanding input srcLen limit place d)
    (hrounds : limit + 2 ≤ rounds + place.out) :
    StaysInside (fun _ => True) (outerLoop input room srcLen limit rounds d) := by
  induction rounds generalizing place d with
  | zero =>
    have := h.out
    omega
  | succ rounds ih =>
    rw [outerLoop]
    split
    · exact Recorded.Guards.pure trivial
    next hend =>
      rw [h.at_place.src] at hend
      have hinside := hitems place h.reached hend h.out
      obtain ⟨hsrc, -, -, -⟩ := Place.pastItem_spec input (place.loaded input)
      refine Recorded.Guards.bind (loadControl_inside h.consistent h.at_place
        (le_trans (le_of_lt hsrc) hinside)) ?_
      rintro d₁ ⟨hd₁, hat₁⟩
      have hcontrol : 2 ≤ (place.loaded input).control := by
        by_cases hone : place.control = 1
        · rw [Place.loaded_of_eq hone]
          exact le_trans (by decide) (controlWord_bounds input place.src).1
        · rw [Place.loaded_of_ne hone]
          have := h.control
          omega
      have hrest : ∀ result : Bool × Decompressor, (result.1 = false → ∃ place',
          OuterStanding input srcLen limit place' result.2 ∧ place.out < place'.out) →
          StaysInside (fun _ => True) (if result.1 then pure (0, result.2.output)
            else outerLoop input room srcLen limit rounds result.2) := by
        rintro ⟨overrun, d₂⟩ hresult
        cases overrun with
        | true => exact Recorded.Guards.pure trivial
        | false =>
          obtain ⟨place', hstanding, hout⟩ := hresult rfl
          exact ih hstanding (by omega)
      refine Recorded.Guards.bind ?_ hrest
      rw [hat₁.src]
      split
      next hfar =>
        -- a group is only passed as a whole if it begins here
        have hone : place.control = 1 := by
          cases h.near with
          | inl hone => exact hone
          | inr hnear =>
            by_contra hmore
            rw [Place.loaded_of_ne hmore, maxCmpGroup] at hfar
            push_cast at hfar
            omega
        have hword := controlWord_bounds input place.src
        have hloaded : (place.loaded input).control = controlWord input place.src := by
          rw [Place.loaded_of_eq hone]
        rw [maxCmpGroup] at hfar
        refine (innerLoop_inside (n := 15) hitems hroom hd₁ hat₁ h.reached hend h.out
          (by rw [hloaded]; exact hword.1) (Or.inr (by push_cast at hfar ⊢; omega))).mono ?_
        intro result hresult hfalse
        obtain ⟨place', hstanding, hplace', -, hout⟩ := hresult hfalse
        have hlast : place'.control = 1 := by
          rw [hplace', hloaded, Nat.shiftRight_eq_div_pow]
          omega
        exact ⟨place', ⟨hstanding, by omega, Or.inl hlast⟩, hout⟩
      next hnear =>
        rw [maxCmpGroup] at hnear
        refine (innerLoop_inside (n := 0) hitems hroom hd₁ hat₁ h.reached hend h.out
          hcontrol (Or.inl rfl)).mono ?_
        intro result hresult hfalse
        obtain ⟨place', hstanding, hplace', hsrc', hout⟩ := hresult hfalse
        refine ⟨place', ⟨hstanding, ?_, Or.inr ?_⟩, hout⟩
        · rw [hplace', Nat.shiftRight_eq_div_pow]
          omega
        · push_cast at hnear
          omega

/-- Decompression stays inside the two buffers, the hash table and the start string if the items of
the compressed data do, or if data that is not compressed fits the buffers. -/
theorem compressDecompress_inside {output : ℕ → Byte} (hroom : limit + 18 ≤ room)
    (hstored : srcLen < 0 → -srcLen ≤ room)
    (hitems : 0 ≤ srcLen → ItemsInside input room srcLen limit) :
    StaysInside (fun _ => True) (compressDecompress input room srcLen limit output) := by
  rw [compressDecompress]
  split
  next hneg =>
    have hfits : 0 + (-srcLen).toNat ≤ room := by
      have := hstored hneg
      omega
    refine Recorded.Guards.bind (staysInside_note (inside_of_le hfits)) fun _ _ => ?_
    refine Recorded.Guards.bind (staysInside_note (inside_of_le hfits)) fun _ _ => ?_
    exact Recorded.Guards.pure trivial
  next hpos =>
    have hfirst : OuterStanding input srcLen limit Place.first
        ⟨flagBytes, 0, 1, 0, fun _ => .startString 0, output⟩ :=
      ⟨⟨⟨fun _ => rfl, Nat.zero_le 2, Nat.zero_le 0⟩, ⟨rfl, rfl, rfl⟩, Reached.first,
        Nat.zero_le limit⟩, le_rfl, Or.inl rfl⟩
    exact outerLoop_inside (hitems (by omega)) hroom hfirst le_rfl

end Loops

end Ftape.Compressor
