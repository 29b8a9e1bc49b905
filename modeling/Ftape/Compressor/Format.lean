import Ftape.Compressor.Totality
import Mathlib.Tactic.Ring

/-!
# The format of compressed data

A text is described by items: a byte stands for itself, and a copy for the bytes at a place that an entry of
the hash table points to. Both sides enter the phrases of the text into the table in the same order, so that
an index into the table means the same place to both of them. Decompressing a description gives the text
back, however the compressor chose between bytes and copies.
-/

namespace Ftape.Compressor

open Ftape.Algebra

/-- An item: a byte, or an index into the hash table with the length less three. -/
inductive Item where
  | literal (byte : Byte)
  | copy (index : Fin hashTableLength) (lenmt : Fin 16)

/-- The bytes that an item takes in the compressed data. -/
def Item.bytes : Item → List Byte
  | .literal byte => [byte]
  | .copy index lenmt => [BitVec.ofNat 8 (index / 256 * 16 + lenmt), BitVec.ofNat 8 (index % 256)]

/-- The bit of the control word for an item. -/
def Item.controlBit : Item → ℕ
  | .literal _ => 0
  | .copy _ _ => 1

/-- The control bits of items, the first item being the least significant bit. -/
def controlBits : List Item → ℕ
  | [] => 0
  | item :: items => item.controlBit + 2 * controlBits items

/-- A group: two control bytes and the items. -/
def groupBytes (items : List Item) : List Byte :=
  [BitVec.ofNat 8 (controlBits items % 256), BitVec.ofNat 8 (controlBits items / 256)] ++
    items.flatMap Item.bytes

/-- The compressed data behind the flag bytes: the items in groups of sixteen. -/
def encodeItems : List Item → List Byte
  | [] => []
  | item :: items => groupBytes ((item :: items).take 16) ++ encodeItems ((item :: items).drop 16)
termination_by items => items.length
decreasing_by
  rw [List.length_drop, List.length_cons]
  omega

/-- A byte of the phrase that a pointer points to. -/
def phraseByte (text : List Byte) : Pointer → ℕ → Byte
  | .startString offset, i => startString18.getD (offset + i) 0
  | .output offset, i => text.getD (offset + i) 0

/-- The entry of the phrase at a place. -/
def hashAt (text : List Byte) (i : ℕ) : ℕ := hashOf (text.getD i 0) (text.getD (i + 1) 0) (text.getD (i + 2) 0)

/-- How far a text is described: the place, the bytes in front of it that have not entered the hash table,
and the table. -/
structure Scan where
  pos : ℕ
  pending : ℕ
  table : ℕ → Pointer

/-- The beginning of a text. -/
def Scan.first : Scan := ⟨0, 0, fun _ => .startString 0⟩

/-- The phrase at a place enters the table. -/
def Scan.enter (text : List Byte) (i : ℕ) (scan : Scan) : Scan :=
  { scan with table := Function.update scan.table (hashAt text i) (.output i) }

/-- The pending bytes enter the table. -/
def Scan.flush (text : List Byte) (scan : Scan) : Scan :=
  if scan.pending = 0 then scan
  else if scan.pending = 2 then
    ((scan.enter text (scan.pos - scan.pending)).enter text (scan.pos - scan.pending + 1))
  else scan.enter text (scan.pos - scan.pending)

/-- Behind an item. A byte enters the table once there are two bytes behind it; a copy is entered at its
index, behind the bytes that were pending. -/
def Scan.next (text : List Byte) (scan : Scan) : Item → Scan
  | .literal _ =>
    if scan.pending = 2 then { scan.enter text (scan.pos - 2) with pos := scan.pos + 1 }
    else { scan with pos := scan.pos + 1, pending := scan.pending + 1 }
  | .copy index lenmt =>
    { pos := scan.pos + (lenmt + 3), pending := 0
      table := Function.update (scan.flush text).table index (.output scan.pos) }

/-- The item describes the text from here on. -/
def Scan.Matches (text : List Byte) (scan : Scan) : Item → Prop
  | .literal byte => scan.pos < text.length ∧ text.getD scan.pos 0 = byte
  | .copy index lenmt => scan.pos + (lenmt + 3) ≤ text.length ∧
      ∀ i < lenmt.val + 3, phraseByte text (scan.table index) i = text.getD (scan.pos + i) 0

/-- The items describe the text from here to its end. -/
inductive Describes (text : List Byte) : Scan → List Item → Prop
  | done {scan : Scan} (h : scan.pos = text.length) : Describes text scan []
  | item {scan : Scan} {item : Item} {items : List Item} (h : scan.Matches text item)
      (hrest : Describes text (scan.next text item) items) : Describes text scan (item :: items)

/-- A pointer goes to the start string or to a place in front. -/
def Pointer.InFront (pos : ℕ) : Pointer → Prop
  | .startString offset => offset = 0
  | .output offset => offset < pos

/-- Pending bytes are in front of the place, and so is what the table points to. -/
structure Scan.Valid (scan : Scan) : Prop where
  few : scan.pending ≤ 2
  written : scan.pending ≤ scan.pos
  table : ∀ i, (scan.table i).InFront scan.pos

/-- The decompressor has described a text up to here. -/
structure Decompressor.Holds (text : List Byte) (scan : Scan) (d : Decompressor) : Prop where
  dst : d.dst = scan.pos
  literals : d.literals = scan.pending
  hash : d.hash = scan.table
  output : ∀ i < scan.pos, d.output i = text.getD i 0

section Items

variable {input : ℕ → Byte} {room : ℕ} {text : List Byte} {scan : Scan} {d : Decompressor}

/-- A place in front stays in front of what is written from there. -/
theorem Pointer.InFront.mono {p : Pointer} {pos pos' : ℕ} (h : p.InFront pos) (hpos : pos ≤ pos') :
    p.InFront pos' := by
  cases p with
  | startString offset => exact h
  | output offset => exact lt_of_lt_of_le h hpos

/-- A table that points to the front does so after a new entry. -/
theorem update_inFront {table : ℕ → Pointer} {pos i : ℕ} {p : Pointer} (htable : ∀ j, (table j).InFront pos)
    (hp : p.InFront pos) (j : ℕ) : (Function.update table i p j).InFront pos := by
  rw [Function.update_apply]
  split
  · exact hp
  · exact htable j

/-- A phrase in front enters the table. -/
theorem Scan.enter_inFront {i pos : ℕ} (htable : ∀ j, (scan.table j).InFront pos) (hi : i < pos) (j : ℕ) :
    ((scan.enter text i).table j).InFront pos := by
  have hp : (Pointer.output i).InFront pos := hi
  exact update_inFront htable hp j

/-- The pending bytes are in front. -/
theorem Scan.Valid.flush (h : scan.Valid) (j : ℕ) : ((scan.flush text).table j).InFront scan.pos := by
  obtain ⟨hfew, hwritten, htable⟩ := h
  rw [Scan.flush]
  split
  · exact htable j
  · split
    · exact Scan.enter_inFront (fun j => Scan.enter_inFront htable (by omega) j) (by omega) j
    · exact Scan.enter_inFront htable (by omega) j

/-- The scan of a text stays valid. -/
theorem Scan.Valid.next (h : scan.Valid) (item : Item) : (scan.next text item).Valid := by
  obtain ⟨hfew, hwritten, htable⟩ := h
  cases item with
  | literal byte =>
    rw [Scan.next]
    split
    · refine ⟨hfew, Nat.le_succ_of_le hwritten, fun j => ?_⟩
      exact (Scan.enter_inFront htable (by omega) j).mono (Nat.le_succ _)
    · refine ⟨?_, Nat.succ_le_succ hwritten, fun j => (htable j).mono (Nat.le_succ _)⟩
      change scan.pending + 1 ≤ 2
      omega
  | copy index lenmt =>
    rw [Scan.next]
    refine ⟨Nat.zero_le _, Nat.zero_le _, ?_⟩
    have hpos : scan.pos < scan.pos + (lenmt + 3) := by omega
    refine update_inFront (fun j => ?_) hpos
    exact (Scan.Valid.flush ⟨hfew, hwritten, htable⟩ j).mono hpos.le

/-- The phrase of a pointer, a byte further on. -/
theorem phraseByte_succ (text : List Byte) (p : Pointer) (i : ℕ) :
    phraseByte text p.succ i = phraseByte text p (i + 1) := by
  cases p with
  | startString offset => rw [Pointer.succ, phraseByte, phraseByte, Nat.add_right_comm, Nat.add_assoc]
  | output offset => rw [Pointer.succ, phraseByte, phraseByte, Nat.add_right_comm, Nat.add_assoc]

/-- The first byte of a phrase is read. -/
theorem read_phrase {p : Pointer} (houtput : ∀ i < d.dst, d.output i = text.getD i 0)
    (hfront : ∀ offset, p = .output offset → offset < d.dst) :
    (d.read room p).Ends fun byte => byte = phraseByte text p 0 := by
  cases p with
  | startString offset => exact Recorded.Ends.bind (Recorded.Ends.note _) fun _ _ => Recorded.Ends.pure rfl
  | output offset =>
    refine Recorded.Ends.bind (Recorded.Ends.note _) fun _ _ => Recorded.Ends.pure ?_
    exact houtput offset (hfront offset rfl)

/-- A byte of the text is written. -/
theorem update_output (text : List Byte) (byte : Byte) (houtput : ∀ i < d.dst, d.output i = text.getD i 0)
    (hbyte : byte = text.getD d.dst 0) (i : ℕ) (hi : i < d.dst + 1) :
    Function.update d.output d.dst byte i = text.getD i 0 := by
  rw [Function.update_apply]
  split
  next hlast => rw [hlast, hbyte]
  next hfront => exact houtput i (by omega)

/-- A phrase is copied byte by byte. Where the phrase runs into the bytes that are being written, they have been
written by then. -/
theorem copyLoop_phrase (text : List Byte) {n : ℕ} {p : Pointer} (houtput : ∀ i < d.dst, d.output i = text.getD i 0)
    (hfront : ∀ offset, p = .output offset → offset < d.dst)
    (hmatch : ∀ i < n, phraseByte text p i = text.getD (d.dst + i) 0) :
    (copyLoop room n p d).Ends fun d' => (∀ i < d.dst + n, d'.output i = text.getD i 0) ∧
      d' = { d with dst := d.dst + n, output := d'.output } := by
  induction n generalizing p d with
  | zero => exact Recorded.Ends.pure ⟨houtput, rfl⟩
  | succ n ih =>
    refine Recorded.Ends.bind (read_phrase houtput hfront) ?_
    rintro byte rfl
    have hbyte : phraseByte text p 0 = text.getD d.dst 0 := hmatch 0 (Nat.succ_pos n)
    refine Recorded.Ends.bind (Recorded.Ends.bind (Recorded.Ends.note _) fun _ _ => Recorded.Ends.pure rfl) ?_
    rintro d' rfl
    refine (ih (update_output text _ houtput hbyte) ?_ ?_).mono ?_
    · intro offset hsucc
      cases p with
      | startString _ => exact Pointer.noConfusion hsucc
      | output front =>
        obtain rfl : front + 1 = offset := Pointer.output.inj hsucc
        exact Nat.succ_lt_succ (hfront front rfl)
    · intro i hi
      rw [phraseByte_succ, hmatch (i + 1) (by omega)]
      congr 1
      dsimp only
      omega
    · rintro d' ⟨houtput', hd'⟩
      dsimp only at houtput' hd'
      refine ⟨fun i hi => houtput' i (by omega), hd'.trans ?_⟩
      rw [Nat.add_assoc, Nat.add_comm 1]

/-- A phrase that was written enters the table. -/
theorem enter_phrase {i n : ℕ} (houtput : ∀ i < n, d.output i = text.getD i 0) (hi : i + 2 < n) :
    (d.enter room (i : ℤ)).Ends fun d' =>
      d' = { d with hash := Function.update d.hash (hashAt text i) (.output i) } := by
  refine Recorded.Ends.bind (Recorded.Ends.note _) fun _ _ => ?_
  refine Recorded.Ends.bind (Recorded.Ends.note _) fun _ _ => Recorded.Ends.pure ?_
  rw [Int.toNat_natCast, hashAt, houtput i (by omega), houtput (i + 1) (by omega), houtput (i + 2) hi]

/-- The pending bytes enter the table once the bytes behind them are written. -/
theorem flushLiterals_scan (hscan : scan.Valid) (hliterals : d.literals = scan.pending)
    (hhash : d.hash = scan.table) (houtput : ∀ i < scan.pos + 3, d.output i = text.getD i 0) :
    (flushLiterals room scan.pos d).Ends fun d' =>
      d' = { d with hash := (scan.flush text).table, literals := 0 } := by
  obtain ⟨hfew, hwritten, -⟩ := hscan
  rw [flushLiterals, Scan.flush, hliterals]
  by_cases hpending : scan.pending = 0
  · rw [hpending, if_neg (Nat.lt_irrefl 0), if_pos rfl, ← hhash, ← hpending, ← hliterals]
    exact Recorded.Ends.pure rfl
  · have hfirst : (scan.pos : ℤ) - scan.pending = ((scan.pos - scan.pending : ℕ) : ℤ) :=
      (Nat.cast_sub hwritten).symm
    rw [if_pos (Nat.pos_of_ne_zero hpending), if_neg hpending, hfirst]
    refine Recorded.Ends.bind (enter_phrase houtput (by omega)) ?_
    rintro d₁ rfl
    rw [flushSecond]
    by_cases htwo : scan.pending = 2
    · rw [if_pos (hliterals.trans htwo), if_pos htwo]
      refine Recorded.Ends.bind (enter_phrase houtput (i := scan.pos - scan.pending + 1) (by omega)) ?_
      rintro d₂ rfl
      refine Recorded.Ends.pure ?_
      rw [hhash]
      rfl
    · rw [if_neg (fun h => htwo (hliterals.symm.trans h)), if_neg htwo]
      refine Recorded.Ends.bind (Recorded.Ends.pure rfl) ?_
      rintro d₂ rfl
      refine Recorded.Ends.pure ?_
      rw [hhash]
      rfl

/-- The bytes of an item, where the control word tells its kind. -/
def Item.At (input : ℕ → Byte) (place : Place) : Item → Prop
  | .literal byte => place.control &&& 1 = 0 ∧ input place.src = byte
  | .copy index lenmt => place.control &&& 1 ≠ 0 ∧
      input place.src = BitVec.ofNat 8 (index / 256 * 16 + lenmt) ∧
      input (place.src + 1) = BitVec.ofNat 8 (index % 256)

/-- The nibbles of the first byte of a copy item. -/
theorem copyNibbles (high lenmt : Fin 16) :
    (BitVec.ofNat 8 (high * 16 + lenmt)).toNat &&& 0xf0 = high * 16 ∧
      (BitVec.ofNat 8 (high * 16 + lenmt)).toNat &&& 0xf = lenmt := by
  revert high lenmt
  decide

/-- The index of a copy item is put together from its bytes. -/
theorem copyIndex (index : Fin hashTableLength) (lenmt : Fin 16) :
    (((BitVec.ofNat 8 (index / 256 * 16 + lenmt)).toNat &&& 0xf0) <<< 4) |||
      (BitVec.ofNat 8 (index % 256)).toNat = index := by
  have hindex : index.val < 4096 := index.isLt
  have hnibbles := (copyNibbles ⟨index / 256, by omega⟩ lenmt).1
  have hlow : (BitVec.ofNat 8 (index % 256)).toNat = index % 256 := by
    rw [BitVec.toNat_ofNat]
    omega
  rw [hnibbles, hlow, Nat.shiftLeft_eq]
  have hsplit : index.val / 256 * 16 * 2 ^ 4 = 2 ^ 8 * (index / 256) := by ring
  rw [hsplit, ← Nat.two_pow_add_eq_or_of_lt (by omega)]
  omega

/-- A byte of the compressed data is read. -/
theorem readInput_byte (src : ℕ) : (readInput input room src).Ends fun byte => byte = input src :=
  Recorded.Ends.bind (Recorded.Ends.note _) fun _ _ => Recorded.Ends.pure rfl

/-- A copy item describes the text further. -/
theorem copyItem_scan {index : Fin hashTableLength} {lenmt : Fin 16} (hscan : scan.Valid)
    (hd : d.Holds text scan) (hmatch : scan.Matches text (.copy index lenmt))
    (hfirst : input d.src = BitVec.ofNat 8 (index / 256 * 16 + lenmt))
    (hsecond : input (d.src + 1) = BitVec.ofNat 8 (index % 256)) :
    (copyItem input room d).Ends fun d' => d'.Holds text (scan.next text (.copy index lenmt)) := by
  obtain ⟨hdst, hliterals, hhash, houtput⟩ := hd
  obtain ⟨-, hphrase⟩ := hmatch
  have hindex : index.val < 4096 := index.isLt
  have hlength := (copyNibbles ⟨index / 256, by omega⟩ lenmt).2
  rw [copyItem]
  refine Recorded.Ends.bind (readInput_byte d.src) ?_
  rintro byte rfl
  refine Recorded.Ends.bind (readInput_byte (d.src + 1)) ?_
  rintro byte rfl
  rw [hfirst, hsecond, copyIndex, hlength]
  refine Recorded.Ends.bind (Recorded.Ends.note _) fun _ _ => ?_
  have hfront : ∀ offset, d.hash index = .output offset → offset < d.dst := by
    intro offset hoffset
    have hpoints := hscan.table index
    rw [← hhash, hoffset] at hpoints
    rw [hdst]
    exact hpoints
  refine Recorded.Ends.bind (copyLoop_phrase text (d := { d with src := d.src + 2 })
    (by rw [← hdst] at houtput; exact houtput) hfront ?_) ?_
  · rw [hhash, hdst]
    exact hphrase
  · rintro d₁ ⟨houtput₁, hd₁⟩
    dsimp only at houtput₁ hd₁
    rw [hdst] at houtput₁ hd₁ ⊢
    have hliterals₁ : d₁.literals = scan.pending := by rw [hd₁, hliterals]
    have hhash₁ : d₁.hash = scan.table := by rw [hd₁, hhash]
    refine Recorded.Ends.bind (flushLiterals_scan hscan hliterals₁ hhash₁
      fun i hi => houtput₁ i (by omega)) ?_
    rintro d₂ rfl
    refine Recorded.Ends.bind (Recorded.Ends.note _) fun _ _ => Recorded.Ends.pure ⟨?_, rfl, rfl, ?_⟩
    · rw [hd₁]
      rfl
    · exact houtput₁

/-- A literal item describes the text further. -/
theorem literalItem_scan {byte : Byte} (hscan : scan.Valid) (hd : d.Holds text scan)
    (hmatch : scan.Matches text (.literal byte)) (hfirst : input d.src = byte) :
    (literalItem input room d).Ends fun d' => d'.Holds text (scan.next text (.literal byte)) := by
  obtain ⟨hdst, hliterals, hhash, houtput⟩ := hd
  obtain ⟨-, hbyte⟩ := hmatch
  rw [literalItem]
  refine Recorded.Ends.bind (readInput_byte d.src) ?_
  rintro byte' rfl
  refine Recorded.Ends.bind (Recorded.Ends.bind (Recorded.Ends.note _) fun _ _ => Recorded.Ends.pure rfl) ?_
  rintro d₁ rfl
  have houtput₁ : ∀ i < scan.pos + 1, Function.update d.output scan.pos (input d.src) i = text.getD i 0 := by
    have hlast := update_output (d := d) text (input d.src)
    rw [hdst] at hlast
    exact hlast houtput (hfirst.trans hbyte.symm)
  rw [hashLiteral, Scan.next]
  dsimp only
  rw [hdst, hliterals]
  by_cases htwo : scan.pending = 2
  · have hplace : ((scan.pos + 1 : ℕ) : ℤ) - 3 = ((scan.pos - 2 : ℕ) : ℤ) := by
      have := hscan.written
      omega
    have hthree : scan.pending + 1 = 3 := by omega
    rw [if_pos hthree, if_pos htwo, hplace]
    refine Recorded.Ends.bind (enter_phrase (n := scan.pos + 1) houtput₁ (by have := hscan.written; omega)) ?_
    rintro d₂ rfl
    refine Recorded.Ends.pure ⟨rfl, htwo.symm, ?_, houtput₁⟩
    rw [hhash]
    rfl
  · have hthree : ¬scan.pending + 1 = 3 := by omega
    rw [if_neg hthree, if_neg htwo]
    exact Recorded.Ends.pure ⟨rfl, rfl, hhash, houtput₁⟩

/-- The item at a place describes the text further. -/
theorem decompressItem_scan {place : Place} {item : Item} (hscan : scan.Valid) (hd : d.Holds text scan)
    (hat : d.At place) (hmatch : scan.Matches text item) (hitem : item.At input place) :
    (decompressItem input room d).Ends fun d' => d'.Holds text (scan.next text item) := by
  rw [decompressItem, copyOrLiteral, hat.control]
  cases item with
  | literal byte =>
    obtain ⟨hcontrol, hbyte⟩ := hitem
    rw [if_neg (not_not.mpr hcontrol)]
    refine Recorded.Ends.bind (literalItem_scan hscan hd hmatch (by rw [hat.src]; exact hbyte)) fun d' hd' => ?_
    exact Recorded.Ends.pure ⟨hd'.dst, hd'.literals, hd'.hash, hd'.output⟩
  | copy index lenmt =>
    obtain ⟨hcontrol, hfirst, hsecond⟩ := hitem
    rw [if_pos hcontrol]
    refine Recorded.Ends.bind (copyItem_scan hscan hd hmatch (by rw [hat.src]; exact hfirst)
      (by rw [hat.src]; exact hsecond)) fun d' hd' => ?_
    exact Recorded.Ends.pure ⟨hd'.dst, hd'.literals, hd'.hash, hd'.output⟩

end Items

/-- The compressed data holds these items from a place to its end. -/
def Encoded (input : ℕ → Byte) (srcLen : ℤ) : Place → List Item → Prop
  | place, [] => (place.src : ℤ) = srcLen
  | place, item :: items => item.At input (place.loaded input) ∧ Encoded input srcLen (place.next input) items

/-- The items describe a text from where the decompressor stands. -/
def Decompressor.Follows (text : List Byte) (items : List Item) (d : Decompressor) : Prop :=
  ∃ scan : Scan, scan.Valid ∧ d.Holds text scan ∧ Describes text scan items

/-- The decompressor stands at a place, with a text that the items from there on describe further. -/
structure Tracks (input : ℕ → Byte) (srcLen : ℤ) (text : List Byte) (place : Place) (items : List Item)
    (d : Decompressor) : Prop where
  at_place : d.At place
  encoded : Encoded input srcLen place items
  follows : d.Follows text items

section Loops

variable {input : ℕ → Byte} {room limit : ℕ} {srcLen : ℤ} {text : List Byte} {place : Place} {items : List Item}
  {d : Decompressor}

/-- Each item describes a byte at least. -/
theorem Describes.length_le {scan : Scan} (h : Describes text scan items) :
    scan.pos + items.length ≤ text.length := by
  induction h with
  | done hpos => exact hpos.le
  | @item scan item items hmatch hrest ih =>
    rw [List.length_cons]
    cases item with
    | literal byte =>
      rw [Scan.next] at ih
      split at ih
      · dsimp only at ih
        omega
      · dsimp only at ih
        omega
    | copy index lenmt =>
      rw [Scan.next] at ih
      dsimp only at ih
      omega

/-- Each item takes a byte at least. -/
theorem Encoded.src_le (h : Encoded input srcLen place items) : (place.src : ℤ) + items.length ≤ srcLen := by
  induction items generalizing place with
  | nil => simpa using h.le
  | cons item items ih =>
    obtain ⟨hsrc, -, -, -⟩ := Place.pastItem_spec input (place.loaded input)
    have hloaded : place.src ≤ (place.loaded input).src := by
      rw [Place.loaded]
      split
      · exact Nat.le_add_right _ _
      · exact le_rfl
    have hrest := ih h.2
    rw [Place.next] at hrest
    rw [List.length_cons]
    push_cast
    omega

/-- The items of one group take two bytes at most. -/
theorem Encoded.le_src (hmore : 2 ^ items.length ≤ place.control) (hcontrol : place.control ≠ 1 ∨ items = [])
    (h : Encoded input srcLen place items) : srcLen ≤ place.src + 2 * items.length := by
  induction items generalizing place with
  | nil => simpa using h.ge
  | cons item items ih =>
    have hsame : place.loaded input = place := Place.loaded_of_ne (hcontrol.resolve_right (List.cons_ne_nil _ _))
    obtain ⟨-, hsrc, -, hshift⟩ := Place.pastItem_spec input place
    have hrest := h.2
    rw [Place.next, hsame] at hrest
    rw [List.length_cons, pow_succ] at hmore
    have hnext : 2 ^ items.length ≤ (place.pastItem input).control := by
      rw [hshift, Nat.shiftRight_eq_div_pow]
      omega
    have hlast : (place.pastItem input).control ≠ 1 ∨ items = [] := by
      cases items with
      | nil => exact Or.inr rfl
      | cons _ items =>
        rw [List.length_cons, pow_succ] at hnext
        have := Nat.one_le_two_pow (n := items.length)
        exact Or.inl (by omega)
    have hle := ih hnext hlast hrest
    rw [List.length_cons]
    push_cast
    omega

/-- An item leads to the next place, with a text that is described further. -/
theorem decompressItem_tracks {item : Item} (hencoded : Encoded input srcLen place (item :: items))
    (hat : d.At (place.loaded input)) (hfollows : d.Follows text (item :: items)) :
    (decompressItem input room d).Ends fun d' => Tracks input srcLen text (place.next input) items d' := by
  obtain ⟨hitem, hencoded⟩ := hencoded
  obtain ⟨scan, hscan, hd, hdescribes⟩ := hfollows
  cases hdescribes with
  | item hmatch hrest =>
    refine ((decompressItem_ends hat).and (decompressItem_scan hscan hd hat hmatch hitem)).mono ?_
    rintro d' ⟨hat, hholds⟩
    exact ⟨hat, hencoded, _, hscan.next item, hholds, hrest⟩

/-- The output is a part of the text. -/
theorem Tracks.dst_le (h : Tracks input srcLen text place items d) : d.dst ≤ text.length := by
  obtain ⟨scan, -, hd, hdescribes⟩ := h.follows
  have := hdescribes.length_le
  rw [hd.dst]
  omega

/-- The inner loop passes items of one group. -/
theorem innerLoop_tracks {item : Item} {front rest : List Item} (hlimit : text.length ≤ limit)
    (hencoded : Encoded input srcLen place (item :: (front ++ rest))) (hat : d.At (place.loaded input))
    (hfollows : d.Follows text (item :: (front ++ rest)))
    (hcontrol : 2 ^ (front.length + 1) ≤ (place.loaded input).control) :
    (innerLoop input room limit (front.length + 1) d).Ends fun result => result.1 = false ∧
      ∃ place', Tracks input srcLen text place' rest result.2 ∧
        place'.control = (place.loaded input).control >>> (front.length + 1) ∧
        (place.loaded input).src ≤ place'.src := by
  induction front generalizing item place d with
  | nil =>
    obtain ⟨hsrc, -, -, hshift⟩ := Place.pastItem_spec input (place.loaded input)
    refine Recorded.Ends.bind (decompressItem_tracks hencoded hat hfollows) fun d' hd' => ?_
    rw [if_neg (not_lt.mpr (le_trans hd'.dst_le hlimit))]
    exact Recorded.Ends.pure ⟨rfl, place.next input, hd', hshift, hsrc.le⟩
  | cons second front ih =>
    obtain ⟨hsrc, -, -, hshift⟩ := Place.pastItem_spec input (place.loaded input)
    refine Recorded.Ends.bind (decompressItem_tracks hencoded hat hfollows) fun d' hd' => ?_
    rw [if_neg (not_lt.mpr (le_trans hd'.dst_le hlimit))]
    -- the group has an item left, so that no control word stands here
    have hnext : 2 ^ (front.length + 1) ≤ (place.next input).control := by
      rw [List.length_cons, pow_succ] at hcontrol
      rw [Place.next, hshift, Nat.shiftRight_eq_div_pow]
      omega
    have hmore : (place.next input).control ≠ 1 := by
      rw [pow_succ] at hnext
      have := Nat.one_le_two_pow (n := front.length)
      omega
    have hsamePlace : (place.next input).loaded input = place.next input := Place.loaded_of_ne hmore
    refine (ih hd'.encoded (by rw [hsamePlace]; exact hd'.at_place) hd'.follows
      (by rw [hsamePlace]; exact hnext)).mono ?_
    rintro result ⟨hresult, place', htracks, hcontrol', hsrc'⟩
    rw [hsamePlace] at hcontrol' hsrc'
    refine ⟨hresult, place', htracks, ?_, le_trans hsrc.le hsrc'⟩
    rw [hcontrol', Place.next, hshift, ← Nat.shiftRight_add, List.length_cons, Nat.add_comm 1]

/-- A control word is read without a change to the text. -/
theorem loadControl_follows (hd : d.Follows text items) :
    (loadControl input room d).Ends fun d' => d'.Follows text items := by
  obtain ⟨scan, hscan, hd, hdescribes⟩ := hd
  rw [loadControl]
  split
  · refine Recorded.Ends.bind (readInput_byte d.src) fun _ _ => ?_
    refine Recorded.Ends.bind (readInput_byte (d.src + 1)) fun _ _ => ?_
    exact Recorded.Ends.pure ⟨scan, hscan, ⟨hd.dst, hd.literals, hd.hash, hd.output⟩, hdescribes⟩
  · exact Recorded.Ends.pure ⟨scan, hscan, hd, hdescribes⟩

/-- A control word in front of an item has bits left. -/
theorem Place.two_le_loaded (input : ℕ → Byte) (place : Place) (hcontrol : 1 ≤ place.control) : 2 ≤ (place.loaded input).control := by
  by_cases hone : place.control = 1
  · rw [Place.loaded_of_eq hone]
    exact le_trans (by decide) (controlWord_bounds input place.src).1
  · rw [Place.loaded_of_ne hone]
    omega

/-- The items in front of a control word are those behind it. -/
theorem encoded_loaded_iff (hne : items ≠ []) (hcontrol : 1 ≤ place.control) :
    Encoded input srcLen (place.loaded input) items ↔ Encoded input srcLen place items := by
  have htwo := place.two_le_loaded input hcontrol
  have hsame : (place.loaded input).loaded input = place.loaded input := Place.loaded_of_ne (by omega)
  cases items with
  | nil => exact absurd rfl hne
  | cons item items => rw [Encoded, Encoded, Place.next, Place.next, hsame]

/-- The outer loop gives the text back. -/
theorem outerLoop_tracks {rounds : ℕ} (hlimit : text.length ≤ limit)
    (h : Tracks input srcLen text place items d) (hcontrol : 1 ≤ place.control)
    (hnear : place.control = 1 ∨ srcLen < place.src + 32) (hrounds : items.length < rounds) :
    (outerLoop input room srcLen limit rounds d).Ends fun result => result.1 = text.length ∧
      ∀ i < text.length, result.2 i = text.getD i 0 := by
  induction rounds generalizing place items d with
  | zero => exact absurd hrounds (Nat.not_lt_zero _)
  | succ rounds ih =>
    rw [outerLoop, h.at_place.src]
    cases items with
    | nil =>
      obtain ⟨-, hend, scan, -, hd, hdescribes⟩ := h
      have hend : (place.src : ℤ) = srcLen := hend
      cases hdescribes with
      | done hpos =>
        rw [if_pos hend]
        refine Recorded.Ends.pure ⟨hd.dst.trans hpos, ?_⟩
        rw [← hpos]
        exact hd.output
    | cons item items =>
      have hbefore := h.encoded.src_le
      rw [List.length_cons] at hbefore hrounds
      rw [if_neg (by omega)]
      refine Recorded.Ends.bind ((loadControl_ends h.at_place).and (loadControl_follows h.follows)) ?_
      rintro loaded ⟨hat, hfollows⟩
      rw [hat.src]
      have hgroup : ∀ front rest : List Item, items = front ++ rest →
          2 ^ (front.length + 1) ≤ (place.loaded input).control →
          (∀ place' : Place, place'.control = (place.loaded input).control >>> (front.length + 1) →
            (place.loaded input).src ≤ place'.src →
            1 ≤ place'.control ∧ (place'.control = 1 ∨ srcLen < place'.src + 32)) →
          (innerLoop input room limit (front.length + 1) loaded >>= fun result =>
            if result.1 then pure (0, result.2.output)
            else outerLoop input room srcLen limit rounds result.2).Ends fun result =>
              result.1 = text.length ∧ ∀ i < text.length, result.2 i = text.getD i 0 := by
        rintro front rest rfl hbits hbehind
        refine Recorded.Ends.bind (innerLoop_tracks hlimit h.encoded hat hfollows hbits) ?_
        rintro ⟨overrun, d'⟩ ⟨hresult, place', htracks, hcontrol', hsrc'⟩
        obtain rfl : overrun = false := hresult
        obtain ⟨hone, hnear'⟩ := hbehind place' hcontrol' hsrc'
        rw [List.length_append] at hrounds
        exact ih htracks hone hnear' (by omega)
      have hbits := place.two_le_loaded input hcontrol
      split
      next hfar =>
        -- a group is only passed as a whole if it begins here, and then the data has so many items left
        rw [maxCmpGroup] at hfar
        have hone : place.control = 1 := by
          cases hnear with
          | inl hone => exact hone
          | inr hnear =>
            by_contra hmore
            rw [Place.loaded_of_ne hmore] at hfar
            push_cast at hfar
            omega
        have hword := controlWord_bounds input place.src
        have hloaded : (place.loaded input).control = controlWord input place.src := by
          rw [Place.loaded_of_eq hone]
        have hlength : 15 ≤ items.length := by
          by_contra hfew
          have hpow : 2 ^ (item :: items).length ≤ (place.loaded input).control := by
            rw [hloaded]
            refine le_trans (Nat.pow_le_pow_right (by decide) ?_) hword.1
            rw [List.length_cons]
            omega
          have hlast := Encoded.le_src hpow (Or.inl (by omega))
            ((encoded_loaded_iff (List.cons_ne_nil item items) hcontrol).mpr h.encoded)
          rw [List.length_cons] at hlast
          push_cast at hfar hlast
          omega
        have hfront : (items.take 15).length = 15 := List.length_take_of_le hlength
        have hpass := hgroup (items.take 15) (items.drop 15) (List.take_append_drop 15 items).symm
          (by rw [hfront, hloaded]; exact hword.1) (by
            intro place' hcontrol' _
            have hlast : place'.control = 1 := by
              rw [hcontrol', hfront, hloaded, Nat.shiftRight_eq_div_pow]
              omega
            exact ⟨hlast.ge, Or.inl hlast⟩)
        rw [hfront] at hpass
        exact hpass
      next hnear =>
        rw [maxCmpGroup] at hnear
        refine hgroup [] items rfl hbits fun place' hcontrol' hsrc' => ⟨?_, Or.inr ?_⟩
        · rw [hcontrol', Nat.shiftRight_eq_div_pow, List.length_nil]
          omega
        · push_cast at hnear
          omega

end Loops

section Bytes

variable {input : ℕ → Byte} {srcLen : ℤ} {place : Place}

/-- The bytes are in the buffer from a place on. -/
def Stored (input : ℕ → Byte) (src : ℕ) (bytes : List Byte) : Prop := window input src bytes.length = bytes

/-- Bytes are in the buffer one part behind the other. -/
theorem stored_append {src : ℕ} {front back : List Byte} :
    Stored input src (front ++ back) ↔ Stored input src front ∧ Stored input (src + front.length) back := by
  rw [Stored, List.length_append, window_append]
  constructor
  · intro h
    exact List.append_inj h (window_length _ _ _)
  · rintro ⟨hfront, hback⟩
    rw [Stored] at hfront hback
    rw [hfront, hback]

/-- A byte is in the buffer in front of others. -/
theorem stored_cons {src : ℕ} {byte : Byte} {bytes : List Byte} :
    Stored input src (byte :: bytes) ↔ input src = byte ∧ Stored input (src + 1) bytes := by
  rw [Stored, List.length_cons, window_succ, List.cons.injEq]
  rfl

/-- The control bits of so many items. -/
theorem controlBits_lt (items : List Item) : controlBits items < 2 ^ items.length := by
  induction items with
  | nil => exact Nat.one_pos
  | cons item items ih =>
    have hbit : item.controlBit ≤ 1 := by
      cases item with
      | literal _ => exact Nat.zero_le 1
      | copy _ _ => exact le_rfl
    rw [controlBits, List.length_cons, pow_succ]
    omega

/-- The bits of a group behind its items: the next bit tells the kind of the next item. -/
theorem Item.at_of_stored {item : Item} {bits : ℕ} (hcontrol : place.control = item.controlBit + 2 * bits)
    (hbytes : Stored input place.src item.bytes) :
    item.At input place ∧ (place.pastItem input).src = place.src + item.bytes.length ∧
      (place.pastItem input).control = bits := by
  have hparity : place.control &&& 1 = item.controlBit := by
    rw [Nat.and_one_is_mod, hcontrol]
    cases item with
    | literal _ =>
      rw [Item.controlBit]
      omega
    | copy _ _ =>
      rw [Item.controlBit]
      omega
  have hshift : place.control >>> 1 = bits := by
    rw [Nat.shiftRight_eq_div_pow, hcontrol]
    cases item with
    | literal _ =>
      rw [Item.controlBit]
      omega
    | copy _ _ =>
      rw [Item.controlBit]
      omega
  rw [Place.pastItem, hparity]
  cases item with
  | literal byte =>
    rw [Item.controlBit] at hparity ⊢
    rw [Item.bytes, stored_cons] at hbytes
    rw [if_neg (not_not.mpr rfl)]
    exact ⟨⟨hparity, hbytes.1⟩, rfl, hshift⟩
  | copy index lenmt =>
    rw [Item.controlBit] at hparity ⊢
    rw [Item.bytes, stored_cons, stored_cons] at hbytes
    rw [if_pos Nat.one_ne_zero]
    exact ⟨⟨by rw [hparity]; exact Nat.one_ne_zero, hbytes.1, hbytes.2.1⟩, rfl, hshift⟩

/-- The items of a group, and what follows them where the bits of the group have been used up so far. -/
theorem encoded_group {items after : List Item} {m : ℕ} (hcontrol : place.control = 2 ^ m + controlBits items)
    (hroom : items.length ≤ m) (hbytes : Stored input place.src (items.flatMap Item.bytes))
    (hafter : ∀ place' : Place, place'.src = place.src + (items.flatMap Item.bytes).length →
      place'.control = 2 ^ (m - items.length) → Encoded input srcLen place' after) :
    Encoded input srcLen place (items ++ after) := by
  induction items generalizing place m with
  | nil => exact hafter place rfl hcontrol
  | cons item items ih =>
    obtain ⟨m, rfl⟩ : ∃ n, m = n + 1 := ⟨m - 1, by rw [List.length_cons] at hroom; omega⟩
    rw [List.flatMap_cons, stored_append] at hbytes
    rw [controlBits, pow_succ] at hcontrol
    have hnext : place.control = item.controlBit + 2 * (2 ^ m + controlBits items) := by omega
    have hmore : place.control ≠ 1 := by
      have := Nat.one_le_two_pow (n := m)
      omega
    have hsame : place.loaded input = place := Place.loaded_of_ne hmore
    obtain ⟨hitem, hsrc, hbits⟩ := Item.at_of_stored hnext hbytes.1
    refine ⟨by rw [hsame]; exact hitem, ?_⟩
    rw [Place.next, hsame]
    rw [List.length_cons] at hroom
    refine ih hbits (by omega) (by rw [hsrc]; exact hbytes.2) fun place' hsrc' hcontrol' => ?_
    refine hafter place' ?_ ?_
    · rw [hsrc', hsrc, List.flatMap_cons, List.length_append]
      omega
    · rw [hcontrol', List.length_cons]
      congr 1
      omega

/-- A control word is put together from its bytes. -/
theorem controlWord_of_stored {src bits : ℕ} (hbits : bits < 2 ^ 16)
    (hbytes : Stored input src [BitVec.ofNat 8 (bits % 256), BitVec.ofNat 8 (bits / 256)]) :
    controlWord input src = 2 ^ 16 + bits := by
  rw [stored_cons, stored_cons] at hbytes
  have hlow : (input src).toNat = bits % 256 := by
    rw [hbytes.1, BitVec.toNat_ofNat]
    omega
  have hhigh : (input (src + 1)).toNat = bits / 256 := by
    rw [hbytes.2.1, BitVec.toNat_ofNat]
    omega
  rw [controlWord, hlow, hhigh, Nat.or_assoc, Nat.or_comm (bits % 256), Nat.shiftLeft_eq]
  have hword : bits / 256 * 2 ^ 8 ||| bits % 256 = bits := by
    rw [Nat.mul_comm, ← Nat.two_pow_add_eq_or_of_lt (by omega)]
    omega
  rw [hword]
  have hflag := Nat.two_pow_add_eq_or_of_lt hbits 1
  rw [Nat.mul_one] at hflag
  exact hflag.symm

/-- Data that was encoded holds its items. -/
theorem encoded_encodeItems (items : List Item) (hcontrol : place.control = 1)
    (hbytes : Stored input place.src (encodeItems items))
    (hend : srcLen = place.src + (encodeItems items).length) : Encoded input srcLen place items := by
  induction items using encodeItems.induct generalizing place with
  | case1 =>
    rw [encodeItems] at hend
    exact hend.symm
  | case2 item items ih =>
    rw [encodeItems] at hbytes hend
    generalize hall : item :: items = all at *
    rw [groupBytes, List.append_assoc, stored_append, stored_append] at hbytes
    obtain ⟨hword, hitems, hrest⟩ := hbytes
    have hfew : (all.take 16).length ≤ 16 := List.length_take_le 16 all
    have hbits : controlBits (all.take 16) < 2 ^ 16 :=
      lt_of_lt_of_le (controlBits_lt _) (Nat.pow_le_pow_right (by decide) hfew)
    have hne : all ≠ [] := hall ▸ List.cons_ne_nil item items
    rw [← encoded_loaded_iff hne hcontrol.ge, Place.loaded_of_eq hcontrol, controlWord_of_stored hbits hword]
    have hgroup : Encoded input srcLen ⟨place.src + 2, place.out, 2 ^ 16 + controlBits (all.take 16)⟩
        (all.take 16 ++ all.drop 16) := by
      refine encoded_group (m := 16) rfl hfew hitems fun place' hsrc' hcontrol' => ?_
      by_cases hmore : all.drop 16 = []
      · rw [hmore] at hend ⊢
        rw [encodeItems, List.append_nil, groupBytes, List.length_append] at hend
        rw [Encoded, hsrc', hend]
        push_cast
        simp only [List.length_cons, List.length_nil]
        ring
      · have hfull : (all.take 16).length = 16 := by
          rw [List.drop_eq_nil_iff] at hmore
          rw [List.length_take]
          omega
        rw [hfull] at hcontrol'
        refine ih hcontrol' (by rw [hsrc']; exact hrest) ?_
        rw [hend, hsrc', groupBytes, List.length_append, List.length_append]
        push_cast
        simp only [List.length_cons, List.length_nil]
        ring
    rwa [List.take_append_drop] at hgroup

end Bytes

/-- The decompressor starts in front of the text that the items describe, and writes all of it. -/
theorem outerLoop_describes {text : List Byte} {items : List Item} {input : ℕ → Byte} (output : ℕ → Byte)
    (room limit : ℕ) (hdescribes : Describes text .first items) (hstored : Stored input flagBytes (encodeItems items))
    (hlimit : text.length ≤ limit) :
    (outerLoop input room (flagBytes + (encodeItems items).length : ℕ) limit (limit + 2)
      ⟨flagBytes, 0, 1, 0, fun _ => .startString 0, output⟩).Ends fun result =>
      result.1 = text.length ∧ window result.2 0 text.length = text := by
  have hfollows : Decompressor.Follows text items ⟨flagBytes, 0, 1, 0, fun _ => .startString 0, output⟩ :=
    ⟨.first, ⟨Nat.zero_le 2, le_rfl, fun _ => rfl⟩, ⟨rfl, rfl, rfl, fun i hi => absurd hi (Nat.not_lt_zero i)⟩,
      hdescribes⟩
  have hencoded : Encoded input (flagBytes + (encodeItems items).length : ℕ) Place.first items :=
    encoded_encodeItems items rfl hstored (by push_cast; rfl)
  have hlength := hdescribes.length_le
  have hfew : items.length < limit + 2 := by omega
  refine (outerLoop_tracks hlimit ⟨⟨rfl, rfl, rfl⟩, hencoded, hfollows⟩ le_rfl (Or.inl rfl) hfew).mono ?_
  rintro ⟨length, contents⟩ ⟨rfl, hcontents⟩
  refine ⟨rfl, List.ext_getElem (window_length _ _ _) fun i hi hi' => ?_⟩
  rw [window_getElem, Nat.zero_add, hcontents i hi', List.getD_eq_getElem?_getD,
    List.getElem?_eq_getElem hi', Option.getD_some]

/-- Decompressing the description of a text gives the text back, whatever items a compressor chose. -/
theorem compressDecompress_describes {text : List Byte} {items : List Item} {input : ℕ → Byte} (output : ℕ → Byte)
    (room limit : ℕ) (hdescribes : Describes text .first items) (hstored : Stored input flagBytes (encodeItems items))
    (hlimit : text.length ≤ limit) :
    (compressDecompress input room (flagBytes + (encodeItems items).length : ℕ) limit output).Ends fun result =>
      result.1 = text.length ∧ window result.2 0 text.length = text := by
  -- a length that is not negative stands for data that is compressed
  rw [compressDecompress, if_neg (by omega)]
  exact outerLoop_describes output room limit hdescribes hstored hlimit

/-- Seven equal bytes: three of them, and a copy of the phrase that they have entered. -/
def runItems : List Item := [.literal 97, .literal 97, .literal 97, .copy ⟨hashOf 97 97 97, hashOf_lt 97 97 97⟩ 1]

/-- Seven equal bytes are decompressed. -/
theorem compressDecompress_describes_run :
    (compressDecompress (fun i => [0, 0, 0, 0, 8, 0, 97, 97, 97, 33, 14].getD i 0) 64 (11 : ℕ) 7
      (fun _ => 0)).Ends fun result => result.1 = 7 ∧ window result.2 0 7 = List.replicate 7 97 := by
  have hitems : encodeItems runItems = [8, 0, 97, 97, 97, 33, 14] := by
    rw [runItems, encodeItems, List.drop_of_length_le (by simp), encodeItems]
    decide
  have hdescribes : Describes (List.replicate 7 97) .first runItems := by
    refine .item ⟨by decide, rfl⟩ (.item ⟨by decide, rfl⟩ (.item ⟨by decide, rfl⟩ (.item ⟨by decide, ?_⟩ (.done rfl))))
    decide
  have hstored : Stored (fun i => [0, 0, 0, 0, 8, 0, 97, 97, 97, 33, 14].getD i 0) flagBytes
      (encodeItems runItems) := by
    rw [hitems, Stored, window]
    rfl
  have hdecompressed := compressDecompress_describes (fun _ => 0) 64 7 hdescribes hstored le_rfl
  rw [hitems] at hdecompressed
  exact hdecompressed

end Ftape.Compressor
