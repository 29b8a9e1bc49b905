import Ftape.Volume.Locality

/-!
# The entry of a new volume

`create_zft_volume()` writes the fields of an entry one after the other. Reading the entry gives the
volume back if its numbers fit into the fields.
-/

namespace Ftape.Volume

open Ftape.Algebra Ftape.Bsm Ftape.Write Ftape.Zftape

/-- What the volume table tells about a volume. -/
structure Description where
  startSeg : ℕ
  endSeg : ℕ
  size : ℤ
  blkSz : ℕ
  zftVolume : Bool
  useCompression : Bool
  qic113 : Bool
deriving DecidableEq

/-- What the volume table tells about a volume in the list. -/
def VtblEntry.description (vtbl : VtblEntry) : Description :=
  ⟨vtbl.startSeg, vtbl.endSeg, vtbl.size, vtbl.blkSz, vtbl.zftVolume, vtbl.useCompression, vtbl.qic113⟩

/-- The numbers of a volume fit into their fields. -/
structure VtblEntry.Fits (cartridge : Cartridge) (vtbl : VtblEntry) : Prop where
  startSeg : vtbl.startSeg < if cartridge.formatCode = .fmtBig then 256 ^ 4 else 256 ^ 2
  endSeg : vtbl.endSeg < if cartridge.formatCode = .fmtBig then 256 ^ 4 else 256 ^ 2
  blkSz : vtbl.blkSz < 256 ^ 2
  size : if cartridge.qic113 then -2 ^ 63 ≤ vtbl.size ∧ vtbl.size < 2 ^ 63
    else 0 ≤ vtbl.size ∧ vtbl.size < 2 ^ 32

/-- A volume as `zft_open_volume()` and `zft_weof()` make it. -/
structure VtblEntry.Own (cartridge : Cartridge) (vtbl : VtblEntry) : Prop where
  zftVolume : vtbl.zftVolume = true
  qic113 : vtbl.qic113 = cartridge.qic113
  count : vtbl.count < 1000

/-- An entry holds what `create_zft_volume()` writes. -/
def Created (cartridge : Cartridge) (vtbl : VtblEntry) (buffer : ℕ → Byte) (entry : ℕ) : Prop :=
  ∃ base, ∀ k, k < vtblSize →
    buffer (entry + k) = runPuts (createZftVolume cartridge entry vtbl) base (entry + k)

section Fields

variable {cartridge : Cartridge} {vtbl : VtblEntry} {buffer : ℕ → Byte} {entry : ℕ}

/-- A field holds what the last write to it put there. -/
theorem Created.field (h : Created cartridge vtbl buffer entry) (hcount : vtbl.count < 1000)
    {put : Put Byte} {n : ℕ} (hput : (createZftVolume cartridge entry vtbl)[n]? = some put)
    {field size : ℕ} (hfield : field + size ≤ vtblSize)
    (hafter : ∀ f ∈ (volumeFields cartridge.formatCode).drop (n + 1),
      field + size ≤ f.1 ∨ f.1 + f.2 ≤ field) :
    ∃ before, ∀ i, i < size → buffer (entry + field + i) = put.run before (entry + field + i) := by
  obtain ⟨base, hbytes⟩ := h
  obtain ⟨before, hrun⟩ := runPuts_at (createZftVolume_places cartridge entry hcount) hput hafter base
  refine ⟨before, fun i hi => ?_⟩
  rw [← hrun i hi, Nat.add_assoc]
  exact hbytes (field + i) (by omega)

/-- A number of a new volume. -/
theorem Created.number (h : Created cartridge vtbl buffer entry) (hcount : vtbl.count < 1000)
    {n field size value : ℕ} (hput : (createZftVolume cartridge entry vtbl)[n]? =
      some (putNumber cartridge.bigEndian (entry + field) size value))
    (hfield : field + size ≤ vtblSize) (hvalue : value < 256 ^ size)
    (hafter : ∀ f ∈ (volumeFields cartridge.formatCode).drop (n + 1),
      field + size ≤ f.1 ∨ f.1 + f.2 ≤ field) :
    fetch cartridge.bigEndian buffer (entry + field) size = value := by
  obtain ⟨before, hrun⟩ := h.field hcount hput hfield hafter
  rw [← fetch_run_putNumber cartridge.bigEndian (entry + field) hvalue before]
  apply fetch_congr
  intro k hk hk'
  obtain ⟨i, rfl⟩ := Nat.exists_eq_add_of_le hk
  exact hrun i (by omega)

/-- A text of a new volume. -/
theorem Created.text (h : Created cartridge vtbl buffer entry) (hcount : vtbl.count < 1000)
    {n field : ℕ} {text : List Byte}
    (hput : (createZftVolume cartridge entry vtbl)[n]? = some (putCells (entry + field) text))
    (hfield : field + text.length ≤ vtblSize)
    (hafter : ∀ f ∈ (volumeFields cartridge.formatCode).drop (n + 1),
      field + text.length ≤ f.1 ∨ f.1 + f.2 ≤ field) :
    hasText buffer (entry + field) text = true := by
  obtain ⟨before, hrun⟩ := h.field hcount hput hfield hafter
  apply hasText_iff.mpr
  intro i hi
  rw [hrun i hi, run_putCells _ _ _ hi]

/-- A byte of a new volume that stays clear. -/
theorem Created.clear (h : Created cartridge vtbl buffer entry) (hcount : vtbl.count < 1000)
    {field : ℕ} (hfield : field + 1 ≤ vtblSize)
    (hafter : ∀ f ∈ (volumeFields cartridge.formatCode).drop 1, field + 1 ≤ f.1 ∨ f.1 + f.2 ≤ field) :
    buffer (entry + field) = 0 := by
  obtain ⟨before, hrun⟩ := h.field hcount (n := 0) rfl hfield hafter
  exact (hrun 0 Nat.one_pos).trans
    (if_pos (show entry ≤ entry + field + 0 ∧ entry + field + 0 < entry + vtblSize by omega))

/-- A byte of a new volume. -/
theorem Created.byte (h : Created cartridge vtbl buffer entry) (hcount : vtbl.count < 1000)
    {n field : ℕ} {byte : Byte}
    (hput : (createZftVolume cartridge entry vtbl)[n]? = some (putCells (entry + field) [byte]))
    (hfield : field + 1 ≤ vtblSize)
    (hafter : ∀ f ∈ (volumeFields cartridge.formatCode).drop (n + 1),
      field + 1 ≤ f.1 ∨ f.1 + f.2 ≤ field) :
    buffer (entry + field) = byte := hasText_iff.mp (h.text hcount hput hfield hafter) 0 Nat.one_pos

end Fields

/-- The compression byte of a new volume tells whether it is compressed. -/
theorem cmprByte_hasBits (vtbl : VtblEntry) :
    hasBits (cmprByte vtbl) vtblCmprUsed = vtbl.useCompression ∧
      hasBits (cmprByte vtbl) vtblCmprUnreg = true := by
  rw [cmprByte]
  cases vtbl.useCompression <;> decide

/-- A size of eight bytes. -/
theorem bmod_toNat_emod {size : ℤ} (hlow : -2 ^ 63 ≤ size) (hhigh : size < 2 ^ 63) :
    (((size % 2 ^ 64).toNat : ℕ) : ℤ).bmod (2 ^ 64) = size := by
  rw [Int.toNat_of_nonneg (Int.emod_nonneg _ (by decide))]
  have hmod : (size % 2 ^ 64).bmod (2 ^ 64) = size.bmod (2 ^ 64) := Int.emod_bmod size (2 ^ 64)
  rw [hmod, Int.bmod_eq_of_le_mul_two (by push_cast; omega) (by push_cast; omega)]

section Volume

variable {cartridge : Cartridge} {vtbl : VtblEntry} {buffer : ℕ → Byte} {entry : ℕ}

/-- A new volume has the id of a volume. -/
theorem Created.id (h : Created cartridge vtbl buffer entry) (hcount : vtbl.count < 1000) :
    hasText buffer (entry + vtblSig) vtblId = true := by
  apply h.text hcount (n := 1) rfl (by decide)
  cases cartridge.formatCode <;> decide

/-- The type and the block size of a new volume, on a cartridge with 16 bit segment numbers. -/
theorem Created.getTypeAndBlockSize_small (h : Created cartridge vtbl buffer entry)
    (hown : vtbl.Own cartridge) (hblkSz : vtbl.blkSz < 256 ^ 2) (hbig : cartridge.formatCode ≠ .fmtBig)
    (volume : VtblEntry) : getTypeAndBlockSize cartridge buffer entry volume =
      { volume with blkSz := vtbl.blkSz, qic113 := cartridge.qic113, version := 1, zftVolume := true } := by
  have hsig : hasText buffer (entry + (vtblExt + extZftSig)) zftSig = true := by
    apply h.text hown.count (n := 6) _ (by decide)
    · revert hbig
      cases cartridge.formatCode <;> decide
    · rw [createZftVolume, createExtension, if_neg hbig]
      rfl
  have hblk : fetch cartridge.bigEndian buffer (entry + (vtblExt + extZftBlksz)) 2 = vtbl.blkSz := by
    apply h.number hown.count (n := 7) _ (by decide) hblkSz
    · revert hbig
      cases cartridge.formatCode <;> decide
    · rw [createZftVolume, createExtension, if_neg hbig]
      rfl
  have hqic113 : (buffer (entry + (vtblExt + extZftQic113))).getLsbD 0 = cartridge.qic113 := by
    cases hq : cartridge.qic113 with
    | true =>
      have hbyte : buffer (entry + (vtblExt + extZftQic113)) = 1 := by
        apply h.byte hown.count (n := 10) _ (by decide)
        · revert hbig hq
          rw [Cartridge.qic113]
          cases cartridge.formatCode <;> decide
        · rw [createZftVolume, createExtension, if_neg hbig, createSize, if_pos hq, if_neg hbig]
          rfl
      rw [hbyte]
      rfl
    | false =>
      have hbyte : buffer (entry + (vtblExt + extZftQic113)) = 0 := by
        apply h.clear hown.count (by decide)
        revert hbig hq
        rw [Cartridge.qic113]
        cases cartridge.formatCode <;> decide
      rw [hbyte]
      rfl
  rw [getTypeAndBlockSize, if_pos hsig, hblk, hqic113]

/-- The major version of the layout, where the signature of other formats would be. -/
theorem Created.major (h : Created cartridge vtbl buffer entry) (hcount : vtbl.count < 1000)
    (hbig : cartridge.formatCode = .fmtBig) :
    hasText buffer (entry + (vtblExt + extZftSig)) zftSigText = false := by
  have hmajor : fetch cartridge.bigEndian buffer (entry + vtbl6Major) 2 = 113 := by
    apply h.number hcount (n := 11) _ (by decide) (by decide)
    · rw [hbig]
      decide
    · have hq : cartridge.qic113 = true := by
        rw [Cartridge.qic113, hbig]
        rfl
      rw [createZftVolume, createExtension, if_pos hbig, createSize, if_pos hq, if_pos hbig,
        createRange, if_pos hbig]
      rfl
  by_contra htext
  have hfirst : buffer (entry + vtbl6Major) = 0x4c :=
    hasText_iff.mp (Bool.not_eq_false _ ▸ htext) 0 (by decide)
  cases hendian : cartridge.bigEndian with
  | false =>
    rw [hendian] at hmajor
    simp only [fetch, ofBytes, byteAt] at hmajor
    simp [hfirst] at hmajor
    omega
  | true =>
    rw [hendian] at hmajor
    simp only [fetch, ofBytes, byteAt] at hmajor
    simp [hfirst] at hmajor

/-- A cartridge with 32 bit segment numbers conforms to QIC-113. -/
theorem qic113_of_big (hbig : cartridge.formatCode = .fmtBig) : cartridge.qic113 = true := by
  rw [Cartridge.qic113, hbig]
  rfl

/-- What `create_zft_volume()` writes on a cartridge with 32 bit segment numbers. -/
theorem createZftVolume_big (hbig : cartridge.formatCode = .fmtBig) (entry : ℕ) (vtbl : VtblEntry) :
    createZftVolume cartridge entry vtbl = createLabel entry vtbl ++
      [putCells (entry + (vtbl6Ext + ext6ZftSig)) zftSig2,
        putCells (entry + (vtbl6Ext + ext6ZftSigv)) [2],
        putNumber cartridge.bigEndian (entry + (vtbl6Ext + ext6ZftBlksz)) 2 vtbl.blkSz,
        putNumber cartridge.bigEndian (entry + vtblDataSize) 8 (vtbl.size % 2 ^ 64).toNat,
        putCells (entry + vtblCmpr) [cmprByte vtbl],
        putNumber cartridge.bigEndian (entry + vtbl6Major) 2 113,
        putNumber cartridge.bigEndian (entry + vtbl6Minor) 2 7,
        putNumber cartridge.bigEndian (entry + vtbl6Segs) 4
          (Header.uint (vtbl.endSeg + 0x100000000 - vtbl.startSeg + 1)),
        putNumber cartridge.bigEndian (entry + vtbl6Start) 4 vtbl.startSeg,
        putNumber cartridge.bigEndian (entry + vtbl6End) 4 vtbl.endSeg] := by
  rw [createZftVolume, createExtension, if_pos hbig, createSize, if_pos (qic113_of_big hbig), if_pos hbig,
    createRange, if_pos hbig]
  rfl

/-- What `create_zft_volume()` writes on a cartridge with 16 bit segment numbers. -/
theorem createZftVolume_small (hbig : cartridge.formatCode ≠ .fmtBig) (entry : ℕ) (vtbl : VtblEntry) :
    createZftVolume cartridge entry vtbl = createLabel entry vtbl ++
      [putCells (entry + (vtblExt + extZftSig)) zftSig,
        putNumber cartridge.bigEndian (entry + (vtblExt + extZftBlksz)) 2 vtbl.blkSz] ++
      (if cartridge.qic113 then
        [putNumber cartridge.bigEndian (entry + vtblDataSize) 8 (vtbl.size % 2 ^ 64).toNat,
          putCells (entry + vtblCmpr) [cmprByte vtbl],
          putCells (entry + (vtblExt + extZftQic113)) [1]]
      else
        [putNumber cartridge.bigEndian (entry + vtblDataSize) 4 (vtbl.size % 2 ^ 64).toNat,
          putCells (entry + vtblKCmpr) [cmprByte vtbl]]) ++
      [putNumber cartridge.bigEndian (entry + vtblStart) 2 vtbl.startSeg,
        putNumber cartridge.bigEndian (entry + vtblEnd) 2 vtbl.endSeg] := by
  rw [createZftVolume, createExtension, if_neg hbig, createSize, if_neg hbig, createRange, if_neg hbig]
  rfl

/-- The type and the block size of a new volume, on a cartridge with 32 bit segment numbers. -/
theorem Created.getTypeAndBlockSize_big (h : Created cartridge vtbl buffer entry)
    (hown : vtbl.Own cartridge) (hblkSz : vtbl.blkSz < 256 ^ 2) (hbig : cartridge.formatCode = .fmtBig)
    (volume : VtblEntry) : getTypeAndBlockSize cartridge buffer entry volume =
      { volume with version := 2, blkSz := vtbl.blkSz, qic113 := cartridge.qic113, zftVolume := true } := by
  have hsig : hasText buffer (entry + (vtblExt + extZftSig)) zftSig = false := by
    have hmajor := h.major hown.count hbig
    by_contra htext
    rw [Bool.not_eq_false] at htext
    have htext' : hasText buffer (entry + (vtblExt + extZftSig)) zftSigText = true :=
      hasText_iff.mpr fun i hi => by
        rw [hasText_iff.mp htext i (by simp [zftSig]; omega)]
        exact List.getElem_append_left hi
    exact absurd (hmajor.symm.trans htext') Bool.false_ne_true
  have hsig2 : hasText buffer (entry + (vtbl6Ext + ext6ZftSig)) zftSig2 = true := by
    apply h.text hown.count (n := 6) _ (by decide)
    · rw [hbig]
      decide
    · rw [createZftVolume_big hbig]
      rfl
  have hsigv : buffer (entry + (vtbl6Ext + ext6ZftSigv)) = 2 := by
    apply h.byte hown.count (n := 7) _ (by decide)
    · rw [hbig]
      decide
    · rw [createZftVolume_big hbig]
      rfl
  have hblk : fetch cartridge.bigEndian buffer (entry + (vtbl6Ext + ext6ZftBlksz)) 2 = vtbl.blkSz := by
    apply h.number hown.count (n := 8) _ (by decide) hblkSz
    · rw [hbig]
      decide
    · rw [createZftVolume_big hbig]
      rfl
  rw [getTypeAndBlockSize, if_neg (Bool.not_eq_true _ ▸ hsig), if_pos ⟨hbig, hsig2⟩, hblk, hsigv,
    qic113_of_big hbig]
  rfl

/-- The segments of a new volume. -/
theorem Created.extractSegmentRange (h : Created cartridge vtbl buffer entry) (hown : vtbl.Own cartridge)
    (hfits : vtbl.Fits cartridge) (eomStart : ℕ) {volume : VtblEntry}
    (hversion : cartridge.formatCode = .fmtBig → volume.version ≠ 1) :
    extractSegmentRange cartridge buffer entry eomStart volume =
      { volume with startSeg := vtbl.startSeg, endSeg := vtbl.endSeg } := by
  have hstartSeg := hfits.startSeg
  have hendSeg := hfits.endSeg
  by_cases hbig : cartridge.formatCode = .fmtBig
  · rw [if_pos hbig] at hstartSeg hendSeg
    have hstart : fetch cartridge.bigEndian buffer (entry + vtbl6Start) 4 = vtbl.startSeg := by
      apply h.number hown.count (n := 14) _ (by decide) hstartSeg
      · rw [hbig]
        decide
      · rw [createZftVolume_big hbig]
        rfl
    have hend : fetch cartridge.bigEndian buffer (entry + vtbl6End) 4 = vtbl.endSeg := by
      apply h.number hown.count (n := 15) _ (by decide) hendSeg
      · rw [hbig]
        decide
      · rw [createZftVolume_big hbig]
        rfl
    rw [Volume.extractSegmentRange, if_pos hbig, if_neg (fun hv => hversion hbig hv.2), hstart, hend]
  · rw [if_neg hbig] at hstartSeg hendSeg
    have hstart : fetch cartridge.bigEndian buffer (entry + vtblStart) 2 = vtbl.startSeg := by
      cases hq : cartridge.qic113 with
      | true =>
        apply h.number hown.count (n := 11) _ (by decide) hstartSeg
        · revert hbig hq
          rw [Cartridge.qic113]
          cases cartridge.formatCode <;> decide
        · rw [createZftVolume_small hbig, if_pos hq]
          rfl
      | false =>
        apply h.number hown.count (n := 10) _ (by decide) hstartSeg
        · revert hbig hq
          rw [Cartridge.qic113]
          cases cartridge.formatCode <;> decide
        · rw [createZftVolume_small hbig, hq]
          rfl
    have hend : fetch cartridge.bigEndian buffer (entry + vtblEnd) 2 = vtbl.endSeg := by
      cases hq : cartridge.qic113 with
      | true =>
        apply h.number hown.count (n := 12) _ (by decide) hendSeg
        · revert hbig hq
          rw [Cartridge.qic113]
          cases cartridge.formatCode <;> decide
        · rw [createZftVolume_small hbig, if_pos hq]
          rfl
      | false =>
        apply h.number hown.count (n := 11) _ (by decide) hendSeg
        · revert hbig hq
          rw [Cartridge.qic113]
          cases cartridge.formatCode <;> decide
        · rw [createZftVolume_small hbig, hq]
          rfl
    rw [Volume.extractSegmentRange, if_neg hbig, hstart, hend]

/-- The size of a new volume. -/
theorem Created.extractZftVolume (h : Created cartridge vtbl buffer entry) (hown : vtbl.Own cartridge)
    (hfits : vtbl.Fits cartridge) {volume : VtblEntry} (hvolume : volume.qic113 = cartridge.qic113) :
    extractZftVolume cartridge buffer entry volume =
      { volume with
        size := vtbl.size
        useCompression := vtbl.useCompression
        rawsize := cartridge.rawsize volume.startSeg volume.endSeg } := by
  have hfit := hfits.size
  obtain ⟨hused, hunreg⟩ := cmprByte_hasBits vtbl
  cases hq : cartridge.qic113 with
  | true =>
    rw [if_pos hq] at hfit
    have hlt : (vtbl.size % 2 ^ 64).toNat < 256 ^ 8 := by omega
    have hsize : fetch cartridge.bigEndian buffer (entry + vtblDataSize) 8 = (vtbl.size % 2 ^ 64).toNat := by
      by_cases hbig : cartridge.formatCode = .fmtBig
      · apply h.number hown.count (n := 9) _ (by decide) hlt
        · rw [hbig]
          decide
        · rw [createZftVolume_big hbig]
          rfl
      · apply h.number hown.count (n := 8) _ (by decide) hlt
        · revert hbig hq
          rw [Cartridge.qic113]
          cases cartridge.formatCode <;> decide
        · rw [createZftVolume_small hbig, if_pos hq]
          rfl
    have hcmpr : buffer (entry + vtblCmpr) = cmprByte vtbl := by
      by_cases hbig : cartridge.formatCode = .fmtBig
      · apply h.byte hown.count (n := 10) _ (by decide)
        · rw [hbig]
          decide
        · rw [createZftVolume_big hbig]
          rfl
      · apply h.byte hown.count (n := 9) _ (by decide)
        · revert hbig hq
          rw [Cartridge.qic113]
          cases cartridge.formatCode <;> decide
        · rw [createZftVolume_small hbig, if_pos hq]
          rfl
    rw [Volume.extractZftVolume, if_pos (hvolume.trans hq), if_pos (hvolume.trans hq), hsize, hcmpr, hused,
      bmod_toNat_emod hfit.1 hfit.2]
  | false =>
    have hqic113 : ¬volume.qic113 = true := by rw [hvolume, hq]; exact Bool.false_ne_true
    have hbig : cartridge.formatCode ≠ .fmtBig := by
      intro hbig
      rw [qic113_of_big hbig] at hq
      exact absurd hq.symm Bool.false_ne_true
    rw [if_neg (by rw [hq]; exact Bool.false_ne_true)] at hfit
    have hsmall : (vtbl.size % 2 ^ 64).toNat = vtbl.size.toNat := by omega
    have hsize : fetch cartridge.bigEndian buffer (entry + vtblDataSize) 4 = (vtbl.size % 2 ^ 64).toNat := by
      apply h.number hown.count (n := 8) _ (by decide) (by omega)
      · revert hbig hq
        rw [Cartridge.qic113]
        cases cartridge.formatCode <;> decide
      · rw [createZftVolume_small hbig, hq]
        rfl
    have hcmpr : buffer (entry + vtblKCmpr) = cmprByte vtbl := by
      apply h.byte hown.count (n := 9) _ (by decide)
      · revert hbig hq
        rw [Cartridge.qic113]
        cases cartridge.formatCode <;> decide
      · rw [createZftVolume_small hbig, hq]
        rfl
    rw [Volume.extractZftVolume, if_neg hqic113, if_neg hqic113, hsize, hsmall, hcmpr, if_pos hunreg, hused,
      Int.toNat_of_nonneg hfit.1]

/-- A new volume is read back as it was written. -/
theorem Created.extractEntry_description (h : Created cartridge vtbl buffer entry)
    (hown : vtbl.Own cartridge) (hfits : vtbl.Fits cartridge) (eomStart : ℕ) (volume : VtblEntry) :
    (extractEntry cartridge buffer entry eomStart volume).description = vtbl.description := by
  have hdescription : vtbl.description = ⟨vtbl.startSeg, vtbl.endSeg, vtbl.size, vtbl.blkSz, true,
      vtbl.useCompression, cartridge.qic113⟩ := by
    rw [VtblEntry.description, hown.zftVolume, hown.qic113]
  by_cases hbig : cartridge.formatCode = .fmtBig
  · rw [extractEntry, h.getTypeAndBlockSize_big hown hfits.blkSz hbig,
      h.extractSegmentRange hown hfits eomStart (fun _ => (by decide : 2 ≠ 1)), if_pos rfl,
      h.extractZftVolume hown hfits rfl, hdescription]
    rfl
  · rw [extractEntry, h.getTypeAndBlockSize_small hown hfits.blkSz hbig,
      h.extractSegmentRange hown hfits eomStart (fun hbig' => absurd hbig' hbig), if_pos rfl,
      h.extractZftVolume hown hfits rfl, hdescription]
    rfl

/-- A new volume in the first entry is not taken for a compression map. -/
theorem Created.hasCmap (h : Created cartridge vtbl buffer 0) (hown : vtbl.Own cartridge) :
    hasCmap buffer = false := by
  by_cases hbig : cartridge.formatCode = .fmtBig
  · have hmajor := h.major hown.count hbig
    rw [Nat.zero_add] at hmajor
    rw [Volume.hasCmap, hmajor, Bool.false_and]
  · have hclear : buffer (0 + (vtblExt + extZftCmap)) = 0 := by
      apply h.clear hown.count (by decide)
      revert hbig
      cases cartridge.formatCode <;> decide
    rw [Nat.zero_add] at hclear
    rw [Volume.hasCmap, hclear, Bool.and_eq_false_iff]
    exact Or.inr rfl

end Volume

end Ftape.Volume
