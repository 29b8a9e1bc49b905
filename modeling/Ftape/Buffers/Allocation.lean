import Ftape.Algebra.Held
import Ftape.Buffers.Invariant

/-!
# Memory for the segment buffers

`fdc_set_nr_buffers()` allocates in two stages: the deblock buffer of the driver when there are no buffers yet, and then
the buffers of the ring, one by one. The internal driver takes pages for both. The drivers for the parallel port have one
buffer in main memory, and the ring lies in the memory of the adapter. When memory runs out between the two stages, the
deblock buffer of the internal driver stays behind, and the first stage refuses to be repeated.
-/

namespace Ftape.Buffers

open Ftape.Algebra

/-- `ENOMEM`. -/
def enomem : ℤ := 12

/-- `FT_BUFF_SIZE`. -/
def ftBuffSize : ℕ := 0x8000

/-- The drivers for floppy disk controllers. -/
inductive Driver where
  | internal
  | trakker
  | bpckFdc
deriving DecidableEq

/-- The fields of `buffer_struct` that belong to the driver. -/
structure RingBuffer where
  virtual : ℕ
  dmaAddress : ℕ

/-- The fields of `fdc_int_t`, `struct trakker_struct` and `bpck_fdc_t` for buffers: the deblock buffer, and the buffers of
the adapter that are used. -/
structure DriverData where
  deblockBuffer : Option ℕ
  usedBuffers : BitVec 4

/-- The fields of `fdc_info_t` for buffers. `buffers` is the ring from `fdc->buffers` on, `inUse` the memory that was
allocated and not freed, and `calls` counts the requests for memory. -/
structure Controller where
  driver : Driver
  data : Option DriverData
  buffers : List RingBuffer
  nrBuffers : ℕ
  inUse : Finset ℕ
  calls : ℕ

/-- `__get_dma_pages()` and `vmalloc()`, which hand out memory that is not in use, or none. -/
structure Memory where
  get : ℕ → Finset ℕ → Option ℕ
  fresh : ∀ call inUse, ∀ address ∈ get call inUse, address ∉ inUse

/-- There is memory for every request. -/
def Memory.Available (memory : Memory) : Prop := ∀ call inUse, (memory.get call inUse).isSome

/-- A request for memory. -/
def Controller.request (memory : Memory) (fdc : Controller) : Option ℕ × Controller :=
  match memory.get fdc.calls fdc.inUse with
  | none => (none, { fdc with calls := fdc.calls + 1 })
  | some address => (some address, { fdc with calls := fdc.calls + 1, inUse := insert address fdc.inUse })

/-- The part of `fdc_int_alloc()` for the deblock buffer. A call leaves a controller behind and returns a value, but
there is neither where it follows a null pointer. -/
def fdcIntAllocDeblock (memory : Memory) (fdc : Controller) : Option (Controller × ℤ) :=
  match fdc.data with
  | none => some (fdc, -einval)
  | some data =>
    if data.deblockBuffer.isSome then some (fdc, -einval)
    else match fdc.request memory with
      | (none, fdc) => some (fdc, -enomem)
      | (some address, fdc) => some ({ fdc with data := some { data with deblockBuffer := some address } }, 0)

/-- The part of `fdc_int_alloc()` for a buffer of the ring. -/
def fdcIntAllocBuffer (memory : Memory) (fdc : Controller) : Option (Controller × Except ℤ RingBuffer) :=
  match fdc.request memory with
  | (none, fdc) => some (fdc, .error (-enomem))
  | (some address, fdc) => some (fdc, .ok ⟨address, address⟩)

/-- The part of `trakker_alloc()` and `bpck_fdc_alloc()` for the deblock buffer. -/
def parportAllocDeblock (memory : Memory) (fdc : Controller) : Option (Controller × ℤ) := do
  let data ← fdc.data
  if data.deblockBuffer.isSome then some (fdc, -einval)
  else match fdc.request memory with
    | (none, fdc) => some (fdc, -enomem)
    | (some address, fdc) => some ({ fdc with data := some { data with deblockBuffer := some address } }, 0)

/-- The part of `trakker_alloc()` and `bpck_fdc_alloc()` for a buffer of the ring. -/
def parportAllocBuffer (fdc : Controller) : Option (Controller × Except ℤ RingBuffer) := do
  let data ← fdc.data
  match [0, 1, 2, 3].find? fun i => !data.usedBuffers.getLsbD i with
  | none => some (fdc, .error (-enomem))
  | some i => some ({ fdc with data := some { data with usedBuffers := data.usedBuffers ||| (1 : BitVec 4) <<< i } },
      .ok ⟨data.deblockBuffer.getD 0, i * ftBuffSize⟩)

/-- The part of `fdc_int_free()` for the deblock buffer. -/
def fdcIntFreeDeblock (fdc : Controller) : Controller :=
  match fdc.data with
  | none => fdc
  | some data =>
    { fdc with
      data := some { data with deblockBuffer := none }
      inUse := match data.deblockBuffer with
        | none => fdc.inUse
        | some address => fdc.inUse.erase address }

/-- The part of `trakker_free()` and `bpck_fdc_free()` for the deblock buffer, which gives up the adapter with it. -/
def parportFreeDeblock (fdc : Controller) : Controller :=
  match fdc.data with
  | none => fdc
  | some data =>
    match data.deblockBuffer with
    | none => fdc
    | some address => { fdc with data := none, inUse := fdc.inUse.erase address }

/-- The part of `trakker_free()` and `bpck_fdc_free()` for a buffer of the ring. -/
def parportFreeBuffer (fdc : Controller) (old : RingBuffer) : Option Controller := do
  let data ← fdc.data
  some { fdc with data := some { data with
    usedBuffers := data.usedBuffers &&& ~~~((1 : BitVec 4) <<< (old.dmaAddress / ftBuffSize)) } }

/-- `fdc->ops->alloc()` without a buffer. -/
def allocDeblock (memory : Memory) (fdc : Controller) : Option (Controller × ℤ) :=
  match fdc.driver with
  | .internal => fdcIntAllocDeblock memory fdc
  | .trakker | .bpckFdc => parportAllocDeblock memory fdc

/-- `fdc->ops->alloc()` with a buffer. -/
def allocBuffer (memory : Memory) (fdc : Controller) : Option (Controller × Except ℤ RingBuffer) :=
  match fdc.driver with
  | .internal => fdcIntAllocBuffer memory fdc
  | .trakker | .bpckFdc => parportAllocBuffer fdc

/-- `fdc->ops->free()` without a buffer. -/
def freeDeblock (fdc : Controller) : Controller :=
  match fdc.driver with
  | .internal => fdcIntFreeDeblock fdc
  | .trakker | .bpckFdc => parportFreeDeblock fdc

/-- `fdc->ops->free()` with a buffer. -/
def freeBuffer (fdc : Controller) (old : RingBuffer) : Option Controller :=
  match fdc.driver with
  | .internal => some { fdc with inUse := fdc.inUse.erase old.virtual }
  | .trakker | .bpckFdc => parportFreeBuffer fdc old

/-- A buffer is inserted behind the first one of the ring. -/
def insertBuffer (new : RingBuffer) : List RingBuffer → List RingBuffer
  | [] => [new]
  | anchor :: others => anchor :: new :: others

/-- `add_one_buffer()`. Its request for the `buffer_struct` waits until there is memory. -/
def Controller.addOneBuffer (memory : Memory) (fdc : Controller) : Option (Controller × ℤ) :=
  if ftMaxNrBuffers ≤ fdc.nrBuffers then some (fdc, -einval)
  else do
    match ← allocBuffer memory fdc with
    | (fdc, .error errno) => some (fdc, errno)
    | (fdc, .ok new) => some ({ fdc with nrBuffers := fdc.nrBuffers + 1, buffers := insertBuffer new fdc.buffers }, 0)

/-- `del_one_buffer()`. -/
def Controller.delOneBuffer (fdc : Controller) : Option Controller :=
  if 0 < fdc.nrBuffers then
    match fdc.buffers with
    | [] => some fdc
    | [old] => freeBuffer { fdc with nrBuffers := fdc.nrBuffers - 1, buffers := [] } old
    | anchor :: old :: others =>
      freeBuffer { fdc with nrBuffers := fdc.nrBuffers - 1, buffers := anchor :: others } old
  else some fdc

/-- The loop of `fdc_set_nr_buffers()` that adds buffers. -/
def Controller.growLoop (memory : Memory) : ℕ → Controller → Option (Controller × ℤ)
  | 0, fdc => some (fdc, 0)
  | delta + 1, fdc => do
    let (fdc, result) ← fdc.addOneBuffer memory
    if result < 0 then some (fdc, result) else growLoop memory delta fdc

/-- The loop of `fdc_set_nr_buffers()` that deletes buffers. -/
def Controller.shrinkLoop : ℕ → Controller → Option Controller
  | 0, fdc => some fdc
  | delta + 1, fdc => do shrinkLoop delta (← fdc.delOneBuffer)

/-- The end of `fdc_set_nr_buffers()`, less what the buffers contain. -/
def Controller.settle (fdc : Controller) : Controller := if fdc.nrBuffers = 0 then freeDeblock fdc else fdc

/-- The part of `fdc_set_nr_buffers()` behind the first stage. -/
def Controller.changeNrBuffers (memory : Memory) (fdc : Controller) (delta : ℤ) : Option (Controller × ℤ) :=
  if 0 < delta then do
    let (fdc, result) ← fdc.growLoop memory delta.toNat
    if result < 0 then some (fdc, result) else some (fdc.settle, 0)
  else do
    let fdc ← fdc.shrinkLoop (-delta).toNat
    some (fdc.settle, 0)

/-- `fdc_set_nr_buffers()`. -/
def Controller.setNrBuffers (memory : Memory) (fdc : Controller) (cnt : ℤ) : Option (Controller × ℤ) :=
  if fdc.nrBuffers = 0 ∧ cnt ≠ 0 then do
    let (fdc', result) ← allocDeblock memory fdc
    if result < 0 then some (fdc', result) else fdc'.changeNrBuffers memory (cnt - fdc.nrBuffers)
  else fdc.changeNrBuffers memory (cnt - fdc.nrBuffers)

/-- `fdc_int_read_buffer()` and `fdc_int_write_buffer()`, which exchange the deblock buffer and a buffer of the ring. The
other drivers copy. -/
def Controller.exchange (fdc : Controller) (k : ℕ) : Controller :=
  match fdc.driver, fdc.data, fdc.buffers[k]? with
  | .internal, some ⟨some address, usedBuffers⟩, some buffer =>
    { fdc with
      data := some ⟨some buffer.virtual, usedBuffers⟩
      buffers := fdc.buffers.set k ⟨address, address⟩ }
  | _, _, _ => fdc

/-- What happens to the buffers. -/
inductive AllocationEvent where
  | setNrBuffers (memory : Memory) (cnt : ℤ)
  | exchange (k : ℕ)

/-- One of these. -/
def Controller.step (fdc : Controller) : AllocationEvent → Option Controller
  | .setNrBuffers memory cnt => (fdc.setNrBuffers memory cnt).map Prod.fst
  | .exchange k => some (fdc.exchange k)

/-- One after the other. -/
def Controller.run (fdc : Controller) : List AllocationEvent → Option Controller
  | [] => some fdc
  | event :: events => do run (← fdc.step event) events

/-- A controller as `fdc->ops->detect()` leaves it behind. -/
def detected (driver : Driver) : Controller := ⟨driver, some ⟨none, 0⟩, [], 0, ∅, 0⟩

/-- The buffers that a driver has room for. -/
def Driver.room : Driver → ℕ
  | .internal => ftMaxNrBuffers
  | .trakker | .bpckFdc => 4

/-- Memory ran out in a call, but that does no harm: a call for no more buffers than were asked for succeeds once there is
memory, if the driver has room for them, and a call for no buffers releases all memory. -/
def Controller.Retryable (fdc : Controller) (cnt : ℤ) : Prop :=
  (∀ memory : Memory, memory.Available → ∀ again : ℤ, 0 ≤ again → again ≤ cnt → again ≤ fdc.driver.room →
    ∃ fdc', fdc.setNrBuffers memory again = some (fdc', 0)) ∧
  ∀ memory, ∃ fdc', fdc.setNrBuffers memory 0 = some (fdc', 0) ∧ fdc'.nrBuffers = 0 ∧ fdc'.buffers = [] ∧ fdc'.inUse = ∅

/-- There is memory for the deblock buffer of the internal driver, and none for the first buffer of the ring. -/
def Controller.StopsBetween (memory : Memory) (fdc : Controller) : Prop :=
  fdc.driver = .internal ∧ fdc.nrBuffers = 0 ∧ ∃ address, memory.get fdc.calls fdc.inUse = some address ∧
    memory.get (fdc.calls + 1) (insert address fdc.inUse) = none

/-- The buffer of the adapter that a buffer of the ring lies in. -/
def RingBuffer.slot (buffer : RingBuffer) : ℕ := buffer.dmaAddress / ftBuffSize

/-- The buffers that are marked as used are those of the ring. -/
structure SlotsAgree (usedBuffers : BitVec 4) (slots : List ℕ) : Prop where
  nodup : slots.Nodup
  lt : ∀ slot ∈ slots, slot < 4
  used : ∀ slot < 4, usedBuffers.getLsbD slot = decide (slot ∈ slots)

/-- The memory in use is that of the deblock buffer, and for the internal driver that of the ring. The ring of the other
drivers lies in the adapter, and there is none once that was given up. -/
structure Controller.Sound (fdc : Controller) : Prop where
  nr : fdc.nrBuffers = fdc.buffers.length
  internal : fdc.driver = .internal → ∃ data, fdc.data = some data ∧
    Held (data.deblockBuffer.toList ++ fdc.buffers.map (·.virtual)) fdc.inUse
  parport : fdc.driver ≠ .internal → ∀ data, fdc.data = some data →
    Held data.deblockBuffer.toList fdc.inUse ∧ SlotsAgree data.usedBuffers (fdc.buffers.map (·.slot))
  gone : fdc.data = none → fdc.buffers = [] ∧ fdc.inUse = ∅

/-- What a call leaves as it is: the driver, and whether the adapter was given up. -/
structure Controller.Same (fdc fdc' : Controller) : Prop where
  driver : fdc'.driver = fdc.driver
  data : fdc'.data.isSome = fdc.data.isSome

theorem Controller.Same.refl (fdc : Controller) : fdc.Same fdc := ⟨rfl, rfl⟩

theorem Controller.Same.trans {fdc fdc' fdc'' : Controller} (h : fdc.Same fdc') (h' : fdc'.Same fdc'') : fdc.Same fdc'' :=
  ⟨h'.driver.trans h.driver, h'.data.trans h.data⟩

section Stages

variable {memory : Memory} {fdc fdc' : Controller} {data : DriverData} {result : ℤ}

/-- The buffers are inserted into the ring in some order. -/
theorem insertBuffer_perm (new : RingBuffer) (buffers : List RingBuffer) :
    (new :: buffers).Perm (insertBuffer new buffers) := by
  cases buffers with
  | nil => exact List.Perm.refl _
  | cons anchor others => exact List.Perm.swap _ _ _

/-- The drivers for the parallel port are alike. -/
theorem parport_eq (hdriver : fdc.driver ≠ .internal) :
    (∀ memory, allocBuffer memory fdc = parportAllocBuffer fdc) ∧ freeDeblock fdc = parportFreeDeblock fdc ∧
      freeBuffer fdc = parportFreeBuffer fdc := by
  unfold allocBuffer freeDeblock freeBuffer
  cases hcase : fdc.driver with
  | internal => exact absurd hcase hdriver
  | trakker => exact ⟨fun _ => rfl, rfl, rfl⟩
  | bpckFdc => exact ⟨fun _ => rfl, rfl, rfl⟩

/-- The first stage is the same for all drivers, once they have been set up. -/
theorem allocDeblock_of_data (hdata : fdc.data = some data) :
    allocDeblock memory fdc = if data.deblockBuffer.isSome then some (fdc, -einval)
      else match fdc.request memory with
        | (none, fdc) => some (fdc, -enomem)
        | (some address, fdc) => some ({ fdc with data := some { data with deblockBuffer := some address } }, 0) := by
  rw [allocDeblock]
  cases fdc.driver with
  | internal =>
    dsimp only
    rw [fdcIntAllocDeblock, hdata]
  | trakker =>
    dsimp only
    rw [parportAllocDeblock, hdata]
    rfl
  | bpckFdc =>
    dsimp only
    rw [parportAllocDeblock, hdata]
    rfl

/-- The first stage follows a null pointer where the adapter was given up. -/
theorem allocDeblock_of_gone (hdriver : fdc.driver ≠ .internal) (hdata : fdc.data = none) :
    allocDeblock memory fdc = none := by
  rw [allocDeblock]
  cases hcase : fdc.driver with
  | internal => exact absurd hcase hdriver
  | trakker =>
    dsimp only
    rw [parportAllocDeblock, hdata]
    rfl
  | bpckFdc =>
    dsimp only
    rw [parportAllocDeblock, hdata]
    rfl

/-- The first stage follows a null pointer where there is no data of a driver. -/
theorem Controller.Sound.allocDeblock_of_none (h : fdc.Sound) (hdata : fdc.data = none) :
    Buffers.allocDeblock memory fdc = none := by
  by_cases hdriver : fdc.driver = .internal
  · obtain ⟨data, hdata', -⟩ := h.internal hdriver
    rw [hdata] at hdata'
    cases hdata'
  · exact allocDeblock_of_gone hdriver hdata

/-- The first stage takes memory for the deblock buffer. -/
theorem Controller.Sound.allocDeblock (h : fdc.Sound) (memory : Memory) (hdata : fdc.data = some data) (hnone : data.deblockBuffer = none) :
    (memory.get fdc.calls fdc.inUse = none ∧
      Buffers.allocDeblock memory fdc = some ({ fdc with calls := fdc.calls + 1 }, -enomem)) ∨
    ∃ address, memory.get fdc.calls fdc.inUse = some address ∧
      Buffers.allocDeblock memory fdc = some ({ fdc with
        calls := fdc.calls + 1
        inUse := insert address fdc.inUse
        data := some { data with deblockBuffer := some address } }, 0) ∧
      Controller.Sound { fdc with
        calls := fdc.calls + 1
        inUse := insert address fdc.inUse
        data := some { data with deblockBuffer := some address } } := by
  rw [allocDeblock_of_data hdata, hnone, Controller.request]
  cases hget : memory.get fdc.calls fdc.inUse with
  | none => exact Or.inl ⟨rfl, rfl⟩
  | some address =>
    refine Or.inr ⟨address, rfl, rfl, h.nr, fun hdriver => ?_, fun hdriver data' hdata' => ?_, fun hgone => ?_⟩
    · obtain ⟨data', hdata', hheld⟩ := h.internal hdriver
      rw [hdata, Option.some.injEq] at hdata'
      rw [← hdata', hnone] at hheld
      exact ⟨_, rfl, hheld.take (memory.fresh _ _ address hget)⟩
    · obtain ⟨hheld, hslots⟩ := h.parport hdriver data hdata
      cases hdata'
      rw [hnone] at hheld
      exact ⟨hheld.take (memory.fresh _ _ address hget), hslots⟩
    · cases hgone

/-- A buffer of the adapter is free as long as fewer are used than it has. -/
theorem find_free_slot {usedBuffers : BitVec 4} {slots : List ℕ} (h : SlotsAgree usedBuffers slots)
    (hlength : slots.length < 4) : ∃ i, [0, 1, 2, 3].find? (fun i => !usedBuffers.getLsbD i) = some i := by
  obtain ⟨slot, hslot, hfree⟩ := exists_free_slot hlength
  cases hfind : [0, 1, 2, 3].find? (fun i => !usedBuffers.getLsbD i) with
  | some i => exact ⟨i, rfl⟩
  | none =>
    have hused := List.find?_eq_none.mp hfind slot (by
      have : slot = 0 ∨ slot = 1 ∨ slot = 2 ∨ slot = 3 := by omega
      simpa using this)
    rw [h.used slot hslot, decide_eq_false hfree] at hused
    exact absurd rfl hused

/-- A buffer that is found is marked as used. -/
theorem SlotsAgree.take {usedBuffers : BitVec 4} {slots : List ℕ} (h : SlotsAgree usedBuffers slots) {i : ℕ}
    (hfind : [0, 1, 2, 3].find? (fun i => !usedBuffers.getLsbD i) = some i) :
    SlotsAgree (usedBuffers ||| (1 : BitVec 4) <<< i) (i :: slots) := by
  have hi : i < 4 := by
    have hmem := List.mem_of_find?_eq_some hfind
    simp at hmem
    omega
  have hfree : i ∉ slots := by
    have hunused := List.find?_some hfind
    rw [h.used i hi] at hunused
    simpa using hunused
  refine ⟨List.nodup_cons.mpr ⟨hfree, h.nodup⟩, ?_, ?_⟩
  · intro slot hslot
    cases List.mem_cons.mp hslot with
    | inl heq => rwa [heq]
    | inr hmem => exact h.lt slot hmem
  · intro slot hslot
    have hbits : ∀ slot i : Fin 4, ((1 : BitVec 4) <<< i.val).getLsbD slot.val = decide (slot = i) := by decide
    have hbit := hbits ⟨slot, hslot⟩ ⟨i, hi⟩
    dsimp only at hbit
    rw [BitVec.getLsbD_or, h.used slot hslot, hbit]
    by_cases heq : slot = i
    · simp [heq]
    · simp [heq]

/-- A buffer that is freed is no longer marked. -/
theorem SlotsAgree.release {usedBuffers : BitVec 4} {slots : List ℕ} {i : ℕ} (h : SlotsAgree usedBuffers (i :: slots)) :
    SlotsAgree (usedBuffers &&& ~~~((1 : BitVec 4) <<< i)) slots := by
  have hi : i < 4 := h.lt i List.mem_cons_self
  obtain ⟨hout, hnodup⟩ := List.nodup_cons.mp h.nodup
  refine ⟨hnodup, fun slot hslot => h.lt slot (List.mem_cons_of_mem _ hslot), ?_⟩
  intro slot hslot
  have hbits : ∀ slot i : Fin 4, (~~~((1 : BitVec 4) <<< i.val)).getLsbD slot.val = decide (slot ≠ i) := by decide
  have hbit := hbits ⟨slot, hslot⟩ ⟨i, hi⟩
  dsimp only at hbit
  rw [BitVec.getLsbD_and, h.used slot hslot, hbit]
  by_cases heq : slot = i
  · subst heq
    simp [hout]
  · simp [heq]

/-- The order of the slots does not matter. -/
theorem SlotsAgree.perm {usedBuffers : BitVec 4} {slots slots' : List ℕ} (h : SlotsAgree usedBuffers slots)
    (hperm : slots.Perm slots') : SlotsAgree usedBuffers slots' where
  nodup := hperm.nodup_iff.mp h.nodup
  lt := fun slot hslot => h.lt slot (hperm.mem_iff.mpr hslot)
  used := fun slot hslot => by
    rw [h.used slot hslot]
    exact decide_eq_decide.mpr hperm.mem_iff

/-- A change of the counter of requests is none of the memory. -/
theorem Controller.Sound.counted (h : fdc.Sound) (calls : ℕ) : Controller.Sound { fdc with calls := calls } :=
  ⟨h.nr, h.internal, h.parport, h.gone⟩

/-- What `fdc->ops->alloc()` makes of the ring. -/
theorem Controller.Sound.insert (h : fdc.Sound) {new : RingBuffer}
    (halloc : allocBuffer memory fdc = some (fdc', .ok new)) :
    Controller.Sound { fdc' with nrBuffers := fdc'.nrBuffers + 1, buffers := insertBuffer new fdc'.buffers } ∧
      fdc.Same fdc' ∧ fdc'.nrBuffers = fdc.nrBuffers := by
  have hlength : fdc.nrBuffers + 1 = (insertBuffer new fdc.buffers).length := by
    rw [← (insertBuffer_perm new fdc.buffers).length_eq, h.nr]
    rfl
  by_cases hdriver : fdc.driver = .internal
  · obtain ⟨data, hdata, hheld⟩ := h.internal hdriver
    rw [allocBuffer, hdriver] at halloc
    dsimp only at halloc
    rw [fdcIntAllocBuffer, Controller.request] at halloc
    cases hget : memory.get fdc.calls fdc.inUse with
    | none =>
      rw [hget] at halloc
      cases halloc
    | some address =>
      rw [hget] at halloc
      cases halloc
      refine ⟨⟨hlength, fun _ => ⟨data, hdata, ?_⟩, fun hother => absurd hdriver hother, fun hgone => ?_⟩, ⟨rfl, rfl⟩, rfl⟩
      · refine (hheld.take (memory.fresh _ _ address hget)).perm ?_
        refine List.perm_middle.symm.trans (List.Perm.append_left _ ?_)
        exact (insertBuffer_perm (⟨address, address⟩ : RingBuffer) fdc.buffers).map (·.virtual)
      · dsimp only at hgone
        rw [hdata] at hgone
        cases hgone
  · rw [(parport_eq hdriver).1, parportAllocBuffer] at halloc
    cases hdata : fdc.data with
    | none =>
      rw [hdata] at halloc
      cases halloc
    | some data =>
      obtain ⟨hheld, hslots⟩ := h.parport hdriver data hdata
      rw [hdata, Option.bind_eq_bind, Option.bind_some] at halloc
      cases hfind : [0, 1, 2, 3].find? (fun i => !data.usedBuffers.getLsbD i) with
      | none =>
        rw [hfind] at halloc
        cases halloc
      | some i =>
        rw [hfind] at halloc
        cases halloc
        refine ⟨⟨hlength, fun hinternal => absurd hinternal hdriver, fun _ data' hdata' => ?_, fun hgone => ?_⟩,
          ⟨rfl, ?_⟩, rfl⟩
        · cases hdata'
          refine ⟨hheld, (hslots.take hfind).perm ?_⟩
          have hslot : RingBuffer.slot ⟨data.deblockBuffer.getD 0, i * ftBuffSize⟩ = i :=
            Nat.mul_div_cancel i (by decide)
          have hperm := (insertBuffer_perm (⟨data.deblockBuffer.getD 0, i * ftBuffSize⟩ : RingBuffer) fdc.buffers).map
            (·.slot)
          rwa [List.map_cons, hslot] at hperm
        · cases hgone
        · rw [hdata]
          rfl

/-- A buffer that could not be had changes nothing. -/
theorem Controller.Sound.insert_failed (h : fdc.Sound) {errno : ℤ}
    (halloc : allocBuffer memory fdc = some (fdc', .error errno)) :
    fdc'.Sound ∧ fdc.Same fdc' ∧ fdc'.nrBuffers = fdc.nrBuffers ∧ errno = -enomem := by
  by_cases hdriver : fdc.driver = .internal
  · rw [allocBuffer, hdriver] at halloc
    dsimp only at halloc
    rw [fdcIntAllocBuffer, Controller.request] at halloc
    cases hget : memory.get fdc.calls fdc.inUse with
    | none =>
      rw [hget] at halloc
      cases halloc
      exact ⟨h.counted _, ⟨rfl, rfl⟩, rfl, rfl⟩
    | some address =>
      rw [hget] at halloc
      cases halloc
  · rw [(parport_eq hdriver).1, parportAllocBuffer] at halloc
    cases hdata : fdc.data with
    | none =>
      rw [hdata] at halloc
      cases halloc
    | some data =>
      rw [hdata, Option.bind_eq_bind, Option.bind_some] at halloc
      cases hfind : [0, 1, 2, 3].find? (fun i => !data.usedBuffers.getLsbD i) with
      | none =>
        rw [hfind] at halloc
        cases halloc
        exact ⟨h, .refl fdc, rfl, rfl⟩
      | some i =>
        rw [hfind] at halloc
        cases halloc

/-- A call that adds a buffer, or fails. -/
structure Controller.Grown (fdc fdc' : Controller) (result : ℤ) (delta : ℕ) : Prop where
  sound : fdc'.Sound
  same : fdc.Same fdc'
  nr : fdc.nrBuffers ≤ fdc'.nrBuffers
  result : result = 0 ∧ fdc'.nrBuffers = fdc.nrBuffers + delta ∨ result = -einval ∨ result = -enomem

/-- `add_one_buffer()` adds a buffer or fails. -/
theorem Controller.Sound.addOneBuffer (h : fdc.Sound) (hadd : fdc.addOneBuffer memory = some (fdc', result)) :
    fdc.Grown fdc' result 1 := by
  rw [Controller.addOneBuffer] at hadd
  by_cases hmax : ftMaxNrBuffers ≤ fdc.nrBuffers
  · rw [if_pos hmax] at hadd
    cases hadd
    exact ⟨h, .refl fdc, le_rfl, Or.inr (Or.inl rfl)⟩
  · rw [if_neg hmax, Option.bind_eq_bind] at hadd
    cases halloc : allocBuffer memory fdc with
    | none =>
      rw [halloc] at hadd
      cases hadd
    | some call =>
      obtain ⟨fdc₁, outcome⟩ := call
      rw [halloc, Option.bind_some] at hadd
      cases outcome with
      | error errno =>
        cases hadd
        obtain ⟨hsound, hsame, hnr, herrno⟩ := h.insert_failed halloc
        exact ⟨hsound, hsame, hnr.ge, Or.inr (Or.inr herrno)⟩
      | ok new =>
        cases hadd
        obtain ⟨hsound, hsame, hnr⟩ := h.insert halloc
        refine ⟨hsound, ⟨hsame.driver, hsame.data⟩, ?_, Or.inl ⟨rfl, ?_⟩⟩
        · exact hnr.symm.le.trans (Nat.le_succ _)
        · exact congrArg (· + 1) hnr

/-- No driver has room for more buffers than there may be. -/
theorem Driver.room_le (driver : Driver) : driver.room ≤ ftMaxNrBuffers := by
  cases driver with
  | internal => exact le_rfl
  | trakker => decide
  | bpckFdc => decide

/-- Where there is room and memory, `add_one_buffer()` adds a buffer. -/
theorem Controller.Sound.exists_addOneBuffer (h : fdc.Sound) (memory : Memory) (hdata : fdc.data.isSome = true)
    (hroom : fdc.nrBuffers < fdc.driver.room)
    (hmemory : fdc.driver = .internal → (memory.get fdc.calls fdc.inUse).isSome = true) :
    ∃ fdc', fdc.addOneBuffer memory = some (fdc', 0) := by
  have halloc : ∃ fdc' new, allocBuffer memory fdc = some (fdc', .ok new) := by
    by_cases hdriver : fdc.driver = .internal
    · obtain ⟨address, hget⟩ := Option.isSome_iff_exists.mp (hmemory hdriver)
      rw [allocBuffer, hdriver]
      dsimp only
      rw [fdcIntAllocBuffer, Controller.request, hget]
      exact ⟨_, _, rfl⟩
    · obtain ⟨data, hdata⟩ := Option.isSome_iff_exists.mp hdata
      have hfour : fdc.driver.room = 4 := by
        cases hcase : fdc.driver with
        | internal => exact absurd hcase hdriver
        | trakker => rfl
        | bpckFdc => rfl
      obtain ⟨i, hfind⟩ := find_free_slot (h.parport hdriver data hdata).2 (by
        rw [List.length_map, ← h.nr]
        omega)
      rw [(parport_eq hdriver).1, parportAllocBuffer, hdata, Option.bind_eq_bind, Option.bind_some, hfind]
      exact ⟨_, _, rfl⟩
  obtain ⟨fdc', new, halloc⟩ := halloc
  have hmax := fdc.driver.room_le
  rw [Controller.addOneBuffer, if_neg (by omega), halloc]
  exact ⟨_, rfl⟩

/-- The loop that adds buffers adds some, or fails on the way. -/
theorem Controller.Sound.growLoop (h : fdc.Sound) {delta : ℕ}
    (hgrow : fdc.growLoop memory delta = some (fdc', result)) : fdc.Grown fdc' result delta := by
  induction delta generalizing fdc with
  | zero =>
    cases hgrow
    exact ⟨h, .refl _, le_rfl, Or.inl ⟨rfl, rfl⟩⟩
  | succ delta ih =>
    rw [Controller.growLoop, Option.bind_eq_bind] at hgrow
    cases hadd : fdc.addOneBuffer memory with
    | none =>
      rw [hadd] at hgrow
      cases hgrow
    | some call =>
      obtain ⟨fdc₁, result₁⟩ := call
      rw [hadd, Option.bind_some] at hgrow
      have hgrown := h.addOneBuffer hadd
      dsimp only at hgrow
      by_cases hfailed : result₁ < 0
      · rw [if_pos hfailed] at hgrow
        cases hgrow
        refine ⟨hgrown.sound, hgrown.same, hgrown.nr, hgrown.result.imp_left fun hdone => ?_⟩
        exact absurd hdone.1 (Int.ne_of_lt hfailed)
      · rw [if_neg hfailed] at hgrow
        have hrest := ih hgrown.sound hgrow
        have hone : fdc₁.nrBuffers = fdc.nrBuffers + 1 := by
          rcases hgrown.result with hdone | herror | herror
          · exact hdone.2
          · exact absurd (herror ▸ (by decide : -einval < 0)) hfailed
          · exact absurd (herror ▸ (by decide : -enomem < 0)) hfailed
        refine ⟨hrest.sound, hgrown.same.trans hrest.same, hgrown.nr.trans hrest.nr, hrest.result.imp_left fun hdone => ?_⟩
        exact ⟨hdone.1, by omega⟩

/-- Where there is room and memory, that loop comes to its end. -/
theorem Controller.Sound.exists_growLoop (h : fdc.Sound) (hdata : fdc.data.isSome = true) (delta : ℕ)
    (hroom : fdc.nrBuffers + delta ≤ fdc.driver.room) (hmemory : memory.Available) :
    ∃ fdc', fdc.growLoop memory delta = some (fdc', 0) := by
  induction delta generalizing fdc with
  | zero => exact ⟨fdc, rfl⟩
  | succ delta ih =>
    obtain ⟨fdc₁, hadd⟩ := h.exists_addOneBuffer memory hdata (by omega) fun _ => hmemory _ _
    have hgrown := h.addOneBuffer hadd
    have hone : fdc₁.nrBuffers = fdc.nrBuffers + 1 := (hgrown.result.resolve_right (by decide)).2
    obtain ⟨fdc', hgrow⟩ := ih hgrown.sound (hgrown.same.data.trans hdata) (by
      rw [hgrown.same.driver]
      omega)
    refine ⟨fdc', ?_⟩
    rw [Controller.growLoop, hadd, Option.bind_eq_bind, Option.bind_some]
    exact hgrow

/-- A buffer leaves the ring, and its memory is freed. -/
theorem Controller.Sound.freeBuffer (h : fdc.Sound) {old : RingBuffer} {others : List RingBuffer}
    (hperm : fdc.buffers.Perm (old :: others)) :
    ∃ fdc', Buffers.freeBuffer { fdc with nrBuffers := fdc.nrBuffers - 1, buffers := others } old = some fdc' ∧
      fdc'.Sound ∧ fdc.Same fdc' ∧ fdc'.nrBuffers = fdc.nrBuffers - 1 := by
  have hlength : fdc.nrBuffers - 1 = others.length := by
    rw [h.nr, hperm.length_eq]
    rfl
  by_cases hdriver : fdc.driver = .internal
  · obtain ⟨data, hdata, hheld⟩ := h.internal hdriver
    have hheld := hheld.perm ((hperm.map (·.virtual)).append_left data.deblockBuffer.toList)
    rw [List.map_cons] at hheld
    refine ⟨{ fdc with nrBuffers := fdc.nrBuffers - 1, buffers := others, inUse := fdc.inUse.erase old.virtual }, ?_,
      ⟨hlength, fun _ => ⟨data, hdata, (hheld.perm List.perm_middle).release⟩, fun hother => absurd hdriver hother, ?_⟩,
      ⟨rfl, rfl⟩, rfl⟩
    · unfold Buffers.freeBuffer
      rw [hdriver]
    · intro hgone
      dsimp only at hgone
      rw [hdata] at hgone
      cases hgone
  · cases hdata : fdc.data with
    | none =>
      have hempty := (h.gone hdata).1
      rw [hempty] at hperm
      exact absurd hperm.length_eq (Nat.succ_ne_zero _).symm
    | some data =>
      obtain ⟨hheld, hslots⟩ := h.parport hdriver data hdata
      have hslots := hslots.perm (hperm.map (·.slot))
      rw [List.map_cons] at hslots
      refine ⟨{ fdc with
        nrBuffers := fdc.nrBuffers - 1
        buffers := others
        data := some { data with usedBuffers := data.usedBuffers &&& ~~~((1 : BitVec 4) <<< old.slot) } }, ?_,
        ⟨hlength, fun hinternal => absurd hinternal hdriver, fun _ data' hdata' => ?_, fun hgone => ?_⟩, ⟨rfl, ?_⟩, rfl⟩
      · refine (congrFun (parport_eq ?_).2.2 old).trans ?_
        · exact hdriver
        · rfl
      · cases hdata'
        exact ⟨hheld, hslots.release⟩
      · cases hgone
      · rw [hdata]
        rfl

/-- `del_one_buffer()` takes a buffer out of the ring, if there is one. -/
theorem Controller.Sound.delOneBuffer (h : fdc.Sound) :
    ∃ fdc', fdc.delOneBuffer = some fdc' ∧ fdc'.Sound ∧ fdc.Same fdc' ∧ fdc'.nrBuffers = fdc.nrBuffers - 1 := by
  rw [Controller.delOneBuffer]
  by_cases hpos : 0 < fdc.nrBuffers
  · rw [if_pos hpos]
    cases hbuffers : fdc.buffers with
    | nil =>
      rw [h.nr, hbuffers] at hpos
      exact absurd hpos (Nat.lt_irrefl 0)
    | cons anchor rest =>
      cases rest with
      | nil => exact h.freeBuffer (List.Perm.of_eq hbuffers)
      | cons old others =>
        refine h.freeBuffer ?_
        rw [hbuffers]
        exact List.Perm.swap _ _ _
  · rw [if_neg hpos]
    exact ⟨fdc, rfl, h, .refl fdc, by omega⟩

/-- The loop that deletes buffers. -/
theorem Controller.Sound.shrinkLoop (h : fdc.Sound) (delta : ℕ) :
    ∃ fdc', fdc.shrinkLoop delta = some fdc' ∧ fdc'.Sound ∧ fdc.Same fdc' ∧ fdc'.nrBuffers = fdc.nrBuffers - delta := by
  induction delta generalizing fdc with
  | zero => exact ⟨fdc, rfl, h, .refl fdc, rfl⟩
  | succ delta ih =>
    obtain ⟨fdc₁, hdel, hsound, hsame, hnr⟩ := h.delOneBuffer
    obtain ⟨fdc', hloop, hsound', hsame', hnr'⟩ := ih hsound
    refine ⟨fdc', ?_, hsound', hsame.trans hsame', by omega⟩
    rw [Controller.shrinkLoop, hdel]
    exact hloop

/-- Without buffers, the deblock buffer is freed, and no memory stays in use. -/
theorem Controller.Sound.settle (h : fdc.Sound) :
    fdc.settle.Sound ∧ fdc.settle.nrBuffers = fdc.nrBuffers ∧ fdc.settle.buffers = fdc.buffers ∧
      (fdc.nrBuffers = 0 → fdc.settle.inUse = ∅) := by
  rw [Controller.settle]
  by_cases hzero : fdc.nrBuffers = 0
  · have hempty : fdc.buffers = [] := List.eq_nil_of_length_eq_zero (h.nr.symm.trans hzero)
    rw [if_pos hzero]
    by_cases hdriver : fdc.driver = .internal
    · obtain ⟨data, hdata, hheld⟩ := h.internal hdriver
      rw [hempty, List.map_nil, List.append_nil] at hheld
      have hfreed : freeDeblock fdc = fdcIntFreeDeblock fdc := by
        rw [freeDeblock, hdriver]
      have hnone : (match data.deblockBuffer with
          | none => fdc.inUse
          | some address => fdc.inUse.erase address) = ∅ := by
        cases hdeblock : data.deblockBuffer with
        | none =>
          rw [hdeblock] at hheld
          exact hheld.inUse_eq_empty
        | some address =>
          rw [hdeblock] at hheld
          exact hheld.release.inUse_eq_empty
      rw [hfreed, fdcIntFreeDeblock, hdata]
      dsimp only
      rw [hnone]
      refine ⟨⟨h.nr, fun _ => ⟨_, rfl, ?_⟩, fun hother => absurd hdriver hother, fun hgone => ?_⟩, rfl, rfl, fun _ => rfl⟩
      · dsimp only
        rw [hempty]
        exact Held.nil
      · cases hgone
    · rw [(parport_eq hdriver).2.1, parportFreeDeblock]
      rcases Option.eq_none_or_eq_some fdc.data with hdata | ⟨data, hdata⟩
      · rw [hdata]
        exact ⟨h, rfl, rfl, fun _ => (h.gone hdata).2⟩
      · obtain ⟨hheld, -⟩ := h.parport hdriver data hdata
        rw [hdata]
        dsimp only
        rcases Option.eq_none_or_eq_some data.deblockBuffer with hdeblock | ⟨address, hdeblock⟩
        · rw [hdeblock] at hheld ⊢
          exact ⟨h, rfl, rfl, fun _ => hheld.inUse_eq_empty⟩
        · rw [hdeblock] at hheld ⊢
          have hfreed := hheld.release.inUse_eq_empty
          refine ⟨⟨h.nr, fun hinternal => absurd hinternal hdriver, fun _ data' hdata' => ?_, fun _ => ⟨hempty, hfreed⟩⟩,
            rfl, rfl, fun _ => hfreed⟩
          cases hdata'
  · rw [if_neg hzero]
    exact ⟨h, rfl, rfl, fun hnr => absurd hnr hzero⟩

/-- A buffer that takes the place of another. -/
theorem cons_perm_set {α : Type} {l : List α} {k : ℕ} {old : α} (hold : l[k]? = some old) (new : α) :
    (new :: l).Perm (old :: l.set k new) := by
  obtain ⟨hk, rfl⟩ := List.getElem?_eq_some_iff.mp hold
  have hsplit : l = l.take k ++ l[k] :: l.drop (k + 1) := by
    rw [List.getElem_cons_drop, List.take_append_drop]
  rw [List.set_eq_take_append_cons_drop, if_pos hk]
  refine (List.Perm.cons new (List.Perm.of_eq hsplit)).trans ?_
  refine (List.Perm.cons new List.perm_middle).trans ?_
  exact (List.Perm.swap _ _ _).trans (List.Perm.cons _ List.perm_middle.symm)

/-- Exchanging buffers changes no memory. -/
theorem Controller.Sound.exchange (h : fdc.Sound) (k : ℕ) : (fdc.exchange k).Sound := by
  rw [Controller.exchange]
  split
  next address usedBuffers buffer hdriver hdata hbuffer =>
    obtain ⟨data, hdata', hheld⟩ := h.internal hdriver
    obtain rfl := Option.some.inj (hdata.symm.trans hdata')
    refine ⟨h.nr.trans List.length_set.symm, fun _ => ⟨_, rfl, ?_⟩, fun hother => absurd hdriver hother, fun hgone => ?_⟩
    · refine hheld.perm ?_
      have hvirtual : (fdc.buffers.map (·.virtual))[k]? = some buffer.virtual := by
        rw [List.getElem?_map, hbuffer]
        rfl
      have hperm := cons_perm_set hvirtual address
      rw [← List.map_set (f := (·.virtual)) (a := (⟨address, address⟩ : RingBuffer))] at hperm
      exact hperm
    · cases hgone
  next => exact h

/-- What `fdc_set_nr_buffers()` does behind the first stage keeps the memory in order, and memory only runs out when
buffers are added. -/
theorem Controller.Sound.changeNrBuffers (h : fdc.Sound) {delta : ℤ}
    (hchange : fdc.changeNrBuffers memory delta = some (fdc', result)) :
    fdc'.Sound ∧ (result < 0 → 0 < delta ∧ fdc.growLoop memory delta.toNat = some (fdc', result)) := by
  rw [Controller.changeNrBuffers, Option.bind_eq_bind] at hchange
  by_cases hpos : 0 < delta
  · rw [if_pos hpos] at hchange
    cases hgrow : fdc.growLoop memory delta.toNat with
    | none =>
      rw [hgrow] at hchange
      cases hchange
    | some call =>
      obtain ⟨fdc₁, result₁⟩ := call
      rw [hgrow, Option.bind_some] at hchange
      dsimp only at hchange
      have hgrown := h.growLoop hgrow
      by_cases hfailed : result₁ < 0
      · rw [if_pos hfailed] at hchange
        cases hchange
        exact ⟨hgrown.sound, fun _ => ⟨hpos, rfl⟩⟩
      · rw [if_neg hfailed] at hchange
        cases hchange
        exact ⟨hgrown.sound.settle.1, fun hneg => absurd hneg (lt_irrefl 0)⟩
  · rw [if_neg hpos] at hchange
    obtain ⟨fdc₁, hshrink, hsound, -, -⟩ := h.shrinkLoop (-delta).toNat
    rw [hshrink] at hchange
    cases hchange
    exact ⟨hsound.settle.1, fun hneg => absurd hneg (lt_irrefl 0)⟩

/-- How a call of `fdc_set_nr_buffers()` for a controller without buffers begins. -/
theorem Controller.setNrBuffers_first {cnt : ℤ} (hzero : fdc.nrBuffers = 0) (hcnt : cnt ≠ 0) :
    fdc.setNrBuffers memory cnt = (Buffers.allocDeblock memory fdc).bind fun call =>
      if call.2 < 0 then some (call.1, call.2) else call.1.changeNrBuffers memory cnt := by
  rw [Controller.setNrBuffers, if_pos ⟨hzero, hcnt⟩, hzero, Nat.cast_zero, sub_zero]
  rfl

/-- The first stage refuses to be repeated. -/
theorem Controller.setNrBuffers_stuck {cnt : ℤ} (hzero : fdc.nrBuffers = 0) (hcnt : cnt ≠ 0)
    (hdata : fdc.data = some data) (hdeblock : data.deblockBuffer.isSome = true) :
    fdc.setNrBuffers memory cnt = some (fdc, -einval) := by
  rw [Controller.setNrBuffers_first hzero hcnt, allocDeblock_of_data hdata, if_pos hdeblock]
  rfl

/-- A call of `fdc_set_nr_buffers()` keeps the memory in order. -/
theorem Controller.Sound.setNrBuffers (h : fdc.Sound) {cnt : ℤ}
    (hset : fdc.setNrBuffers memory cnt = some (fdc', result)) : fdc'.Sound := by
  by_cases hfirst : fdc.nrBuffers = 0 ∧ cnt ≠ 0
  · rcases Option.eq_none_or_eq_some fdc.data with hdata | ⟨data, hdata⟩
    · rw [Controller.setNrBuffers_first hfirst.1 hfirst.2, h.allocDeblock_of_none hdata] at hset
      cases hset
    · by_cases hdeblock : data.deblockBuffer.isSome = true
      · rw [Controller.setNrBuffers_stuck hfirst.1 hfirst.2 hdata hdeblock] at hset
        cases hset
        exact h
      · rw [Controller.setNrBuffers_first hfirst.1 hfirst.2] at hset
        rcases h.allocDeblock memory hdata (Option.not_isSome_iff_eq_none.mp hdeblock) with
          ⟨-, halloc⟩ | ⟨address, -, halloc, hsound⟩
        · rw [halloc] at hset
          cases hset
          exact h.counted _
        · rw [halloc] at hset
          exact (hsound.changeNrBuffers hset).1
  · rw [Controller.setNrBuffers, if_neg hfirst] at hset
    exact (h.changeNrBuffers hset).1

/-- Memory is in order in every run. -/
theorem Controller.Sound.run (h : fdc.Sound) {events : List AllocationEvent} (hrun : fdc.run events = some fdc') :
    fdc'.Sound := by
  induction events generalizing fdc with
  | nil =>
    cases hrun
    exact h
  | cons event events ih =>
    rw [Controller.run, Option.bind_eq_bind] at hrun
    obtain ⟨fdc₁, hstep, hrest⟩ := Option.bind_eq_some_iff.mp hrun
    refine ih ?_ hrest
    cases event with
    | setNrBuffers memory cnt =>
      obtain ⟨call, hset, rfl⟩ := Option.map_eq_some_iff.mp hstep
      exact h.setNrBuffers hset
    | exchange k =>
      cases hstep
      exact h.exchange k

/-- A controller that was detected holds no memory. -/
theorem detected_sound (driver : Driver) : (detected driver).Sound where
  nr := rfl
  internal := fun _ => ⟨_, rfl, Held.nil⟩
  parport := fun _ data hdata => by
    cases hdata
    exact ⟨Held.nil, List.nodup_nil, fun _ hslot => absurd hslot List.not_mem_nil, fun slot _ => by
      change (0 : BitVec 4).getLsbD slot = decide (slot ∈ [])
      simp⟩
  gone := fun hgone => by cases hgone

/-- `fdc_set_nr_buffers(0)` releases all memory. -/
theorem Controller.Sound.release (h : fdc.Sound) (memory : Memory) :
    ∃ fdc', fdc.setNrBuffers memory 0 = some (fdc', 0) ∧ fdc'.nrBuffers = 0 ∧ fdc'.buffers = [] ∧ fdc'.inUse = ∅ := by
  obtain ⟨fdc₁, hshrink, hsound, -, hnr⟩ := h.shrinkLoop fdc.nrBuffers
  rw [Nat.sub_self] at hnr
  obtain ⟨-, hsettled, hbuffers, hempty⟩ := hsound.settle
  refine ⟨fdc₁.settle, ?_, hsettled.trans hnr, hbuffers.trans (List.eq_nil_of_length_eq_zero (hsound.nr.symm.trans hnr)),
    hempty hnr⟩
  rw [Controller.setNrBuffers, if_neg fun hfirst => hfirst.2 rfl, Controller.changeNrBuffers, if_neg (by omega)]
  have hdelta : (-(0 - (fdc.nrBuffers : ℤ))).toNat = fdc.nrBuffers := by omega
  rw [hdelta, hshrink]
  rfl

/-- With some buffers, or without a deblock buffer, a call can be repeated. -/
theorem Controller.Sound.retryable (h : fdc.Sound)
    (hstart : fdc.nrBuffers ≠ 0 ∨ ∃ data, fdc.data = some data ∧ data.deblockBuffer = none) (cnt : ℤ) :
    fdc.Retryable cnt := by
  refine ⟨fun memory hmemory again hnonneg _ hroom => ?_, h.release⟩
  have hchange : ∀ {fdc : Controller}, fdc.Sound → fdc.data.isSome = true → again ≤ fdc.driver.room →
      ∃ fdc', fdc.changeNrBuffers memory (again - fdc.nrBuffers) = some (fdc', 0) := by
    intro fdc h hdata hroom
    rw [Controller.changeNrBuffers]
    by_cases hpos : 0 < again - fdc.nrBuffers
    · obtain ⟨fdc', hgrow⟩ := h.exists_growLoop hdata (again - fdc.nrBuffers).toNat (by omega) hmemory
      rw [if_pos hpos, hgrow]
      exact ⟨_, rfl⟩
    · obtain ⟨fdc', hshrink, -⟩ := h.shrinkLoop (-(again - fdc.nrBuffers)).toNat
      rw [if_neg hpos, hshrink]
      exact ⟨_, rfl⟩
  by_cases hfirst : fdc.nrBuffers = 0 ∧ again ≠ 0
  · obtain ⟨data, hdata, hdeblock⟩ := hstart.resolve_left (not_not.mpr hfirst.1)
    rw [Controller.setNrBuffers_first hfirst.1 hfirst.2]
    rcases h.allocDeblock memory hdata hdeblock with ⟨hnone, -⟩ | ⟨address, -, halloc, hsound⟩
    · have := hmemory fdc.calls fdc.inUse
      rw [hnone] at this
      cases this
    · obtain ⟨fdc', hdone⟩ := hchange hsound rfl hroom
      rw [halloc]
      refine ⟨fdc', ?_⟩
      change Controller.changeNrBuffers memory _ again = _
      have hzero : again - (fdc.nrBuffers : ℤ) = again := by omega
      rw [← hzero]
      exact hdone
  · by_cases hzero : fdc.nrBuffers = 0
    · obtain ⟨fdc', hrelease, -⟩ := h.release memory
      have hagain : again = 0 := not_not.mp fun hne => hfirst ⟨hzero, hne⟩
      exact ⟨fdc', hagain ▸ hrelease⟩
    · have hdata : fdc.data.isSome = true := by
        rcases Option.eq_none_or_eq_some fdc.data with hnone | ⟨data, hdata⟩
        · exact absurd (h.nr.trans (congrArg List.length (h.gone hnone).1)) hzero
        · rw [hdata]
          rfl
      rw [Controller.setNrBuffers, if_neg hfirst]
      exact hchange h hdata hroom

/-- There is memory for the deblock buffer, but none for a buffer of the ring. -/
theorem Controller.growLoop_none (h : fdc.Sound) (hzero : fdc.nrBuffers = 0) (hdata : fdc.data.isSome = true) {delta : ℕ}
    (hgrow : fdc.growLoop memory (delta + 1) = some (fdc', -enomem)) :
    (fdc.driver = .internal ∧ memory.get fdc.calls fdc.inUse = none ∧ fdc' = { fdc with calls := fdc.calls + 1 }) ∨
      ¬(fdc.driver = .internal ∧ memory.get fdc.calls fdc.inUse = none) ∧ fdc'.nrBuffers ≠ 0 := by
  rw [Controller.growLoop, Option.bind_eq_bind] at hgrow
  by_cases hout : fdc.driver = .internal ∧ memory.get fdc.calls fdc.inUse = none
  · have hadd : fdc.addOneBuffer memory = some ({ fdc with calls := fdc.calls + 1 }, -enomem) := by
      have halloc : allocBuffer memory fdc = fdcIntAllocBuffer memory fdc := by
        rw [allocBuffer, hout.1]
      rw [Controller.addOneBuffer, if_neg (by rw [hzero]; decide), halloc, fdcIntAllocBuffer, Controller.request, hout.2]
      rfl
    rw [hadd] at hgrow
    cases hgrow
    exact Or.inl ⟨hout.1, hout.2, rfl⟩
  · obtain ⟨fdc₁, hadd⟩ := h.exists_addOneBuffer memory hdata (by
      rw [hzero]
      cases fdc.driver <;> decide) fun hdriver => by
        rcases Option.eq_none_or_eq_some (memory.get fdc.calls fdc.inUse) with hnone | ⟨address, hsome⟩
        · exact absurd ⟨hdriver, hnone⟩ hout
        · rw [hsome]
          rfl
    have hgrown := h.addOneBuffer hadd
    have hone : fdc₁.nrBuffers = fdc.nrBuffers + 1 := (hgrown.result.resolve_right (by decide)).2
    rw [hadd] at hgrow
    have hle := (hgrown.sound.growLoop hgrow).nr
    exact Or.inr ⟨hout, by omega⟩

end Stages

/-- Memory that never runs out. -/
def endlessMemory : Memory where
  get _ inUse := some (inUse.sup id + 1)
  fresh := by
    intro _ inUse address haddress hmem
    obtain rfl := Option.some.inj haddress
    have hle : inUse.sup id + 1 ≤ inUse.sup id := Finset.le_sup (f := id) hmem
    omega

/-- After a call of `fdc_set_nr_buffers()` ran out of memory, it can be repeated exactly if memory did not run out between
the deblock buffer of the internal driver and the first buffer of the ring. -/
theorem setNrBuffers_retryable_iff {driver : Driver} {events : List AllocationEvent} {fdc fdc' : Controller} {memory : Memory}
    {cnt : ℤ} (hrun : (detected driver).run events = some fdc) (hfail : fdc.setNrBuffers memory cnt = some (fdc', -enomem)) :
    fdc'.Retryable cnt ↔ ¬fdc.StopsBetween memory := by
  have h := (detected_sound driver).run hrun
  have hsound := h.setNrBuffers hfail
  by_cases hfirst : fdc.nrBuffers = 0 ∧ cnt ≠ 0
  · obtain ⟨hzero, hcnt⟩ := hfirst
    rcases Option.eq_none_or_eq_some fdc.data with hdata | ⟨data, hdata⟩
    · rw [Controller.setNrBuffers_first hzero hcnt, h.allocDeblock_of_none hdata] at hfail
      cases hfail
    · by_cases hdeblock : data.deblockBuffer.isSome = true
      · rw [Controller.setNrBuffers_stuck hzero hcnt hdata hdeblock] at hfail
        cases hfail
      · have hnone := Option.not_isSome_iff_eq_none.mp hdeblock
        rw [Controller.setNrBuffers_first hzero hcnt] at hfail
        rcases h.allocDeblock memory hdata hnone with ⟨hget, halloc⟩ | ⟨address, hget, halloc, hstage⟩
        · rw [halloc] at hfail
          cases hfail
          refine ⟨fun _ hstops => ?_, fun _ => hsound.retryable (Or.inr ⟨data, hdata, hnone⟩) cnt⟩
          obtain ⟨-, -, address, hsome, -⟩ := hstops
          rw [hget] at hsome
          cases hsome
        · rw [halloc] at hfail
          obtain ⟨hpos, hgrow⟩ := (hstage.changeNrBuffers hfail).2 (by decide)
          obtain ⟨delta, hdelta⟩ := Nat.exists_eq_succ_of_ne_zero (show cnt.toNat ≠ 0 by omega)
          rw [hdelta] at hgrow
          rcases Controller.growLoop_none hstage hzero rfl hgrow with ⟨hdriver, hget', rfl⟩ | ⟨hout, hnr⟩
          · refine ⟨fun hretry => ?_, fun hstops => absurd ⟨hdriver, hzero, address, hget, hget'⟩ hstops⟩
            obtain ⟨fdc'', hagain⟩ := hretry.1 endlessMemory (fun _ _ => rfl) 1 (by decide) (by omega) (by
              change (1 : ℤ) ≤ (fdc.driver.room : ℕ)
              rw [show fdc.driver = .internal from hdriver]
              decide)
            cases hagain.symm.trans (Controller.setNrBuffers_stuck hzero (by decide) rfl rfl)
          · refine ⟨fun _ hstops => ?_, fun _ => hsound.retryable (Or.inl hnr) cnt⟩
            obtain ⟨hdriver, -, address', hget', hnext⟩ := hstops
            obtain rfl := Option.some.inj (hget.symm.trans hget')
            exact hout ⟨hdriver, hnext⟩
  · rw [Controller.setNrBuffers, if_neg hfirst] at hfail
    obtain ⟨hpos, hgrow⟩ := (h.changeNrBuffers hfail).2 (by decide)
    have hnonzero : fdc.nrBuffers ≠ 0 := by
      intro hzero
      have hcnt : cnt = 0 := not_not.mp fun hne => hfirst ⟨hzero, hne⟩
      omega
    have hnr : fdc'.nrBuffers ≠ 0 := by
      have hle := (h.growLoop hgrow).nr
      omega
    exact ⟨fun _ hstops => hnonzero hstops.2.1, fun _ => hsound.retryable (Or.inl hnr) cnt⟩

/-- Memory for some number of requests. -/
def memoryFor (requests : ℕ) : Memory where
  get call inUse := if call < requests then some (inUse.sup id + 1) else none
  fresh := by
    intro call inUse address haddress hmem
    split at haddress
    · exact endlessMemory.fresh call inUse address haddress hmem
    · cases haddress

/-- When two buffers were allocated and there is memory for one more, the call for five buffers can be repeated. -/
theorem setNrBuffers_retryable_third :
    ∃ fdc fdc', (detected .internal).run [.setNrBuffers endlessMemory 2] = some fdc ∧ fdc.nrBuffers = 2 ∧
      fdc.setNrBuffers (memoryFor 4) 5 = some (fdc', -enomem) ∧ fdc'.nrBuffers = 3 ∧ fdc'.Retryable 5 := by
  refine ⟨_, _, rfl, rfl, rfl, rfl, ?_⟩
  refine (@setNrBuffers_retryable_iff .internal [.setNrBuffers endlessMemory 2] _ _ (memoryFor 4) 5 rfl rfl).mpr ?_
  rintro ⟨-, hnone, -⟩
  cases hnone

/-- With memory for the deblock buffer only, the call for three buffers cannot be repeated. -/
theorem setNrBuffers_stops :
    ∃ fdc', (detected .internal).setNrBuffers (memoryFor 1) 3 = some (fdc', -enomem) ∧ ¬fdc'.Retryable 3 := by
  refine ⟨⟨.internal, some ⟨some 1, 0⟩, [], 0, {1}, 2⟩, rfl, fun hretry => ?_⟩
  obtain ⟨fdc'', hagain⟩ := hretry.1 endlessMemory (fun _ _ => rfl) 3 (by decide) le_rfl (by decide)
  cases hagain.symm.trans (Controller.setNrBuffers_stuck rfl (by decide) rfl rfl)

section Refinement

variable {memory : Memory} {fdc fdc' : Controller} {result : ℤ} {ring : Fdc} {kernel : Kernel}

/-- `add_one_buffer()` has no more room, or adds a buffer, or runs out of memory. -/
theorem Controller.Sound.addOneBuffer_cases (h : fdc.Sound) (hadd : fdc.addOneBuffer memory = some (fdc', result)) :
    (ftMaxNrBuffers ≤ fdc.nrBuffers ∧ result = -einval ∧ fdc' = fdc) ∨
      ¬ftMaxNrBuffers ≤ fdc.nrBuffers ∧ (result = 0 ∧ fdc'.nrBuffers = fdc.nrBuffers + 1 ∨
        result = -enomem ∧ fdc'.nrBuffers = fdc.nrBuffers) := by
  rw [Controller.addOneBuffer] at hadd
  by_cases hmax : ftMaxNrBuffers ≤ fdc.nrBuffers
  · rw [if_pos hmax] at hadd
    cases hadd
    exact Or.inl ⟨hmax, rfl, rfl⟩
  · rw [if_neg hmax, Option.bind_eq_bind] at hadd
    obtain ⟨⟨fdc₁, outcome⟩, halloc, hadd⟩ := Option.bind_eq_some_iff.mp hadd
    refine Or.inr ⟨hmax, ?_⟩
    cases outcome with
    | error errno =>
      cases hadd
      obtain ⟨-, -, hnr, herrno⟩ := h.insert_failed halloc
      exact Or.inr ⟨herrno, hnr⟩
    | ok new =>
      cases hadd
      exact Or.inl ⟨rfl, congrArg (· + 1) (h.insert halloc).2.2⟩

/-- `add_one_buffer()` for a driver with memory. -/
theorem addOneBuffer_added (hmax : ¬ftMaxNrBuffers ≤ ring.nrBuffers) (halloc : kernel.alloc ring.calls = 0) :
    (Buffers.addOneBuffer kernel ring).2 = 0 ∧
      (Buffers.addOneBuffer kernel ring).1.nrBuffers = ring.nrBuffers + 1 ∧
      (Buffers.addOneBuffer kernel ring).1.calls = ring.calls + 1 := by
  rw [Buffers.addOneBuffer, if_neg hmax]
  dsimp only
  rw [halloc, if_neg (lt_irrefl _)]
  cases ring.buffers with
  | none => exact ⟨rfl, rfl, rfl⟩
  | some anchor => exact ⟨rfl, rfl, rfl⟩

/-- `fdc_zap_buffers()` keeps the number of buffers. -/
theorem fdcZapBuffers_nr (ring : Fdc) : (fdcZapBuffers ring).nrBuffers = ring.nrBuffers := by
  rw [fdcZapBuffers]
  cases ring.buffers with
  | none => rfl
  | some anchor => rfl

/-- A ring grows by as many buffers if the driver returns the same. -/
theorem Controller.Sound.growLoop_ring (h : fdc.Sound) {delta : ℕ}
    (hgrow : fdc.growLoop memory delta = some (fdc', result)) (hnr : ring.nrBuffers = fdc.nrBuffers)
    (hdone : ∀ i < fdc'.nrBuffers - fdc.nrBuffers, kernel.alloc (ring.calls + i) = 0)
    (hlast : kernel.alloc (ring.calls + (fdc'.nrBuffers - fdc.nrBuffers)) = result) :
    (Buffers.growLoop kernel delta ring).2 = result ∧
      (Buffers.growLoop kernel delta ring).1.nrBuffers = fdc'.nrBuffers := by
  induction delta generalizing fdc ring with
  | zero =>
    cases hgrow
    exact ⟨rfl, hnr⟩
  | succ delta ih =>
    rw [Controller.growLoop, Option.bind_eq_bind] at hgrow
    obtain ⟨⟨fdc₁, result₁⟩, hadd, hrest⟩ := Option.bind_eq_some_iff.mp hgrow
    dsimp only at hrest
    rw [Buffers.growLoop]
    rcases h.addOneBuffer_cases hadd with ⟨hmax, rfl, rfl⟩ | ⟨hmax, ⟨rfl, hone⟩ | ⟨rfl, hsame⟩⟩
    · cases hrest
      rw [Buffers.addOneBuffer, if_pos (hnr ▸ hmax)]
      exact ⟨rfl, hnr⟩
    · rw [if_neg (lt_irrefl _)] at hrest
      have hle := ((h.addOneBuffer hadd).sound.growLoop hrest).nr
      obtain ⟨hresult, hnodes, hcalls⟩ :=
        addOneBuffer_added (hnr ▸ hmax : ¬ftMaxNrBuffers ≤ ring.nrBuffers) (hdone 0 (by omega))
      dsimp only
      rw [hresult, if_neg (lt_irrefl _)]
      refine ih (h.addOneBuffer hadd).sound hrest (by omega) (fun i hi => ?_) ?_
      · rw [hcalls, Nat.add_assoc, Nat.add_comm 1 i]
        exact hdone (i + 1) (by omega)
      · rw [hcalls, Nat.add_assoc, ← hlast]
        congr 2
        omega
    · rw [if_pos (by decide)] at hrest
      cases hrest
      rw [hsame, Nat.sub_self] at hlast
      rw [Buffers.addOneBuffer, if_neg (hnr ▸ hmax)]
      dsimp only
      rw [show kernel.alloc ring.calls = -enomem from hlast, if_pos (show -enomem < 0 by decide)]
      exact ⟨rfl, hnr.trans hsame.symm⟩

/-- The ring has as many nodes as there are buffers once some were deleted. -/
theorem Fdc.Circular.shrinkLoop_nr {nodes : List ℕ} (h : ring.Circular nodes) (delta : ℕ) :
    ∃ left, (Buffers.shrinkLoop delta ring).Circular left ∧ left.length = nodes.length - delta := by
  cases nodes with
  | nil =>
    refine ⟨[], ?_, (Nat.zero_sub delta).symm⟩
    rw [h.shrinkLoop_nil]
    exact h
  | cons anchor others =>
    by_cases hdelta : delta ≤ others.length
    · refine ⟨_, (h.shrinkLoop hdelta).1, ?_⟩
      rw [List.length_cons, List.length_cons, List.length_drop]
      omega
    · refine ⟨[], (h.shrinkLoop_all (Nat.lt_of_not_le hdelta)).1, ?_⟩
      rw [List.length_cons, List.length_nil]
      omega

/-- The part behind the first stage makes as many buffers as it makes nodes of the ring, and returns the same. -/
theorem Controller.Sound.changeNrBuffers_ring (h : fdc.Sound) {cnt : ℤ} {nodes : List ℕ}
    (hchange : fdc.changeNrBuffers memory (cnt - fdc.nrBuffers) = some (fdc', result)) (hring : ring.Circular nodes)
    (hnr : ring.nrBuffers = fdc.nrBuffers)
    (hdone : ∀ i < fdc'.nrBuffers - fdc.nrBuffers, kernel.alloc (ring.calls + i) = 0)
    (hlast : kernel.alloc (ring.calls + (fdc'.nrBuffers - fdc.nrBuffers)) = result) :
    (Buffers.changeNrBuffers kernel ring cnt).2 = result ∧
      (Buffers.changeNrBuffers kernel ring cnt).1.nrBuffers = fdc'.nrBuffers := by
  rw [Controller.changeNrBuffers] at hchange
  rw [Buffers.changeNrBuffers, hnr]
  dsimp only
  by_cases hpos : 0 < cnt - fdc.nrBuffers
  · rw [if_pos hpos, Option.bind_eq_bind] at hchange
    obtain ⟨⟨fdc₁, result₁⟩, hgrow, hrest⟩ := Option.bind_eq_some_iff.mp hchange
    dsimp only at hrest
    rw [if_pos hpos]
    have hend : fdc'.nrBuffers = fdc₁.nrBuffers ∧ result = result₁ := by
      by_cases hfailed : result₁ < 0
      · rw [if_pos hfailed] at hrest
        cases hrest
        exact ⟨rfl, rfl⟩
      · rw [if_neg hfailed] at hrest
        cases hrest
        have hgrown := h.growLoop hgrow
        refine ⟨hgrown.sound.settle.2.1, ?_⟩
        rcases hgrown.result with ⟨hzero, -⟩ | herrno | herrno
        · exact hzero.symm
        · exact absurd (herrno ▸ by decide) hfailed
        · exact absurd (herrno ▸ by decide) hfailed
    rw [hend.1] at hdone hlast ⊢
    obtain ⟨hresult, hnodes⟩ := h.growLoop_ring hgrow hnr hdone (hlast.trans hend.2)
    rw [hresult, ← hend.2]
    by_cases hfailed : result < 0
    · rw [if_pos hfailed]
      exact ⟨rfl, hnodes⟩
    · rw [if_neg hfailed]
      rw [if_neg (hend.2 ▸ hfailed)] at hrest
      cases hrest
      exact ⟨rfl, (fdcZapBuffers_nr _).trans hnodes⟩
  · rw [if_neg hpos] at hchange ⊢
    obtain ⟨fdc₁, hshrink, hsound, -, hleft⟩ := h.shrinkLoop (-(cnt - fdc.nrBuffers)).toNat
    rw [hshrink] at hchange
    cases hchange
    obtain ⟨left, hcircular, hlength⟩ := hring.shrinkLoop_nr (-(cnt - fdc.nrBuffers)).toNat
    refine ⟨rfl, (fdcZapBuffers_nr _).trans ?_⟩
    rw [hcircular.nr, hlength, hsound.settle.2.1, hleft, ← hring.nr, hnr]

/-- `fdc_set_nr_buffers()` makes as many buffers as it makes nodes of the ring, and returns the same, for a driver that
returns what this one does. -/
theorem Controller.Sound.setNrBuffers_ring (h : fdc.Sound) {cnt : ℤ} {nodes : List ℕ}
    (hset : fdc.setNrBuffers memory cnt = some (fdc', result)) (hring : ring.Circular nodes)
    (hnr : ring.nrBuffers = fdc.nrBuffers) (kernel : Kernel) :
    ∃ alloc, (fdcSetNrBuffers { kernel with alloc := alloc } ring cnt).2 = result ∧
      (fdcSetNrBuffers { kernel with alloc := alloc } ring cnt).1.nrBuffers = fdc'.nrBuffers := by
  have hgrows : ∀ (fdc : Controller) (ring : Fdc), fdc.Sound →
      fdc.changeNrBuffers memory (cnt - fdc.nrBuffers) = some (fdc', result) → ring.Circular nodes →
      ring.nrBuffers = fdc.nrBuffers → ∀ alloc : ℕ → ℤ,
      (∀ call, alloc call = if call < ring.calls + (fdc'.nrBuffers - fdc.nrBuffers) then 0 else result) →
      (Buffers.changeNrBuffers { kernel with alloc := alloc } ring cnt).2 = result ∧
        (Buffers.changeNrBuffers { kernel with alloc := alloc } ring cnt).1.nrBuffers = fdc'.nrBuffers := by
    intro fdc ring h hchange hring hnr alloc halloc
    refine h.changeNrBuffers_ring hchange hring hnr (fun i hi => ?_) ?_
    · exact (halloc _).trans (if_pos (Nat.add_lt_add_left hi _))
    · exact (halloc _).trans (if_neg (Nat.lt_irrefl _))
  by_cases hfirst : fdc.nrBuffers = 0 ∧ cnt ≠ 0
  · have hzero : ring.nrBuffers = 0 ∧ cnt ≠ 0 := ⟨hnr.trans hfirst.1, hfirst.2⟩
    -- the first stage of the ring with what the first stage of the controller returns
    have hring' : ({ ring with calls := ring.calls + 1 } : Fdc).Circular nodes :=
      hring.congr rfl (fun _ _ => rfl) rfl rfl
    have hfails : ∀ errno : ℤ, errno < 0 → ∃ alloc,
        (fdcSetNrBuffers { kernel with alloc := alloc } ring cnt).2 = errno ∧
          (fdcSetNrBuffers { kernel with alloc := alloc } ring cnt).1.nrBuffers = fdc.nrBuffers := by
      intro errno herrno
      refine ⟨fun _ => errno, ?_⟩
      rw [fdcSetNrBuffers, if_pos hzero]
      dsimp only
      rw [if_pos herrno]
      exact ⟨rfl, hnr⟩
    rcases Option.eq_none_or_eq_some fdc.data with hdata | ⟨data, hdata⟩
    · rw [Controller.setNrBuffers_first hfirst.1 hfirst.2, h.allocDeblock_of_none hdata] at hset
      cases hset
    · by_cases hdeblock : data.deblockBuffer.isSome = true
      · rw [Controller.setNrBuffers_stuck hfirst.1 hfirst.2 hdata hdeblock] at hset
        cases hset
        exact hfails _ (by decide)
      · rw [Controller.setNrBuffers_first hfirst.1 hfirst.2] at hset
        rcases h.allocDeblock memory hdata (Option.not_isSome_iff_eq_none.mp hdeblock) with
          ⟨-, halloc⟩ | ⟨address, -, halloc, hsound⟩
        · rw [halloc] at hset
          cases hset
          exact hfails (-enomem) (by decide)
        · rw [halloc] at hset
          refine ⟨fun call => if call < ring.calls + 1 + (fdc'.nrBuffers - fdc.nrBuffers) then 0 else result, ?_⟩
          rw [fdcSetNrBuffers, if_pos hzero]
          dsimp only
          rw [if_pos (show ring.calls < _ by omega), if_neg (lt_irrefl _)]
          refine hgrows _ _ hsound ?_ hring' hnr _ fun call => rfl
          have hcnt : cnt - (fdc.nrBuffers : ℤ) = cnt := by omega
          exact (congrArg _ hcnt).trans hset
  · refine ⟨fun call => if call < ring.calls + (fdc'.nrBuffers - fdc.nrBuffers) then 0 else result, ?_⟩
    rw [Controller.setNrBuffers, if_neg hfirst] at hset
    rw [fdcSetNrBuffers, if_neg (hnr ▸ hfirst)]
    exact hgrows fdc ring h hset hring hnr _ fun call => rfl

end Refinement

end Ftape.Buffers
