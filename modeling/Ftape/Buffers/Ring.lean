import Ftape.Write.Ring
import Mathlib.Data.Finset.Basic
import Mathlib.Data.List.Iterate

/-!
# Allocating the segment buffers

The buffers are nodes in memory, linked in a ring. A node is inserted and taken out behind
`fdc->buffers`, the anchor of the ring; `HEAD` and `TAIL` point to any of the nodes.
-/

namespace Ftape.Buffers

open Ftape.Write

/-- `FT_MAX_NR_BUFFERS`. -/
def ftMaxNrBuffers : ℕ := 16

/-- `EINVAL`. -/
def einval : ℤ := 22

/-- The fields of `buffer_struct` that allocation touches. -/
structure Node where
  next : ℕ
  status : BufferState
  bytes : ℕ
  skip : ℕ
  retry : ℤ

/-- A `buffer_struct` as `ftape_kmalloc()` hands it out, all zero. -/
def Node.blank : Node := ⟨0, .waiting, 0, 0, 0⟩

/-- The fields of `fdc_info_t` that tell of the buffers, with the memory of the nodes and the addresses
that are allocated. `calls` counts the requests for memory. -/
structure Fdc where
  memory : ℕ → Node
  allocated : Finset ℕ
  buffers : Option ℕ
  head : Option ℕ
  tail : Option ℕ
  nrBuffers : ℕ
  calls : ℕ

/-- Where memory comes from: `ftape_kmalloc()`, which waits until there is a node that is not in use, and
`fdc->ops->alloc()` with what it returns. -/
structure Kernel where
  kmalloc : ℕ → Finset ℕ → ℕ
  fresh : ∀ call allocated, kmalloc call allocated ∉ allocated
  alloc : ℕ → ℤ

/-- The links of the nodes. -/
def Fdc.next (fdc : Fdc) (node : ℕ) : ℕ := (fdc.memory node).next

/-- Set a link. -/
def link (memory : ℕ → Node) (node next : ℕ) : ℕ → Node :=
  Function.update memory node { memory node with next := next }

/-- `add_one_buffer()`. -/
def addOneBuffer (kernel : Kernel) (fdc : Fdc) : Fdc × ℤ :=
  if ftMaxNrBuffers ≤ fdc.nrBuffers then (fdc, -einval)
  else
    let new := kernel.kmalloc fdc.calls fdc.allocated
    let result := kernel.alloc fdc.calls
    let fdc := { fdc with memory := Function.update fdc.memory new Node.blank, calls := fdc.calls + 1 }
    if result < 0 then (fdc, result)
    else
      let fdc := { fdc with allocated := insert new fdc.allocated, nrBuffers := fdc.nrBuffers + 1 }
      match fdc.buffers with
      | none =>
        ({ fdc with
          memory := link fdc.memory new new
          buffers := some new
          head := some new
          tail := some new }, 0)
      | some anchor =>
        ({ fdc with memory := link (link fdc.memory new (fdc.next anchor)) anchor new }, 0)

/-- `del_one_buffer()`. -/
def delOneBuffer (fdc : Fdc) : Fdc :=
  match fdc.buffers with
  | none => fdc
  | some anchor =>
    if 0 < fdc.nrBuffers then
      let old := fdc.next anchor
      let freed := { fdc with nrBuffers := fdc.nrBuffers - 1, allocated := fdc.allocated.erase old }
      if old ≠ fdc.next old then { freed with memory := link fdc.memory anchor (fdc.next old) }
      else { freed with buffers := none, head := none, tail := none }
    else fdc

/-- The loop of `fdc_set_nr_buffers()` that adds buffers. -/
def growLoop (kernel : Kernel) : ℕ → Fdc → Fdc × ℤ
  | 0, fdc => (fdc, 0)
  | delta + 1, fdc =>
    let (fdc, result) := addOneBuffer kernel fdc
    if result < 0 then (fdc, result) else growLoop kernel delta fdc

/-- The loop of `fdc_set_nr_buffers()` that deletes buffers. -/
def shrinkLoop : ℕ → Fdc → Fdc
  | 0, fdc => fdc
  | delta + 1, fdc => shrinkLoop delta (delOneBuffer fdc)

/-- The loop of `fdc_zap_buffers()`, for no more nodes than there are. -/
def zapLoop (anchor : ℕ) : ℕ → ℕ → (ℕ → Node) → ℕ → Node
  | 0, _, memory => memory
  | rounds + 1, pos, memory =>
    let memory := Function.update memory pos
      { memory pos with status := .waiting, bytes := 0, skip := 0, retry := 0 }
    if (memory pos).next = anchor then memory else zapLoop anchor rounds (memory pos).next memory

/-- `fdc_zap_buffers()`. -/
def fdcZapBuffers (fdc : Fdc) : Fdc :=
  match fdc.buffers with
  | none => fdc
  | some anchor => { fdc with memory := zapLoop anchor fdc.nrBuffers anchor fdc.memory }

/-- The part of `fdc_set_nr_buffers()` behind the first allocation. -/
def changeNrBuffers (kernel : Kernel) (fdc : Fdc) (cnt : ℤ) : Fdc × ℤ :=
  let delta := cnt - fdc.nrBuffers
  if 0 < delta then
    let (fdc, result) := growLoop kernel delta.toNat fdc
    if result < 0 then (fdc, result) else (fdcZapBuffers fdc, 0)
  else (fdcZapBuffers (shrinkLoop (-delta).toNat fdc), 0)

/-- `fdc_set_nr_buffers()` of a driver that can allocate buffers. -/
def fdcSetNrBuffers (kernel : Kernel) (fdc : Fdc) (cnt : ℤ) : Fdc × ℤ :=
  if fdc.nrBuffers = 0 ∧ cnt ≠ 0 then
    let result := kernel.alloc fdc.calls
    let fdc := { fdc with calls := fdc.calls + 1 }
    if result < 0 then (fdc, result) else changeNrBuffers kernel fdc cnt
  else changeNrBuffers kernel fdc cnt

/-- `mt_setdrvbuffer()`. -/
def mtSetdrvbuffer (kernel : Kernel) (fdc : Fdc) (cnt : ℤ) : Fdc × ℤ :=
  if cnt < 3 then (fdc, -einval) else fdcSetNrBuffers kernel fdc cnt

/-- What happens to the ring. `reset` is `ftape_reset_buffer()`. -/
inductive Event where
  | setNrBuffers (cnt : ℤ)
  | setdrvbuffer (cnt : ℤ)
  | advanceHead
  | advanceTail
  | reset

/-- What an event makes of the buffers. -/
def Fdc.step (kernel : Kernel) (fdc : Fdc) : Event → Fdc
  | .setNrBuffers cnt => (fdcSetNrBuffers kernel fdc cnt).1
  | .setdrvbuffer cnt => (mtSetdrvbuffer kernel fdc cnt).1
  | .advanceHead => { fdc with head := fdc.head.map fdc.next }
  | .advanceTail => { fdc with tail := fdc.tail.map fdc.next }
  | .reset => { fdc with head := fdc.buffers, tail := fdc.buffers }

end Ftape.Buffers
