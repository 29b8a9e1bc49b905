import Mathlib.Data.Finset.Basic
import Mathlib.Data.Finset.Dedup
import Mathlib.Data.List.Perm.Subperm

/-!
# What is held of a memory

A list of addresses accounts for all that is in use of a memory, each address once. An address that was not in use may
be taken, and any of them may be given back. Of numbered slots, as long as there are fewer in use than there are, some
slot is free.
-/

namespace Ftape.Algebra

variable {α : Type*} [DecidableEq α]

/-- The list has each address in use once, and no others. -/
structure Held (held : List α) (inUse : Finset α) : Prop where
  nodup : held.Nodup
  inUse : inUse = held.toFinset

namespace Held

variable {held held' : List α} {inUse : Finset α} {address : α}

/-- Nothing is held. -/
theorem nil : Held [] (∅ : Finset α) := ⟨List.nodup_nil, rfl⟩

/-- The order does not matter. -/
theorem perm (h : Held held inUse) (hperm : held.Perm held') : Held held' inUse where
  nodup := hperm.nodup_iff.mp h.nodup
  inUse := h.inUse.trans (List.toFinset_eq_of_perm _ _ hperm)

/-- An address that was not in use is taken. -/
theorem take (h : Held held inUse) (hfresh : address ∉ inUse) : Held (address :: held) (insert address inUse) where
  nodup := by
    refine List.nodup_cons.mpr ⟨fun hmem => hfresh ?_, h.nodup⟩
    rw [h.inUse]
    exact List.mem_toFinset.mpr hmem
  inUse := by rw [h.inUse, List.toFinset_cons]

/-- An address is given back. -/
theorem release (h : Held (address :: held) inUse) : Held held (inUse.erase address) where
  nodup := (List.nodup_cons.mp h.nodup).2
  inUse := by
    have hout : address ∉ held.toFinset := fun hmem => (List.nodup_cons.mp h.nodup).1 (List.mem_toFinset.mp hmem)
    rw [h.inUse, List.toFinset_cons, Finset.erase_insert hout]

/-- If nothing is held, nothing is in use. -/
theorem inUse_eq_empty (h : Held [] inUse) : inUse = ∅ := h.inUse

end Held

/-- Of numbered slots, fewer than there are leave one free. -/
theorem exists_free_slot {slots : List ℕ} {n : ℕ} (h : slots.length < n) : ∃ slot < n, slot ∉ slots := by
  by_contra hall
  have hsubset : List.range n ⊆ slots := by
    intro slot hslot
    by_contra hfree
    exact hall ⟨slot, List.mem_range.mp hslot, hfree⟩
  have hle := (List.subperm_of_subset List.nodup_range hsubset).length_le
  rw [List.length_range] at hle
  omega

end Ftape.Algebra
