import Mathlib.Data.List.Iterate
import Mathlib.Data.List.Nodup
import Mathlib.Logic.Function.Iterate

/-!
# Rings of linked nodes

Nodes of any kind are linked by a function to their successors. A ring leads from an anchor over other
nodes back to the anchor. A node is inserted or taken out behind the anchor by changing one link.
-/

namespace Ftape.Algebra

variable {α : Type*}

/-- The links lead from a node over other ones to a last one. -/
def Links (next : α → α) : α → List α → α → Prop
  | node, [], last => next node = last
  | node, other :: others, last => next node = other ∧ Links next other others last

/-- Only the links of the nodes that are passed matter. -/
theorem Links.congr {next next' : α → α} {node last : α} {others : List α} (h : Links next node others last)
    (hnext : ∀ n ∈ node :: others, next' n = next n) : Links next' node others last := by
  induction others generalizing node with
  | nil => exact (hnext node List.mem_cons_self).trans h
  | cons other others ih =>
    refine ⟨(hnext node List.mem_cons_self).trans h.1, ih h.2 fun n hn => ?_⟩
    exact hnext n (List.mem_cons_of_mem _ hn)

/-- A link leads to one of the nodes that are passed, or to the last one. -/
theorem Links.next_mem {next : α → α} {node last n : α} {others : List α} (h : Links next node others last)
    (hn : n ∈ node :: others) : next n ∈ others ∨ next n = last := by
  induction others generalizing node with
  | nil =>
    obtain rfl := List.mem_singleton.mp hn
    exact Or.inr h
  | cons other others ih =>
    cases hn with
    | head =>
      rw [h.1]
      exact Or.inl List.mem_cons_self
    | tail _ hn => exact (ih h.2 hn).imp_left (List.mem_cons_of_mem _)

/-- The nodes behind the first one are those its links lead to. -/
theorem Links.iterate {next : α → α} {node last : α} {others : List α} (h : Links next node others last) :
    List.iterate next (next node) others.length = others := by
  induction others generalizing node with
  | nil => rfl
  | cons other others ih =>
    rw [List.length_cons, List.iterate, h.1, ih h.2]

/-- So are the first of them. -/
theorem Links.iterate_take {next : α → α} {node last : α} {others : List α} (h : Links next node others last)
    {n : ℕ} (hn : n ≤ others.length) : List.iterate next (next node) n = others.take n := by
  induction n generalizing node others with
  | zero => rfl
  | succ n ih =>
    cases others with
    | nil => exact absurd hn (Nat.not_succ_le_zero n)
    | cons other others =>
      rw [List.iterate, h.1, ih h.2 (Nat.le_of_succ_le_succ hn), List.take_succ_cons]

/-- The nodes are linked in a ring, each of them once. -/
structure IsRing (next : α → α) (anchor : α) (others : List α) : Prop where
  links : Links next anchor others anchor
  nodup : (anchor :: others).Nodup

namespace IsRing

variable {next : α → α} {anchor : α} {others : List α}

/-- Only the links of the ring matter. -/
theorem congr (h : IsRing next anchor others) {next' : α → α}
    (hnext : ∀ n ∈ anchor :: others, next' n = next n) : IsRing next' anchor others :=
  ⟨h.links.congr hnext, h.nodup⟩

/-- The links do not leave the ring. -/
theorem next_mem (h : IsRing next anchor others) {n : α} (hn : n ∈ anchor :: others) :
    next n ∈ anchor :: others := by
  cases h.links.next_mem hn with
  | inl hother => exact List.mem_cons_of_mem _ hother
  | inr hanchor =>
    rw [hanchor]
    exact List.mem_cons_self

/-- The anchor and the size determine a ring. -/
theorem unique (h : IsRing next anchor others) {others' : List α} (h' : IsRing next anchor others')
    (hlength : others'.length = others.length) : others' = others := by
  rw [← h.links.iterate, ← h'.links.iterate, hlength]

variable [DecidableEq α]

/-- A node that is linked to itself is a ring. -/
theorem single (next : α → α) (new : α) : IsRing (Function.update next new new) new [] :=
  ⟨Function.update_self .., List.nodup_singleton new⟩

/-- A node is inserted behind the anchor. -/
theorem insert (h : IsRing next anchor others) {new : α} (hnew : new ∉ anchor :: others) :
    IsRing (Function.update (Function.update next new (next anchor)) anchor new) anchor (new :: others) := by
  obtain ⟨hne, hothers⟩ := not_or.mp (List.mem_cons.not.mp hnew)
  obtain ⟨hanchor, hnodup⟩ := List.nodup_cons.mp h.nodup
  refine ⟨⟨Function.update_self .., ?_⟩, ?_⟩
  · -- the new node leads where the anchor led
    have hlinks : Links (Function.update next new (next anchor)) new others anchor := by
      have hframe : ∀ n ∈ others, Function.update next new (next anchor) n = next n := fun n hn =>
        Function.update_of_ne (ne_of_mem_of_not_mem hn hothers) _ _
      cases others with
      | nil =>
        change Function.update next new (next anchor) new = anchor
        rw [Function.update_self]
        exact h.links
      | cons other others =>
        refine ⟨?_, h.links.2.congr hframe⟩
        rw [Function.update_self]
        exact h.links.1
    refine hlinks.congr fun n hn => Function.update_of_ne ?_ _ _
    rintro rfl
    cases hn with
    | head => exact hne rfl
    | tail _ hn => exact hanchor hn
  · have hrest : (new :: others).Nodup := List.nodup_cons.mpr ⟨hothers, hnodup⟩
    refine List.nodup_cons.mpr ⟨fun hmem => ?_, hrest⟩
    cases hmem with
    | head => exact hne rfl
    | tail _ hmem => exact hanchor hmem

/-- The node behind the anchor is taken out. -/
theorem delete {old : α} (h : IsRing next anchor (old :: others)) :
    IsRing (Function.update next anchor (next old)) anchor others := by
  obtain ⟨hanchor, hnodup⟩ := List.nodup_cons.mp h.nodup
  obtain ⟨hne, hothers⟩ := not_or.mp (List.mem_cons.not.mp hanchor)
  refine ⟨?_, List.nodup_cons.mpr ⟨hothers, (List.nodup_cons.mp hnodup).2⟩⟩
  have hlinks := h.links.2
  cases others with
  | nil =>
    change Function.update next anchor (next old) anchor = anchor
    rw [Function.update_self]
    exact hlinks
  | cons other others =>
    refine ⟨?_, hlinks.2.congr fun n hn => Function.update_of_ne (ne_of_mem_of_not_mem hn hothers) _ _⟩
    rw [Function.update_self]
    exact hlinks.1

end IsRing

end Ftape.Algebra
