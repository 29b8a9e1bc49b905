import Ftape.Algebra.LinkedRing
import Ftape.Buffers.Ring

/-!
# The ring of buffers stays a ring

Growing and shrinking keep the nodes in one ring, of as many nodes as `nr_buffers` tells, whatever
fails on the way. `HEAD` and `TAIL` stay nodes of it exactly when no call deletes the node one of them
points to.
-/

namespace Ftape.Buffers

open Ftape.Algebra Ftape.Write

/-- The buffers form one ring of the given nodes, all of them allocated. -/
structure Fdc.Circular (fdc : Fdc) (nodes : List ℕ) : Prop where
  buffers : fdc.buffers = nodes.head?
  ring : ∀ anchor others, nodes = anchor :: others → IsRing fdc.next anchor others
  nr : fdc.nrBuffers = nodes.length
  allocated : ∀ node ∈ nodes, node ∈ fdc.allocated

/-- A pointer points to one of the nodes, or nowhere if there is none. -/
def PointsInto (nodes : List ℕ) (pointer : Option ℕ) : Prop :=
  nodes = [] ∧ pointer = none ∨ ∃ node ∈ nodes, pointer = some node

/-- The buffers form one ring, and `HEAD` and `TAIL` are nodes of it. -/
def Fdc.RingOk (fdc : Fdc) : Prop :=
  ∃ nodes, fdc.Circular nodes ∧ PointsInto nodes fdc.head ∧ PointsInto nodes fdc.tail

/-- The nodes that `fdc_set_nr_buffers()` deletes when some are left. -/
def Fdc.doomed (fdc : Fdc) (cnt : ℤ) : List ℕ :=
  match fdc.buffers with
  | none => []
  | some anchor =>
    if 0 < cnt then List.iterate fdc.next (fdc.next anchor) (fdc.nrBuffers - cnt).toNat else []

/-- Neither `HEAD` nor `TAIL` points to a node that is deleted. -/
def Fdc.Spares (fdc : Fdc) (cnt : ℤ) : Prop :=
  (∀ node ∈ fdc.head, node ∉ fdc.doomed cnt) ∧ ∀ node ∈ fdc.tail, node ∉ fdc.doomed cnt

instance (fdc : Fdc) (cnt : ℤ) : Decidable (fdc.Spares cnt) := inferInstanceAs (Decidable (_ ∧ _))

section Circular

variable {fdc : Fdc} {nodes : List ℕ}

/-- There is only one such ring. -/
theorem Fdc.Circular.unique (h : fdc.Circular nodes) {nodes' : List ℕ} (h' : fdc.Circular nodes') :
    nodes' = nodes := by
  have hhead := h.buffers.symm.trans h'.buffers
  have hlength := h.nr.symm.trans h'.nr
  cases nodes with
  | nil => exact List.eq_nil_of_length_eq_zero hlength.symm
  | cons anchor others =>
    cases nodes' with
    | nil => exact absurd hlength (Nat.succ_ne_zero _)
    | cons anchor' others' =>
      obtain rfl : anchor = anchor' := Option.some.inj hhead
      rw [(h.ring anchor others rfl).unique (h'.ring anchor others' rfl) (Nat.succ.inj hlength).symm]

/-- What a ring depends on. -/
theorem Fdc.Circular.congr (h : fdc.Circular nodes) {fdc' : Fdc} (hbuffers : fdc'.buffers = fdc.buffers)
    (hnext : ∀ node ∈ nodes, fdc'.next node = fdc.next node) (hnr : fdc'.nrBuffers = fdc.nrBuffers)
    (hallocated : fdc'.allocated = fdc.allocated) : fdc'.Circular nodes where
  buffers := hbuffers.trans h.buffers
  ring := by
    rintro anchor others rfl
    exact (h.ring anchor others rfl).congr hnext
  nr := hnr.trans h.nr
  allocated := by
    rw [hallocated]
    exact h.allocated

/-- Setting a link. -/
theorem link_next (memory : ℕ → Node) (node next : ℕ) :
    (fun n => (link memory node next n).next) = Function.update (fun n => (memory n).next) node next := by
  funext n
  rw [link]
  by_cases hn : n = node
  · rw [hn, Function.update_self, Function.update_self]
  · rw [Function.update_of_ne hn, Function.update_of_ne hn]

/-- Memory that is handed out belongs to no node of the ring. -/
theorem Fdc.Circular.fresh (h : fdc.Circular nodes) (kernel : Kernel) :
    kernel.kmalloc fdc.calls fdc.allocated ∉ nodes := fun hmem =>
  kernel.fresh _ _ (h.allocated _ hmem)

/-- The first buffer is a ring of its own. -/
theorem Fdc.Circular.insert_first (h : fdc.Circular []) (new calls : ℕ) :
    Fdc.Circular { fdc with
      memory := link (Function.update fdc.memory new Node.blank) new new
      allocated := insert new fdc.allocated
      buffers := some new
      head := some new
      tail := some new
      nrBuffers := fdc.nrBuffers + 1
      calls := calls } [new] where
  buffers := rfl
  ring := by
    rintro _ _ ⟨⟩
    have hsingle := IsRing.single (fun n => (Function.update fdc.memory new Node.blank n).next) new
    rwa [← link_next] at hsingle
  nr := congrArg (· + 1) h.nr
  allocated := by
    intro node hnode
    rw [List.mem_singleton.mp hnode]
    exact Finset.mem_insert_self _ _

/-- Any other buffer comes behind the anchor. -/
theorem Fdc.Circular.insert_behind {anchor : ℕ} {others : List ℕ} (h : fdc.Circular (anchor :: others))
    {new : ℕ} (hnew : new ∉ anchor :: others) (calls : ℕ) :
    Fdc.Circular { fdc with
      memory := link (link (Function.update fdc.memory new Node.blank) new
        (Function.update fdc.memory new Node.blank anchor).next) anchor new
      allocated := insert new fdc.allocated
      nrBuffers := fdc.nrBuffers + 1
      calls := calls } (anchor :: new :: others) where
  buffers := h.buffers
  ring := by
    rintro _ _ ⟨⟩
    -- what is written to the new node changes no link of the ring
    have hblank : IsRing (fun n => (Function.update fdc.memory new Node.blank n).next) anchor others := by
      refine (h.ring anchor others rfl).congr fun n hn => ?_
      rw [Function.update_of_ne (ne_of_mem_of_not_mem hn hnew)]
      rfl
    have hinsert := hblank.insert hnew
    rwa [← link_next, ← link_next] at hinsert
  nr := congrArg (· + 1) h.nr
  allocated := by
    intro node hnode
    rcases List.mem_cons.mp hnode with rfl | hnode
    · exact Finset.mem_insert_of_mem (h.allocated _ List.mem_cons_self)
    · rcases List.mem_cons.mp hnode with rfl | hnode
      · exact Finset.mem_insert_self _ _
      · exact Finset.mem_insert_of_mem (h.allocated _ (List.mem_cons_of_mem _ hnode))

/-- The node behind the anchor is deleted. -/
theorem Fdc.Circular.delOneBuffer_cons {anchor old : ℕ} {others : List ℕ}
    (h : fdc.Circular (anchor :: old :: others)) :
    (delOneBuffer fdc).Circular (anchor :: others) ∧ (delOneBuffer fdc).head = fdc.head ∧
      (delOneBuffer fdc).tail = fdc.tail := by
  have hring := h.ring anchor (old :: others) rfl
  have hold : fdc.next anchor = old := hring.links.1
  have hpos : 0 < fdc.nrBuffers := by
    rw [h.nr]
    exact Nat.succ_pos _
  have hnext : old ≠ fdc.next old := by
    -- the node behind the last one is the anchor
    intro hself
    have hnodup := hring.nodup
    have hlinks := hring.links.2
    cases others with
    | nil =>
      rw [List.nodup_cons, List.mem_singleton] at hnodup
      exact hnodup.1 (hlinks.symm.trans hself.symm)
    | cons other others =>
      rw [List.nodup_cons, List.nodup_cons] at hnodup
      refine hnodup.2.1 ?_
      rw [hself, hlinks.1]
      exact List.mem_cons_self
  rw [delOneBuffer, h.buffers]
  dsimp only [List.head?_cons]
  rw [if_pos hpos, hold, if_pos hnext]
  refine ⟨⟨rfl, ?_, ?_, ?_⟩, rfl, rfl⟩
  · rintro _ _ ⟨⟩
    have hdelete : IsRing (Function.update (fun n => (fdc.memory n).next) anchor (fdc.next old)) anchor others :=
      hring.delete
    rwa [← link_next] at hdelete
  · dsimp only
    rw [h.nr]
    rfl
  · intro node hnode
    have hkept : node ≠ old := by
      rintro rfl
      have hnodup := hring.nodup
      rw [List.nodup_cons, List.nodup_cons] at hnodup
      cases hnode with
      | head => exact hnodup.1 List.mem_cons_self
      | tail _ hnode => exact hnodup.2.1 hnode
    refine Finset.mem_erase.mpr ⟨hkept, h.allocated node ?_⟩
    rcases List.mem_cons.mp hnode with rfl | hnode
    · exact List.mem_cons_self
    · exact List.mem_cons_of_mem _ (List.mem_cons_of_mem _ hnode)

/-- The last node is deleted. -/
theorem Fdc.Circular.delOneBuffer_single {anchor : ℕ} (h : fdc.Circular [anchor]) :
    (delOneBuffer fdc).Circular [] ∧ (delOneBuffer fdc).head = none ∧ (delOneBuffer fdc).tail = none := by
  have hanchor : fdc.next anchor = anchor := (h.ring anchor [] rfl).links
  have hpos : 0 < fdc.nrBuffers := by
    rw [h.nr]
    exact Nat.succ_pos _
  rw [delOneBuffer, h.buffers]
  dsimp only [List.head?_cons]
  rw [if_pos hpos, hanchor, if_neg (not_not.mpr hanchor.symm)]
  refine ⟨⟨rfl, nofun, ?_, nofun⟩, rfl, rfl⟩
  dsimp only
  rw [h.nr]
  rfl

/-- Nothing is deleted when there is nothing. -/
theorem Fdc.Circular.delOneBuffer_nil (h : fdc.Circular []) : delOneBuffer fdc = fdc := by
  rw [delOneBuffer, h.buffers]
  rfl

/-- Some nodes behind the anchor are deleted. -/
theorem Fdc.Circular.shrinkLoop {anchor : ℕ} {others : List ℕ} (h : fdc.Circular (anchor :: others))
    {delta : ℕ} (hdelta : delta ≤ others.length) :
    (Buffers.shrinkLoop delta fdc).Circular (anchor :: others.drop delta) ∧
      (Buffers.shrinkLoop delta fdc).head = fdc.head ∧ (Buffers.shrinkLoop delta fdc).tail = fdc.tail := by
  induction delta generalizing fdc others with
  | zero => exact ⟨h, rfl, rfl⟩
  | succ delta ih =>
    cases others with
    | nil => exact absurd hdelta (Nat.not_succ_le_zero delta)
    | cons old others =>
      obtain ⟨hcircular, hhead, htail⟩ := h.delOneBuffer_cons
      obtain ⟨hafter, hhead', htail'⟩ := ih hcircular (Nat.le_of_succ_le_succ hdelta)
      exact ⟨hafter, hhead'.trans hhead, htail'.trans htail⟩

/-- Nothing is deleted when there is nothing, however often it is tried. -/
theorem Fdc.Circular.shrinkLoop_nil (h : fdc.Circular []) (delta : ℕ) : Buffers.shrinkLoop delta fdc = fdc := by
  induction delta with
  | zero => rfl
  | succ delta ih => rw [Buffers.shrinkLoop, h.delOneBuffer_nil, ih]

/-- All nodes are deleted. -/
theorem Fdc.Circular.shrinkLoop_all {anchor : ℕ} {others : List ℕ} (h : fdc.Circular (anchor :: others))
    {delta : ℕ} (hdelta : others.length < delta) :
    (Buffers.shrinkLoop delta fdc).Circular [] ∧ (Buffers.shrinkLoop delta fdc).head = none ∧
      (Buffers.shrinkLoop delta fdc).tail = none := by
  cases delta with
  | zero => exact absurd hdelta (Nat.not_lt_zero _)
  | succ delta =>
    induction others generalizing fdc delta with
    | nil =>
      obtain ⟨hcircular, hhead, htail⟩ := h.delOneBuffer_single
      rw [Buffers.shrinkLoop, hcircular.shrinkLoop_nil]
      exact ⟨hcircular, hhead, htail⟩
    | cons old others ih =>
      rw [Buffers.shrinkLoop]
      cases delta with
      | zero => exact absurd hdelta (Nat.not_lt.mpr (Nat.succ_le_succ (Nat.zero_le _)))
      | succ delta => exact ih h.delOneBuffer_cons.1 delta (Nat.lt_of_succ_lt_succ hdelta)

/-- Marking the buffers as waiting sets no link. -/
theorem zapLoop_next (anchor rounds pos : ℕ) (memory : ℕ → Node) (node : ℕ) :
    (zapLoop anchor rounds pos memory node).next = (memory node).next := by
  induction rounds generalizing pos memory with
  | zero => rfl
  | succ rounds ih =>
    have hset : ∀ n, (Function.update memory pos
        { memory pos with status := .waiting, bytes := 0, skip := 0, retry := 0 } n).next =
        (memory n).next := by
      intro n
      by_cases hn : n = pos
      · rw [hn, Function.update_self]
      · rw [Function.update_of_ne hn]
    rw [zapLoop]
    dsimp only
    split
    · exact hset node
    · exact (ih _ _).trans (hset node)

/-- The buffers are marked as waiting. -/
theorem Fdc.Circular.zap (h : fdc.Circular nodes) :
    (fdcZapBuffers fdc).Circular nodes ∧ (fdcZapBuffers fdc).head = fdc.head ∧
      (fdcZapBuffers fdc).tail = fdc.tail := by
  rw [fdcZapBuffers]
  cases hbuffers : fdc.buffers with
  | none => exact ⟨h, rfl, rfl⟩
  | some anchor =>
    refine ⟨h.congr ?_ (fun node _ => zapLoop_next anchor _ _ _ node) rfl rfl, rfl, rfl⟩
    exact hbuffers.symm

end Circular

section Steps

variable {fdc : Fdc} {kernel : Kernel}

/-- The ring and its pointers do not depend on what else is in memory. -/
theorem Fdc.RingOk.calls (h : fdc.RingOk) (calls : ℕ) : Fdc.RingOk { fdc with calls := calls } := by
  obtain ⟨nodes, hcircular, hhead, htail⟩ := h
  exact ⟨nodes, hcircular.congr rfl (fun _ _ => rfl) rfl rfl, hhead, htail⟩

/-- A pointer into a ring points into a larger one. -/
theorem PointsInto.mono {nodes nodes' : List ℕ} {pointer : Option ℕ} (h : PointsInto nodes pointer)
    (hne : nodes ≠ []) (hsub : nodes ⊆ nodes') : PointsInto nodes' pointer := by
  obtain ⟨hnil, -⟩ | ⟨node, hnode, rfl⟩ := h
  · exact absurd hnil hne
  · exact Or.inr ⟨node, hsub hnode, rfl⟩

/-- Adding a buffer keeps the ring, also when it fails. -/
theorem Fdc.RingOk.addOneBuffer (h : fdc.RingOk) (kernel : Kernel) : (addOneBuffer kernel fdc).1.RingOk := by
  obtain ⟨nodes, hcircular, hhead, htail⟩ := h
  rw [Buffers.addOneBuffer]
  split
  · exact ⟨nodes, hcircular, hhead, htail⟩
  have hnew := hcircular.fresh kernel
  dsimp only
  generalize kernel.kmalloc fdc.calls fdc.allocated = new at hnew
  split
  · -- nothing of the ring was written
    refine ⟨nodes, hcircular.congr rfl (fun node hnode => ?_) rfl rfl, hhead, htail⟩
    change (Function.update fdc.memory new Node.blank node).next = fdc.next node
    rw [Function.update_of_ne (ne_of_mem_of_not_mem hnode hnew)]
    rfl
  · have hbuffers := hcircular.buffers
    cases nodes with
    | nil =>
      split
      · have hpoints : PointsInto [new] (some new) := Or.inr ⟨new, List.mem_cons_self, rfl⟩
        exact ⟨[new], hcircular.insert_first new _, hpoints, hpoints⟩
      · rename_i hsome
        rw [hbuffers] at hsome
        cases hsome
    | cons anchor others =>
      split
      · rename_i hnone
        rw [hbuffers] at hnone
        cases hnone
      rename_i anchor' hsome
      obtain rfl : anchor = anchor' := Option.some.inj (hbuffers.symm.trans hsome)
      have hsub : anchor :: others ⊆ anchor :: new :: others :=
        List.cons_subset_cons _ (List.subset_cons_self _ _)
      exact ⟨_, hcircular.insert_behind hnew _, hhead.mono (List.cons_ne_nil _ _) hsub,
        htail.mono (List.cons_ne_nil _ _) hsub⟩

/-- So does adding several. -/
theorem Fdc.RingOk.growLoop (h : fdc.RingOk) (kernel : Kernel) (delta : ℕ) : (growLoop kernel delta fdc).1.RingOk := by
  induction delta generalizing fdc with
  | zero => exact h
  | succ delta ih =>
    have hadd := h.addOneBuffer kernel
    rw [Buffers.growLoop]
    generalize Buffers.addOneBuffer kernel fdc = added at hadd
    obtain ⟨added, result⟩ := added
    dsimp only
    split
    · exact hadd
    · exact ih hadd

/-- So does marking the buffers as waiting. -/
theorem Fdc.RingOk.zap (h : fdc.RingOk) : (fdcZapBuffers fdc).RingOk := by
  obtain ⟨nodes, hcircular, hhead, htail⟩ := h
  obtain ⟨hzap, hhead', htail'⟩ := hcircular.zap
  exact ⟨nodes, hzap, by rwa [hhead'], by rwa [htail']⟩

/-- Of the nodes of a ring, those are left that are not among the first behind the anchor. -/
theorem mem_drop_iff {anchor node delta : ℕ} {others : List ℕ} (hnodup : (anchor :: others).Nodup)
    (hnode : node ∈ anchor :: others) :
    node ∈ anchor :: others.drop delta ↔ node ∉ others.take delta := by
  obtain ⟨hanchor, hothers⟩ := List.nodup_cons.mp hnodup
  constructor
  · intro hleft htake
    cases hleft with
    | head => exact hanchor (List.mem_of_mem_take htake)
    | tail _ hdrop => exact List.disjoint_take_drop hothers (Nat.le_refl delta) htake hdrop
  · intro htake
    cases hnode with
    | head => exact List.mem_cons_self
    | tail _ hother =>
      have hsplit : node ∈ others.take delta ++ others.drop delta := by
        rwa [List.take_append_drop]
      exact List.mem_cons_of_mem _ ((List.mem_append.mp hsplit).resolve_left htake)

/-- A pointer into a ring stays one exactly if its node is not deleted. -/
theorem pointsInto_drop_iff {anchor delta : ℕ} {others : List ℕ} {pointer : Option ℕ}
    (hnodup : (anchor :: others).Nodup) (h : PointsInto (anchor :: others) pointer) :
    PointsInto (anchor :: others.drop delta) pointer ↔ ∀ node ∈ pointer, node ∉ others.take delta := by
  obtain ⟨hnil, -⟩ | ⟨node, hnode, rfl⟩ := h
  · exact absurd hnil (List.cons_ne_nil _ _)
  · constructor
    · rintro (⟨hnil, -⟩ | ⟨node', hnode', heq⟩) _ ⟨⟩
      · exact absurd hnil (List.cons_ne_nil _ _)
      · obtain rfl := Option.some.inj heq
        exact (mem_drop_iff hnodup hnode).mp hnode'
    · intro hspared
      exact Or.inr ⟨node, (mem_drop_iff hnodup hnode).mpr (hspared node rfl), rfl⟩

/-- Nothing is deleted where none or all are. -/
theorem Fdc.spares_of_doomed {cnt : ℤ} (h : fdc.doomed cnt = []) : fdc.Spares cnt := by
  rw [Fdc.Spares, h]
  exact ⟨fun _ _ => List.not_mem_nil, fun _ _ => List.not_mem_nil⟩

/-- Nothing is deleted when buffers are added. -/
theorem Fdc.doomed_of_le {cnt : ℤ} (h : fdc.nrBuffers ≤ cnt) : fdc.doomed cnt = [] := by
  rw [Fdc.doomed, Int.toNat_of_nonpos (by omega)]
  cases fdc.buffers with
  | none => rfl
  | some anchor => exact ite_self _

/-- None are left when fewer than one are asked for. -/
theorem Fdc.doomed_of_nonpos {cnt : ℤ} (h : cnt ≤ 0) : fdc.doomed cnt = [] := by
  rw [Fdc.doomed]
  cases fdc.buffers with
  | none => rfl
  | some anchor => exact if_neg (Int.not_lt.mpr h)

/-- The nodes that are deleted are the first behind the anchor. -/
theorem Fdc.Circular.doomed_eq {anchor : ℕ} {others : List ℕ} (h : fdc.Circular (anchor :: others)) {cnt : ℤ}
    (hcnt : 0 < cnt) : fdc.doomed cnt = others.take (fdc.nrBuffers - cnt).toNat := by
  have hnr : fdc.nrBuffers = others.length + 1 := h.nr
  rw [Fdc.doomed, h.buffers]
  dsimp only [List.head?_cons]
  rw [if_pos hcnt]
  exact (h.ring anchor others rfl).links.iterate_take (by omega)

/-- Changing the number of buffers keeps the ring exactly if no node that `HEAD` or `TAIL` points to is
deleted. -/
theorem Fdc.RingOk.changeNrBuffers_iff (h : fdc.RingOk) (cnt : ℤ) :
    (changeNrBuffers kernel fdc cnt).1.RingOk ↔ fdc.Spares cnt := by
  rw [changeNrBuffers]
  dsimp only
  by_cases hgrow : 0 < cnt - fdc.nrBuffers
  · rw [if_pos hgrow]
    have hspares : fdc.Spares cnt := Fdc.spares_of_doomed (Fdc.doomed_of_le (by omega))
    refine iff_of_true ?_ hspares
    have hgrown := h.growLoop kernel (cnt - fdc.nrBuffers).toNat
    split
    · exact hgrown
    · exact hgrown.zap
  · rw [if_neg hgrow]
    dsimp only
    obtain ⟨nodes, hcircular, hhead, htail⟩ := h
    cases nodes with
    | nil =>
      rw [hcircular.shrinkLoop_nil]
      refine iff_of_true (Fdc.RingOk.zap ⟨[], hcircular, hhead, htail⟩) (Fdc.spares_of_doomed ?_)
      rw [Fdc.doomed, hcircular.buffers]
      rfl
    | cons anchor others =>
      have hnr : fdc.nrBuffers = others.length + 1 := hcircular.nr
      by_cases hcnt : 0 < cnt
      · obtain ⟨hshrunk, hhead', htail'⟩ :=
          hcircular.shrinkLoop (show (-(cnt - fdc.nrBuffers)).toNat ≤ others.length by omega)
        have hnodup := (hcircular.ring anchor others rfl).nodup
        obtain ⟨hzap, hzapHead, hzapTail⟩ := hshrunk.zap
        rw [Fdc.Spares, hcircular.doomed_eq hcnt, ← neg_sub cnt, ← pointsInto_drop_iff hnodup hhead,
          ← pointsInto_drop_iff hnodup htail]
        constructor
        · rintro ⟨nodes, hnodes, hok⟩
          rw [hzap.unique hnodes, hzapHead, hzapTail, hhead', htail'] at hok
          exact hok
        · intro hok
          refine ⟨_, hzap, ?_⟩
          rw [hzapHead, hzapTail, hhead', htail']
          exact hok
      · obtain ⟨hempty, hhead', htail'⟩ :=
          hcircular.shrinkLoop_all (show others.length < (-(cnt - fdc.nrBuffers)).toNat by omega)
        refine iff_of_true (Fdc.RingOk.zap ⟨[], hempty, Or.inl ⟨rfl, hhead'⟩, Or.inl ⟨rfl, htail'⟩⟩) ?_
        exact Fdc.spares_of_doomed (Fdc.doomed_of_nonpos (Int.not_lt.mp hcnt))

/-- So does `fdc_set_nr_buffers()`. -/
theorem Fdc.RingOk.fdcSetNrBuffers_iff (h : fdc.RingOk) (cnt : ℤ) :
    (fdcSetNrBuffers kernel fdc cnt).1.RingOk ↔ fdc.Spares cnt := by
  rw [fdcSetNrBuffers]
  split
  · rename_i hfirst
    have hcalls := h.calls (fdc.calls + 1)
    dsimp only
    split
    · refine iff_of_true hcalls (Fdc.spares_of_doomed ?_)
      obtain ⟨nodes, hcircular, -, -⟩ := h
      have hnil := List.eq_nil_of_length_eq_zero (hcircular.nr.symm.trans hfirst.1)
      rw [Fdc.doomed, hcircular.buffers, hnil]
      rfl
    · exact hcalls.changeNrBuffers_iff cnt
  · exact h.changeNrBuffers_iff cnt

/-- A node behind a node of the ring is one, too. -/
theorem PointsInto.next {nodes : List ℕ} (h : fdc.Circular nodes) {pointer : Option ℕ}
    (hpointer : PointsInto nodes pointer) : PointsInto nodes (pointer.map fdc.next) := by
  obtain ⟨hnil, rfl⟩ | ⟨node, hnode, rfl⟩ := hpointer
  · exact Or.inl ⟨hnil, rfl⟩
  · cases nodes with
    | nil => cases hnode
    | cons anchor others => exact Or.inr ⟨_, (h.ring anchor others rfl).next_mem hnode, rfl⟩

/-- An event deletes no node that `HEAD` or `TAIL` points to. -/
def Fdc.SparesAt (fdc : Fdc) : Event → Prop
  | .setNrBuffers cnt => fdc.Spares cnt
  | .setdrvbuffer cnt => cnt < 3 ∨ fdc.Spares cnt
  | .advanceHead => True
  | .advanceTail => True
  | .reset => True

instance (fdc : Fdc) : (event : Event) → Decidable (fdc.SparesAt event)
  | .setNrBuffers cnt => inferInstanceAs (Decidable (fdc.Spares cnt))
  | .setdrvbuffer cnt => inferInstanceAs (Decidable (cnt < 3 ∨ fdc.Spares cnt))
  | .advanceHead => inferInstanceAs (Decidable True)
  | .advanceTail => inferInstanceAs (Decidable True)
  | .reset => inferInstanceAs (Decidable True)

/-- Each event keeps the ring exactly if it deletes no such node. -/
theorem Fdc.RingOk.step_iff (h : fdc.RingOk) (event : Event) :
    (fdc.step kernel event).RingOk ↔ fdc.SparesAt event := by
  cases event with
  | setNrBuffers cnt => exact h.fdcSetNrBuffers_iff cnt
  | setdrvbuffer cnt =>
    rw [Fdc.step, mtSetdrvbuffer, Fdc.SparesAt]
    by_cases hfew : cnt < 3
    · rw [if_pos hfew]
      exact iff_of_true h (Or.inl hfew)
    · rw [if_neg hfew, h.fdcSetNrBuffers_iff]
      exact (or_iff_right hfew).symm
  | advanceHead =>
    obtain ⟨nodes, hcircular, hhead, htail⟩ := h
    exact iff_of_true ⟨nodes, hcircular.congr rfl (fun _ _ => rfl) rfl rfl, hhead.next hcircular, htail⟩ trivial
  | advanceTail =>
    obtain ⟨nodes, hcircular, hhead, htail⟩ := h
    exact iff_of_true ⟨nodes, hcircular.congr rfl (fun _ _ => rfl) rfl rfl, hhead, htail.next hcircular⟩ trivial
  | reset =>
    obtain ⟨nodes, hcircular, -, -⟩ := h
    have hanchor : PointsInto nodes fdc.buffers := by
      rw [hcircular.buffers]
      cases nodes with
      | nil => exact Or.inl ⟨rfl, rfl⟩
      | cons anchor others => exact Or.inr ⟨anchor, List.mem_cons_self, rfl⟩
    exact iff_of_true ⟨nodes, hcircular.congr rfl (fun _ _ => rfl) rfl rfl, hanchor, hanchor⟩ trivial

/-- The ring holds before and after each event of a run. -/
def Fdc.AlwaysOk (kernel : Kernel) (fdc : Fdc) : List Event → Prop
  | [] => fdc.RingOk
  | event :: events => fdc.RingOk ∧ (fdc.step kernel event).AlwaysOk kernel events

/-- No event of a run deletes a node that `HEAD` or `TAIL` points to. -/
def Fdc.AlwaysSpares (kernel : Kernel) (fdc : Fdc) : List Event → Prop
  | [] => True
  | event :: events => fdc.SparesAt event ∧ (fdc.step kernel event).AlwaysSpares kernel events

/-- Once there is a ring, it holds throughout a run exactly if no event deletes such a node. -/
theorem Fdc.RingOk.run_iff (h : fdc.RingOk) (events : List Event) :
    fdc.AlwaysOk kernel events ↔ fdc.AlwaysSpares kernel events := by
  induction events generalizing fdc with
  | nil => exact iff_of_true h trivial
  | cons event events ih =>
    rw [Fdc.AlwaysOk, Fdc.AlwaysSpares, and_iff_right h]
    constructor
    · intro halways
      have hstep : (fdc.step kernel event).RingOk := by
        cases events with
        | nil => exact halways
        | cons _ _ => exact halways.1
      exact ⟨(h.step_iff event).mp hstep, (ih hstep).mp halways⟩
    · rintro ⟨hspares, halways⟩
      exact (ih ((h.step_iff event).mpr hspares)).mpr halways

end Steps

/-- A controller without buffers. -/
def unallocated (memory : ℕ → Node) (allocated : Finset ℕ) : Fdc := ⟨memory, allocated, none, none, none, 0, 0⟩

/-- A controller without buffers has an empty ring. -/
theorem unallocated_ringOk (memory : ℕ → Node) (allocated : Finset ℕ) :
    (unallocated memory allocated).RingOk :=
  ⟨[], ⟨rfl, nofun, rfl, nofun⟩, Or.inl ⟨rfl, rfl⟩, Or.inl ⟨rfl, rfl⟩⟩

/-- From the start on, whatever buffers are added, deleted, passed by `HEAD` and `TAIL` or cannot be
allocated, the ring holds throughout exactly if no event deletes a node that one of them points to. -/
theorem ring_always_iff (kernel : Kernel) (memory : ℕ → Node) (allocated : Finset ℕ) (events : List Event) :
    (unallocated memory allocated).AlwaysOk kernel events ↔
      (unallocated memory allocated).AlwaysSpares kernel events :=
  (unallocated_ringOk memory allocated).run_iff events

/-- Memory that always suffices. -/
def enoughMemory : Kernel where
  kmalloc _ allocated := allocated.sup id + 1
  fresh _ _ hmem := absurd (Finset.le_sup (f := id) hmem) (Nat.not_succ_le_self _)
  alloc _ := 0

/-- Five buffers, and a `HEAD` that has gone two buffers on when all but three are deleted. -/
def shrinkBehindHead : List Event :=
  [.setNrBuffers 5, .advanceHead, .advanceHead, .setdrvbuffer 3]

/-- `HEAD` is left pointing to a buffer that is gone. -/
theorem ring_loses_head : ¬(unallocated (fun _ => Node.blank) ∅).AlwaysOk enoughMemory shrinkBehindHead := by
  rw [(unallocated_ringOk _ _).run_iff]
  rintro ⟨-, -, -, hspares, -⟩
  exact absurd hspares (by decide +kernel)

end Ftape.Buffers
