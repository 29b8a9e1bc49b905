import Ftape.Volume.Entries
import Ftape.Zftape.ReadVolume

/-!
# Looking up a volume

`zft_volume_by_segpos()` walks over the list of volumes, starting at the node where the last lookup
ended. Nothing but the segments of the volumes stops the two walks, and these come from the tape.
-/

namespace Ftape.Volume

open Ftape.Zftape

/-- The nodes of the list a lookup may end at: the volumes and `zft_eom_vtbl`. -/
def Vtbl.entries (table : Vtbl) : List VtblEntry := table.volumes ++ [table.eom]

/-- The first loop of `zft_volume_by_segpos()`: forwards past the volumes that end too early. Behind
the last node comes the head of the list, which is no volume. -/
def seekForwards (entries : List VtblEntry) (segPos cur : ℕ) : Option ℕ :=
  ((entries.drop cur).findIdx? (segPos ≤ ·.endSeg)).map (cur + ·)

/-- The second loop: backwards past the volumes that start too late. -/
def seekBackwards (entries : List VtblEntry) (segPos cur : ℕ) : Option ℕ :=
  ((entries.take (cur + 1)).reverse.findIdx? (·.startSeg ≤ segPos)).map (cur - ·)

/-- `zft_volume_by_segpos()` in qic mode, from the cached node on. There is no result if a walk
leaves the list. -/
def Vtbl.volumeBySegpos (table : Vtbl) (cur segPos : ℕ) : Option ℕ :=
  if segPos < table.first.startSeg then some 0
  else (seekForwards table.entries segPos cur).bind (seekBackwards table.entries segPos)

/-- A volume has a segment in its range. -/
def VtblEntry.Covers (volume : VtblEntry) (segPos : ℕ) : Prop :=
  volume.startSeg ≤ segPos ∧ segPos ≤ volume.endSeg

/-- The first node from the cached one on that does not end in front of a position. -/
structure Vtbl.StopsAt (table : Vtbl) (cur segPos stop : ℕ) : Prop where
  ahead : cur ≤ stop
  ends : ∃ v, table.entries[stop]? = some v ∧ segPos ≤ v.endSeg
  passed : ∀ i, cur ≤ i → i < stop → ∀ v, table.entries[i]? = some v → v.endSeg < segPos

/-- The last node up to another one that starts at or in front of a position. -/
structure Vtbl.StartsAt (table : Vtbl) (stop segPos i : ℕ) (v : VtblEntry) : Prop where
  behind : i ≤ stop
  node : table.entries[i]? = some v
  starts : v.startSeg ≤ segPos
  passed : ∀ k, i < k → k ≤ stop → ∀ w, table.entries[k]? = some w → segPos < w.startSeg

/-- There is only one node the walk forwards stops at. -/
theorem Vtbl.StopsAt.unique {table : Vtbl} {cur segPos stop stop' : ℕ}
    (h : table.StopsAt cur segPos stop) (h' : table.StopsAt cur segPos stop') : stop = stop' := by
  obtain ⟨v, hv, hend⟩ := h.ends
  obtain ⟨v', hv', hend'⟩ := h'.ends
  rcases Nat.lt_trichotomy stop stop' with hlt | heq | hlt
  · have := h'.passed stop h.ahead hlt v hv
    omega
  · exact heq
  · have := h.passed stop' h'.ahead hlt v' hv'
    omega

/-- There is only one node the walk backwards stops at. -/
theorem Vtbl.StartsAt.unique {table : Vtbl} {stop segPos i i' : ℕ} {v v' : VtblEntry}
    (h : table.StartsAt stop segPos i v) (h' : table.StartsAt stop segPos i' v') : v = v' := by
  rcases Nat.lt_trichotomy i i' with hlt | heq | hlt
  · have := h.passed i' hlt h'.behind v' h'.node
    have := h'.starts
    omega
  · subst heq
    exact Option.some.inj (h.node.symm.trans h'.node)
  · have := h'.passed i hlt h.behind v h.node
    have := h.starts
    omega

/-- Where the walk forwards stops. -/
theorem Vtbl.seekForwards_eq_some {table : Vtbl} {cur segPos stop : ℕ} :
    seekForwards table.entries segPos cur = some stop ↔ table.StopsAt cur segPos stop := by
  rw [seekForwards, Option.map_eq_some_iff]
  constructor
  · rintro ⟨n, hn, rfl⟩
    obtain ⟨hlt, hend, hpassed⟩ := List.findIdx?_eq_some_iff_getElem.mp hn
    refine ⟨Nat.le_add_right _ _, ⟨(table.entries.drop cur)[n], ?_, by simpa using hend⟩, ?_⟩
    · rw [← List.getElem?_drop, List.getElem?_eq_getElem hlt]
    · intro i hcur hi v hv
      obtain ⟨k, rfl⟩ := Nat.exists_eq_add_of_le hcur
      rw [← List.getElem?_drop] at hv
      obtain ⟨hk, rfl⟩ := List.getElem?_eq_some_iff.mp hv
      simpa using hpassed k (by omega)
  · rintro ⟨hahead, ⟨v, hv, hend⟩, hpassed⟩
    obtain ⟨n, rfl⟩ := Nat.exists_eq_add_of_le hahead
    refine ⟨n, List.findIdx?_eq_some_iff_getElem.mpr ?_, rfl⟩
    rw [← List.getElem?_drop] at hv
    obtain ⟨hlt, rfl⟩ := List.getElem?_eq_some_iff.mp hv
    refine ⟨hlt, by simpa using hend, ?_⟩
    intro k hk
    have := hpassed (cur + k) (Nat.le_add_right _ _) (by omega) (table.entries.drop cur)[k]
      (by rw [← List.getElem?_drop, List.getElem?_eq_getElem])
    simpa using this

/-- Where the walk backwards stops. -/
theorem Vtbl.seekBackwards_eq_some {table : Vtbl} {stop segPos i : ℕ}
    (hstop : stop < table.entries.length) :
    seekBackwards table.entries segPos stop = some i ↔ ∃ v, table.StartsAt stop segPos i v := by
  have hlength : (table.entries.take (stop + 1)).length = stop + 1 := by
    rw [List.length_take]
    omega
  have hnode : ∀ n, n ≤ stop →
      (table.entries.take (stop + 1)).reverse[n]? = table.entries[stop - n]? := by
    intro n hn
    rw [List.getElem?_reverse (by omega), hlength, List.getElem?_take_of_lt (by omega)]
    congr 1
  rw [seekBackwards, Option.map_eq_some_iff]
  constructor
  · rintro ⟨n, hn, rfl⟩
    obtain ⟨hlt, hstart, hpassed⟩ := List.findIdx?_eq_some_iff_getElem.mp hn
    rw [List.length_reverse, hlength] at hlt
    refine ⟨_, Nat.sub_le _ _, ?_, of_decide_eq_true hstart, ?_⟩
    · rw [← hnode n (by omega), List.getElem?_eq_getElem]
    · intro k hk hle w hw
      have hback := hnode (stop - k) (by omega)
      rw [show stop - (stop - k) = k by omega, hw] at hback
      obtain ⟨hlt', rfl⟩ := List.getElem?_eq_some_iff.mp hback
      simpa using hpassed (stop - k) (by omega)
  · rintro ⟨v, hbehind, hv, hstart, hpassed⟩
    have hback := hnode (stop - i) (by omega)
    rw [show stop - (stop - i) = i by omega, hv] at hback
    obtain ⟨hlt, rfl⟩ := List.getElem?_eq_some_iff.mp hback
    refine ⟨stop - i, List.findIdx?_eq_some_iff_getElem.mpr ⟨hlt, by simpa using hstart, ?_⟩, by omega⟩
    intro k hk
    have hnode' := hnode k (by omega)
    rw [List.getElem?_eq_getElem (Nat.lt_trans hk hlt)] at hnode'
    have hlate := hpassed (stop - k) (by omega) (by omega) _ hnode'.symm
    exact fun hearly => absurd (of_decide_eq_true hearly) (by omega)

/-- The first node. -/
theorem Vtbl.entries_zero (table : Vtbl) : table.entries[0]? = some table.first := by
  rw [Vtbl.entries, Vtbl.first]
  cases table.volumes <;> rfl

/-- The walk backwards stops at the first node at the latest. -/
theorem Vtbl.exists_startsAt {table : Vtbl} {stop segPos : ℕ} (hstop : stop < table.entries.length)
    (hfirst : table.first.startSeg ≤ segPos) : ∃ i v, table.StartsAt stop segPos i v := by
  have hsome : (seekBackwards table.entries segPos stop).isSome := by
    rw [seekBackwards, Option.isSome_map, List.findIdx?_isSome, List.any_eq_true]
    refine ⟨table.first, ?_, by simpa using hfirst⟩
    have hmem : (table.entries.take (stop + 1))[0]? = some table.first := by
      rw [List.getElem?_take_of_lt (Nat.succ_pos _), table.entries_zero]
    exact List.mem_reverse.mpr (List.mem_of_getElem? hmem)
  obtain ⟨i, hi⟩ := Option.isSome_iff_exists.mp hsome
  exact ⟨i, (seekBackwards_eq_some hstop).mp hi⟩

/-- A lookup: the node `cur_vtbl` stands at, and the segment asked for. -/
structure Lookup where
  cur : ℕ
  segPos : ℕ

/-- The walk of a lookup comes to an end in the list: the segment lies in front of all volumes, or a
node from the cached one on does not end in front of it. -/
def Vtbl.Reaches (table : Vtbl) (lookup : Lookup) : Prop :=
  lookup.segPos < table.first.startSeg ∨ ∃ v ∈ table.entries.drop lookup.cur, lookup.segPos ≤ v.endSeg

/-- The volumes around a segment are in order: if a node covers the segment then the last one that
starts at or in front of it does, up to the first one from the cached node on that does not end in
front of it. -/
def Vtbl.InOrder (table : Vtbl) (lookup : Lookup) : Prop :=
  (∃ w ∈ table.entries, w.Covers lookup.segPos) →
    table.first.startSeg ≤ lookup.segPos ∧
      ∃ stop i v, table.StopsAt lookup.cur lookup.segPos stop ∧
        table.StartsAt stop lookup.segPos i v ∧ v.Covers lookup.segPos

/-- A lookup ends at a node of the list, at one that covers the segment if there is one. -/
def Vtbl.Answers (table : Vtbl) (lookup : Lookup) : Prop :=
  ∃ i v, table.volumeBySegpos lookup.cur lookup.segPos = some i ∧ table.entries[i]? = some v ∧
    ((∃ w ∈ table.entries, w.Covers lookup.segPos) → v.Covers lookup.segPos)

/-- A walk that comes to an end forwards stops somewhere. -/
theorem Vtbl.exists_stopsAt {table : Vtbl} {cur segPos : ℕ}
    (h : ∃ v ∈ table.entries.drop cur, segPos ≤ v.endSeg) : ∃ stop, table.StopsAt cur segPos stop := by
  have hsome : (seekForwards table.entries segPos cur).isSome := by
    rw [seekForwards, Option.isSome_map, List.findIdx?_isSome, List.any_eq_true]
    obtain ⟨v, hv, hend⟩ := h
    exact ⟨v, hv, by simpa using hend⟩
  obtain ⟨stop, hstop⟩ := Option.isSome_iff_exists.mp hsome
  exact ⟨stop, seekForwards_eq_some.mp hstop⟩

/-- The node a walk stops at is one of the list. -/
theorem Vtbl.StopsAt.lt {table : Vtbl} {cur segPos stop : ℕ} (h : table.StopsAt cur segPos stop) :
    stop < table.entries.length := by
  obtain ⟨v, hv, -⟩ := h.ends
  exact (List.getElem?_eq_some_iff.mp hv).1

/-- The node a walk stops at is ahead of the cached one. -/
theorem Vtbl.StopsAt.reaches {table : Vtbl} {cur segPos stop : ℕ} (h : table.StopsAt cur segPos stop) :
    table.Reaches ⟨cur, segPos⟩ := by
  obtain ⟨v, hv, hend⟩ := h.ends
  obtain ⟨n, rfl⟩ := Nat.exists_eq_add_of_le h.ahead
  rw [← List.getElem?_drop] at hv
  exact Or.inr ⟨v, List.mem_of_getElem? hv, hend⟩

/-- A lookup behind the start of the first volume ends where the two walks stop. -/
theorem Vtbl.volumeBySegpos_eq_some {table : Vtbl} {cur segPos i : ℕ}
    (hfirst : table.first.startSeg ≤ segPos) :
    table.volumeBySegpos cur segPos = some i ↔
      ∃ stop v, table.StopsAt cur segPos stop ∧ table.StartsAt stop segPos i v := by
  rw [volumeBySegpos, if_neg (by omega), Option.bind_eq_some_iff]
  constructor
  · rintro ⟨stop, hstop, hback⟩
    rw [seekForwards_eq_some] at hstop
    obtain ⟨v, hv⟩ := (seekBackwards_eq_some hstop.lt).mp hback
    exact ⟨stop, v, hstop, hv⟩
  · rintro ⟨stop, v, hstop, hv⟩
    exact ⟨stop, seekForwards_eq_some.mpr hstop, (seekBackwards_eq_some hstop.lt).mpr ⟨v, hv⟩⟩

/-- A lookup stays in the list exactly if its walk comes to an end there. -/
theorem Vtbl.volumeBySegpos_isSome (table : Vtbl) (lookup : Lookup) :
    (table.volumeBySegpos lookup.cur lookup.segPos).isSome ↔ table.Reaches lookup := by
  by_cases hfirst : lookup.segPos < table.first.startSeg
  · rw [volumeBySegpos, if_pos hfirst]
    exact ⟨fun _ => Or.inl hfirst, fun _ => rfl⟩
  · rw [Option.isSome_iff_exists]
    constructor
    · rintro ⟨i, hi⟩
      obtain ⟨stop, v, hstop, -⟩ := (volumeBySegpos_eq_some (by omega)).mp hi
      exact hstop.reaches
    · intro hreaches
      obtain ⟨stop, hstop⟩ := exists_stopsAt (hreaches.resolve_left hfirst)
      obtain ⟨i, v, hv⟩ := exists_startsAt hstop.lt (Nat.le_of_not_lt hfirst)
      exact ⟨i, (volumeBySegpos_eq_some (by omega)).mpr ⟨stop, v, hstop, hv⟩⟩

/-- A lookup ends at a node of the list. -/
theorem Vtbl.volumeBySegpos_lt {table : Vtbl} {cur segPos i : ℕ}
    (h : table.volumeBySegpos cur segPos = some i) : i < table.entries.length := by
  by_cases hfirst : segPos < table.first.startSeg
  · rw [volumeBySegpos, if_pos hfirst] at h
    obtain rfl := Option.some.inj h
    exact (List.getElem?_eq_some_iff.mp table.entries_zero).1
  · obtain ⟨stop, v, hstop, hv⟩ := (volumeBySegpos_eq_some (by omega)).mp h
    exact (List.getElem?_eq_some_iff.mp hv.node).1

/-- A lookup does what is asked of it exactly if its walk comes to an end in the list and the
volumes around the segment are in order. -/
theorem Vtbl.answers_iff (table : Vtbl) (lookup : Lookup) :
    table.Answers lookup ↔ table.Reaches lookup ∧ table.InOrder lookup := by
  constructor
  · rintro ⟨i, v, hlookup, hnode, hcovers⟩
    refine ⟨(table.volumeBySegpos_isSome lookup).mp (Option.isSome_of_eq_some hlookup), ?_⟩
    intro hw
    have hv := hcovers hw
    by_cases hfirst : lookup.segPos < table.first.startSeg
    · -- the first volume is handed out, which does not cover the segment
      rw [volumeBySegpos, if_pos hfirst] at hlookup
      obtain rfl := Option.some.inj hlookup
      obtain rfl := Option.some.inj (hnode.symm.trans table.entries_zero)
      exact absurd hv.1 (by omega)
    · obtain ⟨stop, v', hstop, hstart⟩ := (volumeBySegpos_eq_some (by omega)).mp hlookup
      obtain rfl := Option.some.inj (hnode.symm.trans hstart.node)
      exact ⟨Nat.le_of_not_lt hfirst, stop, i, v, hstop, hstart, hv⟩
  · rintro ⟨hreaches, horder⟩
    obtain ⟨i, hlookup⟩ := Option.isSome_iff_exists.mp ((table.volumeBySegpos_isSome lookup).mpr hreaches)
    obtain ⟨v, hnode⟩ : ∃ v, table.entries[i]? = some v :=
      ⟨_, List.getElem?_eq_getElem (volumeBySegpos_lt hlookup)⟩
    refine ⟨i, v, hlookup, hnode, ?_⟩
    intro hw
    obtain ⟨hfirst, stop, i', w, hstop, hstart, hcovers⟩ := horder hw
    obtain ⟨stop', v', hstop', hstart'⟩ := (volumeBySegpos_eq_some hfirst).mp hlookup
    obtain rfl := hstop.unique hstop'
    obtain rfl := Option.some.inj (hnode.symm.trans hstart'.node)
    rwa [← hstart.unique hstart']

/-- No walk leaves the list at a position up to the end of `zft_eom_vtbl`. -/
theorem Vtbl.reaches_of_le {table : Vtbl} {lookup : Lookup} (hcur : lookup.cur < table.entries.length)
    (hend : lookup.segPos ≤ table.eom.endSeg) : table.Reaches lookup := by
  refine Or.inr ⟨table.eom, ?_, hend⟩
  rw [entries, List.length_append, List.length_singleton] at hcur
  rw [entries, List.drop_append_of_le_length (by omega)]
  exact List.mem_append_right _ List.mem_cons_self

/-- The nodes lie one behind the other, as the sanity check of the volume table demands, and none
ends in front of its start. -/
structure Vtbl.Ordered (table : Vtbl) : Prop where
  sorted : table.entries.Pairwise fun v w => v.endSeg < w.startSeg
  filled : ∀ v ∈ table.entries, v.startSeg ≤ v.endSeg

/-- In a table in order every lookup up to the end of `zft_eom_vtbl` does what is asked of it. -/
theorem Vtbl.Ordered.answers {table : Vtbl} (h : table.Ordered) {lookup : Lookup}
    (hcur : lookup.cur < table.entries.length) (hend : lookup.segPos ≤ table.eom.endSeg) :
    table.Answers lookup := by
  rw [answers_iff]
  refine ⟨table.reaches_of_le hcur hend, ?_⟩
  rintro ⟨w, hw, hcovers⟩
  obtain ⟨i, hi, rfl⟩ := List.getElem_of_mem hw
  have hsorted := List.pairwise_iff_getElem.mp h.sorted
  have hbehind : ∀ k, i < k → ∀ v, table.entries[k]? = some v → lookup.segPos < v.startSeg := by
    intro k hk v hv
    obtain ⟨hlt, rfl⟩ := List.getElem?_eq_some_iff.mp hv
    exact Nat.lt_of_le_of_lt hcovers.2 (hsorted i k hi hlt hk)
  refine ⟨?_, max i lookup.cur, i, table.entries[i], ⟨Nat.le_max_right _ _, ?_, ?_⟩,
    ⟨Nat.le_max_left _ _, List.getElem?_eq_getElem hi, hcovers.1, fun k hk _ v hv => hbehind k hk v hv⟩, hcovers⟩
  · cases i with
    | zero =>
      rw [Option.some.inj (table.entries_zero.symm.trans (List.getElem?_eq_getElem hi))]
      exact hcovers.1
    | succ i =>
      have hzero := table.entries_zero
      obtain ⟨hlt, heq⟩ := List.getElem?_eq_some_iff.mp hzero
      have hfilled := h.filled _ (List.mem_of_getElem? hzero)
      have hlater := hsorted 0 (i + 1) hlt hi (Nat.succ_pos i)
      rw [heq] at hlater
      exact Nat.le_of_lt (Nat.lt_of_le_of_lt hfilled (Nat.lt_of_lt_of_le hlater hcovers.1))
  · have hlt : max i lookup.cur < table.entries.length := by omega
    refine ⟨_, List.getElem?_eq_getElem hlt, ?_⟩
    cases Nat.lt_or_ge i lookup.cur with
    | inl hlater =>
      have hstart := hbehind (max i lookup.cur) (by omega) _ (List.getElem?_eq_getElem hlt)
      exact Nat.le_trans (Nat.le_of_lt hstart) (h.filled _ (List.getElem_mem hlt))
    | inr hle =>
      simp only [Nat.max_eq_left hle]
      exact hcovers.2
  · intro k hcur_le hk v hv
    obtain ⟨hlt, rfl⟩ := List.getElem?_eq_some_iff.mp hv
    exact Nat.lt_of_lt_of_le (hsorted k i hlt hi (by omega)) hcovers.1

/-- A position the table has no volume for: in front of all volumes, or behind the end of a volume and in front of
the start of the next one. Volumes in between that end in front of their start do not count. -/
def Vtbl.Hole (table : Vtbl) (segPos : ℕ) : Prop :=
  segPos < table.first.startSeg ∨ ∃ (j m : ℕ) (v w : VtblEntry), j < m ∧ table.entries[j]? = some v ∧
    table.entries[m]? = some w ∧ v.startSeg ≤ segPos ∧ v.endSeg < segPos ∧ segPos < w.startSeg ∧
    segPos ≤ w.endSeg ∧
      ∀ (k : ℕ) (u : VtblEntry), j < k → k < m → table.entries[k]? = some u → u.endSeg < segPos ∧ segPos < u.startSeg

/-- A lookup that ends at a node which ends in front of the position fell into a hole. -/
theorem Vtbl.StartsAt.hole {table : Vtbl} {cur stop segPos i : ℕ} {v : VtblEntry}
    (hstop : table.StopsAt cur segPos stop) (hstart : table.StartsAt stop segPos i v) (hend : v.endSeg < segPos) :
    table.Hole segPos := by
  have hfound : ∃ m, i < m ∧ ∃ w, table.entries[m]? = some w ∧ segPos ≤ w.endSeg := by
    obtain ⟨w, hw, hwend⟩ := hstop.ends
    refine ⟨stop, Nat.lt_of_le_of_ne hstart.behind ?_, w, hw, hwend⟩
    rintro rfl
    obtain rfl := Option.some.inj (hw.symm.trans hstart.node)
    omega
  -- the first node behind it that does not end in front of the position
  obtain ⟨hlt, w, hw, hwend⟩ := Nat.find_spec hfound
  have hle : Nat.find hfound ≤ stop := by
    obtain ⟨u, hu, huend⟩ := hstop.ends
    refine Nat.find_min' hfound ⟨Nat.lt_of_le_of_ne hstart.behind ?_, u, hu, huend⟩
    rintro rfl
    obtain rfl := Option.some.inj (hu.symm.trans hstart.node)
    omega
  refine Or.inr ⟨i, Nat.find hfound, v, w, hlt, hstart.node, hw, hstart.starts, hend,
    hstart.passed _ hlt hle w hw, hwend, fun k u hik hk hu => ⟨?_, hstart.passed k hik (by omega) u hu⟩⟩
  by_contra hlate
  exact Nat.find_min hfound hk ⟨hik, u, hu, Nat.le_of_not_lt hlate⟩

/-- A position up to the end of `zft_eom_vtbl` is looked up right from each node exactly if no volume covers it, or
it lies in no hole. -/
theorem Vtbl.answers_all_iff {table : Vtbl} {segPos : ℕ} (hend : segPos ≤ table.eom.endSeg) :
    (∀ cur < table.entries.length, table.Answers ⟨cur, segPos⟩) ↔
      ((∃ w ∈ table.entries, w.Covers segPos) → ¬table.Hole segPos) := by
  constructor
  · rintro hanswers hw (hfront | ⟨j, m, v, w, hjm, hj, hm, hstart, hvend, hwstart, hwend, hbetween⟩)
    · have hfirst := ((table.answers_iff _).mp
        (hanswers 0 (List.getElem?_eq_some_iff.mp table.entries_zero).1)).2 hw
      dsimp only at hfirst
      omega
    · obtain ⟨-, stop, i, u, hstop, hstarts, hcovers⟩ := ((table.answers_iff _).mp
        (hanswers m (List.getElem?_eq_some_iff.mp hm).1)).2 hw
      have hstopsM : table.StopsAt m segPos m := ⟨le_rfl, ⟨w, hm, hwend⟩, by omega⟩
      have hstartsJ : table.StartsAt m segPos j v := by
        refine ⟨Nat.le_of_lt hjm, hj, hstart, fun k hjk hkm u hu => ?_⟩
        cases Nat.lt_or_eq_of_le hkm with
        | inl hlt => exact (hbetween k u hjk hlt hu).2
        | inr heq =>
          subst heq
          rwa [← Option.some.inj (hm.symm.trans hu)]
      obtain rfl := hstop.unique hstopsM
      obtain rfl := hstarts.unique hstartsJ
      have hcover := hcovers.2
      dsimp only at hcover
      omega
  · intro hholes cur hcur
    rw [answers_iff]
    have hreaches : table.Reaches ⟨cur, segPos⟩ := table.reaches_of_le hcur hend
    refine ⟨hreaches, fun hw => ?_⟩
    have hfirst : table.first.startSeg ≤ segPos := Nat.le_of_not_lt fun hfront => hholes hw (Or.inl hfront)
    obtain ⟨stop, hstop⟩ := exists_stopsAt (hreaches.resolve_left (Nat.not_lt.mpr hfirst))
    obtain ⟨i, v, hstart⟩ := exists_startsAt hstop.lt hfirst
    refine ⟨hfirst, stop, i, v, hstop, hstart, hstart.starts, ?_⟩
    by_contra hend'
    exact hholes hw (hstart.hole hstop (Nat.lt_of_not_le hend'))

/-- What a table has to be for the lookups on it: no volume starts behind the end of the tape or has a negative size,
and no position that a volume covers lies in a hole. -/
structure Vtbl.Searchable (table : Vtbl) : Prop where
  inside : ∀ v ∈ table.entries, v.startSeg ≤ table.eom.endSeg
  size : ∀ v ∈ table.entries, 0 ≤ v.size
  covered : ∀ segPos ≤ table.eom.endSeg, (∃ w ∈ table.entries, w.Covers segPos) → ¬table.Hole segPos

/-- A table in order is one to search. -/
theorem Vtbl.Ordered.searchable {table : Vtbl} (h : table.Ordered) (hsize : ∀ v ∈ table.entries, 0 ≤ v.size) :
    table.Searchable where
  inside := by
    intro v hv
    have hfilled := h.filled v hv
    have heom := h.filled table.eom (List.mem_append_right _ List.mem_cons_self)
    rw [entries] at hv
    cases List.mem_append.mp hv with
    | inl hvolume =>
      have hsorted := (List.pairwise_append.mp h.sorted).2.2 v hvolume table.eom List.mem_cons_self
      omega
    | inr hlast => rwa [List.mem_singleton.mp hlast]
  size := hsize
  covered := fun _ hend => (answers_all_iff hend).mp fun _ hcur => h.answers hcur hend

/-- What reading knows of a table. -/
def Vtbl.volumeTable (table : Vtbl) : VolumeTable :=
  ⟨table.volumes.map VtblEntry.toVolinfo, table.eom.toVolinfo⟩

/-- Reading walks over the same nodes. -/
theorem Vtbl.volumeTable_entries (table : Vtbl) :
    table.volumeTable.entries = table.entries.map VtblEntry.toVolinfo := by
  simp [volumeTable, VolumeTable.entries, entries]

/-- A walk forwards that stops in the list is the walk reading makes. -/
theorem walkForwards_of_some {entries : List VtblEntry} {cur segPos stop : ℕ}
    (h : seekForwards entries segPos cur = some stop) :
    walkForwards (entries.map VtblEntry.toVolinfo) segPos cur = stop := by
  obtain ⟨n, hn, rfl⟩ := Option.map_eq_some_iff.mp h
  obtain ⟨hlt, hfind⟩ := List.findIdx?_eq_some_iff_findIdx_eq.mp hn
  have hpass : ((fun v : Volinfo => decide (v.endSeg < segPos)) ∘ VtblEntry.toVolinfo) =
      fun v => !decide (segPos ≤ v.endSeg) := by
    funext v
    simp only [Function.comp_apply, ← decide_not, Nat.not_le]
  rw [walkForwards, ← List.map_drop, List.takeWhile_map, List.length_map, hpass,
    List.takeWhile_eq_take_findIdx_not, List.length_take]
  simp only [Bool.not_not, hfind]
  omega

/-- A walk backwards that stops in the list is the walk reading makes. -/
theorem walkBackwards_of_some {entries : List VtblEntry} {stop segPos i : ℕ}
    (h : seekBackwards entries segPos stop = some i) :
    walkBackwards (entries.map VtblEntry.toVolinfo) segPos stop = i := by
  obtain ⟨n, hn, rfl⟩ := Option.map_eq_some_iff.mp h
  obtain ⟨hlt, hfind⟩ := List.findIdx?_eq_some_iff_findIdx_eq.mp hn
  have hpass : ((fun v : Volinfo => decide (segPos < v.startSeg)) ∘ VtblEntry.toVolinfo) =
      fun v => !decide (v.startSeg ≤ segPos) := by
    funext v
    simp only [Function.comp_apply, ← decide_not, Nat.not_le]
  rw [walkBackwards, ← List.map_take, ← List.map_reverse, List.takeWhile_map, List.length_map, hpass,
    List.takeWhile_eq_take_findIdx_not, List.length_take]
  simp only [Bool.not_not, hfind]
  omega

/-- A lookup that stays in the list is the lookup reading makes. -/
theorem Vtbl.zftVolumeBySegpos_eq {α : Type*} {table : Vtbl} {zftape : Reader α} {segPos i : ℕ}
    (hqic : zftape.qicMode = true) (htable : zftape.table = table.volumeTable)
    (h : table.volumeBySegpos zftape.curVtbl segPos = some i) :
    zftape.zftVolumeBySegpos segPos = (i, (table.entries.getD i table.eom).toVolinfo) := by
  have hfirst : table.volumeTable.entries.headD table.volumeTable.eom = table.first.toVolinfo := by
    rw [volumeTable_entries, entries, first]
    cases table.volumes <;> rfl
  have hnode : ∀ i, table.volumeTable.entries.getD i table.volumeTable.eom =
      (table.entries.getD i table.eom).toVolinfo := by
    intro i
    rw [volumeTable_entries, List.getD_eq_getElem?_getD, List.getElem?_map, List.getD_eq_getElem?_getD]
    cases table.entries[i]? <;> rfl
  rw [Reader.zftVolumeBySegpos, if_pos hqic, htable]
  dsimp only
  rw [hfirst]
  rw [volumeBySegpos] at h
  split at h
  · rename_i hlt
    obtain rfl := Option.some.inj h
    rw [if_pos hlt, ← hnode, ← hfirst]
    cases table.volumeTable.entries <;> rfl
  · rename_i hlt
    obtain ⟨stop, hstop, hback⟩ := Option.bind_eq_some_iff.mp h
    rw [if_neg hlt, volumeTable_entries, walkForwards_of_some hstop, walkBackwards_of_some hback,
      ← volumeTable_entries, hnode]

end Ftape.Volume
