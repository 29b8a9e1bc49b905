import Mathlib.Data.List.Basic
import Mathlib.Order.Basic
import Mathlib.Tactic.Common

/-!
# Stretches of a row of blocks

A row gives a block of elements, possibly empty, to each index. A stretch joins the blocks of a
range of indices. A reader that stands inside a block has the rest of that block and the stretch
behind it ahead of itself.
-/

namespace Ftape.Algebra

variable {α : Type*}

/-- The blocks from `first` up to `past`, joined. -/
def stretch (block : ℕ → List α) (first past : ℕ) : List α :=
  (List.range' first (past - first)).flatMap block

/-- What lies ahead of a reader that has taken `offset` elements of the block at `index`. -/
def ahead (block : ℕ → List α) (past index offset : ℕ) : List α :=
  (stretch block index past).drop offset

variable {block : ℕ → List α}

/-- A stretch of no blocks. -/
theorem stretch_of_le {first past : ℕ} (h : past ≤ first) : stretch block first past = [] := by
  have hzero : past - first = 0 := by omega
  simp [stretch, hzero]

/-- The first block of a stretch. -/
theorem stretch_eq_append {first past : ℕ} (h : first < past) :
    stretch block first past = block first ++ stretch block (first + 1) past := by
  have hsucc : past - first = (past - (first + 1)) + 1 := by omega
  simp only [stretch, hsucc, List.range'_succ, List.flatMap_cons]

/-- Adjacent stretches join. -/
theorem stretch_append {first mid past : ℕ} (hmid : first ≤ mid) (hpast : mid ≤ past) :
    stretch block first past = stretch block first mid ++ stretch block mid past := by
  have hsum : past - first = (mid - first) + (past - mid) := by omega
  have hstart : first + (mid - first) = mid := by omega
  simp only [stretch, hsum, ← List.range'_append_1, List.flatMap_append, hstart]

/-- The last block of a stretch. -/
theorem stretch_succ {first past : ℕ} (h : first ≤ past) :
    stretch block first (past + 1) = stretch block first past ++ block past := by
  have hlast : stretch block past (past + 1) = block past := by
    rw [stretch_eq_append (Nat.lt_succ_self past), stretch_of_le (Nat.le_refl _), List.append_nil]
  rw [stretch_append h (Nat.le_succ past), hlast]

/-- A stretch has something in it only if it has a block. -/
theorem lt_of_ahead {past index offset : ℕ} (h : 0 < (ahead block past index offset).length) :
    index < past := by
  apply Nat.lt_of_not_le
  intro hle
  simp [ahead, stretch_of_le hle] at h

/-- Leaving an empty block behind. -/
theorem ahead_of_empty (past : ℕ) {index : ℕ} (hempty : block index = []) :
    ahead block past (index + 1) 0 = ahead block past index 0 := by
  cases Nat.lt_or_ge index past with
  | inl hlt => rw [ahead, ahead, stretch_eq_append hlt, hempty, List.nil_append]
  | inr hge =>
    rw [ahead, ahead, stretch_of_le hge, stretch_of_le (Nat.le_succ_of_le hge)]

/-- Leaving a block whose elements were all taken. -/
theorem ahead_of_taken {past index : ℕ} (h : index < past) :
    ahead block past index (block index).length = ahead block past (index + 1) 0 := by
  rw [ahead, ahead, stretch_eq_append h, List.drop_left, List.drop_zero]

/-- Taking `n` elements. -/
theorem ahead_drop (past index offset n : ℕ) :
    (ahead block past index offset).drop n = ahead block past index (offset + n) := by
  rw [ahead, ahead, List.drop_drop]

/-- What is taken within a block. -/
theorem ahead_take {past index offset n : ℕ} (h : index < past)
    (hn : offset + n ≤ (block index).length) :
    (ahead block past index offset).take n = ((block index).drop offset).take n := by
  rw [ahead, stretch_eq_append h, List.drop_append_of_le_length (by omega),
    List.take_append_of_le_length (by rw [List.length_drop]; omega)]

/-- In front of the last block, all of that block lies ahead. -/
theorem le_length_ahead {last index offset : ℕ} (h : index < last)
    (hoffset : offset ≤ (block index).length) :
    (block last).length ≤ (ahead block (last + 1) index offset).length := by
  rw [ahead, stretch_eq_append (Nat.lt_succ_of_lt h), List.drop_append_of_le_length hoffset,
    stretch_succ h, List.length_append, List.length_append]
  omega

/-- The blocks needed for `n` elements: all but the last begin with fewer than `n`. -/
theorem exists_stretch_of_le (block : ℕ → List α) {first past n : ℕ} (hfirst : first ≤ past)
    (hn : n ≤ (stretch block first past).length) :
    ∃ reach, first ≤ reach ∧ reach ≤ past ∧ n ≤ (stretch block first reach).length ∧
      ∀ s, first ≤ s → s < reach → (stretch block first s).length < n := by
  induction hfirst with
  | refl =>
    refine ⟨first, Nat.le_refl first, Nat.le_refl first, hn, ?_⟩
    intro s hs hlt
    omega
  | @step past hfirst ih =>
    cases Nat.lt_or_ge (stretch block first past).length n with
    | inl hlt =>
      have hfirst' : first ≤ past := hfirst
      refine ⟨past + 1, by omega, Nat.le_refl (past + 1), hn, ?_⟩
      intro s hs hs'
      have hjoin : stretch block first past = _ := stretch_append hs (Nat.le_of_lt_succ hs')
      have hlength := congrArg List.length hjoin
      rw [List.length_append] at hlength
      omega
    | inr hge =>
      obtain ⟨reach, hreach, hpast, hfit, hbegin⟩ := ih hge
      exact ⟨reach, hreach, by omega, hfit, hbegin⟩

/-- A prefix of a stretch is found in every stretch that reaches it. -/
theorem stretch_take {first reach past n : ℕ} (hreach : first ≤ reach) (hpast : reach ≤ past)
    (hn : n ≤ (stretch block first reach).length) :
    (stretch block first past).take n = (stretch block first reach).take n := by
  rw [stretch_append hreach hpast, List.take_append_of_le_length hn]

end Ftape.Algebra
