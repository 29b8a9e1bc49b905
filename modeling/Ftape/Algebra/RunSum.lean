import Mathlib.Algebra.BigOperators.Group.Finset.Basic
import Mathlib.Data.Int.Interval
import Mathlib.Order.Interval.Finset.SuccPred
import Mathlib.Tactic.Common
import Mathlib.Tactic.Ring

/-!
# Sums over runs of integers

The sum of a function over the integers from one bound up to another. It grows at the upper bound,
and changing the function at one place changes the sums over the runs that contain the place.
-/

namespace Ftape.Algebra

/-- The sum over the integers from `a` up to, but without, `b`. -/
def runSum (f : ℤ → ℤ) (a b : ℤ) : ℤ := ∑ i ∈ @Finset.Ico ℤ Int.instLinearOrder.toPreorder _ a b, f i

/-- There are no integers from a bound up to one that is not above it. -/
theorem runSum_of_le (f : ℤ → ℤ) {a b : ℤ} (h : b ≤ a) : runSum f a b = 0 := by
  rw [runSum, Finset.Ico_eq_empty_of_le h, Finset.sum_empty]

/-- A sum grows by the value at its upper bound. -/
theorem runSum_succ (f : ℤ → ℤ) {a b : ℤ} (h : a ≤ b) : runSum f a (b + 1) = runSum f a b + f b := by
  have hinsert : Finset.Ico a (b + 1) = insert b (Finset.Ico a b) := by
    ext i
    simp only [Finset.mem_Ico, Finset.mem_insert]
    omega
  rw [runSum, hinsert, Finset.sum_insert Finset.right_notMem_Ico, add_comm]
  rfl

/-- A sum without the value in front of its upper bound. -/
theorem runSum_pred (f : ℤ → ℤ) {a b : ℤ} (h : a < b) :
    runSum f a (b - 1) = runSum f a b - f (b - 1) := by
  have hsucc := runSum_succ f (Int.le_sub_one_of_lt h)
  rw [Int.sub_add_cancel] at hsucc
  rw [hsucc, Int.add_sub_cancel]

/-- A sum starts with the value at its lower bound. -/
theorem runSum_cons (f : ℤ → ℤ) {a b : ℤ} (h : a < b) : runSum f a b = f a + runSum f (a + 1) b := by
  have hinsert : Finset.Ico a b = insert a (Finset.Ico (a + 1) b) := by
    ext i
    simp only [Finset.mem_Ico, Finset.mem_insert]
    omega
  have hfresh : a ∉ Finset.Ico (a + 1) b := by
    rw [Finset.mem_Ico]
    omega
  rw [runSum, hinsert, Finset.sum_insert hfresh]
  rfl

/-- A change outside a run leaves the sum alone. -/
theorem runSum_update_of_outside (f : ℤ → ℤ) {a b k : ℤ} (value : ℤ) (h : k < a ∨ b ≤ k) :
    runSum (Function.update f k value) a b = runSum f a b := by
  apply Finset.sum_congr rfl
  intro i hi
  rw [Finset.mem_Ico] at hi
  rw [Function.update_of_ne (by omega)]

/-- A change inside a run changes the sum by as much. -/
theorem runSum_update_of_inside (f : ℤ → ℤ) {a b k : ℤ} (value : ℤ) (ha : a ≤ k) (hb : k < b) :
    runSum (Function.update f k value) a b = runSum f a b + (value - f k) := by
  have hmem : k ∈ Finset.Ico a b := Finset.mem_Ico.mpr ⟨ha, hb⟩
  have hrest : ∑ i ∈ (Finset.Ico a b).erase k, Function.update f k value i =
      ∑ i ∈ (Finset.Ico a b).erase k, f i := by
    apply Finset.sum_congr rfl
    intro i hi
    exact Function.update_of_ne (Finset.ne_of_mem_erase hi) _ _
  have hnew := Finset.add_sum_erase _ (Function.update f k value) hmem
  have hold := Finset.add_sum_erase _ f hmem
  rw [hrest, Function.update_self] at hnew
  rw [runSum, runSum, ← hnew, ← hold]
  ring

end Ftape.Algebra
