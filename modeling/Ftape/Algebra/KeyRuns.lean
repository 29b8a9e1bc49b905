import Mathlib.Algebra.BigOperators.Group.Finset.Piecewise
import Mathlib.Data.List.Basic
import Mathlib.Data.Nat.Basic
import Mathlib.Order.Basic
import Mathlib.Tactic.Common

/-!
# Lists sorted by a key

A list in ascending order of a numeric key is cut at a key value into the elements below it,
the run of elements at it and the elements above it. Replacing one run keeps the order and
every other run, which is how a sorted list of entries behaves as a map from keys to runs.
-/

namespace Ftape.Algebra

variable {α : Type*} (key : α → ℕ)

/-- The elements before the run of a key. -/
def belowKey (s : ℕ) (l : List α) : List α := l.filter (key · < s)

/-- The run of a key. -/
def keyRun (s : ℕ) (l : List α) : List α := l.filter (key · = s)

/-- The elements after the run of a key. -/
def aboveKey (s : ℕ) (l : List α) : List α := l.filter (s < key ·)

/-- The list with the run of a key exchanged. -/
def replaceRun (s : ℕ) (new l : List α) : List α := belowKey key s l ++ new ++ aboveKey key s l

variable {key}

/-- A key decides on which side of the run an element stands. -/
theorem key_of_mem_belowKey {s : ℕ} {l : List α} {a : α} (ha : a ∈ belowKey key s l) : key a < s := by
  simpa using (List.mem_filter.mp ha).2

/-- Elements of a run have its key. -/
theorem key_of_mem_keyRun {s : ℕ} {l : List α} {a : α} (ha : a ∈ keyRun key s l) : key a = s := by
  simpa using (List.mem_filter.mp ha).2

/-- Elements after a run have larger keys. -/
theorem key_of_mem_aboveKey {s : ℕ} {l : List α} {a : α} (ha : a ∈ aboveKey key s l) : s < key a := by
  simpa using (List.mem_filter.mp ha).2

/-- A sorted list is its three parts in order. -/
theorem belowKey_append_keyRun_append_aboveKey (s : ℕ) {l : List α}
    (hsorted : l.Pairwise fun a b => key a ≤ key b) :
    belowKey key s l ++ keyRun key s l ++ aboveKey key s l = l := by
  induction l with
  | nil => rfl
  | cons a rest ih =>
    cases hsorted with
    | cons hhead htail =>
      have hrest := ih htail
      rcases Nat.lt_trichotomy (key a) s with hlt | heq | hgt
      · simp only [belowKey, keyRun, aboveKey] at hrest ⊢
        simp only [hlt, hlt.ne, hlt.le.not_gt, List.filter_cons, decide_true, decide_false, if_true,
          Bool.false_eq_true, if_false, List.cons_append, hrest]
      · have hnone : belowKey key s rest = [] := by
          apply List.filter_eq_nil_iff.mpr
          intro b hb
          have := hhead b hb
          simp only [decide_eq_true_eq]
          omega
        simp only [belowKey, keyRun, aboveKey] at hrest hnone ⊢
        rw [hnone, List.nil_append] at hrest
        simp only [heq, hnone, List.filter_cons, lt_irrefl, decide_true, decide_false, if_true,
          Bool.false_eq_true, if_false, List.nil_append, List.cons_append, hrest]
      · have hbelow : belowKey key s rest = [] := by
          apply List.filter_eq_nil_iff.mpr
          intro b hb
          have := hhead b hb
          simp only [decide_eq_true_eq]
          omega
        have hrun : keyRun key s rest = [] := by
          apply List.filter_eq_nil_iff.mpr
          intro b hb
          have := hhead b hb
          simp only [decide_eq_true_eq]
          omega
        simp only [belowKey, keyRun, aboveKey] at hrest hbelow hrun ⊢
        rw [hbelow, hrun, List.nil_append, List.nil_append] at hrest
        simp only [hgt, hgt.ne', hgt.le.not_gt, hbelow, hrun, List.filter_cons, decide_true,
          decide_false, if_true, Bool.false_eq_true, if_false, List.nil_append, hrest]

/-- The run of a smaller key ends before the run of a larger one begins. -/
theorem length_belowKey_add_keyRun_le {s t : ℕ} (hst : s < t) (l : List α) :
    (belowKey key s l).length + (keyRun key s l).length ≤ (belowKey key t l).length := by
  induction l with
  | nil => exact Nat.le_refl 0
  | cons a rest ih =>
    simp only [belowKey, keyRun] at ih ⊢
    simp only [List.filter_cons, decide_eq_true_eq]
    by_cases hlow : key a < s
    · simp only [hlow, hlow.ne, show key a < t by omega, if_true, if_false, List.length_cons]
      omega
    · by_cases heq : key a = s
      · simp only [heq, lt_irrefl, hst, if_true, if_false, List.length_cons]
        omega
      · by_cases hmid : key a < t
        · simp only [hlow, heq, hmid, if_true, if_false, List.length_cons]
          omega
        · simp only [hlow, heq, hmid, if_false]
          exact ih

/-- The runs of all keys below a bound make up a list whose keys stay below it. -/
theorem sum_length_keyRun {n : ℕ} {l : List α} (hl : ∀ a ∈ l, key a < n) :
    ∑ s ∈ Finset.range n, (keyRun key s l).length = l.length := by
  induction l with
  | nil => simp [keyRun]
  | cons a rest ih =>
    have hrest := ih fun b hb => hl b (List.mem_cons_of_mem a hb)
    have hhead : ∀ s, (keyRun key s (a :: rest)).length =
        (keyRun key s rest).length + if key a = s then 1 else 0 := by
      intro s
      simp only [keyRun, List.filter_cons, decide_eq_true_eq]
      split
      · rw [List.length_cons]
      · rfl
    simp only [hhead, Finset.sum_add_distrib, hrest, Finset.sum_ite_eq, Finset.mem_range,
      hl a List.mem_cons_self, if_true, List.length_cons]

section ReplaceRun

variable {s : ℕ} {new l : List α}

/-- Replacing a run keeps any order in which smaller keys come first. -/
theorem replaceRun_pairwise {r : α → α → Prop} (hkey : ∀ a b, key a < key b → r a b)
    (hl : l.Pairwise r) (hnew : new.Pairwise r) (hrun : ∀ a ∈ new, key a = s) :
    (replaceRun key s new l).Pairwise r := by
  apply List.pairwise_append.mpr
  refine ⟨List.pairwise_append.mpr ⟨hl.filter _, hnew, fun a ha b hb => ?_⟩, hl.filter _,
    fun a ha b hb => ?_⟩
  · apply hkey
    rw [hrun b hb]
    exact key_of_mem_belowKey ha
  · apply hkey
    have hb' := key_of_mem_aboveKey hb
    cases List.mem_append.mp ha with
    | inl hbelow => exact (key_of_mem_belowKey hbelow).trans hb'
    | inr hmem =>
      rw [hrun a hmem]
      exact hb'

/-- The replaced run is read back. -/
theorem keyRun_replaceRun_self (hrun : ∀ a ∈ new, key a = s) :
    keyRun key s (replaceRun key s new l) = new := by
  have hbelow : keyRun key s (belowKey key s l) = [] := by
    apply List.filter_eq_nil_iff.mpr
    intro a ha
    simpa using (key_of_mem_belowKey ha).ne
  have habove : keyRun key s (aboveKey key s l) = [] := by
    apply List.filter_eq_nil_iff.mpr
    intro a ha
    simpa using (key_of_mem_aboveKey ha).ne'
  have hself : keyRun key s new = new := by
    apply List.filter_eq_self.mpr
    intro a ha
    simpa using hrun a ha
  simp only [keyRun] at hbelow habove hself
  simp only [keyRun, replaceRun, List.filter_append, hbelow, habove, hself, List.nil_append,
    List.append_nil]

/-- The elements before the replaced run are the same. -/
theorem belowKey_replaceRun_self (hrun : ∀ a ∈ new, key a = s) :
    belowKey key s (replaceRun key s new l) = belowKey key s l := by
  have hbelow : belowKey key s (belowKey key s l) = belowKey key s l := by
    apply List.filter_eq_self.mpr
    intro a ha
    simpa using key_of_mem_belowKey ha
  have hnew : belowKey key s new = [] := by
    apply List.filter_eq_nil_iff.mpr
    intro a ha
    simpa using (hrun a ha).ge
  have habove : belowKey key s (aboveKey key s l) = [] := by
    apply List.filter_eq_nil_iff.mpr
    intro a ha
    simpa using (key_of_mem_aboveKey ha).le
  unfold belowKey at *
  rw [replaceRun, List.filter_append, List.filter_append, hnew, habove, List.append_nil,
    List.append_nil]
  exact hbelow

/-- Every other run is unchanged. -/
theorem keyRun_replaceRun_of_ne {t : ℕ} (hne : t ≠ s) (hrun : ∀ a ∈ new, key a = s)
    (hsorted : l.Pairwise fun a b => key a ≤ key b) :
    keyRun key t (replaceRun key s new l) = keyRun key t l := by
  have hnew : keyRun key t new = [] := by
    apply List.filter_eq_nil_iff.mpr
    intro a ha
    rw [hrun a ha]
    simpa using hne.symm
  have hold : keyRun key t (keyRun key s l) = [] := by
    apply List.filter_eq_nil_iff.mpr
    intro a ha
    rw [key_of_mem_keyRun ha]
    simpa using hne.symm
  have hparts := congrArg (keyRun key t) (belowKey_append_keyRun_append_aboveKey s hsorted)
  simp only [keyRun] at hnew hold hparts
  rw [List.filter_append, List.filter_append, hold, List.append_nil] at hparts
  simp only [keyRun, replaceRun, List.filter_append, hnew, List.append_nil]
  exact hparts

/-- The elements of the new list. -/
theorem mem_replaceRun {a : α} (ha : a ∈ replaceRun key s new l) : a ∈ l ∨ a ∈ new := by
  cases List.mem_append.mp ha with
  | inl h =>
    cases List.mem_append.mp h with
    | inl hbelow => exact Or.inl (List.mem_filter.mp hbelow).1
    | inr hnew => exact Or.inr hnew
  | inr habove => exact Or.inl (List.mem_filter.mp habove).1

end ReplaceRun

end Ftape.Algebra
