import Mathlib.Data.List.Basic
import Mathlib.Algebra.Order.Ring.Int
import Mathlib.Tactic.Common

/-!
# Windows of a memory

A memory is a function from addresses to cells. A window lists the cells of a range, and a
checked copy moves a range between two bounded memories. Copies are described by the windows
they leave behind, so that code moving whole blocks is read as code on lists.
-/

namespace Ftape.Algebra

variable {α : Type*}

/-- The `n` cells from `start` on. -/
@[irreducible] def window (mem : ℕ → α) (start n : ℕ) : List α :=
  (List.range n).map fun i => mem (start + i)

/-- The memory after `n` cells at `srcAt` were copied to `dstAt`; the ranges may overlap. -/
def blit (dst : ℕ → α) (dstAt : ℕ) (src : ℕ → α) (srcAt n : ℕ) : ℕ → α :=
  fun a => if dstAt ≤ a ∧ a < dstAt + n then src (a - dstAt + srcAt) else dst a

/-- A copy of `n` cells from a memory of `srcSize` cells into one of `dstSize` cells; none if it
leaves either of them. -/
def copy (dstSize srcSize : ℕ) (dst : ℕ → α) (dstAt : ℤ) (src : ℕ → α) (srcAt n : ℤ) :
    Option (ℕ → α) :=
  if 0 ≤ n ∧ 0 ≤ dstAt ∧ dstAt + n ≤ dstSize ∧ 0 ≤ srcAt ∧ srcAt + n ≤ srcSize then
    some (blit dst dstAt.toNat src srcAt.toNat n.toNat)
  else none

/-- A copy within both memories goes through. -/
theorem copy_natCast {dstSize srcSize dstAt srcAt n : ℕ} (hdst : dstAt + n ≤ dstSize)
    (hsrc : srcAt + n ≤ srcSize) (dst src : ℕ → α) :
    copy dstSize srcSize dst dstAt src srcAt n = some (blit dst dstAt src srcAt n) := by
  have hbounds : (0 : ℤ) ≤ n ∧ (0 : ℤ) ≤ dstAt ∧ (dstAt : ℤ) + n ≤ dstSize ∧ (0 : ℤ) ≤ srcAt ∧
      (srcAt : ℤ) + n ≤ srcSize := by omega
  simp only [copy, if_pos hbounds, Int.toNat_natCast]

/-- A copy that goes through stays within both memories. -/
theorem of_copy_eq_some {dstSize srcSize : ℕ} {dst dst' src : ℕ → α} {dstAt srcAt n : ℤ}
    (h : copy dstSize srcSize dst dstAt src srcAt n = some dst') :
    0 ≤ n ∧ 0 ≤ dstAt ∧ dstAt + n ≤ dstSize ∧ 0 ≤ srcAt ∧ srcAt + n ≤ srcSize ∧
      dst' = blit dst dstAt.toNat src srcAt.toNat n.toNat := by
  rw [copy] at h
  split_ifs at h with hbounds
  obtain ⟨hn, hdst, hdst', hsrc, hsrc'⟩ := hbounds
  exact ⟨hn, hdst, hdst', hsrc, hsrc', (Option.some.inj h).symm⟩

/-- A copy from the start of a memory. -/
theorem copy_from_start {dstSize srcSize dstAt n : ℕ} (hdst : dstAt + n ≤ dstSize)
    (hsrc : n ≤ srcSize) (dst src : ℕ → α) :
    copy dstSize srcSize dst dstAt src 0 n = some (blit dst dstAt src 0 n) := by
  have h := copy_natCast hdst (show 0 + n ≤ srcSize by omega) dst src
  rwa [Nat.cast_zero] at h

/-- A copy to the start of a memory. -/
theorem copy_to_start {dstSize srcSize srcAt n : ℕ} (hdst : n ≤ dstSize)
    (hsrc : srcAt + n ≤ srcSize) (dst src : ℕ → α) :
    copy dstSize srcSize dst 0 src srcAt n = some (blit dst 0 src srcAt n) := by
  have h := copy_natCast (show 0 + n ≤ dstSize by omega) hsrc dst src
  rwa [Nat.cast_zero] at h

/-- A copy from the start of a memory to the start of another. -/
theorem copy_start_to_start {dstSize srcSize n : ℕ} (hdst : n ≤ dstSize) (hsrc : n ≤ srcSize)
    (dst src : ℕ → α) : copy dstSize srcSize dst 0 src 0 n = some (blit dst 0 src 0 n) := by
  have h := copy_from_start (show 0 + n ≤ dstSize by omega) hsrc dst src
  rwa [Nat.cast_zero] at h

/-- A copy that starts in front of the source is refused. -/
theorem copy_of_neg {dstSize srcSize : ℕ} {dstAt srcAt n : ℤ} (hsrc : srcAt < 0)
    (dst src : ℕ → α) : copy dstSize srcSize dst dstAt src srcAt n = none := by
  apply if_neg
  omega

/-- A window has the length asked for. -/
@[simp] theorem window_length (mem : ℕ → α) (start n : ℕ) : (window mem start n).length = n := by
  simp [window]

/-- A window of no cells. -/
@[simp] theorem window_zero (mem : ℕ → α) (start : ℕ) : window mem start 0 = [] := by
  simp [window]

/-- A cell of a window. -/
theorem window_getElem (mem : ℕ → α) (start n i : ℕ) (hi : i < (window mem start n).length) :
    (window mem start n)[i] = mem (start + i) := by
  simp [window]

/-- Two memories that agree on a range have the same window there. -/
theorem window_congr {mem mem' : ℕ → α} {start start' n : ℕ}
    (h : ∀ i, i < n → mem (start + i) = mem' (start' + i)) :
    window mem start n = window mem' start' n := by
  unfold window
  apply List.map_congr_left
  intro i hi
  exact h i (List.mem_range.mp hi)

/-- A window of equal cells. -/
theorem window_eq_replicate {mem : ℕ → α} {start n : ℕ} {cell : α}
    (h : ∀ i, i < n → mem (start + i) = cell) : window mem start n = List.replicate n cell := by
  apply List.eq_replicate_iff.mpr
  refine ⟨window_length mem start n, ?_⟩
  intro a ha
  obtain ⟨i, hi, rfl⟩ := List.mem_iff_getElem.mp ha
  rw [window_getElem]
  exact h i (by simpa using hi)

/-- Adjacent windows join. -/
theorem window_append (mem : ℕ → α) (start m n : ℕ) :
    window mem start (m + n) = window mem start m ++ window mem (start + m) n := by
  simp only [window, List.range_add, List.map_append, List.map_map, Function.comp_def, Nat.add_assoc]

/-- The first cell of a window. -/
theorem window_succ (mem : ℕ → α) (start n : ℕ) :
    window mem start (n + 1) = mem start :: window mem (start + 1) n := by
  have hfirst : window mem start 1 = [mem start] := by simp [window]
  rw [Nat.add_comm, window_append, hfirst, List.singleton_append]

/-- A part of a list in a memory that holds the list. -/
theorem window_getD (front part back : List α) (cell : α) :
    window (fun k => (front ++ (part ++ back)).getD k cell) front.length part.length = part := by
  refine List.ext_getElem (window_length _ _ _) fun i hi hi' => ?_
  rw [window_getElem, List.getD_eq_getElem?_getD, List.getElem?_append_right (Nat.le_add_right _ _),
    Nat.add_sub_cancel_left, List.getElem?_append_left hi', List.getElem?_eq_getElem hi', Option.getD_some]

/-- A window within a window. -/
theorem window_drop_take (mem : ℕ → α) (start : ℕ) {n i m : ℕ} (h : i + m ≤ n) :
    ((window mem start n).drop i).take m = window mem (start + i) m := by
  obtain ⟨k, rfl⟩ := Nat.exists_eq_add_of_le h
  rw [window_append, window_append, List.append_assoc, List.drop_left' (window_length _ _ _),
    List.take_left' (window_length _ _ _)]

/-- What was copied is read back at its destination. -/
@[simp] theorem window_blit (dst src : ℕ → α) (dstAt srcAt n : ℕ) :
    window (blit dst dstAt src srcAt n) dstAt n = window src srcAt n := by
  apply window_congr
  intro i hi
  have hin : dstAt ≤ dstAt + i ∧ dstAt + i < dstAt + n := by omega
  have ha : dstAt + i - dstAt + srcAt = srcAt + i := by omega
  simp only [blit, if_pos hin, ha]

/-- A copy leaves the cells outside its destination alone. -/
theorem window_blit_of_disjoint (dst src : ℕ → α) {dstAt srcAt n start m : ℕ}
    (h : start + m ≤ dstAt ∨ dstAt + n ≤ start) :
    window (blit dst dstAt src srcAt n) start m = window dst start m := by
  apply window_congr
  intro i hi
  have hout : ¬(dstAt ≤ start + i ∧ start + i < dstAt + n) := by omega
  simp only [blit, if_neg hout]

/-- Shifting a block of `n` cells up by `k` and filling the gap from another memory pushes the
last `k` cells out behind it. -/
theorem window_shift (mem gap : ℕ → α) (k n : ℕ) :
    window (blit (blit mem k mem 0 n) 0 gap 0 k) 0 n ++
      window (blit (blit mem k mem 0 n) 0 gap 0 k) n k = window gap 0 k ++ window mem 0 n := by
  have hgap : window (blit (blit mem k mem 0 n) 0 gap 0 k) (0 + k) n = window mem 0 n := by
    rw [window_blit_of_disjoint _ _ (Or.inr (by omega)), Nat.zero_add, window_blit]
  calc window (blit (blit mem k mem 0 n) 0 gap 0 k) 0 n ++
        window (blit (blit mem k mem 0 n) 0 gap 0 k) n k
      = window (blit (blit mem k mem 0 n) 0 gap 0 k) 0 (k + n) := by
        rw [Nat.add_comm k n, window_append, Nat.zero_add]
    _ = window gap 0 k ++ window mem 0 n := by rw [window_append, window_blit, hgap]

/-- The last `n` blocks of `k` elements of a list, the last block first. -/
def lastBlocks (k : ℕ) : ℕ → List α → List (List α)
  | 0, _ => []
  | n + 1, l => l.drop (l.length - k) :: lastBlocks k n (l.take (l.length - k))

/-- Taking a block off the end. -/
theorem lastBlocks_append {k : ℕ} {l block : List α} (hblock : block.length = k) (n : ℕ) :
    lastBlocks k (n + 1) (l ++ block) = block :: lastBlocks k n l := by
  have hlength : (l ++ block).length - k = l.length := by
    rw [List.length_append, hblock, Nat.add_sub_cancel]
  rw [lastBlocks, hlength, List.drop_left, List.take_left]

end Ftape.Algebra
