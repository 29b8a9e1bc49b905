import Ftape.Algebra.ByteOrder
import Ftape.Algebra.Window
import Mathlib.Data.List.GetD

/-!
# Writes to a memory

A run of writes, one after the other. What a field holds in the end was put there by the last write
that is not apart from it.
-/

namespace Ftape.Algebra

variable {α : Type*}

/-- Cells that are written to a memory. -/
structure Put (α : Type*) where
  address : ℕ
  size : ℕ
  cell : ℕ → α

/-- The memory after a write. -/
def Put.run (put : Put α) (mem : ℕ → α) : ℕ → α := blit mem put.address put.cell 0 put.size

/-- The memory after some writes. -/
def runPuts (puts : List (Put α)) (mem : ℕ → α) : ℕ → α := puts.foldl (fun mem put => put.run mem) mem

/-- Write a list of cells. -/
def putCells [Inhabited α] (address : ℕ) (cells : List α) : Put α :=
  ⟨address, cells.length, fun i => cells.getD i default⟩

/-- Write equal cells. -/
def putFill (address : ℕ) (cell : α) (size : ℕ) : Put α := ⟨address, size, fun _ => cell⟩

/-- Write a number. -/
def putNumber (bigEndian : Bool) (address size value : ℕ) : Put (BitVec 8) :=
  ⟨address, size, fun i => store bigEndian (fun _ => 0) 0 size value i⟩

/-- A write that leaves a range alone. -/
def Put.Apart (put : Put α) (address size : ℕ) : Prop :=
  address + size ≤ put.address ∨ put.address + put.size ≤ address

/-- A write leaves the cells of a range apart from it alone. -/
theorem Put.run_of_apart {put : Put α} {address size k : ℕ} (h : put.Apart address size) (mem : ℕ → α)
    (hk : address ≤ k) (hk' : k < address + size) : put.run mem k = mem k := by
  apply if_neg
  rcases h with h | h <;> omega

/-- What is written is there. -/
theorem Put.run_of_inside {put : Put α} {i : ℕ} (h : i < put.size) (mem : ℕ → α) :
    put.run mem (put.address + i) = put.cell i := by
  have hinside : put.address ≤ put.address + i ∧ put.address + i < put.address + put.size := by omega
  rw [Put.run, blit, if_pos hinside, Nat.add_sub_cancel_left]
  rfl

/-- Writes after writes. -/
theorem runPuts_append (puts puts' : List (Put α)) (mem : ℕ → α) :
    runPuts (puts ++ puts') mem = runPuts puts' (runPuts puts mem) := List.foldl_append

/-- Writes leave the cells of a range apart from them alone. -/
theorem runPuts_of_apart {puts : List (Put α)} {address size k : ℕ}
    (h : ∀ put ∈ puts, put.Apart address size) (mem : ℕ → α) (hk : address ≤ k)
    (hk' : k < address + size) : runPuts puts mem k = mem k := by
  induction puts generalizing mem with
  | nil => rfl
  | cons put puts ih =>
    calc runPuts (put :: puts) mem k = runPuts puts (put.run mem) k := rfl
      _ = put.run mem k := ih (fun p hp => h p (List.mem_cons_of_mem put hp)) _
      _ = mem k := Put.run_of_apart (h put List.mem_cons_self) mem hk hk'

/-- The places that writes go to, counted from a base. -/
def Places (puts : List (Put α)) (base : ℕ) (fields : List (ℕ × ℕ)) : Prop :=
  puts.map (fun put => (put.address, put.size)) = fields.map fun field => (base + field.1, field.2)

/-- A range keeps what a write put there if the places written to after it are apart from it. -/
theorem runPuts_at {puts : List (Put α)} {base : ℕ} {fields : List (ℕ × ℕ)} (hplaces : Places puts base fields)
    {put : Put α} {n : ℕ} (hput : puts[n]? = some put) {field size : ℕ}
    (hafter : ∀ f ∈ fields.drop (n + 1), field + size ≤ f.1 ∨ f.1 + f.2 ≤ field) (mem : ℕ → α) :
    ∃ before, ∀ i, i < size →
      runPuts puts mem (base + field + i) = put.run before (base + field + i) := by
  obtain ⟨hn, rfl⟩ := List.getElem?_eq_some_iff.mp hput
  have hapart : ∀ p ∈ puts.drop (n + 1), p.Apart (base + field) size := by
    intro p hp
    have hmem : (p.address, p.size) ∈ (fields.map fun f => (base + f.1, f.2)).drop (n + 1) := by
      rw [← hplaces, ← List.map_drop]
      exact List.mem_map_of_mem hp
    rw [← List.map_drop] at hmem
    obtain ⟨f, hf, heq⟩ := List.mem_map.mp hmem
    obtain ⟨haddress, hsize⟩ := Prod.mk.inj heq
    rcases hafter f hf with h | h
    · exact Or.inl (by omega)
    · exact Or.inr (by omega)
  have hrun : runPuts puts mem =
      runPuts (puts.drop (n + 1)) (puts[n].run (runPuts (puts.take n) mem)) := by
    conv_lhs => rw [← List.take_append_drop n puts, List.drop_eq_getElem_cons hn]
    rw [runPuts_append]
    rfl
  refine ⟨runPuts (puts.take n) mem, fun i hi => ?_⟩
  rw [hrun]
  exact runPuts_of_apart hapart _ (Nat.le_add_right _ _) (by omega)

/-- A text that was written. -/
theorem run_putCells [Inhabited α] (address : ℕ) (cells : List α) (mem : ℕ → α) {i : ℕ}
    (h : i < cells.length) : (putCells address cells).run mem (address + i) = cells[i] := by
  have hrun : (putCells address cells).run mem (address + i) = cells.getD i default :=
    Put.run_of_inside h mem
  rw [hrun, List.getD_eq_getElem _ _ h]

/-- A number that was written. -/
theorem fetch_run_putNumber (bigEndian : Bool) (address : ℕ) {size value : ℕ} (h : value < 256 ^ size)
    (mem : ℕ → BitVec 8) :
    fetch bigEndian ((putNumber bigEndian address size value).run mem) address size = value := by
  calc fetch bigEndian ((putNumber bigEndian address size value).run mem) address size
      = fetch bigEndian (store bigEndian (fun _ => 0) address size value) address size := by
        apply fetch_congr
        intro k hk hk'
        obtain ⟨i, rfl⟩ := Nat.exists_eq_add_of_le hk
        have hi : 0 ≤ i ∧ i < 0 + size := by omega
        have hrun : (putNumber bigEndian address size value).run mem (address + i) =
            store bigEndian (fun _ => 0) 0 size value i :=
          Put.run_of_inside (show i < size by omega) mem
        rw [hrun]
        simp only [store, if_pos hi, if_pos (And.intro hk hk'), Nat.sub_zero, Nat.add_sub_cancel_left]
    _ = value := fetch_store _ _ _ _ h

end Ftape.Algebra
