import Mathlib.Data.List.Basic

/-!
# Routines

A routine works on a state. It returns a value, or steps outside of a table, or has not returned within
its bound. What it does is said by pre- and postconditions, with one rule for each way to put routines
together.
-/

namespace Ftape.Algebra

/-- How a routine ends. -/
inductive Outcome (β : Type) where
  | returned (value : β)
  | outOfBounds
  | unfinished

/-- A routine on a state `σ` that returns a `β`. -/
def Routine (σ β : Type) : Type := σ → Outcome β × σ

namespace Routine

variable {σ β γ : Type}

/-- One routine after another, which takes what the first returns. -/
def andThen (first : Routine σ β) (next : β → Routine σ γ) : Routine σ γ := fun s =>
  match first s with
  | (.returned value, s) => next value s
  | (.outOfBounds, s) => (.outOfBounds, s)
  | (.unfinished, s) => (.unfinished, s)

instance : Monad (Routine σ) where
  pure value := fun s => (.returned value, s)
  bind := andThen

/-- A routine that has not returned within its bound. -/
def unfinished : Routine σ β := fun s => (.unfinished, s)

/-- Read something of the state. -/
def read (view : σ → β) : Routine σ β := fun s => (.returned (view s), s)

/-- Change the state. -/
def update (change : σ → σ) : Routine σ Unit := fun s => (.returned (), change s)

/-- Take what the state does on its own account. -/
def ask (answer : σ → β × σ) : Routine σ β := fun s => (.returned (answer s).1, (answer s).2)

/-- The entry of a table at an index. -/
def lookup (table : List β) (index : σ → ℕ) : Routine σ β := fun s =>
  match table[index s]? with
  | some entry => (.returned entry, s)
  | none => (.outOfBounds, s)

/-- From this state the routine stays inside of its tables, and if it returns, the postcondition holds. -/
def Meets (routine : Routine σ β) (post : β → σ → Prop) (s : σ) : Prop :=
  match routine s with
  | (.returned value, s) => post value s
  | (.outOfBounds, _) => False
  | (.unfinished, _) => True

/-- The routine keeps an invariant. -/
def Keeps (inv : σ → Prop) (routine : Routine σ β) : Prop := ∀ s, inv s → routine.Meets (fun _ => inv) s

section Rules

variable {post : γ → σ → Prop} {inv : σ → Prop} {s : σ}

@[simp] theorem meets_pure (value : γ) : Meets (pure value) post s ↔ post value s := Iff.rfl

@[simp] theorem meets_unfinished : Meets unfinished post s := trivial

@[simp] theorem meets_read (view : σ → γ) : Meets (read view) post s ↔ post (view s) s := Iff.rfl

@[simp] theorem meets_update {post : Unit → σ → Prop} (change : σ → σ) :
    Meets (update change) post s ↔ post () (change s) := Iff.rfl

@[simp] theorem meets_ask (answer : σ → γ × σ) :
    Meets (ask answer) post s ↔ post (answer s).1 (answer s).2 := Iff.rfl

/-- An index has to lie inside of the table. -/
theorem meets_lookup (table : List γ) (index : σ → ℕ) :
    Meets (lookup table index) post s ↔ ∃ h : index s < table.length, post (table[index s]) s := by
  rw [Meets, lookup]
  by_cases hinside : index s < table.length
  · rw [List.getElem?_eq_getElem hinside]
    exact ⟨fun h => ⟨hinside, h⟩, fun ⟨_, h⟩ => h⟩
  · rw [List.getElem?_eq_none (Nat.le_of_not_lt hinside)]
    exact ⟨False.elim, fun ⟨h, _⟩ => hinside h⟩

/-- The rule of composition. -/
theorem meets_bind (first : Routine σ β) (next : β → Routine σ γ) :
    Meets (first >>= next) post s ↔ first.Meets (fun value => (next value).Meets post) s := by
  rw [Meets, Meets, show (first >>= next) s = first.andThen next s from rfl, andThen]
  cases first s with
  | mk outcome s' => cases outcome <;> rfl

/-- A weaker postcondition holds too. -/
theorem Meets.imp {routine : Routine σ β} {post post' : β → σ → Prop} (h : routine.Meets post s)
    (hpost : ∀ value s, post value s → post' value s) : routine.Meets post' s := by
  revert h
  rw [Meets, Meets]
  cases routine s with
  | mk outcome s' =>
    cases outcome with
    | returned value => exact hpost value s'
    | outOfBounds => exact id
    | unfinished => exact id

/-- A routine that keeps an invariant, before a rest that leads from it to the postcondition. -/
theorem Keeps.meets_bind {first : Routine σ β} {next : β → Routine σ γ} (h : first.Keeps inv) (hs : inv s)
    (hnext : ∀ value s, inv s → (next value).Meets post s) : Meets (first >>= next) post s :=
  (Routine.meets_bind first next).mpr ((h s hs).imp hnext)

theorem Keeps.pure (value : β) : Keeps inv (Pure.pure value) := fun _ h => h

theorem keeps_unfinished : Keeps inv (unfinished : Routine σ β) := fun _ _ => trivial

theorem Keeps.bind {first : Routine σ β} {next : β → Routine σ γ} (h : first.Keeps inv)
    (hnext : ∀ value, (next value).Keeps inv) : Keeps inv (first >>= next) := fun _ hs =>
  h.meets_bind hs fun value s hs => hnext value s hs

theorem Keeps.update {change : σ → σ} (h : ∀ s, inv s → inv (change s)) : Keeps inv (update change) := h

theorem Keeps.read (view : σ → β) : Keeps inv (read view) := fun _ h => h

theorem Keeps.ask {answer : σ → β × σ} (h : ∀ s, inv s → inv (answer s).2) : Keeps inv (ask answer) := h

theorem Keeps.lookup {table : List β} {index : σ → ℕ} (h : ∀ s, inv s → index s < table.length) :
    Keeps inv (lookup table index) := fun s hs => (meets_lookup table index).mpr ⟨h s hs, hs⟩

end Rules

end Routine

end Ftape.Algebra
