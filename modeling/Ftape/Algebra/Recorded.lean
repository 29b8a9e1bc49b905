import Mathlib.Tactic.Common

/-!
# Computations that record their questions

A computation asks questions one after the other and may stop on the way. What is known about each
of its parts is known about the whole: the questions it asked, why it stopped, and its value.
-/

namespace Ftape.Algebra

universe u v

/-- The questions of a computation in their order, and its value if it did not stop. -/
structure Recorded (Query Halt : Type u) (Value : Type v) where
  queries : List Query
  result : Except Halt Value

variable {Query Halt : Type u} {Value Value' : Type v}

/-- A value without a question. -/
def Recorded.pure (value : Value) : Recorded Query Halt Value := ⟨[], .ok value⟩

/-- Stopping without a question. -/
def Recorded.halt (reason : Halt) : Recorded Query Halt Value := ⟨[], .error reason⟩

/-- One computation after the other. -/
def Recorded.bind (first : Recorded Query Halt Value) (next : Value → Recorded Query Halt Value') :
    Recorded Query Halt Value' :=
  match first.result with
  | .error reason => ⟨first.queries, .error reason⟩
  | .ok value => ⟨first.queries ++ (next value).queries, (next value).result⟩

instance : Monad (Recorded Query Halt : Type v → Type (max u v)) where
  pure := Recorded.pure
  bind := Recorded.bind

/-- After a computation with a value, what follows decides. -/
theorem Recorded.result_bind {first : Recorded Query Halt Value} {value : Value}
    (h : first.result = .ok value) (next : Value → Recorded Query Halt Value') :
    (first >>= next).result = (next value).result := by
  change (first.bind next).result = _
  rw [Recorded.bind, h]

/-- After a computation that stopped, nothing follows. -/
theorem Recorded.result_bind_error {first : Recorded Query Halt Value} {reason : Halt}
    (h : first.result = .error reason) (next : Value → Recorded Query Halt Value') :
    (first >>= next).result = .error reason := by
  change (first.bind next).result = _
  rw [Recorded.bind, h]

/-- After a value without a question. -/
theorem Recorded.result_pure_bind (value : Value) (next : Value → Recorded Query Halt Value') :
    (Pure.pure value >>= next : Recorded Query Halt Value').result = (next value).result := rfl

/-- A question whose answer nothing depends on. -/
def Recorded.note (query : Query) : Recorded Query Halt Unit := ⟨[query], .ok ()⟩

/-- After a question. -/
theorem Recorded.result_note_bind {Value : Type} (query : Query) (next : Unit → Recorded Query Halt Value) :
    (Recorded.note query >>= next).result = (next ()).result := rfl

/-- A loop: each of its rounds goes on with a state, or leaves with a value. -/
def Recorded.loop {State : Type v} (reason : Halt) (round : State → Recorded Query Halt (State ⊕ Value)) :
    ℕ → State → Recorded Query Halt Value
  | 0, _ => .halt reason
  | rounds + 1, state => do
    match ← round state with
    | .inl state => Recorded.loop reason round rounds state
    | .inr value => Pure.pure value

/-- Every question is one of `asks`, the computation stops for `reason` exactly if a question has no
answer, and a value satisfies `post`. -/
structure Recorded.Meets (asks answered : Query → Prop) (reason : Halt) (post : Value → Prop)
    (computation : Recorded Query Halt Value) : Prop where
  asks : ∀ query ∈ computation.queries, asks query
  stops : computation.result = .error reason ↔ ∃ query ∈ computation.queries, ¬answered query
  post : ∀ value, computation.result = .ok value → post value

namespace Recorded.Meets

variable {asks answered : Query → Prop} {reason : Halt} {post post' : Value → Prop}

/-- A value without a question meets what the value satisfies. -/
theorem pure {value : Value} (h : post value) :
    (Pure.pure value : Recorded Query Halt Value).Meets asks answered reason post where
  asks := by
    intro query hquery
    cases hquery
  stops := by
    constructor
    · intro hstop
      cases hstop
    · rintro ⟨query, hquery, -⟩
      cases hquery
  post := by
    intro value' hvalue
    cases hvalue
    exact h

/-- Stopping for another reason asks nothing. -/
theorem halt {other : Halt} (h : other ≠ reason) :
    (Recorded.halt other : Recorded Query Halt Value).Meets asks answered reason post where
  asks := by
    intro query hquery
    cases hquery
  stops := by
    constructor
    · intro hstop
      exact absurd (Except.error.inj hstop) h
    · rintro ⟨query, hquery, -⟩
      cases hquery
  post := by
    intro value hvalue
    cases hvalue

/-- What the first computation guarantees is what the second one may rely on. -/
theorem bind {first : Recorded Query Halt Value} {next : Value → Recorded Query Halt Value'}
    {post' : Value' → Prop} (hfirst : first.Meets asks answered reason post)
    (hnext : ∀ value, post value → (next value).Meets asks answered reason post') :
    (first >>= next).Meets asks answered reason post' := by
  change (first.bind next).Meets asks answered reason post'
  obtain ⟨queries, result⟩ := first
  cases result with
  | error other =>
    refine ⟨hfirst.asks, ?_, ?_⟩
    · rw [show (Recorded.bind ⟨queries, .error other⟩ next).queries = queries from rfl,
        ← hfirst.stops]
      constructor <;> intro hstop <;> cases hstop <;> rfl
    · intro value hvalue
      cases hvalue
  | ok value =>
    have hrest := hnext value (hfirst.post value rfl)
    have hanswered : ¬∃ query ∈ queries, ¬answered query := by
      rw [← hfirst.stops]
      intro hstop
      cases hstop
    refine ⟨?_, ?_, hrest.post⟩
    · intro query hquery
      cases List.mem_append.mp hquery with
      | inl h => exact hfirst.asks query h
      | inr h => exact hrest.asks query h
    · refine hrest.stops.trans ⟨?_, ?_⟩
      · rintro ⟨query, hquery, hopen⟩
        exact ⟨query, List.mem_append_right _ hquery, hopen⟩
      · rintro ⟨query, hquery, hopen⟩
        cases List.mem_append.mp hquery with
        | inl h => exact absurd ⟨query, h, hopen⟩ hanswered
        | inr h => exact ⟨query, h, hopen⟩

/-- One question. -/
theorem ask {query : Query} (hasks : asks query) (hanswered : answered query) :
    (Recorded.note query : Recorded Query Halt Unit).Meets asks answered reason fun _ => True where
  asks := by
    intro query' hquery
    rwa [List.mem_singleton.mp hquery]
  stops := by
    constructor
    · intro hstop
      cases hstop
    · rintro ⟨query', hquery, hopen⟩
      rw [List.mem_singleton.mp hquery] at hopen
      exact absurd hanswered hopen
  post := fun _ _ => trivial

/-- A computation that meets more meets less. -/
theorem mono {computation : Recorded Query Halt Value}
    (h : computation.Meets asks answered reason post) (hpost : ∀ value, post value → post' value) :
    computation.Meets asks answered reason post' :=
  ⟨h.asks, h.stops, fun value hvalue => hpost value (h.post value hvalue)⟩

end Recorded.Meets

/-- If every question is a harmless one and the computation does not stop, its value satisfies
`post`. -/
def Recorded.Keeps (harmless : Query → Prop) (post : Value → Prop)
    (computation : Recorded Query Halt Value) : Prop :=
  (∀ query ∈ computation.queries, harmless query) → ∀ value, computation.result = .ok value → post value

namespace Recorded.Keeps

variable {harmless : Query → Prop} {post post' : Value → Prop}

/-- A value without a question. -/
theorem pure {value : Value} (h : post value) :
    (Pure.pure value : Recorded Query Halt Value).Keeps harmless post := by
  intro _ value' hvalue
  cases hvalue
  exact h

/-- A computation that stops has no value. -/
theorem halt (reason : Halt) : (Recorded.halt reason : Recorded Query Halt Value).Keeps harmless post := by
  intro _ value hvalue
  cases hvalue

/-- A question that is put down may be taken for harmless. -/
theorem note (query : Query) :
    (Recorded.note query : Recorded Query Halt Unit).Keeps harmless fun _ => harmless query := by
  intro hharmless _ _
  exact hharmless query List.mem_cons_self

/-- What the first computation keeps is what the second one starts from. -/
theorem bind {first : Recorded Query Halt Value} {next : Value → Recorded Query Halt Value'}
    {post' : Value' → Prop} (hfirst : first.Keeps harmless post)
    (hnext : ∀ value, post value → (next value).Keeps harmless post') :
    (first >>= next).Keeps harmless post' := by
  change (first.bind next).Keeps harmless post'
  obtain ⟨queries, result⟩ := first
  cases result with
  | error reason =>
    intro _ value hvalue
    cases hvalue
  | ok value =>
    intro hharmless
    have hbefore := hfirst (fun query hquery => hharmless query (List.mem_append_left _ hquery)) value rfl
    exact hnext value hbefore fun query hquery => hharmless query (List.mem_append_right _ hquery)

/-- A computation that keeps more keeps less. -/
theorem mono {computation : Recorded Query Halt Value} (h : computation.Keeps harmless post)
    (hpost : ∀ value, post value → post' value) : computation.Keeps harmless post' :=
  fun hharmless value hvalue => hpost value (h hharmless value hvalue)

/-- The value that is kept is the result. -/
theorem and_result {computation : Recorded Query Halt Value} (h : computation.Keeps harmless post) :
    computation.Keeps harmless fun value => post value ∧ computation.result = .ok value :=
  fun hharmless value hvalue => ⟨h hharmless value hvalue, hvalue⟩

/-- What a computation guarantees it keeps. -/
theorem of_meets {asks answered : Query → Prop} {reason : Halt}
    {computation : Recorded Query Halt Value} (h : computation.Meets asks answered reason post) :
    computation.Keeps harmless post := fun _ => h.post

end Recorded.Keeps

/-- The computation has no questions, and its value satisfies `post` if it does not stop. -/
def Recorded.Silent (post : Value → Prop) (computation : Recorded Query Halt Value) : Prop :=
  computation.queries = [] ∧ ∀ value, computation.result = .ok value → post value

namespace Recorded.Silent

variable {post post' : Value → Prop}

/-- A value without a question. -/
theorem pure {value : Value} (h : post value) : (Pure.pure value : Recorded Query Halt Value).Silent post := by
  refine ⟨rfl, fun value' hvalue => ?_⟩
  cases hvalue
  exact h

/-- Stopping asks nothing. -/
theorem halt (reason : Halt) : (Recorded.halt reason : Recorded Query Halt Value).Silent post := by
  refine ⟨rfl, fun value hvalue => ?_⟩
  cases hvalue

/-- The second computation starts from what the first one leaves. -/
theorem bind {first : Recorded Query Halt Value} {next : Value → Recorded Query Halt Value'}
    {post' : Value' → Prop} (hfirst : first.Silent post) (hnext : ∀ value, post value → (next value).Silent post') :
    (first >>= next).Silent post' := by
  change (first.bind next).Silent post'
  obtain ⟨queries, result⟩ := first
  obtain ⟨rfl, hpost⟩ : queries = [] ∧ ∀ value, result = .ok value → post value := hfirst
  cases result with
  | error reason => exact .halt reason
  | ok value => exact hnext value (hpost value rfl)

/-- A computation that leaves more leaves less. -/
theorem mono {computation : Recorded Query Halt Value} (h : computation.Silent post)
    (hpost : ∀ value, post value → post' value) : computation.Silent post' :=
  ⟨h.1, fun value hvalue => hpost value (h.2 value hvalue)⟩

end Recorded.Silent

/-- The questions of a computation in other terms. -/
def Recorded.translate {Query' : Type u} (f : Query → Query') (computation : Recorded Query Halt Value) :
    Recorded Query' Halt Value := ⟨computation.queries.map f, computation.result⟩

/-- If every question is a sound one, then all of them are safe, the computation does not stop, and its
value satisfies `post`. -/
def Recorded.Guards (sound safe : Query → Prop) (post : Value → Prop)
    (computation : Recorded Query Halt Value) : Prop :=
  (∀ query ∈ computation.queries, sound query) →
    (∀ query ∈ computation.queries, safe query) ∧ ∃ value, computation.result = .ok value ∧ post value

namespace Recorded.Guards

variable {sound safe : Query → Prop} {post post' : Value → Prop}

/-- A value without a question. -/
theorem pure {value : Value} (h : post value) :
    (Pure.pure value : Recorded Query Halt Value).Guards sound safe post := by
  intro _
  refine ⟨?_, value, rfl, h⟩
  intro query hquery
  cases hquery

/-- A question that is safe if it is sound. -/
theorem note {query : Query} (h : sound query → safe query) :
    (Recorded.note query : Recorded Query Halt Unit).Guards sound safe fun _ => sound query := by
  intro hsound
  have hquery := hsound query List.mem_cons_self
  refine ⟨?_, (), rfl, hquery⟩
  intro other hother
  rw [List.mem_singleton.mp hother]
  exact h hquery

/-- What the first computation guarantees is what the second one may rely on. -/
theorem bind {first : Recorded Query Halt Value} {next : Value → Recorded Query Halt Value'}
    {post' : Value' → Prop} (hfirst : first.Guards sound safe post)
    (hnext : ∀ value, post value → (next value).Guards sound safe post') :
    (first >>= next).Guards sound safe post' := by
  change (first.bind next).Guards sound safe post'
  obtain ⟨queries, result⟩ := first
  cases result with
  | error reason =>
    intro hsound
    obtain ⟨-, value, hvalue, -⟩ := hfirst hsound
    cases hvalue
  | ok value =>
    intro hsound
    obtain ⟨hsafe, value', hvalue, hpost⟩ :=
      hfirst fun query hquery => hsound query (List.mem_append_left _ hquery)
    cases hvalue
    obtain ⟨hsafe', hrest⟩ :=
      hnext value hpost fun query hquery => hsound query (List.mem_append_right _ hquery)
    refine ⟨?_, hrest⟩
    intro query hquery
    cases List.mem_append.mp hquery with
    | inl h => exact hsafe query h
    | inr h => exact hsafe' query h

/-- A computation that guarantees more guarantees less. -/
theorem mono {computation : Recorded Query Halt Value} (h : computation.Guards sound safe post)
    (hpost : ∀ value, post value → post' value) : computation.Guards sound safe post' := by
  intro hsound
  obtain ⟨hsafe, value, hvalue, hvaluePost⟩ := h hsound
  exact ⟨hsafe, value, hvalue, hpost value hvaluePost⟩

/-- A loop whose rounds keep an invariant and bring a measure down leaves in time. -/
theorem loop {State : Type v} {reason : Halt} {round : State → Recorded Query Halt (State ⊕ Value)}
    {invariant : State → Prop} (measure : State → ℕ)
    (hround : ∀ state, invariant state → (round state).Guards sound safe
      (Sum.elim (fun state' => invariant state' ∧ measure state' < measure state) post))
    {rounds : ℕ} {state : State} (hstate : invariant state) (hrounds : measure state < rounds) :
    (Recorded.loop reason round rounds state).Guards sound safe post := by
  induction rounds generalizing state with
  | zero => exact absurd hrounds (Nat.not_lt_zero _)
  | succ rounds ih =>
    refine bind (hround state hstate) fun next hnext => ?_
    cases next with
    | inl state' => exact ih hnext.1 (Nat.lt_of_lt_of_le hnext.2 (Nat.le_of_lt_succ hrounds))
    | inr value => exact pure hnext

/-- What is known of the value in another way. -/
theorem and_result {computation : Recorded Query Halt Value} {post' : Value → Prop}
    (h : computation.Guards sound safe post) (h' : ∀ value, computation.result = .ok value → post' value) :
    computation.Guards sound safe fun value => post value ∧ post' value := by
  intro hsound
  obtain ⟨hsafe, value, hvalue, hpost⟩ := h hsound
  exact ⟨hsafe, value, hvalue, hpost, h' value hvalue⟩

/-- Questions in other terms. -/
theorem translate {Query' : Type u} {f : Query → Query'} {sound' safe' : Query' → Prop}
    {computation : Recorded Query Halt Value}
    (h : computation.Guards (fun query => sound' (f query)) (fun query => safe' (f query)) post) :
    (computation.translate f).Guards sound' safe' post := by
  intro hsound
  obtain ⟨hsafe, hvalue⟩ := h fun query hquery => hsound (f query) (List.mem_map_of_mem hquery)
  refine ⟨?_, hvalue⟩
  intro query hquery
  obtain ⟨original, horiginal, rfl⟩ := List.mem_map.mp hquery
  exact hsafe original horiginal

end Recorded.Guards

/-- The computation does not stop, and its value satisfies `post`. -/
def Recorded.Ends (post : Value → Prop) (computation : Recorded Query Halt Value) : Prop :=
  ∃ value, computation.result = .ok value ∧ post value

namespace Recorded.Ends

variable {post post' : Value → Prop}

/-- A value without a question. -/
theorem pure {value : Value} (h : post value) : (Pure.pure value : Recorded Query Halt Value).Ends post :=
  ⟨value, rfl, h⟩

/-- A question whose answer nothing depends on. -/
theorem note (query : Query) : (Recorded.note query : Recorded Query Halt Unit).Ends fun _ => True :=
  ⟨(), rfl, trivial⟩

/-- The second computation starts from what the first one ends with. -/
theorem bind {first : Recorded Query Halt Value} {next : Value → Recorded Query Halt Value'}
    {post' : Value' → Prop} (hfirst : first.Ends post) (hnext : ∀ value, post value → (next value).Ends post') :
    (first >>= next).Ends post' := by
  obtain ⟨value, hvalue, hpost⟩ := hfirst
  obtain ⟨value', hvalue', hpost'⟩ := hnext value hpost
  exact ⟨value', (Recorded.result_bind hvalue next).trans hvalue', hpost'⟩

/-- A computation that ends with more ends with less. -/
theorem mono {computation : Recorded Query Halt Value} (h : computation.Ends post)
    (hpost : ∀ value, post value → post' value) : computation.Ends post' := by
  obtain ⟨value, hvalue, hvaluePost⟩ := h
  exact ⟨value, hvalue, hpost value hvaluePost⟩

/-- What is known of the end in two ways. -/
theorem and {computation : Recorded Query Halt Value} (h : computation.Ends post) (h' : computation.Ends post') :
    computation.Ends fun value => post value ∧ post' value := by
  obtain ⟨value, hvalue, hpost⟩ := h
  obtain ⟨value', hvalue', hpost'⟩ := h'
  obtain rfl : value = value' := Except.ok.inj (hvalue.symm.trans hvalue')
  exact ⟨value, hvalue, hpost, hpost'⟩

/-- What a computation ends with in any case it guarantees. -/
theorem guards {sound : Query → Prop} {computation : Recorded Query Halt Value} (h : computation.Ends post) :
    computation.Guards sound (fun _ => True) post := fun _ => ⟨fun _ _ => trivial, h⟩

/-- Questions in other terms. -/
theorem translate {Query' : Type u} (f : Query → Query') {computation : Recorded Query Halt Value}
    (h : computation.Ends post) : (computation.translate f).Ends post := h

end Recorded.Ends

/-- The computation ends, and its value satisfies `post` together with what `view` shows of its questions. -/
def Recorded.Yields {Output : Type u} (view : Query → List Output) (post : Value → List Output → Prop)
    (computation : Recorded Query Halt Value) : Prop :=
  ∃ value, computation.result = .ok value ∧ post value (computation.queries.flatMap view)

namespace Recorded.Yields

variable {Output : Type u} {view : Query → List Output} {post : Value → List Output → Prop}

/-- A value without a question. -/
theorem pure {value : Value} (h : post value []) :
    (Pure.pure value : Recorded Query Halt Value).Yields view post := ⟨value, rfl, h⟩

/-- The second computation starts from what the first one ends with, and shows more behind it. -/
theorem bind {first : Recorded Query Halt Value} {next : Value → Recorded Query Halt Value'}
    {post' : Value' → List Output → Prop} (hfirst : first.Yields view post)
    (hnext : ∀ value output, post value output →
      (next value).Yields view fun value' output' => post' value' (output ++ output')) :
    (first >>= next).Yields view post' := by
  obtain ⟨value, hvalue, hpost⟩ := hfirst
  obtain ⟨value', hvalue', hpost'⟩ := hnext value _ hpost
  refine ⟨value', (Recorded.result_bind hvalue next).trans hvalue', ?_⟩
  have hqueries : (first >>= next).queries = first.queries ++ (next value).queries := by
    change (first.bind next).queries = _
    rw [Recorded.bind, hvalue]
  rw [hqueries, List.flatMap_append]
  exact hpost'

/-- A question, and what is shown of it. -/
theorem note_bind {Value : Type} {post : Value → List Output → Prop} (query : Query)
    {next : Unit → Recorded Query Halt Value}
    (hnext : (next ()).Yields view fun value output => post value (view query ++ output)) :
    (Recorded.note query >>= next).Yields view post := by
  obtain ⟨value, hvalue, hpost⟩ := hnext
  exact ⟨value, hvalue, hpost⟩

/-- Nothing is shown of the questions. -/
theorem of_ends {quiet : Value → Prop} {computation : Recorded Query Halt Value} (h : computation.Ends quiet)
    (hsilent : ∀ query ∈ computation.queries, view query = []) :
    computation.Yields view fun value output => quiet value ∧ output = [] := by
  obtain ⟨value, hvalue, hquiet⟩ := h
  exact ⟨value, hvalue, hquiet, List.flatMap_eq_nil_iff.mpr hsilent⟩

/-- A computation that shows nothing goes first. -/
theorem silent_bind {quiet : Value → Prop} {first : Recorded Query Halt Value}
    {next : Value → Recorded Query Halt Value'} {post' : Value' → List Output → Prop}
    (hfirst : first.Yields view fun value output => quiet value ∧ output = [])
    (hnext : ∀ value, quiet value → (next value).Yields view post') : (first >>= next).Yields view post' := by
  refine bind hfirst ?_
  rintro value _ ⟨hquiet, rfl⟩
  exact hnext value hquiet

/-- A computation that ends with more ends with less. -/
theorem mono {computation : Recorded Query Halt Value} {post' : Value → List Output → Prop}
    (h : computation.Yields view post) (hpost : ∀ value output, post value output → post' value output) :
    computation.Yields view post' := by
  obtain ⟨value, hvalue, hvaluePost⟩ := h
  exact ⟨value, hvalue, hpost value _ hvaluePost⟩

/-- Questions in other terms. -/
theorem translate {Query' : Type u} {view : Query' → List Output} (f : Query → Query')
    {computation : Recorded Query Halt Value} (h : computation.Yields (fun query => view (f query)) post) :
    (computation.translate f).Yields view post := by
  obtain ⟨value, hvalue, hpost⟩ := h
  refine ⟨value, hvalue, ?_⟩
  change post value ((computation.queries.map f).flatMap view)
  rwa [List.flatMap_map]

end Recorded.Yields

end Ftape.Algebra
