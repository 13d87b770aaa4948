/-!
# Actions

An action reads and changes a state and may fail.  A failed action keeps the
changes that it made before it failed: nothing is rolled back.
-/

namespace SourceShelf

/-- A step over a state `σ` that gives an `α` or fails with an `ε`. -/
abbrev Action (σ ε α : Type) := ExceptT ε (StateM σ) α

namespace Action

variable {σ τ ε ε' α : Type}

/-- The result of an action and the state that it leaves. -/
def runOn (a : Action σ ε α) (s : σ) : Except ε α × σ := a s

/-- The action that a function from states to results and states is. -/
def ofFunction (f : σ → Except ε α × σ) : Action σ ε α := f

/-- An action with other errors. -/
def withError (f : ε → ε') (a : Action σ ε α) : Action σ ε' α :=
  ofFunction fun s =>
    let (r, s') := a.runOn s
    (r.mapError f, s')

/-- An action on a part of a state. -/
def within (get : σ → τ) (set : τ → σ → σ) (a : Action τ ε α) : Action σ ε α :=
  ofFunction fun s =>
    let (r, t) := a.runOn (get s)
    (r, set t s)

/-- The action that has a given outcome and leaves the state as it is. -/
def ofExcept (r : Except ε α) : Action σ ε α := ofFunction fun s => (r, s)

/-- What an action leads to, as a value: the action itself then never fails. -/
def outcome (a : Action σ ε α) : Action σ ε' (Except ε α) :=
  ofFunction fun s =>
    let (r, s') := a.runOn s
    (.ok r, s')

end Action

end SourceShelf
