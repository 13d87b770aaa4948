import SourceShelf.Action

/-!
# Reasoning about actions

`runOn` of every way to build an action is an equation.  `Triple P a Q F` says
what an action does: from a state with `P` it comes to a result and a state
with `Q`, or fails in a state with `F`.  The rules for triples follow the way
actions are built; `triple_forM` is the induction over the items of a list.
`Raises a E` says what an action may fail with, from any state.
-/

namespace SourceShelf.Action

variable {σ τ ε ε' α β : Type}

/-! ## Running -/

@[simp] theorem runOn_pure (x : α) (s : σ) : (pure x : Action σ ε α).runOn s = (.ok x, s) := rfl

@[simp] theorem runOn_throw (e : ε) (s : σ) :
    (throw e : Action σ ε α).runOn s = (.error e, s) := rfl

@[simp] theorem runOn_get (s : σ) : (get : Action σ ε σ).runOn s = (.ok s, s) := rfl

@[simp] theorem runOn_modify (f : σ → σ) (s : σ) :
    (modify f : Action σ ε Unit).runOn s = (.ok (), f s) := rfl

@[simp] theorem runOn_ofExcept (r : Except ε α) (s : σ) : (ofExcept r).runOn s = (r, s) := rfl

@[simp] theorem runOn_within (get : σ → τ) (set : τ → σ → σ) (a : Action τ ε α) (s : σ) :
    (a.within get set).runOn s = ((a.runOn (get s)).1, set (a.runOn (get s)).2 s) := rfl

@[simp] theorem runOn_withError (f : ε → ε') (a : Action σ ε α) (s : σ) :
    (a.withError f).runOn s = ((a.runOn s).1.mapError f, (a.runOn s).2) := rfl

/-- An action goes on with the result of the one before it, or fails with it. -/
theorem runOn_bind (a : Action σ ε α) (f : α → Action σ ε β) (s : σ) :
    (a >>= f).runOn s =
      match a.runOn s with
      | (.ok x, s') => (f x).runOn s'
      | (.error e, s') => (.error e, s') := by
  change ExceptT.bindCont f (a.runOn s).1 (a.runOn s).2 = _
  rcases a.runOn s with ⟨_ | x, s'⟩ <;> rfl

theorem runOn_bind_of_ok {a : Action σ ε α} {s s' : σ} {x : α} (h : a.runOn s = (.ok x, s'))
    (f : α → Action σ ε β) : (a >>= f).runOn s = (f x).runOn s' := by
  rw [runOn_bind, h]

theorem runOn_bind_of_error {a : Action σ ε α} {s s' : σ} {e : ε}
    (h : a.runOn s = (.error e, s')) (f : α → Action σ ε β) :
    (a >>= f).runOn s = (.error e, s') := by
  rw [runOn_bind, h]

theorem runOn_discard (a : Action σ ε α) (s : σ) :
    (discard a).runOn s = ((a.runOn s).1.map fun _ => (), (a.runOn s).2) := by
  change (a >>= fun x => pure (Function.const α () x)).runOn s = _
  rw [runOn_bind]
  rcases a.runOn s with ⟨_ | x, s'⟩ <;> rfl

theorem ext {a b : Action σ ε α} (h : ∀ s, a.runOn s = b.runOn s) : a = b := funext h

theorem discard_withError (f : ε → ε') (a : Action σ ε α) :
    discard (a.withError f) = (discard a).withError f := by
  refine ext fun s => ?_
  rw [runOn_discard, runOn_withError, runOn_withError, runOn_discard]
  rcases a.runOn s with ⟨_ | x, s'⟩ <;> rfl

theorem discard_within (get : σ → τ) (set : τ → σ → σ) (a : Action τ ε α) :
    discard (a.within get set) = (discard a).within get set := by
  refine ext fun s => ?_
  rw [runOn_discard, runOn_within, runOn_within, runOn_discard]

/-! ## Triples -/

/-- What an action does from a state with `P`: it succeeds with `Q`, or fails
with `F`. -/
def Triple (P : σ → Prop) (a : Action σ ε α) (Q : α → σ → Prop) (F : σ → Prop) : Prop :=
  ∀ s, P s →
    match a.runOn s with
    | (.ok x, s') => Q x s'
    | (.error _, s') => F s'

section Rules

variable {P P' : σ → Prop} {Q Q' : α → σ → Prop} {F F' : σ → Prop}

theorem Triple.of_ok {a : Action σ ε α} (h : Triple P a Q F) {s s' : σ} {x : α} (hs : P s)
    (hr : a.runOn s = (.ok x, s')) : Q x s' := by
  have := h s hs
  rwa [hr] at this

theorem Triple.of_error {a : Action σ ε α} (h : Triple P a Q F) {s s' : σ} {e : ε} (hs : P s)
    (hr : a.runOn s = (.error e, s')) : F s' := by
  have := h s hs
  rwa [hr] at this

/-- A triple from what the action does when it succeeds and when it fails. -/
theorem triple_intro {a : Action σ ε α}
    (hok : ∀ s s' x, P s → a.runOn s = (.ok x, s') → Q x s')
    (herror : ∀ s s' e, P s → a.runOn s = (.error e, s') → F s') : Triple P a Q F := by
  intro s hs
  rcases h : a.runOn s with ⟨e | x, s'⟩
  · exact herror s s' e hs h
  · exact hok s s' x hs h

theorem Triple.conseq {a : Action σ ε α} (h : Triple P a Q F) (hP : ∀ s, P' s → P s)
    (hQ : ∀ x s, Q x s → Q' x s) (hF : ∀ s, F s → F' s) : Triple P' a Q' F' :=
  triple_intro (fun _ _ _ hs hr => hQ _ _ (h.of_ok (hP _ hs) hr))
    fun _ _ _ hs hr => hF _ (h.of_error (hP _ hs) hr)

/-- A fact that is not about the state stays. -/
theorem Triple.and_const {a : Action σ ε α} (h : Triple P a Q F) (c : Prop) :
    Triple (fun s => P s ∧ c) a (fun x s => Q x s ∧ c) F :=
  triple_intro (fun _ _ _ hs hr => ⟨h.of_ok hs.1 hr, hs.2⟩) fun _ _ _ hs hr => h.of_error hs.1 hr

theorem triple_pure {x : α} (h : ∀ s, P s → Q x s) : Triple P (pure x : Action σ ε α) Q F := h

theorem triple_throw {e : ε} (h : ∀ s, P s → F s) : Triple P (throw e : Action σ ε α) Q F := h

theorem triple_modify {R : Unit → σ → Prop} {f : σ → σ} (h : ∀ s, P s → R () (f s)) :
    Triple P (modify f : Action σ ε Unit) R F := h

/-- An action, then what goes on with its result. -/
theorem triple_bind {a : Action σ ε α} {f : α → Action σ ε β} {R : β → σ → Prop}
    (ha : Triple P a Q F) (hf : ∀ x, Triple (Q x) (f x) R F) : Triple P (a >>= f) R F := by
  intro s hs
  rcases h : a.runOn s with ⟨e | x, s'⟩
  · rw [runOn_bind_of_error h]
    exact ha.of_error hs h
  · rw [runOn_bind_of_ok h]
    exact hf x s' (ha.of_ok hs h)

/-- An action that first looks at the state. -/
theorem triple_get {f : σ → Action σ ε β} {R : β → σ → Prop}
    (hf : ∀ s, Triple (fun t => t = s ∧ P t) (f s) R F) : Triple P (get >>= f) R F :=
  fun s hs => hf s s ⟨rfl, hs⟩

theorem triple_discard {a : Action σ ε α} {R : Unit → σ → Prop}
    (h : Triple P a (fun _ => R ()) F) : Triple P (discard a) R F := by
  intro s hs
  have := h s hs
  rw [runOn_discard]
  rcases hr : a.runOn s with ⟨e | x, s'⟩ <;> rw [hr] at this <;> exact this

theorem triple_withError {a : Action σ ε α} {f : ε → ε'} (h : Triple P a Q F) :
    Triple P (a.withError f) Q F := by
  intro s hs
  have := h s hs
  rw [runOn_withError]
  rcases hr : a.runOn s with ⟨e | x, s'⟩ <;> rw [hr] at this <;> exact this

/-- An action on a part of a state changes that part alone. -/
theorem triple_within {get : τ → σ} {set : σ → τ → τ} {a : Action σ ε α} {P : τ → Prop}
    {Q : α → τ → Prop} {F : τ → Prop}
    (h : ∀ t, P t → Triple (fun s => s = get t) a (fun x s => Q x (set s t)) fun s => F (set s t)) :
    Triple P (a.within get set) Q F := by
  intro t ht
  have := h t ht (get t) rfl
  rw [runOn_within]
  rcases hr : a.runOn (get t) with ⟨e | x, s'⟩ <;> rw [hr] at this <;> exact this

/-- One action for each item of a list, in their order.  `I done` holds when the
items `done` have had their turn. -/
theorem triple_forM (xs : List β) {f : β → Action σ ε Unit} {I : List β → σ → Prop}
    (h : ∀ done x rest, xs = done ++ x :: rest →
      Triple (I done) (f x) (fun _ => I (done ++ [x])) F) :
    Triple (I []) (xs.forM f) (fun _ => I xs) F := by
  suffices ∀ done rest, xs = done ++ rest →
      Triple (I done) (rest.forM f) (fun _ => I xs) F from this [] xs rfl
  intro done rest
  induction rest generalizing done with
  | nil =>
    intro hxs
    rw [List.append_nil] at hxs
    exact triple_pure fun s hs => hxs ▸ hs
  | cons x rest ih =>
    intro hxs
    exact triple_bind (h done x rest hxs) fun _ => ih (done ++ [x]) (by simp [hxs])

end Rules

/-! ## Errors -/

/-- All errors of an action have `E`. -/
def Raises (a : Action σ ε α) (E : ε → Prop) : Prop :=
  ∀ s s' e, a.runOn s = (.error e, s') → E e

section Errors

variable {E : ε → Prop}

theorem raises_pure (x : α) : Raises (pure x : Action σ ε α) E := fun _ _ _ h => nomatch h

theorem raises_throw {e : ε} (h : E e) : Raises (throw e : Action σ ε α) E := by
  intro s s' e' hr
  cases hr
  exact h

theorem raises_modify (f : σ → σ) : Raises (modify f : Action σ ε Unit) E :=
  fun _ _ _ h => nomatch h

theorem raises_get : Raises (get : Action σ ε σ) E := fun _ _ _ h => nomatch h

theorem raises_bind {a : Action σ ε α} {f : α → Action σ ε β} (ha : Raises a E)
    (hf : ∀ x, Raises (f x) E) : Raises (a >>= f) E := by
  intro s s' e hr
  rcases h : a.runOn s with ⟨e' | x, t⟩
  · rw [runOn_bind_of_error h] at hr
    cases hr
    exact ha _ _ _ h
  · rw [runOn_bind_of_ok h] at hr
    exact hf x t s' e hr

theorem raises_discard {a : Action σ ε α} (h : Raises a E) : Raises (discard a) E := by
  intro s s' e hr
  rw [runOn_discard] at hr
  rcases ha : a.runOn s with ⟨e' | x, t⟩ <;> rw [ha] at hr <;> cases hr
  exact h _ _ _ ha

theorem raises_withError {a : Action σ ε α} {f : ε → ε'} {E : ε' → Prop}
    (h : Raises a fun e => E (f e)) : Raises (a.withError f) E := by
  intro s s' e hr
  rw [runOn_withError] at hr
  rcases ha : a.runOn s with ⟨e' | x, t⟩ <;> rw [ha] at hr <;> cases hr
  exact h _ _ _ ha

theorem raises_within {get : τ → σ} {set : σ → τ → τ} {a : Action σ ε α} (h : Raises a E) :
    Raises (a.within get set) E := by
  intro s s' e hr
  rw [runOn_within] at hr
  rcases ha : a.runOn (get s) with ⟨e' | x, t⟩ <;> rw [ha] at hr <;> cases hr
  exact h _ _ _ ha

theorem raises_forM {xs : List β} {f : β → Action σ ε Unit} (h : ∀ x ∈ xs, Raises (f x) E) :
    Raises (xs.forM f) E := by
  induction xs with
  | nil => exact raises_pure ()
  | cons x xs ih =>
    exact raises_bind (h x List.mem_cons_self) fun _ =>
      ih fun y hy => h y (List.mem_cons_of_mem _ hy)

theorem Raises.imp {a : Action σ ε α} {E' : ε → Prop} (h : Raises a E) (hE : ∀ e, E e → E' e) :
    Raises a E' := fun s s' e hr => hE e (h s s' e hr)

end Errors

end SourceShelf.Action
