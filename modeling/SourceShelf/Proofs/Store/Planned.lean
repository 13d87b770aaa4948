import SourceShelf.Proofs.Action
import SourceShelf.Proofs.Store.Change
import SourceShelf.Proofs.Store.Rows

/-!
# Actions with a planned change

An action is planned if the change that it makes of a store, and all else that
it leads to, follows from the rest of its state: from one such rest there is one
whole change.  An action that succeeds makes the whole change, one that fails
makes a part of it.  So an action that failed can be done again, as if it had
never been tried.

* `Planned`: the notion; the rules behind it follow the way actions are built.
* `Planned.redo`: to do an action again after a failure.
-/

namespace SourceShelf

open SourceShelf.Action

/-- The store in a state, and what an action may look at besides. -/
structure View (σ κ : Type) where
  rest : σ → κ
  store : σ → Store

/-- What an action does to the store, and what else it leads to, follows from
the rest of the state. -/
def Planned {σ κ ε α : Type} (v : View σ κ) (a : Action σ ε α) : Prop :=
  ∀ k, ∃ (whole : StoreChange) (out : Option (α × κ)), ∀ s, v.rest s = k →
    match a.runOn s with
    | (.ok x, s') => out = some (x, v.rest s') ∧ v.store s' = whole.apply (v.store s)
    | (.error _, s') => ∃ part, part ≤ whole ∧ v.store s' = part.apply (v.store s)

section Rules

variable {σ τ κ ι ε ε' α β : Type} {v : View σ κ} {w : View τ ι}

/-- An action that failed and is done again leads to what it leads to when it is
done at once. -/
theorem Planned.redo {a : Action σ ε α} (h : Planned v a) {s s' t t' u u' : σ} {e : ε} {x y : α}
    (hs : a.runOn s = (.error e, s')) (ht : a.runOn t = (.ok x, t')) (hu : a.runOn u = (.ok y, u'))
    (htrest : v.rest t = v.rest s) (htstore : v.store t = v.store s')
    (hurest : v.rest u = v.rest s) (hustore : v.store u = v.store s) :
    x = y ∧ v.rest t' = v.rest u' ∧ v.store t' = v.store u' := by
  obtain ⟨whole, out, ha⟩ := h (v.rest s)
  have hfailed := ha s rfl
  have hagain := ha t htrest
  have honce := ha u hurest
  rw [hs] at hfailed
  rw [ht] at hagain
  rw [hu] at honce
  obtain ⟨part, hpart, hs'⟩ := hfailed
  have hout := Option.some.inj (hagain.1.symm.trans honce.1)
  refine ⟨congrArg Prod.fst hout, congrArg Prod.snd hout, ?_⟩
  rw [hagain.2, honce.2, htstore, hs', hustore]
  exact StoreChange.apply_apply_of_le hpart _

/-- An action that succeeds twice leads to the same both times. -/
theorem Planned.agree {a : Action σ ε α} (h : Planned v a) {s s' t t' : σ} {x y : α}
    (hs : a.runOn s = (.ok x, s')) (ht : a.runOn t = (.ok y, t')) (hrest : v.rest s = v.rest t)
    (hstore : v.store s = v.store t) :
    x = y ∧ v.rest s' = v.rest t' ∧ v.store s' = v.store t' := by
  obtain ⟨whole, out, ha⟩ := h (v.rest t)
  have hfirst := ha s hrest
  have hsecond := ha t rfl
  rw [hs] at hfirst
  rw [ht] at hsecond
  have hout := Option.some.inj (hfirst.1.symm.trans hsecond.1)
  refine ⟨congrArg Prod.fst hout, congrArg Prod.snd hout, ?_⟩
  rw [hfirst.2, hsecond.2, hstore]

theorem planned_pure (x : α) : Planned v (pure x : Action σ ε α) := by
  intro k
  refine ⟨.nothing, some (x, k), fun s hs => ?_⟩
  rw [runOn_pure]
  exact ⟨by rw [hs], (StoreChange.nothing_apply _).symm⟩

theorem planned_throw (e : ε) : Planned v (throw e : Action σ ε α) := by
  intro k
  refine ⟨.nothing, none, fun s _ => ?_⟩
  rw [runOn_throw]
  exact ⟨.nothing, StoreChange.le_refl _, (StoreChange.nothing_apply _).symm⟩

/-- A change of the rest of the state. -/
theorem planned_modify {f : σ → σ} (g : κ → κ) (hrest : ∀ s, v.rest (f s) = g (v.rest s))
    (hstore : ∀ s, v.store (f s) = v.store s) : Planned v (modify f : Action σ ε Unit) := by
  intro k
  refine ⟨.nothing, some ((), g k), fun s hs => ?_⟩
  rw [runOn_modify]
  exact ⟨by rw [hrest, hs], by rw [hstore, StoreChange.nothing_apply]⟩

theorem planned_bind {a : Action σ ε α} {f : α → Action σ ε β} (ha : Planned v a)
    (hf : ∀ x, Planned v (f x)) : Planned v (a >>= f) := by
  intro k
  obtain ⟨first, out, hfirst⟩ := ha k
  rcases out with _ | ⟨x, k'⟩
  · refine ⟨first, none, fun s hs => ?_⟩
    have h := hfirst s hs
    rcases hrun : a.runOn s with ⟨e | x, s'⟩ <;> rw [hrun] at h
    · rw [runOn_bind_of_error hrun]
      exact h
    · exact nomatch h.1
  · obtain ⟨second, out', hsecond⟩ := hf x k'
    refine ⟨first.andThen second, out', fun s hs => ?_⟩
    have h := hfirst s hs
    rcases hrun : a.runOn s with ⟨e | x, s'⟩ <;> rw [hrun] at h
    · rw [runOn_bind_of_error hrun]
      obtain ⟨part, hpart, hstore⟩ := h
      exact ⟨part, StoreChange.le_andThen_of_le hpart second, hstore⟩
    · obtain ⟨hout, hstore⟩ := h
      cases hout
      rw [runOn_bind_of_ok hrun]
      have h' := hsecond s' rfl
      rcases hrun' : (f x).runOn s' with ⟨e | y, s''⟩ <;> rw [hrun'] at h'
      · obtain ⟨part, hpart, hstore'⟩ := h'
        refine ⟨first.andThen part, StoreChange.andThen_le_andThen first hpart, ?_⟩
        rw [hstore', hstore, StoreChange.andThen_apply]
      · exact ⟨h'.1, by rw [h'.2, hstore, StoreChange.andThen_apply]⟩

/-- An action that first looks at the state, but at no more than the rest. -/
theorem planned_get {f : σ → Action σ ε α} (hrest : ∀ s t, v.rest s = v.rest t → f s = f t)
    (hf : ∀ s, Planned v (f s)) : Planned v (get >>= f) := by
  intro k
  by_cases hk : ∃ t, v.rest t = k
  · obtain ⟨t, rfl⟩ := hk
    obtain ⟨whole, out, h⟩ := hf t (v.rest t)
    refine ⟨whole, out, fun s hs => ?_⟩
    rw [runOn_bind_of_ok (runOn_get s), hrest s t hs]
    exact h s hs
  · exact ⟨.nothing, none, fun s hs => absurd ⟨s, hs⟩ hk⟩

theorem planned_forM {f : β → Action σ ε Unit} (hf : ∀ b, Planned v (f b)) (xs : List β) :
    Planned v (xs.forM f) := by
  induction xs with
  | nil => exact planned_pure ()
  | cons x xs ih => exact planned_bind (hf x) fun _ => ih

theorem planned_discard {a : Action σ ε α} (h : Planned v a) : Planned v (discard a) := by
  intro k
  obtain ⟨whole, out, ha⟩ := h k
  refine ⟨whole, out.map fun p => ((), p.2), fun s hs => ?_⟩
  have := ha s hs
  rw [runOn_discard]
  rcases hrun : a.runOn s with ⟨e | x, s'⟩ <;> rw [hrun] at this
  · exact this
  · exact ⟨by rw [this.1]; rfl, this.2⟩

theorem planned_withError {f : ε → ε'} {a : Action σ ε α} (h : Planned v a) :
    Planned v (a.withError f) := by
  intro k
  obtain ⟨whole, out, ha⟩ := h k
  refine ⟨whole, out, fun s hs => ?_⟩
  have := ha s hs
  rw [runOn_withError]
  rcases hrun : a.runOn s with ⟨e | x, s'⟩ <;> rw [hrun] at this <;> exact this

/-- An action on the part of a state that holds the store. -/
theorem planned_within {get : τ → σ} {set : σ → τ → τ} {a : Action σ ε α} (h : Planned v a)
    (part : ι → κ) (merge : κ → ι → ι) (hget : ∀ t, v.rest (get t) = part (w.rest t))
    (hset : ∀ s t, w.rest (set s t) = merge (v.rest s) (w.rest t))
    (hstore : ∀ t, w.store t = v.store (get t)) (hstore' : ∀ s t, w.store (set s t) = v.store s) :
    Planned w (a.within get set) := by
  intro k
  obtain ⟨whole, out, ha⟩ := h (part k)
  refine ⟨whole, out.map fun p => (p.1, merge p.2 k), fun t ht => ?_⟩
  have := ha (get t) (by rw [hget, ht])
  rw [runOn_within]
  rcases hrun : a.runOn (get t) with ⟨e | x, s'⟩ <;> rw [hrun] at this
  · obtain ⟨done, hdone, hs'⟩ := this
    exact ⟨done, hdone, by rw [hstore', hs', hstore]⟩
  · refine ⟨?_, by rw [hstore', this.2, hstore]⟩
    rw [this.1, Option.map_some, hset, ht]

end Rules

/-! ## Calls of a store -/

namespace Shelf

/-- A store by itself. -/
def view : View Shelf Unit := ⟨fun _ => (), Shelf.store⟩

theorem planned_clear : Planned view clear := by
  intro k
  refine ⟨.clear, some ((), ()), fun s _ => ?_⟩
  obtain ⟨faults, hrun | ⟨e, hrun | hrun⟩⟩ := clear_cases s <;> rw [hrun]
  · exact ⟨rfl, (StoreChange.clear_apply _).symm⟩
  · exact ⟨.nothing, StoreChange.nothing_le _, (StoreChange.nothing_apply _).symm⟩
  · exact ⟨.clear, StoreChange.le_refl _, (StoreChange.clear_apply _).symm⟩

/-- How many rows are removed depends on the store; that they are does not. -/
theorem planned_deleteFile (path : String) : Planned view (discard (deleteFile path)) := by
  intro k
  refine ⟨.deleteFile path, some ((), ()), fun s _ => ?_⟩
  rw [runOn_discard]
  obtain ⟨faults, ⟨n, hrun⟩ | ⟨e, hrun⟩⟩ := deleteFile_cases path s <;> rw [hrun]
  · exact ⟨rfl, (StoreChange.deleteFile_apply _ _).symm⟩
  · exact ⟨.nothing, StoreChange.nothing_le _, (StoreChange.nothing_apply _).symm⟩

theorem planned_upsert (records : List ChunkRecord) : Planned view (upsert records) := by
  intro k
  rcases hrows : Store.rowsOf records with e | rows
  · refine ⟨.nothing, none, fun s _ => ?_⟩
    obtain ⟨faults, ⟨rows, hrows', -⟩ | ⟨e', hrun⟩⟩ := upsert_cases records s
    · rw [hrows] at hrows'
      cases hrows'
    · rw [hrun]
      exact ⟨.nothing, StoreChange.le_refl _, (StoreChange.nothing_apply _).symm⟩
  · refine ⟨.insertAll rows, some (rows.length, ()), fun s _ => ?_⟩
    obtain ⟨faults, ⟨rows', hrows', hrun⟩ | ⟨e', hrun⟩⟩ := upsert_cases records s <;> rw [hrun]
    · obtain rfl : rows = rows' := Except.ok.inj (hrows.symm.trans hrows')
      exact ⟨rfl, (StoreChange.insertAll_apply _ _).symm⟩
    · exact ⟨.nothing, StoreChange.nothing_le _, (StoreChange.nothing_apply _).symm⟩

end Shelf

end SourceShelf
