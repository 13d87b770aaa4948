import SourceShelf.Java.Automaton
import SourceShelf.Proofs.Java.Forms

/-!
# What a reader state holds

`State.ofKernel` makes a state from its items.  `State.items` names the items
it works with, those of the kernel and those of the phrases that may start
there; `State.complete_ofKernel` and `State.behind_ofKernel` read the state from
them.  `State.mem_predict` says that what a prediction once holds it keeps.
-/

namespace SourceShelf.Java

namespace TokenSet

@[simp] theorem contains_union (a b : TokenSet) (t : Token) :
    (a.union b).contains t = (a.contains t || b.contains t) := by
  simp [union, contains]

@[simp] theorem contains_empty (t : Token) : empty.contains t = false := by
  simp [empty, contains]

@[simp] theorem contains_single (t : Token) : (single t).contains t = true := by
  simp [single, contains]

end TokenSet

namespace Symbol

theorem index_lt_count (x : Symbol) : x.index < count := by
  cases x with
  | token t => cases t <;> decide
  | phrase p =>
    have := p.ctorIdx_lt_count
    simp only [index, count]
    omega

end Symbol

/-! ## Items -/

namespace Item

/-- The items behind a symbol, of those that one item gives. -/
def behind (x : Symbol) (i : Item) : List Item :=
  ((forms.entry i.form).moves.toList.filter (·.1.index = x.index)).map fun m =>
    { form := m.2, taken := i.taken + 1, follow := i.follow }

/-- Items that differ only in the words behind them are joined to one. -/
theorem foldl_insert {l : List Item} {j : Item}
    (h : ∀ i ∈ l, i.form = j.form ∧ i.taken = j.taken) :
    ∃ follow : TokenSet, l.foldl (fun found i => i.insert found) [j] = [{ j with follow }] ∧
      ∀ t, j.follow.contains t = true → follow.contains t = true := by
  induction l generalizing j with
  | nil => exact ⟨j.follow, rfl, fun _ ht => ht⟩
  | cons i l ih =>
    have hi := h i (by simp)
    have hstep : i.insert [j] = [{ j with follow := j.follow.union i.follow }] := by
      simp [insert, hi]
    obtain ⟨follow, hfold, hfollow⟩ := ih (j := { j with follow := j.follow.union i.follow })
      fun i' hi' => h i' (by simp [hi'])
    exact ⟨follow, by rw [List.foldl_cons, hstep, hfold],
      fun t ht => hfollow t (by simp [ht])⟩

end Item

/-! ## Predictions -/

namespace State

/-- In what a prediction has found so far, a phrase may start and a word may
come behind it. -/
structure Holds (p : Phrase) (t : Token) (sets : Array TokenSet) (seen : Array Bool) : Prop where
  follow : (sets[p.ctorIdx]?.getD .empty).contains t = true
  started : seen[p.ctorIdx]?.getD false = true

namespace Holds

variable {p : Phrase} {t : Token} {sets : Array TokenSet} {seen : Array Bool}

theorem set (h : Holds p t sets seen) (k : Nat) (more : TokenSet) :
    Holds p t (sets.setIfInBounds k ((sets[k]?.getD .empty).union more))
      (seen.setIfInBounds k true) := by
  obtain ⟨hfollow, hstarted⟩ := h
  by_cases hk : k = p.ctorIdx
  · subst hk
    have hsets : p.ctorIdx < sets.size := by
      by_contra hout
      simp [Array.getElem?_eq_none (Nat.le_of_not_lt hout)] at hfollow
    have hseen : p.ctorIdx < seen.size := by
      by_contra hout
      simp [Array.getElem?_eq_none (Nat.le_of_not_lt hout)] at hstarted
    rw [Array.getElem?_eq_getElem hsets, Option.getD_some] at hfollow
    exact ⟨by simp [hsets, hfollow], by simp [hseen]⟩
  · exact ⟨by simpa [Array.getElem?_setIfInBounds, hk] using hfollow,
      by simpa [Array.getElem?_setIfInBounds, hk] using hstarted⟩

theorem after_spreadTo {found : List Phrase × Array TokenSet × Array Bool}
    (h : Holds p t found.2.1 found.2.2) (own : TokenSet) (c : Corner) :
    Holds p t (spreadTo own found c).2.1 (spreadTo own found c).2.2 := by
  obtain ⟨work, sets, seen⟩ := found
  rw [spreadTo]
  generalize (if c.isOpen then c.follow.union own else c.follow) = more
  split
  · exact h
  · exact h.set _ _

/-- Spreading words never takes one away. -/
theorem after_spread (h : Holds p t sets seen) (n : Nat) (work : List Phrase) :
    Holds p t (spread n work sets seen).1 (spread n work sets seen).2 := by
  induction n generalizing work sets seen with
  | zero => exact h
  | succ n ih =>
    cases work with
    | nil => simpa [spread] using h
    | cons q work =>
      have hround := List.foldlRecOn (forms.cornersOf q).toList
        (spreadTo (sets[q.ctorIdx]?.getD .empty)) (b := (work, sets, seen))
        (motive := fun found => Holds p t found.2.1 found.2.2) h
        fun _ h c _ => h.after_spreadTo _ c
      rw [spread, ← Array.foldl_toList]
      generalize List.foldl _ _ _ = found at hround ⊢
      obtain ⟨work', sets', seen'⟩ := found
      exact ih hround work'

end Holds

/-- An item that goes on with a phrase lets it start, with the words behind the
item behind it if nothing more has to come. -/
theorem mem_predict {i : Item} {p : Phrase} {n : Nat} {t : Token}
    (hmoves : (forms.entry i.form).moves = #[(.phrase p, n)])
    (hcomplete : (forms.entry n).complete = true) (ht : i.follow.contains t = true) :
    ∃ follow : TokenSet, (p, follow) ∈ predict [i] ∧ follow.contains t = true := by
  have hp := p.ctorIdx_lt_count
  rw [predict, List.foldl_cons, List.foldl_nil, hmoves, ← Array.foldl_toList, List.foldl_cons,
    List.foldl_nil, startAt, if_pos hcomplete]
  have hstart : Holds p t
      ((Array.replicate Phrase.count TokenSet.empty).setIfInBounds p.ctorIdx
        (((Array.replicate Phrase.count TokenSet.empty)[p.ctorIdx]?.getD .empty).union
          ((forms.entry n).first.union i.follow)))
      ((Array.replicate Phrase.count false).setIfInBounds p.ctorIdx true) :=
    ⟨by simp [hp, ht], by simp [hp]⟩
  obtain ⟨hfollow, hstarted⟩ := hstart.after_spread spreadBound [p]
  exact ⟨_, List.mem_filterMap.mpr ⟨p, p.mem_all, by rw [if_pos hstarted]⟩, hfollow⟩

/-- Items that have nothing to go on with let nothing start. -/
theorem predict_of_moves_empty {kernel : List Item}
    (hmoves : ∀ i ∈ kernel, (forms.entry i.form).moves = #[]) : predict kernel = [] := by
  have hstart : ∀ found : List Phrase × Array TokenSet × Array Bool,
      kernel.foldl (fun found i => (forms.entry i.form).moves.foldl (startAt i) found) found =
        found := by
    induction kernel with
    | nil => exact fun _ => rfl
    | cons i kernel ih =>
      intro found
      rw [List.foldl_cons, hmoves i List.mem_cons_self, ← Array.foldl_toList, List.foldl_nil]
      exact ih (fun j hj => hmoves j (List.mem_cons_of_mem i hj)) found
  have hspread : ∀ n (sets : Array TokenSet) (seen : Array Bool),
      spread n [] sets seen = (sets, seen) := by
    intro n sets seen
    cases n <;> simp [spread]
  rw [predict, hstart]
  refine List.filterMap_eq_nil_iff.mpr fun p _ => ?_
  simp [hspread, p.ctorIdx_lt_count]

/-! ## States -/

/-- The items of the phrases that may start in a state. -/
def predicted (kernel : List Item) : List Item :=
  (predict kernel).flatMap fun (p, follow) =>
    (forms.startsOf p).toList.map fun f => { form := f, taken := 0, follow : Item }

/-- All items of a state. -/
def items (kernel : List Item) : List Item := kernel ++ predicted kernel

theorem kernel_ofKernel (kernel : List Item) : (ofKernel kernel).kernel = kernel := rfl

theorem complete_ofKernel (kernel : List Item) :
    (ofKernel kernel).complete =
      (items kernel).filter fun i => (forms.entry i.form).complete := rfl

theorem mem_predicted {kernel : List Item} {i : Item} (h : i ∈ predicted kernel) :
    ∃ p, i.form ∈ forms.startsOf p ∧ i.taken = 0 := by
  obtain ⟨⟨p, follow⟩, -, hi⟩ := List.mem_flatMap.mp h
  obtain ⟨f, hf, rfl⟩ := List.mem_map.mp hi
  exact ⟨p, by simpa using hf, rfl⟩

/-- The items that one item puts behind a symbol. -/
private theorem moves_aux (i : Item) (x : Symbol) (ms : List (Symbol × Nat))
    {moves : Array (List Item)} {found : List Item} (h : moves[x.index]? = some found) :
    (ms.foldl (fun moves m => moves.modify m.1.index
      (Item.insert { form := m.2, taken := i.taken + 1, follow := i.follow })) moves)[x.index]? =
      some (((ms.filter (·.1.index = x.index)).map fun m =>
        { form := m.2, taken := i.taken + 1, follow := i.follow : Item }).foldl
          (fun found i => i.insert found) found) := by
  induction ms generalizing moves found with
  | nil => simpa using h
  | cons m ms ih =>
    rw [List.foldl_cons]
    by_cases hm : m.1.index = x.index
    · rw [ih (by rw [Array.getElem?_modify, if_pos hm, h]; rfl)]
      simp [hm]
    · rw [ih (by rw [Array.getElem?_modify, if_neg hm, h])]
      simp [hm]

/-- The items behind a symbol, one item of the state after the other. -/
theorem behind_ofKernel (kernel : List Item) (x : Symbol) :
    (ofKernel kernel).behind x =
      ((items kernel).flatMap (Item.behind x)).foldl (fun found i => i.insert found) [] := by
  have hitems : ∀ (l : List Item) (moves : Array (List Item)) (found : List Item),
      moves[x.index]? = some found →
      (l.foldl (fun moves i => (forms.entry i.form).moves.foldl (fun moves m =>
        moves.modify m.1.index
          (Item.insert { form := m.2, taken := i.taken + 1, follow := i.follow })) moves)
        moves)[x.index]? =
        some ((l.flatMap (Item.behind x)).foldl (fun found i => i.insert found) found) := by
    intro l
    induction l with
    | nil => intro moves found h; simpa using h
    | cons i l ih =>
      intro moves found h
      rw [List.foldl_cons, List.flatMap_cons, List.foldl_append, ← Array.foldl_toList]
      exact ih _ _ (moves_aux i x _ h)
  have h := hitems (items kernel) (Array.replicate Symbol.count []) []
    (by simp [x.index_lt_count])
  rw [behind]
  exact (congrArg (Option.getD · []) h).trans rfl

end State

end SourceShelf.Java
