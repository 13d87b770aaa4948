import SourceShelf.Proofs.Java.FirstWords

/-!
# Alternatives with a dot

`Forms.dot p a rest` is the number of the alternative `a` of `p` when the steps `rest`
are left: the steps in front of the dot have been read.  The lemmas below read the
tables of the forms (`entry_dot`, `mem_startsOf`, `mem_cornersOf`) as what they say
about the steps of the alternatives, so that no later proof looks into the tables.
-/

namespace SourceShelf.Java

namespace Forms

/-- The number of an alternative of which some steps are left. -/
def dot (p : Phrase) (a : Alternative) (rest : List Step) : Nat :=
  number p ((Form.ofAlternative p a).withSteps rest)

section Dot

variable {p : Phrase} {a : Alternative} {rest : List Step} {x : Symbol} {n : Nat}

theorem entry_dot (ha : a ∈ p.rule) (hrest : rest <:+ a.steps) :
    forms.entry (dot p a rest) = entryOf p ((Form.ofAlternative p a).withSteps rest) :=
  entry_number (Form.mem_ofPhrase ha hrest)

theorem headOf_dot (ha : a ∈ p.rule) (hrest : rest <:+ a.steps) : headOf (dot p a rest) = p := by
  rw [headOf, entry_dot ha hrest]
  rfl

theorem complete_dot (ha : a ∈ p.rule) (hrest : rest <:+ a.steps) :
    (forms.entry (dot p a rest)).complete = rest.all (·.optional) := by
  rw [entry_dot ha hrest]
  rfl

theorem first_dot (ha : a ∈ p.rule) (hrest : rest <:+ a.steps) :
    (forms.entry (dot p a rest)).first = firstOfSteps firstSets rest := by
  rw [entry_dot ha hrest]
  rfl

/-- The dot moves over a step, and over optional steps in front of it. -/
theorem mem_moves_dot (ha : a ∈ p.rule) (hrest : rest <:+ a.steps) :
    (x, n) ∈ (forms.entry (dot p a rest)).moves ↔
      ∃ rest', (x, rest') ∈ Form.nextSteps rest ∧ n = dot p a rest' := by
  rw [entry_dot ha hrest, entryOf, List.mem_toArray, List.mem_map]
  constructor
  · rintro ⟨m, hm, heq⟩
    obtain ⟨⟨y, rest'⟩, hnext, rfl⟩ := List.mem_map.mp hm
    obtain ⟨rfl, rfl⟩ := Prod.mk.inj heq
    exact ⟨rest', hnext, rfl⟩
  · rintro ⟨rest', hnext, rfl⟩
    exact ⟨_, List.mem_map_of_mem hnext, rfl⟩

end Dot

/-- Behind a step are some later steps. -/
theorem suffix_of_mem_nextSteps {a : Alternative} {rest rest' : List Step} {x : Symbol}
    (hrest : rest <:+ a.steps) (h : (x, rest') ∈ Form.nextSteps rest) : rest' <:+ a.steps :=
  (Form.mem_of_mem_nextSteps h).2.trans hrest

theorem mem_startsOf {p : Phrase} {n : Nat} :
    n ∈ forms.startsOf p ↔ ∃ a ∈ p.rule, n = dot p a a.steps := by
  rw [startsOf_eq, List.mem_toArray, List.mem_eraseDups, List.mem_map]
  constructor
  · rintro ⟨f, hf, rfl⟩
    obtain ⟨a, ha, rfl⟩ := List.mem_map.mp hf
    exact ⟨a, ha, rfl⟩
  · rintro ⟨a, ha, rfl⟩
    exact ⟨_, List.mem_map_of_mem ha, rfl⟩

/-- The words behind a dot are words. -/
theorem proper_first (n : Nat) : (forms.entry n).first.Proper := by
  rcases entry_cases n with hn | ⟨p, f, -, hn⟩
  · rw [hn]
    exact TokenSet.proper_empty
  · rw [hn]
    exact proper_firstOfSteps foundFirst_firstSets.proper f.steps

/-! ## Corners -/

/-- What a form may start with, if it is a phrase. -/
def cornerOf? (m : Symbol × Nat) : Option Corner :=
  match m.1 with
  | .token _ => none
  | .phrase q => some
    { phrase := q, follow := (forms.entry m.2).first, isOpen := (forms.entry m.2).complete }

theorem cornersOf_eq (p : Phrase) :
    forms.cornersOf p = (forms.startsOf p).flatMap fun n =>
      (forms.entry n).moves.filterMap cornerOf? := by
  have hcorners : forms.corners = (forms.starts.toList.map fun s =>
      s.flatMap fun n => (forms.entry n).moves.filterMap cornerOf?).toArray := rfl
  rw [cornersOf, startsOf, hcorners, List.getElem?_toArray, List.getElem?_map,
    Array.getElem?_toList]
  cases forms.starts[p.ctorIdx]? with
  | none => rfl
  | some s => rfl

/-- The corners of a phrase are the phrases that its alternatives may start with. -/
theorem mem_cornersOf {p : Phrase} {c : Corner} :
    c ∈ forms.cornersOf p ↔ ∃ a ∈ p.rule, ∃ rest,
      (.phrase c.phrase, rest) ∈ Form.nextSteps a.steps ∧
      c.follow = firstOfSteps firstSets rest ∧ c.isOpen = rest.all (·.optional) := by
  rw [cornersOf_eq, Array.mem_flatMap]
  simp only [mem_startsOf, Array.mem_filterMap]
  constructor
  · rintro ⟨n, ⟨a, ha, rfl⟩, ⟨x, n⟩, hm, hc⟩
    obtain ⟨rest, hnext, rfl⟩ := (mem_moves_dot ha (List.suffix_refl _)).mp hm
    have hrest := suffix_of_mem_nextSteps (List.suffix_refl _) hnext
    cases x with
    | token t => cases hc
    | phrase q =>
      rw [cornerOf?] at hc
      dsimp only at hc
      rw [first_dot ha hrest, complete_dot ha hrest] at hc
      obtain rfl := Option.some.inj hc
      exact ⟨a, ha, rest, hnext, rfl, rfl⟩
  · rintro ⟨a, ha, rest, hnext, hfollow, hopen⟩
    have hrest := suffix_of_mem_nextSteps (List.suffix_refl _) hnext
    refine ⟨_, ⟨a, ha, rfl⟩, _, (mem_moves_dot ha (List.suffix_refl _)).mpr ⟨rest, hnext, rfl⟩, ?_⟩
    obtain ⟨q, follow, isOpen⟩ := c
    dsimp only at hfollow hopen
    subst hfollow hopen
    unfold cornerOf?
    dsimp only
    rw [first_dot ha hrest, complete_dot ha hrest]

theorem proper_corner {p : Phrase} {c : Corner} (hc : c ∈ forms.cornersOf p) :
    c.follow.Proper := by
  obtain ⟨a, -, rest, -, hfollow, -⟩ := mem_cornersOf.mp hc
  rw [hfollow]
  exact proper_firstOfSteps foundFirst_firstSets.proper rest

end Forms

end SourceShelf.Java
