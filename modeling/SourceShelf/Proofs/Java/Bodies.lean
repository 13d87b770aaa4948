import SourceShelf.Proofs.Java.Places

/-!
# What stands in the bodies of types

`Tree.members` says what stands directly in the body of a type, kind by kind: behind
the opening brace, and in an enum behind the `;`.  `Outline.typeOf` looks for the first
body of any kind and takes what it finds there.  That this is the same is a fact about
the grammar: a type has no body of another kind, only an enum has a `;` with
declarations behind it, and no method stands before it.

What the grammar lets stand in a phrase is `Symbol.Shows`: a phrase that leaves a node,
or what a hidden phrase shows.  `Shows.not_bad` rules out phrases for good once a set of
hidden phrases is closed under their rules.

* `Reads.shows`, `Phrase.Derived.shows`: the parts of a phrase are those it can show.
* `Outline.select_members`: what the bodies of types have of a kind.
-/

namespace SourceShelf.Java

/-! ## What can be shown -/

/-- A phrase among the trees of a symbol, by the rules of the grammar. -/
inductive Symbol.Shows : Symbol → Phrase → Prop where
  | phrase {p : Phrase} (hp : p.isHidden = false) : Shows (.phrase p) p
  | hidden {p q : Phrase} {a : Alternative} {s : Step} (hp : p.isHidden = true) (ha : a ∈ p.rule)
      (hs : s ∈ a.steps) (h : Shows s.symbol q) : Shows (.phrase p) q

/-- The symbols that were read are those of steps. -/
theorem mem_steps_of_takes {steps : List Step} {xs : List Symbol} (h : takes steps xs)
    {x : Symbol} (hx : x ∈ xs) : ∃ s ∈ steps, s.symbol = x := by
  induction xs generalizing steps with
  | nil => cases hx
  | cons y xs ih =>
    obtain ⟨rest, hmem, hrest⟩ := h
    obtain ⟨hstep, hsuffix⟩ := Form.mem_of_mem_nextSteps hmem
    rcases List.mem_cons.mp hx with rfl | hx
    · exact hstep
    · obtain ⟨s, hs, heq⟩ := ih hrest hx
      exact ⟨s, hsuffix.subset hs, heq⟩

/-- Words that are shown as others are still no phrases, and phrases stay as they are. -/
theorem Piece.phrase?_of_mem_shown {names : List (Symbol × Token)} {c : Piece} {t : Tree}
    (ht : t ∈ c.shown names) : ∃ t' ∈ c.trees, t'.phrase? = t.phrase? := by
  unfold shown at ht
  split at ht
  · obtain ⟨t', ht', rfl⟩ := List.mem_map.mp ht
    exact ⟨t', ht', by cases t' <;> rfl⟩
  · exact ⟨t, ht, rfl⟩

theorem Between.phrase?_eq_none {ts : List Tree} (h : Between ts) {t : Tree} (ht : t ∈ ts) :
    t.phrase? = none := by
  cases h with
  | comment _ _ =>
    obtain rfl := List.mem_singleton.mp ht
    rfl
  | fault _ =>
    obtain rfl := List.mem_singleton.mp ht
    rfl
  | nothing => cases ht

/-- A phrase among some pieces is one of a step. -/
theorem shows_of_mem_pieces {a : Alternative} {pieces : List Piece}
    (htakes : takes a.steps (pieces.filterMap Piece.symbol?))
    (hreads : ∀ c ∈ pieces, ∀ x, c.symbol? = some x → ∀ t ∈ c.trees, ∀ q, t.phrase? = some q →
      x.Shows q)
    (hbetween : ∀ c ∈ pieces, c.symbol? = none → Between c.trees) {t : Tree}
    (ht : t ∈ pieces.flatMap (·.shown a.shown)) {q : Phrase} (hq : t.phrase? = some q) :
    ∃ s ∈ a.steps, s.symbol.Shows q := by
  obtain ⟨c, hc, ht⟩ := List.mem_flatMap.mp ht
  obtain ⟨t', ht', heq⟩ := Piece.phrase?_of_mem_shown ht
  rw [hq] at heq
  cases hsymbol : c.symbol? with
  | none =>
    rw [(hbetween c hc hsymbol).phrase?_eq_none ht'] at heq
    cases heq
  | some x =>
    have hshows := hreads c hc x hsymbol t' ht' q heq
    obtain ⟨s, hs, rfl⟩ := mem_steps_of_takes htakes (List.mem_filterMap.mpr ⟨c, hc, hsymbol⟩)
    exact ⟨s, hs, hshows⟩

/-- The phrases among the trees of a symbol are those it can show. -/
theorem Reads.shows {x : Symbol} {ts : List Tree} (h : Reads x ts) :
    ∀ t ∈ ts, ∀ q, t.phrase? = some q → x.Shows q := by
  induction h with
  | word _ =>
    intro t ht q hq
    obtain rfl := List.mem_singleton.mp ht
    cases hq
  | missing =>
    intro t ht q hq
    obtain rfl := List.mem_singleton.mp ht
    cases hq
  | @phrase p a pieces ha htakes _ hbetween ih =>
    intro t ht q hq
    unfold Phrase.wrap at ht
    split at ht
    · rename_i hhidden
      obtain ⟨s, hs, hshows⟩ := shows_of_mem_pieces htakes ih hbetween ht hq
      exact .hidden hhidden ha hs hshows
    · rename_i hhidden
      obtain rfl := List.mem_singleton.mp ht
      obtain rfl := Option.some.inj hq
      exact .phrase (Bool.eq_false_iff.mpr hhidden)

/-- The parts of a phrase are those that the steps of its rule can show. -/
theorem Phrase.Derived.shows {p : Phrase} {parts : List Tree} (h : p.Derived parts)
    (hp : p.isHidden = false) {t : Tree} (ht : t ∈ parts) {q : Phrase} (hq : t.phrase? = some q) :
    ∃ a ∈ p.rule, ∃ s ∈ a.steps, s.symbol.Shows q := by
  obtain ⟨a, ha, pieces, htakes, hreads, hbetween, rfl⟩ := h.inv hp
  obtain ⟨s, hs, hshows⟩ := shows_of_mem_pieces htakes
    (fun c hc x hx => (hreads c hc x hx).shows) hbetween ht hq
  exact ⟨a, ha, s, hs, hshows⟩

/-- A symbol that is no bad phrase, or one of some hidden phrases. -/
def Symbol.avoids (hidden : List Phrase) (bad : Phrase → Bool) : Symbol → Bool
  | .token _ => true
  | .phrase p => if p.isHidden then hidden.contains p else !bad p

/-- True when no step of the rule of a phrase is a bad phrase or another hidden one. -/
def Phrase.avoids (hidden : List Phrase) (bad : Phrase → Bool) (p : Phrase) : Bool :=
  p.rule.all fun a => a.steps.all fun s => s.symbol.avoids hidden bad

theorem Symbol.Shows.not_bad {hidden : List Phrase} {bad : Phrase → Bool} {x : Symbol} {q : Phrase}
    (h : x.Shows q) (hclosed : ∀ p ∈ hidden, p.avoids hidden bad = true)
    (hx : x.avoids hidden bad = true) : bad q = false := by
  induction h with
  | @phrase p hp => simpa [avoids, hp] using hx
  | @hidden p q a s hp ha hs _ ih =>
    have hmem : p ∈ hidden := by simpa [avoids, hp] using hx
    have hall := List.all_eq_true.mp (List.all_eq_true.mp (hclosed p hmem) a ha) s hs
    exact ih hall

/-- No part of a phrase is one that its rule avoids. -/
theorem Phrase.Derived.not_bad {p : Phrase} {parts : List Tree} (h : p.Derived parts)
    (hp : p.isHidden = false) (hidden : List Phrase) {bad : Phrase → Bool}
    (hclosed : ∀ p ∈ hidden, p.avoids hidden bad = true) (havoids : p.avoids hidden bad = true)
    {t : Tree} (ht : t ∈ parts) {q : Phrase} (hq : t.phrase? = some q) : bad q = false := by
  obtain ⟨a, ha, s, hs, hshows⟩ := h.shows hp ht hq
  exact hshows.not_bad hclosed (List.all_eq_true.mp (List.all_eq_true.mp havoids a ha) s hs)

/-! ## Bodies -/

/-- The kind of body that a type has. -/
def Phrase.body : Phrase → Phrase
  | .interfaceDeclaration => .interfaceBody
  | .enumDeclaration => .enumBody
  | .annotationTypeDeclaration => .annotationTypeBody
  | _ => .classBody

/-- What stands directly in the body of a type, in the order of the text; in an enum,
what stands directly behind the `;`. -/
def Tree.members : Tree → List Tree
  | .node .enumDeclaration ps =>
    ((ps.find? (·.isPhrase .enumBody)).elim [] Tree.parts).flatMap fun t =>
      if t.isPhrase .enumBodyDeclarations then t.parts else []
  | .node p ps => (ps.find? (·.isPhrase p.body)).elim [] Tree.parts
  | _ => []

/-- The methods of a type. -/
def Tree.methods (t : Tree) : List Tree := t.members.filter (·.isPhrase .methodDeclaration)

/-- The constructors of a type, compact ones included. -/
def Tree.constructors (t : Tree) : List Tree :=
  t.members.filter fun m =>
    m.isPhrase .constructorDeclaration || m.isPhrase .compactConstructorDeclaration

namespace Outline

/-- A type has no body of another kind. -/
private theorem types_avoid : ∀ p ∈ Phrase.all, (typeKind? p).isSome = true →
    p.isHidden = false ∧ p.avoids [] (fun q => isBody q && q != p.body) = true := by
  decide +kernel

/-- Methods and constructors. -/
def isMember (p : Phrase) : Bool := p = .methodDeclaration || isConstructor p

/-- In the body of an enum stand no members, only behind the `;`. -/
private theorem enumBody_avoids :
    (∀ p ∈ [Phrase.enumConstantTail], p.avoids [.enumConstantTail] isMember = true) ∧
      Phrase.enumBody.avoids [.enumConstantTail] isMember = true := by
  decide +kernel

/-- Only the body of an enum has declarations behind a `;`. -/
private theorem bodies_avoid :
    (∀ p ∈ [Phrase.members, .interfaceMembers, .annotationTypeMembers],
      p.avoids [.members, .interfaceMembers, .annotationTypeMembers]
        (· = .enumBodyDeclarations) = true) ∧
      ∀ p ∈ [Phrase.classBody, .interfaceBody, .annotationTypeBody],
        p.avoids [.members, .interfaceMembers, .annotationTypeMembers]
          (· = .enumBodyDeclarations) = true := by
  decide +kernel

/-- The first body of a type is the body that its kind has. -/
theorem find?_body {p : Phrase} {ps : List Tree} (hp : (typeKind? p).isSome = true)
    (h : p.Derived ps) :
    ps.find? (fun t => t.phrase?.any isBody) = ps.find? (·.isPhrase p.body) := by
  obtain ⟨hhidden, havoids⟩ := types_avoid p p.mem_all hp
  have hsame : ∀ t ∈ ps, (t.phrase?.any isBody) = t.isPhrase p.body := by
    intro t ht
    cases hq : t.phrase? with
    | none => simp [Tree.isPhrase, hq]
    | some q =>
      have hbad := h.not_bad hhidden [] (by simp) havoids ht hq
      have hbody : isBody p.body = true := by
        cases p <;> rfl
      rw [Tree.isPhrase, hq, Option.any_some]
      by_cases heq : q = p.body
      · simp [heq, hbody]
      · have : isBody q = false := by simpa [heq] using hbad
        simp [heq, this]
  clear h havoids
  induction ps with
  | nil => rfl
  | cons t ps ih =>
    rw [List.find?_cons, List.find?_cons, hsame t List.mem_cons_self,
      ih fun t' ht' => hsame t' (List.mem_cons_of_mem t ht')]

theorem map_snd_withBefore (before : Option Tree) (ts : List Tree) :
    (withBefore before ts).map Prod.snd = ts := by
  induction ts generalizing before with
  | nil => rfl
  | cons t ts ih => rw [withBefore, List.map_cons, ih]

/-- The parts of a body of a kind of phrase, those behind the constants of an enum among
them. -/
theorem map_snd_select (test : Phrase → Bool) (body : Tree) :
    (select test (bodyParts body)).map Prod.snd = body.parts.flatMap fun t =>
      if t.isPhrase .enumBodyDeclarations then t.parts.filter (·.phrase?.any test)
      else if t.phrase?.any test then [t] else [] := by
  have hnamed : ∀ t : Tree, t.phrase?.any test = true → t.isNamed = true := by
    intro t ht
    cases t with
    | node p ps => rfl
    | _ => cases ht
  have hfilter : ∀ (before : Option Tree) (ts : List Tree),
      (((withBefore before ts).filter (·.2.isNamed)).filter (·.2.phrase?.any test)).map Prod.snd =
        ts.filter (·.phrase?.any test) := by
    intro before ts
    rw [List.filter_filter]
    have hsame : ∀ m : Option Tree × Tree,
        (m.2.phrase?.any test && m.2.isNamed) = m.2.phrase?.any test := by
      intro m
      by_cases h : m.2.phrase?.any test = true
      · rw [h, hnamed _ h, Bool.and_self]
      · rw [Bool.eq_false_iff.mpr h, Bool.false_and]
    simp only [hsame]
    conv_rhs => rw [← map_snd_withBefore before ts, List.filter_map]
    rfl
  unfold select bodyParts
  rw [List.filter_flatMap, List.map_flatMap]
  conv_rhs => rw [← map_snd_withBefore none body.parts, List.flatMap_map]
  refine List.flatMap_congr fun m _ => ?_
  obtain ⟨before, t⟩ := m
  dsimp only
  split
  · exact hfilter none t.parts
  · by_cases h : t.phrase?.any test = true
    · rw [if_pos h, if_pos (hnamed t h)]
      simp [h]
    · rw [if_neg h]
      split <;> simp [h]

/-- In the body of an enum, methods and constructors stand behind the `;`. -/
theorem select_enumBody {ts : List Tree} (h : Phrase.enumBody.Derived ts) {test : Phrase → Bool}
    (htest : ∀ q, test q = true → isMember q = true) :
    (select test (bodyParts (.node .enumBody ts))).map Prod.snd =
      (ts.flatMap fun t => if t.isPhrase .enumBodyDeclarations then t.parts else []).filter
        (·.phrase?.any test) := by
  rw [map_snd_select, List.filter_flatMap]
  refine List.flatMap_congr fun t ht => ?_
  split
  · rfl
  · have hnone : t.phrase?.any test = false := by
      cases hq : t.phrase? with
      | none => rfl
      | some q =>
        have hmember := h.not_bad rfl _ enumBody_avoids.1 enumBody_avoids.2 ht hq
        rw [Option.any_some, ← Bool.not_eq_true]
        intro hyes
        rw [htest q hyes] at hmember
        cases hmember
    rw [if_neg (by simp [hnone])]
    rfl

theorem body_mem {p : Phrase} (h : ¬ p = .enumDeclaration) :
    p.body ∈ [Phrase.classBody, .interfaceBody, .annotationTypeBody] := by
  cases p <;> first | exact absurd rfl h | simp [Phrase.body]

/-- In other bodies nothing stands behind a `;`. -/
theorem select_body {p : Phrase} {ts : List Tree}
    (hp : p ∈ [Phrase.classBody, .interfaceBody, .annotationTypeBody]) (h : p.Derived ts)
    (test : Phrase → Bool) :
    (select test (bodyParts (.node p ts))).map Prod.snd = ts.filter (·.phrase?.any test) := by
  have hhidden : p.isHidden = false := by
    simp only [List.mem_cons, List.not_mem_nil, or_false] at hp
    rcases hp with rfl | rfl | rfl <;> rfl
  have hnone : ∀ t ∈ ts, t.isPhrase .enumBodyDeclarations = false := by
    intro t ht
    cases hq : t.phrase? with
    | none => simp [Tree.isPhrase, hq]
    | some q =>
      have hbad := h.not_bad hhidden _ bodies_avoid.1 (bodies_avoid.2 p hp) ht hq
      simpa [Tree.isPhrase, hq] using hbad
  rw [map_snd_select]
  clear h
  show ts.flatMap _ = _
  induction ts with
  | nil => rfl
  | cons t ts ih =>
    have hrest := ih fun t' ht' => hnone t' (List.mem_cons_of_mem t ht')
    rw [List.flatMap_cons, hrest, if_neg (by simp [hnone t List.mem_cons_self]),
      List.filter_cons]
    split <;> rfl

/-- What `typeOf` takes from the body of a type is what stands directly in it. -/
theorem select_members {t : Tree} (htype : t.isType = true) (h : t.Every Phrase.Derived)
    {test : Phrase → Bool} (htest : ∀ q, test q = true → isMember q = true) :
    (select test (((t.parts.find? fun p => p.phrase?.any isBody).map bodyParts).getD [])).map
      Prod.snd = t.members.filter (·.phrase?.any test) := by
  match t, htype, h with
  | .node p ps, htype, ⟨hderived, hparts⟩ =>
    have hp : (typeKind? p).isSome = true := htype
    show (select test (((ps.find? fun p => p.phrase?.any isBody).map bodyParts).getD [])).map
      Prod.snd = _
    rw [find?_body hp hderived]
    have hmembers : (Tree.node p ps).members =
        if p = .enumDeclaration then
          ((ps.find? (·.isPhrase p.body)).elim [] Tree.parts).flatMap fun t =>
            if t.isPhrase .enumBodyDeclarations then t.parts else []
        else (ps.find? (·.isPhrase p.body)).elim [] Tree.parts := by
      cases p <;> rfl
    rw [hmembers]
    cases hbody : ps.find? (·.isPhrase p.body) with
    | none => split <;> rfl
    | some body =>
      have hphrase := List.find?_some hbody
      have hevery := Tree.everyOf_iff.mp hparts body (List.mem_of_find?_eq_some hbody)
      match body, hphrase, hevery with
      | .node q ts, hphrase, ⟨hbodyDerived, _⟩ =>
        obtain rfl : q = p.body := by simpa [Tree.isPhrase, Tree.phrase?] using hphrase
        split
        · rename_i henum
          subst henum
          exact select_enumBody hbodyDerived htest
        · exact select_body (body_mem ‹_›) hbodyDerived test

end Outline

end SourceShelf.Java
