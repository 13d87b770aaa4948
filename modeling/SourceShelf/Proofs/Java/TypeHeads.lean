import Mathlib
import SourceShelf.Proofs.Java.Bodies
import SourceShelf.Proofs.Java.Siblings

/-!
# What stands before the name of a type

A type starts with its modifiers, if it has any, and words; then comes its name.  So what
stands before the name is a word, a comment or the modifiers (`Phrase.Derived.exists_head`).
Among modifiers stand annotations and words, and no declaration is a part of modifiers or of
a type itself.

* `takes_split`: what is read before a step that cannot be left out.
* `Phrase.Derived.exists_head`: the parts of a type up to its name.
* `StandsIn.sound`: what stands at the spots of a text without faults.
* `StandsIn.phrase_of_closed`: phrases that only have phrases of some kinds in them.
-/

namespace SourceShelf.Java

/-! ## Up to a step -/

/-- Before a step that cannot be left out, only symbols of the steps before it are read. -/
theorem takes_split {before behind : List Step} {s : Step} (hs : s.optional = false)
    {xs : List Symbol} (h : takes (before ++ s :: behind) xs) :
    ∃ ys zs, xs = ys ++ s.symbol :: zs ∧ ∀ y ∈ ys, ∃ b ∈ before, b.symbol = y := by
  induction before generalizing xs with
  | nil =>
    cases xs with
    | nil =>
      have hall : (s :: behind).all (·.optional) = true := h
      rw [List.all_cons, hs] at hall
      cases hall
    | cons x xs =>
      obtain ⟨rest, hmem, -⟩ := h
      rw [List.nil_append, Form.nextSteps, hs, if_neg Bool.false_ne_true] at hmem
      obtain ⟨rfl, -⟩ := Prod.mk.inj (List.mem_singleton.mp hmem)
      exact ⟨[], xs, rfl, fun _ hy => absurd hy List.not_mem_nil⟩
  | cons b before ih =>
    have hlater (xs : List Symbol) (h : takes (before ++ s :: behind) xs) :
        ∃ ys zs, xs = ys ++ s.symbol :: zs ∧ ∀ y ∈ ys, ∃ c ∈ b :: before, c.symbol = y := by
      obtain ⟨ys, zs, rfl, hys⟩ := ih h
      refine ⟨ys, zs, rfl, fun y hy => ?_⟩
      obtain ⟨c, hc, heq⟩ := hys y hy
      exact ⟨c, List.mem_cons_of_mem _ hc, heq⟩
    cases xs with
    | nil =>
      have hall : (b :: (before ++ s :: behind)).all (·.optional) = true := h
      exact hlater [] (Bool.and_eq_true_iff.mp (List.all_cons ▸ hall)).2
    | cons x xs =>
      obtain ⟨rest, hmem, hrest⟩ := h
      rw [List.cons_append, Form.nextSteps, List.mem_cons] at hmem
      rcases hmem with heq | hmem
      · obtain ⟨rfl, rfl⟩ := Prod.mk.inj heq
        obtain ⟨ys, zs, rfl, hys⟩ := hlater _ hrest
        exact ⟨b.symbol :: ys, zs, rfl,
          List.forall_mem_cons.mpr ⟨⟨b, List.mem_cons_self, rfl⟩, hys⟩⟩
      · split at hmem
        · exact hlater _ ⟨rest, hmem, hrest⟩
        · cases hmem

/-! ## Types -/

/-- True of what a type has before its name: words, and the modifiers. -/
def Symbol.isHead : Symbol → Bool
  | .token w => w ≠ .identifier
  | .phrase p => p = .modifiers

/-- A type has a name, with only words and modifiers before it. -/
private theorem type_rules : ∀ p ∈ Phrase.all, (Outline.typeKind? p).isSome = true →
    p.isHidden = false ∧ ∀ a ∈ p.rule, a.shown = [] ∧
      ∃ behind,
        a.steps.dropWhile (·.symbol.isHead) = ⟨.token .identifier, false, none⟩ :: behind := by
  have hshape : ∀ p ∈ Phrase.all, (Outline.typeKind? p).isSome = true →
      p.isHidden = false ∧ ∀ a ∈ p.rule, a.shown = [] ∧
        (a.steps.dropWhile (·.symbol.isHead)).head? = some ⟨.token .identifier, false, none⟩ := by
    decide +kernel
  intro p hp htype
  obtain ⟨hhidden, hrules⟩ := hshape p hp htype
  exact ⟨hhidden, fun a ha => ⟨(hrules a ha).1, List.head?_eq_some_iff.mp (hrules a ha).2⟩⟩

/-- True of what stands before the name of a type: a word, a comment or the modifiers. -/
def Tree.InHead (t : Tree) : Prop :=
  (∃ w a b, t = .leaf w a b ∧ w ≠ .identifier) ∨ ∃ ps, t = .node .modifiers ps

/-- What a symbol before the name is read as. -/
theorem inHead_of_reads {x : Symbol} (hx : x.isHead = true) {ts : List Tree} (h : Reads x ts)
    (hfaultless : Tree.anyFaulty ts = false) {t : Tree} (ht : t ∈ ts) :
    t.InHead := by
  cases h with
  | word _ =>
    obtain rfl := List.mem_singleton.mp ht
    exact .inl ⟨_, _, _, rfl, of_decide_eq_true hx⟩
  | missing => cases hfaultless
  | phrase _ _ _ _ =>
    obtain rfl := of_decide_eq_true hx
    exact .inr ⟨_, List.mem_singleton.mp ht⟩

theorem inHead_of_between {ts : List Tree} (h : Between ts) (hfaultless : Tree.anyFaulty ts = false)
    {t : Tree} (ht : t ∈ ts) : t.InHead := by
  cases h with
  | comment hcomment _ =>
    obtain rfl := List.mem_singleton.mp ht
    refine .inl ⟨_, _, _, rfl, ?_⟩
    rintro rfl
    cases hcomment
  | fault _ => cases hfaultless
  | nothing => cases ht

/-- The parts of a type up to its name. -/
theorem Phrase.Derived.exists_head {p : Phrase} {ps : List Tree}
    (hp : (Outline.typeKind? p).isSome = true) (h : p.Derived ps)
    (hfaultless : Tree.anyFaulty ps = false) :
    ∃ head a b rest, ps = head ++ .leaf .identifier a b :: rest ∧ a < b ∧
      ∀ t ∈ head, t.InHead := by
  obtain ⟨hhidden, hrules⟩ := type_rules p p.mem_all hp
  obtain ⟨al, ha, pieces, htakes, hreads, hbetween, rfl⟩ := h.inv hhidden
  obtain ⟨hshown, behind, hsteps⟩ := hrules al ha
  rw [← List.takeWhile_append_dropWhile (p := (·.symbol.isHead)) (l := al.steps), hsteps] at htakes
  obtain ⟨ys, zs, hsymbols, hys⟩ := takes_split rfl htakes
  -- the pieces up to the one of the name
  obtain ⟨front, named, rfl, hfront, hnamed⟩ := List.filterMap_eq_append_iff.mp hsymbols
  obtain ⟨between, c, back, rfl, hnone, hc, -⟩ := List.filterMap_eq_cons_iff.mp hnamed
  have htrees : ∀ d : Piece, d.shown al.shown = d.trees := by
    intro d
    rw [Piece.shown, hshown]
    cases d.symbol? <;> rfl
  simp only [htrees] at hfaultless ⊢
  have hfaultless := Tree.anyFaulty_flatMap.mp hfaultless
  obtain ⟨a, b, hab, hname⟩ : ∃ a b, a < b ∧ c.trees = [.leaf .identifier a b] := by
    have hread := hreads c (by simp) _ hc
    have hsound := hfaultless c (by simp)
    generalize c.trees = ts at hread hsound
    cases hread with
    | word hab => exact ⟨_, _, hab, rfl⟩
    | missing => cases hsound
  refine ⟨(front ++ between).flatMap Piece.trees, a, b, back.flatMap Piece.trees, ?_, hab, ?_⟩
  · simp [hname]
  · intro t ht
    obtain ⟨d, hd, ht⟩ := List.mem_flatMap.mp ht
    have hmem : d ∈ front ++ (between ++ c :: back) := by
      rcases List.mem_append.mp hd with hd | hd <;> simp [hd]
    cases hsymbol : d.symbol? with
    | none => exact inHead_of_between (hbetween d hmem hsymbol) (hfaultless d hmem) ht
    | some x =>
      have hx : x ∈ ys := by
        rw [← hfront]
        rcases List.mem_append.mp hd with hd | hd
        · exact List.mem_filterMap.mpr ⟨d, hd, hsymbol⟩
        · rw [hnone d hd] at hsymbol
          cases hsymbol
      obtain ⟨s, hs, rfl⟩ := hys x hx
      exact inHead_of_reads (List.mem_takeWhile_imp (p := fun s : Step => s.symbol.isHead) hs)
        (hreads d hmem _ hsymbol)
        (hfaultless d hmem) ht

/-! ## Declarations -/

/-- Annotations, with arguments or without. -/
def Phrase.isMark (p : Phrase) : Bool := p = .annotationMarker || p = .annotationCall

/-- Declarations of types and of what stands in their bodies. -/
def Phrase.declares (p : Phrase) : Bool :=
  (Outline.typeKind? p).isSome || Outline.isMember p || Outline.isField p

/-- No declaration is a part of a type: it stands in its body. -/
private theorem types_avoid_declarations : ∀ p ∈ Phrase.all, (Outline.typeKind? p).isSome = true →
    p.isHidden = false ∧ p.avoids [] Phrase.declares = true := by
  decide +kernel

/-- Among modifiers stand no phrases but annotations. -/
private theorem modifiers_avoid :
    (∀ p ∈ [Phrase.modifierList, .annotationUse],
      p.avoids [.modifierList, .annotationUse] (!·.isMark) = true) ∧
      Phrase.modifiers.avoids [.modifierList, .annotationUse] (!·.isMark) = true := by
  decide +kernel

theorem Phrase.Derived.not_declares_of_type {p : Phrase} {ps : List Tree}
    (hp : (Outline.typeKind? p).isSome = true) (h : p.Derived ps) {t : Tree} (ht : t ∈ ps) :
    t.phrase?.any Phrase.declares = false := by
  obtain ⟨hhidden, havoids⟩ := types_avoid_declarations p p.mem_all hp
  cases hq : t.phrase? with
  | none => rfl
  | some q => exact h.not_bad hhidden [] nofun havoids ht hq

theorem Phrase.Derived.isMark_of_modifiers {ps : List Tree} (h : Phrase.modifiers.Derived ps)
    {t : Tree} (ht : t ∈ ps) {q : Phrase} (hq : t.phrase? = some q) : q.isMark = true := by
  simpa using h.not_bad rfl _ modifiers_avoid.1 modifiers_avoid.2 ht hq

theorem Phrase.not_declares_of_isMark {q : Phrase} (h : q.isMark = true) :
    q.declares = false := by
  cases q <;> first | rfl | cases h

/-! ## Spots of a text without faults -/

namespace Spot.StandsIn

variable {parts : List Tree} {s o : Spot}

theorem isFaulty_eq_false (h : s.StandsIn parts) (hfaultless : Tree.anyFaulty parts = false) :
    s.tree.isFaulty = false := by
  have hmem (ts : List Tree) (hts : Tree.anyFaulty ts = false) {i : Nat} {t : Tree}
      (ht : ts[i]? = some t) : t.isFaulty = false := by
    obtain ⟨front, back, rfl⟩ := List.append_of_mem (List.mem_of_getElem? ht)
    rw [Tree.anyFaulty_append, Tree.anyFaulty_cons, Bool.or_eq_false_iff,
      Bool.or_eq_false_iff] at hts
    exact hts.2.1
  induction h with
  | top h => exact hmem parts hfaultless h
  | @part s i t hs h ih =>
    cases hself : s.tree with
    | node p ps =>
      rw [hself] at h ih
      exact hmem ps ih h
    | error ps =>
      rw [hself] at ih
      cases ih
    | _ =>
      rw [hself] at h
      cases h

/-- At every spot stands a word, or a phrase that follows the grammar. -/
theorem sound (h : s.StandsIn parts) (hsound : Tree.IsSound parts) :
    (∃ w a b, s.tree = .leaf w a b) ∨
      ∃ p ps, s.tree = .node p ps ∧ p.Derived ps ∧ Tree.anyFaulty ps = false := by
  have hfaultless := h.isFaulty_eq_false hsound.faultless
  have hevery := Tree.every_of_mem_spotsOf parts [] 0 hsound.derived hsound.faultless s
    (mem_spotsOf_iff.mpr h)
  cases hself : s.tree with
  | leaf w a b => exact .inl ⟨w, a, b, rfl⟩
  | node p ps =>
    rw [hself] at hfaultless hevery
    exact .inr ⟨p, ps, rfl, hevery.1, hfaultless⟩
  | _ =>
    rw [hself] at hfaultless
    cases hfaultless

/-- Where phrases of some kinds have only parts of these kinds, so it is everywhere in them. -/
theorem phrase_of_closed (h : s.StandsIn parts) (hsound : Tree.IsSound parts)
    {hidden : List Phrase} {kinds : Phrase → Bool}
    (hhidden : ∀ p ∈ hidden, p.avoids hidden (!kinds ·) = true)
    (hkinds : ∀ p, kinds p = true → p.isHidden = false ∧ p.avoids hidden (!kinds ·) = true)
    (hinside : s.IsInside o) (ho : o.tree.phrase?.all kinds = true) :
    s.tree.phrase?.all kinds = true := by
  induction h with
  | top h =>
    obtain rfl := (isInside_iff.mp hinside).resolve_right fun hnil =>
      nomatch List.suffix_nil.mp hnil
    exact ho
  | @part s i t hs h ih =>
    rcases isInside_iff.mp hinside with rfl | hinside
    · exact ho
    · have hkind := ih hinside
      obtain ⟨w, a, b, hself⟩ | ⟨p, ps, hself, hderived, -⟩ := hs.sound hsound
      · rw [hself] at h
        cases h
      · rw [hself] at h hkind
        obtain ⟨hp, havoids⟩ := hkinds p (by simpa [Tree.phrase?] using hkind)
        show t.phrase?.all kinds = true
        cases hq : t.phrase? with
        | none => rfl
        | some q =>
          have hbad := hderived.not_bad hp hidden hhidden havoids (List.mem_of_getElem? h) hq
          simpa using hbad

end Spot.StandsIn

end SourceShelf.Java
