import SourceShelf.Java.Outline
import Mathlib.Data.List.Forall2

/-!
# Where the types of a file stand

A `Spot` is a tree with everything around it.  `Tree.spotsOf` lists the spots
of a file in the order of the text, each tree before its parts.  What stands in
the body of a type, and which types are local, is said of a spot by the trees
around it alone (`Spot.encloser?`, `Spot.isLocal`).

`Outline.sites` walks over the same trees with less in hand: a number and the
kind of the last body.  `fileSites_fit` says that it finds the same types, in
the same order, and that the number is that of the type around.

* `sites_fit`, `sitesOf_fit`: the walk over one tree and over its parts.
* `fileSites_fit`: the walk over a file.
-/

namespace SourceShelf.Java

/-! ## Spots -/

/-- True of the trees that declare a type. -/
def Tree.isType (t : Tree) : Bool := (t.phrase?.bind Outline.typeKind?).isSome

/-- True of the bodies of types. -/
def Tree.isBody (t : Tree) : Bool := t.phrase?.any Outline.isBody

/-- A tree, its position among the parts of the tree around it, and the trees
around it with theirs, innermost first. -/
structure Spot where
  tree : Tree
  position : Nat
  above : List (Nat × Tree)

namespace Tree

mutual

/-- A tree and all trees in it in the order of the text. -/
def spots (above : List (Nat × Tree)) (position : Nat) : Tree → List Spot
  | node p parts => ⟨node p parts, position, above⟩ ::
      spotsOf ((position, node p parts) :: above) 0 parts
  | error parts => ⟨error parts, position, above⟩ ::
      spotsOf ((position, error parts) :: above) 0 parts
  | t => [⟨t, position, above⟩]

/-- The spots of a list of trees. -/
def spotsOf (above : List (Nat × Tree)) (position : Nat) : List Tree → List Spot
  | [] => []
  | t :: ts => t.spots above position ++ spotsOf above (position + 1) ts

end

end Tree

namespace Spot

/-- The type that some bodies, one in the other, belong to. -/
def owner? : List (Nat × Tree) → Option Spot
  | [] => none
  | (i, t) :: above =>
    if t.isBody then owner? above else if t.isType then some ⟨t, i, above⟩ else none

/-- The type in whose body something stands, by the trees around it. -/
def encloserIn? : List (Nat × Tree) → Option Spot
  | [] => none
  | (_, t) :: above => if t.isBody then owner? above else none

/-- The type in whose body a tree stands. -/
def encloser? (s : Spot) : Option Spot := encloserIn? s.above

/-- True of a type that stands neither in the file itself nor in the body of a
type. -/
def isLocal (s : Spot) : Bool := s.tree.isType && !s.above.isEmpty && s.encloser?.isNone

/-- True when one of the trees is a local type. -/
def hasLocal : List (Nat × Tree) → Bool
  | [] => false
  | (i, t) :: above => isLocal ⟨t, i, above⟩ || hasLocal above

/-- True of the types of a unit: all of them, or all that are neither local nor
inside a local one. -/
def isListed (locals : Bool) (s : Spot) : Bool :=
  s.tree.isType && (locals || !hasLocal ((s.position, s.tree) :: s.above))

end Spot

/-- The types of a file in the order of the text. -/
def typeSpots (locals : Bool) (parts : List Tree) : List Spot :=
  (Tree.spotsOf [] 0 parts).filter (Spot.isListed locals)

namespace Outline

open Spot

variable {locals : Bool} {types : List Spot}

/-! ## Kinds of trees -/

@[simp] theorem isType_node (p : Phrase) (ps : List Tree) :
    (Tree.node p ps).isType = (typeKind? p).isSome := rfl

@[simp] theorem isType_error (ps : List Tree) : (Tree.error ps).isType = false := rfl

@[simp] theorem isBody_node (p : Phrase) (ps : List Tree) :
    (Tree.node p ps).isBody = isBody p := by
  simp [Tree.isBody, Tree.phrase?]

@[simp] theorem isBody_error (ps : List Tree) : (Tree.error ps).isBody = false := rfl

/-- No body declares a type. -/
theorem isBody_of_typeKind? {p : Phrase} {k : TypeKind} (h : typeKind? p = some k) :
    isBody p = false := by
  cases p <;> first | rfl | cases h

/-! ## What a walk carries along -/

/-- What `around` says of something that the trees `above` are around, where
`types` lists all types and the first `next` have been found. -/
def Around.Agrees (types : List Spot) (next : Nat) (above : List (Nat × Tree)) : Around → Prop
  | .file => above = []
  | .body i => i < next ∧ ∃ o, encloserIn? above = some o ∧ types[i]? = some o
  | .elsewhere => above ≠ [] ∧ encloserIn? above = none

/-- What `around` says of a tree: of what it stands in, and of a body, of what
its parts stand in. -/
def Around.LeadsTo (types : List Spot) (next : Nat) (position : Nat) (t : Tree)
    (above : List (Nat × Tree)) (around : Around) : Prop :=
  if t.isBody then around.inBody.Agrees types next ((position, t) :: above)
  else around.Agrees types next above

theorem Around.Agrees.mono {next next' : Nat} {above : List (Nat × Tree)} {around : Around}
    (h : around.Agrees types next above) (hle : next ≤ next') :
    around.Agrees types next' above := by
  cases around with
  | file => exact h
  | elsewhere => exact h
  | body i => exact ⟨Nat.lt_of_lt_of_le h.1 hle, h.2⟩

theorem Around.LeadsTo.mono {next next' position : Nat} {t : Tree} {above : List (Nat × Tree)}
    {around : Around} (h : around.LeadsTo types next position t above) (hle : next ≤ next') :
    around.LeadsTo types next' position t above := by
  unfold Around.LeadsTo at h ⊢
  split at h
  · rw [if_pos ‹_›]
    exact h.mono hle
  · rw [if_neg ‹_›]
    exact h.mono hle

/-- The parts of a tree that is neither a type nor a body stand elsewhere. -/
theorem leadsTo_elsewhere {t part : Tree} {next position i : Nat} {above : List (Nat × Tree)}
    (htype : t.isType = false) (hbody : t.isBody = false) :
    Around.elsewhere.LeadsTo types next position part ((i, t) :: above) := by
  unfold Around.LeadsTo
  split
  · refine ⟨List.cons_ne_nil _ _, ?_⟩
    show (if part.isBody then owner? ((i, t) :: above) else none) = none
    simp [owner?, htype, hbody]
  · refine ⟨List.cons_ne_nil _ _, ?_⟩
    show (if t.isBody then owner? above else none) = none
    simp [hbody]

/-- The parts of a type: its bodies lead to it, the others elsewhere. -/
theorem leadsTo_of_type {p q : Phrase} {k : TypeKind} {ps qs : List Tree} {next position i : Nat}
    {above : List (Nat × Tree)} (hkind : typeKind? p = some k)
    (htypes : types[next]? = some ⟨.node p ps, i, above⟩) :
    (if isBody q then Around.body next else .elsewhere).LeadsTo types (next + 1) position
      (.node q qs) ((i, .node p ps) :: above) := by
  have hp : isBody p = false := isBody_of_typeKind? hkind
  unfold Around.LeadsTo
  rw [isBody_node]
  cases hq : isBody q with
  | true =>
    rw [if_pos rfl, if_pos rfl]
    refine ⟨Nat.lt_succ_self next, ⟨.node p ps, i, above⟩, ?_, htypes⟩
    simp [encloserIn?, owner?, hq, hp, hkind]
  | false =>
    rw [if_neg Bool.false_ne_true, if_neg Bool.false_ne_true]
    refine ⟨List.cons_ne_nil _ _, ?_⟩
    simp [encloserIn?, hp]

/-- The parts of a body stand where the walk says of it. -/
theorem leadsTo_of_body {b part : Tree} {next position i : Nat} {above : List (Nat × Tree)}
    {around : Around} (hb : b.isBody = true) (h : around.LeadsTo types next i b above) :
    around.inBody.LeadsTo types next position part ((i, b) :: above) := by
  have hagrees : around.inBody.Agrees types next ((i, b) :: above) := by
    unfold Around.LeadsTo at h
    rwa [if_pos hb] at h
  unfold Around.LeadsTo
  split
  · have henclosers : encloserIn? ((position, part) :: (i, b) :: above) =
        encloserIn? ((i, b) :: above) := by
      simp [encloserIn?, owner?, *]
    cases around with
    | file => exact ⟨List.cons_ne_nil _ _, henclosers ▸ hagrees.2⟩
    | elsewhere => exact ⟨List.cons_ne_nil _ _, henclosers ▸ hagrees.2⟩
    | body j =>
      obtain ⟨hj, o, ho, htypes⟩ := hagrees
      exact ⟨hj, o, henclosers ▸ ho, htypes⟩
  · exact hagrees

/-! ## Local types -/

/-- What a walk carries to a type says of the type itself. -/
theorem Around.LeadsTo.agrees {p : Phrase} {k : TypeKind} {ps : List Tree} {next i : Nat}
    {above : List (Nat × Tree)} {around : Around}
    (h : around.LeadsTo types next i (.node p ps) above) (hkind : typeKind? p = some k) :
    around.Agrees types next above := by
  unfold Around.LeadsTo at h
  rwa [if_neg (by simp [isBody_of_typeKind? hkind])] at h

/-- The local types are those that a walk finds elsewhere. -/
theorem Around.Agrees.isLocal_iff {p : Phrase} {k : TypeKind} {ps : List Tree} {next i : Nat}
    {above : List (Nat × Tree)} {around : Around} (h : around.Agrees types next above)
    (hkind : typeKind? p = some k) :
    isLocal ⟨.node p ps, i, above⟩ = true ↔ around = .elsewhere := by
  cases around with
  | file =>
    have habove : above = [] := h
    simp [isLocal, habove]
  | body j =>
    obtain ⟨-, o, ho, -⟩ := h
    simp [isLocal, encloser?, ho]
  | elsewhere =>
    obtain ⟨hne, hnone⟩ := h
    simp [isLocal, encloser?, hnone, hne, hkind]

mutual

/-- Inside a local type nothing is listed but with the local types. -/
theorem spots_filter_of_hasLocal (t : Tree) (above : List (Nat × Tree)) (i : Nat)
    (h : hasLocal ((i, t) :: above) = true) :
    (t.spots above i).filter (isListed false) = [] := by
  match t, h with
  | .leaf .., _ => rfl
  | .missing .., _ => rfl
  | .junk .., _ => rfl
  | .node p ps, h =>
    rw [Tree.spots, List.filter_cons_of_neg (by simp [isListed, h])]
    exact spotsOf_filter_of_hasLocal ps _ 0 h
  | .error ps, h =>
    rw [Tree.spots, List.filter_cons_of_neg (by simp [isListed, h])]
    exact spotsOf_filter_of_hasLocal ps _ 0 h

theorem spotsOf_filter_of_hasLocal (ts : List Tree) (above : List (Nat × Tree)) (i : Nat)
    (h : hasLocal above = true) :
    (Tree.spotsOf above i ts).filter (isListed false) = [] := by
  match ts with
  | [] => rfl
  | t :: ts =>
    rw [Tree.spotsOf, List.filter_append,
      spots_filter_of_hasLocal t above i (by simp [hasLocal, h]),
      spotsOf_filter_of_hasLocal ts above (i + 1) h]
    rfl

end

/-! ## The walk -/

theorem sitesOf_cons (locals : Bool) (around : Phrase → Around) (before : Option Tree) (next : Nat)
    (t : Tree) (ts : List Tree) :
    sitesOf locals around before next (t :: ts) =
      sites locals (t.phrase?.elim .elsewhere around) before next t ++
        sitesOf locals around (if t.isNamed then some t else before)
          (next + (sites locals (t.phrase?.elim .elsewhere around) before next t).length) ts := by
  cases t <;> rfl

/-- What a site says of a type: the tree, its kind and the type around it. -/
structure Site.Fits (types : List Spot) (site : Site × Nat) (s : Spot) : Prop where
  tree : site.1.tree = s.tree
  kind : s.tree.phrase?.bind typeKind? = some site.1.kind
  around : site.1.around.Agrees types site.2 s.above

mutual

/-- A walk over a tree finds the types in it.  The invariant is about what the
walk carries along: where it is (`LeadsTo`), that it is in no local type that is
left out, and that the types it still finds are the next of the list. -/
theorem sites_fit (t : Tree) (around : Around) (before : Option Tree) (next i : Nat)
    (above : List (Nat × Tree))
    (hleads : ∀ p ps, t = .node p ps → around.LeadsTo types next i t above)
    (hlocal : locals = true ∨ hasLocal above = false)
    (hnext : (t.spots above i).filter (isListed locals) <+: types.drop next) :
    List.Forall₂ (Site.Fits types) ((sites locals around before next t).zipIdx next)
      ((t.spots above i).filter (isListed locals)) := by
  match t, hleads, hnext with
  | .leaf .., _, _ => exact List.Forall₂.nil
  | .missing .., _, _ => exact List.Forall₂.nil
  | .junk .., _, _ => exact List.Forall₂.nil
  | .error ps, _, hnext =>
    have hself : isListed locals ⟨.error ps, i, above⟩ = false := rfl
    rw [Tree.spots, List.filter_cons_of_neg (by simp [hself])] at hnext ⊢
    rw [sites]
    refine sitesOf_fit ps _ none next 0 _ (fun q qs _ j => ?_) ?_ hnext
    · exact leadsTo_elsewhere (isType_error ps) (isBody_error ps)
    · simpa [hasLocal, isLocal] using hlocal
  | .node p ps, hleads, hnext =>
    have hleads := hleads p ps rfl
    rw [sites]
    cases hkind : typeKind? p with
    | none =>
      have hself : isListed locals ⟨.node p ps, i, above⟩ = false := by simp [isListed, hkind]
      rw [Tree.spots, List.filter_cons_of_neg (by simp [hself])] at hnext ⊢
      refine sitesOf_fit ps _ none next 0 _ (fun q qs _ j => ?_) ?_ hnext
      · cases hbody : isBody p with
        | true =>
          rw [if_pos rfl]
          exact leadsTo_of_body (by simpa using hbody) hleads
        | false => exact leadsTo_elsewhere (by simp [hkind]) (by simpa using hbody)
      · simpa [hasLocal, isLocal, hkind] using hlocal
    | some kind =>
      have hagrees := hleads.agrees hkind
      have hislocal : isLocal ⟨.node p ps, i, above⟩ = true ↔ around = .elsewhere :=
        hagrees.isLocal_iff hkind
      dsimp only
      split
      · rename_i hskip
        obtain ⟨haround, hlocals⟩ : around = .elsewhere ∧ locals = false := by simpa using hskip
        subst hlocals
        have hhas : hasLocal ((i, .node p ps) :: above) = true := by
          simp [hasLocal, hislocal.mpr haround]
        rw [spots_filter_of_hasLocal _ above i hhas]
        exact List.Forall₂.nil
      · rename_i hkeep
        have hlocal' : locals = true ∨ hasLocal ((i, .node p ps) :: above) = false := by
          rcases hlocal with hall | hnone
          · exact .inl hall
          · by_cases haround : around = .elsewhere
            · left
              simpa [haround] using hkeep
            · right
              have : isLocal ⟨.node p ps, i, above⟩ = false := by
                rw [← Bool.not_eq_true, hislocal]
                exact haround
              simp [hasLocal, this, hnone]
        have hself : isListed locals ⟨.node p ps, i, above⟩ = true := by
          rcases hlocal' with hall | hnone
          · simp [isListed, hkind, hall]
          · simp [isListed, hkind, hnone]
        rw [Tree.spots, List.filter_cons_of_pos hself] at hnext ⊢
        obtain ⟨rest, hrest⟩ := hnext
        have hfirst : types[next]? = some ⟨.node p ps, i, above⟩ := by
          have := congrArg (·[0]?) hrest
          simpa using this.symm
        rw [List.zipIdx_cons]
        refine List.Forall₂.cons ⟨rfl, hkind, hagrees⟩ ?_
        refine sitesOf_fit ps _ none (next + 1) 0 _ (fun q qs _ j => ?_) hlocal' ?_
        · exact leadsTo_of_type hkind hfirst
        · refine ⟨rest, ?_⟩
          rw [← List.drop_drop, ← hrest]
          simp

/-- A walk over the parts of a tree finds the types in them. -/
theorem sitesOf_fit (ts : List Tree) (around : Phrase → Around) (before : Option Tree)
    (next i : Nat) (above : List (Nat × Tree))
    (hleads : ∀ p ps, Tree.node p ps ∈ ts →
      ∀ j, (around p).LeadsTo types next j (.node p ps) above)
    (hlocal : locals = true ∨ hasLocal above = false)
    (hnext : (Tree.spotsOf above i ts).filter (isListed locals) <+: types.drop next) :
    List.Forall₂ (Site.Fits types) ((sitesOf locals around before next ts).zipIdx next)
      ((Tree.spotsOf above i ts).filter (isListed locals)) := by
  match ts, hleads, hnext with
  | [], _, _ => exact List.Forall₂.nil
  | t :: ts, hleads, hnext =>
    rw [Tree.spotsOf, List.filter_append] at hnext ⊢
    rw [sitesOf_cons]
    have hfound := sites_fit t (t.phrase?.elim .elsewhere around) before next i above
      (by
        rintro p ps rfl
        exact hleads p ps List.mem_cons_self i)
      hlocal ((List.prefix_append _ _).trans hnext)
    rw [List.zipIdx_append]
    refine List.rel_append hfound ?_
    have hlength := hfound.length_eq
    rw [List.length_zipIdx] at hlength
    refine sitesOf_fit ts around _ _ (i + 1) above (fun p ps hmem j => ?_) hlocal ?_
    · exact (hleads p ps (List.mem_cons_of_mem t hmem) j).mono (Nat.le_add_right _ _)
    · obtain ⟨rest, hrest⟩ := hnext
      refine ⟨rest, ?_⟩
      rw [← List.drop_drop, ← hrest, List.append_assoc, hlength, List.drop_left]

end

/-- The walk over a file finds its types. -/
theorem fileSites_fit (locals : Bool) (parts : List Tree) :
    List.Forall₂ (Site.Fits (typeSpots locals parts)) (fileSites locals parts).zipIdx
      (typeSpots locals parts) := by
  refine sitesOf_fit parts (fun _ => .file) none 0 0 [] (fun p ps _ j => ?_) (.inr rfl) ?_
  · unfold Around.LeadsTo
    split
    · exact ⟨List.cons_ne_nil _ _, by simp_all [encloserIn?, owner?]⟩
    · exact rfl
  · exact List.prefix_refl _

end Outline

end SourceShelf.Java
