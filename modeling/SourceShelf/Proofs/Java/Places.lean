import SourceShelf.Proofs.Java.Follows
import SourceShelf.Proofs.Java.Spots

/-!
# Where types start and end

The leaves of a text stand one behind the other (`Tree.InOrder`), and the leaves of
every tree are some of those of the trees around it, so a tree lies inside what is
around it.

That no two types start at the same place is a fact about the grammar.  A type could
only start where another one starts if it were its first word.  But a type starts with
a modifier, an annotation or a word of its own (`Tree.Opens`), so its first leaf is a
word that belongs to no type inside it.

* `laidOut_inOrder`, `Tree.spotsOf_within`: leaves in order, and trees inside trees.
* `Tree.opens_of_derived`: a type that follows the grammar starts with a word of its own.
* `Tree.spotsOf_ascending`: types start one behind the other.
* `parse_ok`: what a text without faults is, and what is made of it.
-/

namespace SourceShelf.Java

namespace Tree

/-! ## Leaves in order -/

mutual

theorem start?_eq (t : Tree) : t.start? = t.leaves.head?.map Prod.fst := by
  match t with
  | .leaf .. => rfl
  | .missing .. => rfl
  | .junk .. => rfl
  | .node p ps => exact startOf?_eq ps
  | .error ps => exact startOf?_eq ps

theorem startOf?_eq (ts : List Tree) : startOf? ts = (leavesOf ts).head?.map Prod.fst := by
  match ts with
  | [] => rfl
  | t :: ts =>
    rw [startOf?, leavesOf, start?_eq t, startOf?_eq ts, List.head?_append]
    cases t.leaves.head? <;> rfl

end

mutual

theorem stop?_eq (t : Tree) : t.stop? = t.leaves.getLast?.map Prod.snd := by
  match t with
  | .leaf .. => rfl
  | .missing .. => rfl
  | .junk .. => rfl
  | .node p ps => exact stopOf?_eq ps
  | .error ps => exact stopOf?_eq ps

theorem stopOf?_eq (ts : List Tree) : stopOf? ts = (leavesOf ts).getLast?.map Prod.snd := by
  match ts with
  | [] => rfl
  | t :: ts =>
    rw [stopOf?, leavesOf, stop?_eq t, stopOf?_eq ts, List.getLast?_append]
    cases (leavesOf ts).getLast? <;> rfl

end

/-- The leaves stand one behind the other. -/
structure InOrder (leaves : List (Nat × Nat)) : Prop where
  ascending : leaves.Pairwise fun x y => x.2 ≤ y.1
  forward : ∀ x ∈ leaves, x.1 ≤ x.2

theorem InOrder.sublist {l l' : List (Nat × Nat)} (h : InOrder l) (hsub : l'.Sublist l) :
    InOrder l' where
  ascending := h.ascending.sublist hsub
  forward := fun x hx => h.forward x (hsub.subset hx)

theorem laidOut_inOrder {low high : Nat} {leaves : List (Nat × Nat)}
    (h : laidOut low high leaves = true) :
    InOrder leaves ∧ ∀ x ∈ leaves, low ≤ x.1 ∧ x.2 ≤ high := by
  induction leaves generalizing low with
  | nil => exact ⟨⟨.nil, by simp⟩, by simp⟩
  | cons x leaves ih =>
    obtain ⟨a, b⟩ := x
    simp only [laidOut, Bool.and_eq_true, decide_eq_true_eq] at h
    obtain ⟨⟨hlow, hab⟩, hrest⟩ := h
    obtain ⟨hinOrder, hbounds⟩ := ih hrest
    have hhigh : b ≤ high := by
      cases leaves with
      | nil => simpa [laidOut] using hrest
      | cons y leaves =>
        have hy := hbounds y List.mem_cons_self
        have hyy := hinOrder.forward y List.mem_cons_self
        omega
    refine ⟨⟨List.pairwise_cons.mpr ⟨fun y hy => (hbounds y hy).1, hinOrder.ascending⟩, ?_⟩, ?_⟩
    · exact List.forall_mem_cons.mpr ⟨hab, hinOrder.forward⟩
    · refine List.forall_mem_cons.mpr ⟨⟨hlow, hhigh⟩, fun y hy => ?_⟩
      obtain ⟨hby, hy⟩ := hbounds y hy
      exact ⟨by show low ≤ y.1; omega, hy⟩

/-- A tree with leaves starts at the first and ends at the last of them. -/
theorem bounds_of_inOrder {t : Tree} (h : InOrder t.leaves) {x : Nat × Nat} (hx : x ∈ t.leaves) :
    t.start ≤ x.1 ∧ x.2 ≤ t.stop := by
  constructor
  · rw [start, start?_eq]
    cases hleaves : t.leaves with
    | nil =>
      rw [hleaves] at hx
      cases hx
    | cons y rest =>
      rw [hleaves] at hx h
      show y.1 ≤ x.1
      rcases List.mem_cons.mp hx with rfl | hx
      · exact Nat.le_refl _
      · have hyx := (List.pairwise_cons.mp h.ascending).1 x hx
        have hy := h.forward y List.mem_cons_self
        omega
  · rw [stop, stop?_eq]
    rcases List.eq_nil_or_concat t.leaves with hleaves | ⟨rest, y, hleaves⟩
    · rw [hleaves] at hx
      cases hx
    · rw [hleaves] at hx h
      rw [hleaves, List.concat_eq_append, List.getLast?_append]
      rw [List.concat_eq_append] at hx h
      show x.2 ≤ y.2
      rcases List.mem_append.mp hx with hx | hx
      · have hxy := (List.pairwise_append.mp h.ascending).2.2 x hx y (List.mem_singleton_self y)
        have hy := h.forward y (List.mem_append_right _ (List.mem_singleton_self y))
        omega
      · obtain rfl := List.mem_singleton.mp hx
        exact Nat.le_refl _

/-- A tree with leaves lies inside a tree that has them among its own. -/
theorem within_of_sublist {t u : Tree} (h : InOrder t.leaves) (hsub : u.leaves.Sublist t.leaves)
    (hne : u.leaves ≠ []) : t.start ≤ u.start ∧ u.stop ≤ t.stop := by
  constructor
  · obtain ⟨x, rest, hx⟩ := List.exists_cons_of_ne_nil hne
    have hstart : u.start = x.1 := by rw [start, start?_eq, hx]; rfl
    rw [hstart]
    exact (bounds_of_inOrder h (hsub.subset (hx ▸ List.mem_cons_self))).1
  · have hlast := List.getLast?_eq_some_getLast hne
    have hstop : u.stop = (u.leaves.getLast hne).2 := by rw [stop, stop?_eq, hlast]; rfl
    rw [hstop]
    exact (bounds_of_inOrder h (hsub.subset (List.getLast_mem hne))).2

/-! ## Trees inside trees -/

mutual

/-- The leaves of a tree are some of those of the trees around it. -/
theorem spots_within (t : Tree) (above : List (Nat × Tree)) (i : Nat) (s : Spot)
    (hs : s ∈ t.spots above i) :
    s.tree.leaves.Sublist t.leaves ∧
      ∀ x ∈ s.above, x ∈ above ∨ s.tree.leaves.Sublist x.2.leaves := by
  match t with
  | .leaf .. =>
    obtain rfl := List.mem_singleton.mp hs
    exact ⟨.refl _, fun x hx => .inl hx⟩
  | .missing .. =>
    obtain rfl := List.mem_singleton.mp hs
    exact ⟨.refl _, fun x hx => .inl hx⟩
  | .junk .. =>
    obtain rfl := List.mem_singleton.mp hs
    exact ⟨.refl _, fun x hx => .inl hx⟩
  | .node p ps =>
    rcases List.mem_cons.mp hs with rfl | hs
    · exact ⟨.refl _, fun x hx => .inl hx⟩
    · obtain ⟨hsub, habove⟩ := spotsOf_within ps _ 0 s hs
      refine ⟨hsub, fun x hx => ?_⟩
      rcases habove x hx with hx | hx
      · rcases List.mem_cons.mp hx with rfl | hx
        · exact .inr hsub
        · exact .inl hx
      · exact .inr hx
  | .error ps =>
    rcases List.mem_cons.mp hs with rfl | hs
    · exact ⟨.refl _, fun x hx => .inl hx⟩
    · obtain ⟨hsub, habove⟩ := spotsOf_within ps _ 0 s hs
      refine ⟨hsub, fun x hx => ?_⟩
      rcases habove x hx with hx | hx
      · rcases List.mem_cons.mp hx with rfl | hx
        · exact .inr hsub
        · exact .inl hx
      · exact .inr hx

theorem spotsOf_within (ts : List Tree) (above : List (Nat × Tree)) (i : Nat) (s : Spot)
    (hs : s ∈ spotsOf above i ts) :
    s.tree.leaves.Sublist (leavesOf ts) ∧
      ∀ x ∈ s.above, x ∈ above ∨ s.tree.leaves.Sublist x.2.leaves := by
  match ts with
  | [] => cases hs
  | t :: ts =>
    rcases List.mem_append.mp hs with hs | hs
    · obtain ⟨hsub, habove⟩ := spots_within t above i s hs
      exact ⟨hsub.trans (List.sublist_append_left _ _), habove⟩
    · obtain ⟨hsub, habove⟩ := spotsOf_within ts above (i + 1) s hs
      exact ⟨hsub.trans (List.sublist_append_right _ _), habove⟩

end

/-! ## How types start -/

/-- The first leaf of some trees is a word with a length that belongs to no type. -/
inductive Opens : List Tree → Prop where
  | word {t : Token} {a b : Nat} {ts : List Tree} (h : a < b) : Opens (.leaf t a b :: ts)
  | phrase {p : Phrase} {ps ts : List Tree} (hp : Outline.typeKind? p = none) (h : Opens ps) :
      Opens (.node p ps :: ts)

namespace Opens

theorem append {ts : List Tree} (h : Opens ts) (us : List Tree) : Opens (ts ++ us) := by
  cases h with
  | word h => exact .word h
  | phrase hp h => exact .phrase hp h

theorem shownAs {ts : List Tree} (h : Opens ts) (w : Token) : Opens (ts.map (Tree.shownAs w)) := by
  cases h with
  | word h => exact .word h
  | phrase hp h => exact .phrase hp h

/-- The types in some trees have their leaves behind the first one. -/
theorem leaves {ts : List Tree} (h : Opens ts) :
    ∃ a b rest, leavesOf ts = (a, b) :: rest ∧ a < b ∧
      ∀ above i, ∀ s ∈ spotsOf above i ts, s.tree.isType = true → s.tree.leaves.Sublist rest := by
  induction h with
  | @word t a b ts h =>
    refine ⟨a, b, leavesOf ts, rfl, h, fun above i s hs htype => ?_⟩
    rcases List.mem_append.mp hs with hs | hs
    · obtain rfl := List.mem_singleton.mp hs
      cases htype
    · exact (spotsOf_within ts above (i + 1) s hs).1
  | @phrase p ps ts hp _ ih =>
    obtain ⟨a, b, rest, hleaves, hab, hrest⟩ := ih
    refine ⟨a, b, rest ++ leavesOf ts, ?_, hab, fun above i s hs htype => ?_⟩
    · show leavesOf ps ++ leavesOf ts = _
      rw [hleaves, List.cons_append]
    · rcases List.mem_append.mp hs with hs | hs
      · rcases List.mem_cons.mp hs with rfl | hs
        · rw [Outline.isType_node, hp] at htype
          cases htype
        · exact (hrest _ 0 s hs htype).trans (List.sublist_append_left _ _)
      · exact (spotsOf_within ts above (i + 1) s hs).1.trans (List.sublist_append_right _ _)

end Opens

/-- True of the phrases that declare a type. -/
def declares : Symbol → Bool
  | .token _ => false
  | .phrase p => (Outline.typeKind? p).isSome

/-- Symbols that start with a word of their own: words, types, and what may stand before
the word of a type. -/
def opensWith : Symbol → Bool
  | .token _ => true
  | .phrase .modifiers | .phrase .modifierList | .phrase .annotationUse
  | .phrase .annotationMarker | .phrase .annotationCall => true
  | x => declares x

/-- What starts with a word of its own has a first symbol that does so, too, and that is
no type. -/
private theorem rule_opensWith :
    ∀ p ∈ Phrase.all, opensWith (.phrase p) = true → ∀ a ∈ p.rule,
      a.steps.all (·.optional) = false ∧
        ∀ m ∈ Form.nextSteps a.steps, opensWith m.1 = true ∧ declares m.1 = false := by
  decide +kernel

/-- The first symbol of what starts with a word of its own. -/
theorem opensWith_first {p : Phrase} {a : Alternative} (ha : a ∈ p.rule)
    (hp : opensWith (.phrase p) = true) {xs : List Symbol} (h : takes a.steps xs) :
    ∃ x rest, xs = x :: rest ∧ opensWith x = true ∧ declares x = false := by
  obtain ⟨hsome, hfirst⟩ := rule_opensWith p p.mem_all hp a ha
  cases xs with
  | nil =>
    have hall : a.steps.all (·.optional) = true := h
    rw [hsome] at hall
    cases hall
  | cons x xs =>
    obtain ⟨rest, hmem, -⟩ := h
    exact ⟨x, xs, rfl, hfirst _ hmem⟩

/-- Where the first symbol starts with a word of its own, so do the pieces: a comment
may stand before it, which is a word, too. -/
theorem opens_of_pieces {names : List (Symbol × Token)} {pieces : List Piece}
    (hfirst : ∃ x rest, pieces.filterMap Piece.symbol? = x :: rest ∧ opensWith x = true ∧
      declares x = false)
    (hopens : ∀ c ∈ pieces, ∀ x, c.symbol? = some x → opensWith x = true → declares x = false →
      anyFaulty c.trees = false → Opens c.trees)
    (hbetween : ∀ c ∈ pieces, c.symbol? = none → Between c.trees)
    (hfaulty : anyFaulty (pieces.flatMap (·.shown names)) = false) :
    Opens (pieces.flatMap (·.shown names)) := by
  induction pieces with
  | nil =>
    obtain ⟨x, rest, hnil, -⟩ := hfirst
    cases hnil
  | cons c pieces ih =>
    rw [List.flatMap_cons] at hfaulty ⊢
    rw [anyFaulty_append, Bool.or_eq_false_iff, Piece.anyFaulty_shown] at hfaulty
    obtain ⟨x, rest, hsymbols, hx⟩ := hfirst
    cases hsymbol : c.symbol? with
    | some y =>
      rw [List.filterMap_cons_some hsymbol] at hsymbols
      obtain rfl : y = x := (List.cons.inj hsymbols).1
      have hself := hopens c List.mem_cons_self y hsymbol hx.1 hx.2 hfaulty.1
      have hshown : Opens (c.shown names) := by
        unfold Piece.shown
        split
        · exact hself.shownAs _
        · exact hself
      exact hshown.append _
    | none =>
      have hshown : c.shown names = c.trees := by
        rw [Piece.shown, hsymbol]
        rfl
      rw [hshown]
      rw [List.filterMap_cons_none hsymbol] at hsymbols
      have hbehind := ih ⟨x, rest, hsymbols, hx⟩
        (fun c hc => hopens c (List.mem_cons_of_mem _ hc))
        (fun c hc => hbetween c (List.mem_cons_of_mem _ hc)) hfaulty.2
      have hcase := hbetween c List.mem_cons_self hsymbol
      have hsound := hfaulty.1
      generalize c.trees = ts at hcase hsound ⊢
      cases hcase with
      | comment ht h => exact .word h
      | fault us => cases hsound
      | nothing => exact hbehind

/-- What stands before the word of a type starts with a word of its own. -/
theorem opens_of_reads {x : Symbol} {ts : List Tree} (h : Reads x ts)
    (hopens : opensWith x = true) (hdeclares : declares x = false)
    (hfaulty : anyFaulty ts = false) : Opens ts := by
  induction h with
  | word h => exact .word h
  | missing => cases hfaulty
  | @phrase p a pieces ha htakes _ hbetween ih =>
    have hinner : anyFaulty (pieces.flatMap (·.shown a.shown)) = false := by
      unfold Phrase.wrap at hfaulty
      split at hfaulty
      · exact hfaulty
      · simpa [isFaulty] using hfaulty
    have hparts := opens_of_pieces (opensWith_first ha hopens htakes) ih hbetween hinner
    unfold Phrase.wrap
    split
    · exact hparts
    · refine .phrase ?_ hparts
      simpa [declares] using hdeclares

/-- A type starts with a word of its own. -/
theorem opens_of_derived {p : Phrase} {parts : List Tree} {k : TypeKind}
    (hp : Outline.typeKind? p = some k) (h : p.Derived parts) (hfaulty : anyFaulty parts = false) :
    Opens parts := by
  have hhidden : p.isHidden = false := by
    cases p <;> first | rfl | cases hp
  have hopens : opensWith (.phrase p) = true := by
    cases p <;> first | rfl | cases hp
  obtain ⟨a, ha, pieces, htakes, hreads, hbetween, rfl⟩ := h.inv hhidden
  exact opens_of_pieces (opensWith_first ha hopens htakes)
    (fun c hc x hx => opens_of_reads (hreads c hc x hx)) hbetween hfaulty

/-! ## Types one behind the other -/

/-- A type that starts with a word of its own. -/
def OpenType (p : Phrase) (parts : List Tree) : Prop :=
  (Outline.typeKind? p).isSome = true → Opens parts

mutual

theorem every_of_every {P Q : Phrase → List Tree → Prop}
    (hPQ : ∀ p ps, P p ps → anyFaulty ps = false → Q p ps) (t : Tree) (h : t.Every P)
    (hfaulty : t.isFaulty = false) : t.Every Q := by
  match t with
  | .leaf .. => trivial
  | .missing .. => trivial
  | .junk .. => trivial
  | .error _ => trivial
  | .node p ps => exact ⟨hPQ p ps h.1 hfaulty, everyOf_of_everyOf hPQ ps h.2 hfaulty⟩

theorem everyOf_of_everyOf {P Q : Phrase → List Tree → Prop}
    (hPQ : ∀ p ps, P p ps → anyFaulty ps = false → Q p ps) (ts : List Tree) (h : EveryOf P ts)
    (hfaulty : anyFaulty ts = false) : EveryOf Q ts := by
  match ts with
  | [] => trivial
  | t :: ts =>
    obtain ⟨ht, hts⟩ := Bool.or_eq_false_iff.mp (anyFaulty_cons t ts ▸ hfaulty)
    exact ⟨every_of_every hPQ t h.1 ht, everyOf_of_everyOf hPQ ts h.2 hts⟩

end

/-- Every type of a text without faults starts with a word of its own. -/
theorem openType_of_derived {ts : List Tree} (h : EveryOf Phrase.Derived ts)
    (hfaulty : anyFaulty ts = false) : EveryOf OpenType ts := by
  refine everyOf_of_everyOf (fun p ps hp hps htype => ?_) ts h hfaulty
  obtain ⟨k, hk⟩ := Option.isSome_iff_exists.mp htype
  exact opens_of_derived hk hp hps

mutual

/-- What holds of every phrase holds at every spot. -/
theorem every_of_mem_spots {P : Phrase → List Tree → Prop} (t : Tree) (above : List (Nat × Tree))
    (i : Nat) (h : t.Every P) (hsound : t.isFaulty = false) (s : Spot) (hs : s ∈ t.spots above i) :
    s.tree.Every P := by
  match t with
  | .leaf .. =>
    obtain rfl := List.mem_singleton.mp hs
    trivial
  | .missing .. =>
    obtain rfl := List.mem_singleton.mp hs
    trivial
  | .junk .. =>
    obtain rfl := List.mem_singleton.mp hs
    trivial
  | .error _ => cases hsound
  | .node p ps =>
    rcases List.mem_cons.mp hs with rfl | hs
    · exact h
    · exact every_of_mem_spotsOf ps _ 0 h.2 hsound s hs

theorem every_of_mem_spotsOf {P : Phrase → List Tree → Prop} (ts : List Tree)
    (above : List (Nat × Tree)) (i : Nat) (h : EveryOf P ts) (hsound : anyFaulty ts = false)
    (s : Spot) (hs : s ∈ spotsOf above i ts) : s.tree.Every P := by
  match ts with
  | [] => cases hs
  | t :: ts =>
    obtain ⟨ht, hts⟩ := Bool.or_eq_false_iff.mp (anyFaulty_cons t ts ▸ hsound)
    rcases List.mem_append.mp hs with hs | hs
    · exact every_of_mem_spots t above i h.1 ht s hs
    · exact every_of_mem_spotsOf ts above (i + 1) h.2 hts s hs

end

/-- A type starts at its first leaf, which is a word. -/
theorem leaves_of_isType {t : Tree} (h : t.Every OpenType) (htype : t.isType = true) :
    ∃ a b rest, t.leaves = (a, b) :: rest ∧ a < b ∧ t.start = a ∧
      ∀ i above, ∀ s ∈ (t.spots above i).tail, s.tree.isType = true →
        s.tree.leaves.Sublist rest := by
  match t, h, htype with
  | .node p ps, h, htype =>
    obtain ⟨a, b, rest, hleaves, hab, hrest⟩ := (h.1 htype).leaves
    refine ⟨a, b, rest, hleaves, hab, ?_, fun i above s hs => hrest _ 0 s hs⟩
    rw [start, start?_eq]
    show ((leavesOf ps).head?.map Prod.fst).getD 0 = a
    rw [hleaves]
    rfl

/-- A type behind a leaf starts behind it. -/
theorem lt_start_of_sublist {t : Tree} (h : t.Every OpenType) (htype : t.isType = true)
    {x : Nat × Nat} {leaves : List (Nat × Nat)} (hlt : x.1 < x.2)
    (hbehind : ∀ y ∈ leaves, x.2 ≤ y.1) (hsub : t.leaves.Sublist leaves) : x.1 < t.start := by
  obtain ⟨a, b, rest, hleaves, -, hstart, -⟩ := leaves_of_isType h htype
  have hmem : (a, b) ∈ leaves := hsub.subset (hleaves ▸ List.mem_cons_self)
  have hle : x.2 ≤ a := hbehind _ hmem
  omega

/-- The second of two spots starts behind the first, if both are types. -/
def TypesAscend (s s' : Spot) : Prop :=
  s.tree.isType = true → s'.tree.isType = true → s.tree.start < s'.tree.start

mutual

theorem spots_ascending (t : Tree) (above : List (Nat × Tree)) (i : Nat) (h : t.Every OpenType)
    (hsound : t.isFaulty = false) (horder : InOrder t.leaves) :
    (t.spots above i).Pairwise TypesAscend := by
  match t with
  | .leaf .. => exact List.pairwise_singleton _ _
  | .missing .. => exact List.pairwise_singleton _ _
  | .junk .. => exact List.pairwise_singleton _ _
  | .error _ => cases hsound
  | .node p ps =>
    refine List.pairwise_cons.mpr ⟨fun s hs htype htype' => ?_,
      spotsOf_ascending ps _ 0 h.2 hsound horder⟩
    obtain ⟨a, b, rest, hleaves, hab, hstart, hrest⟩ := leaves_of_isType h htype
    have hbehind : ∀ y ∈ rest, b ≤ y.1 := by
      have hpairs := horder.ascending
      rw [hleaves] at hpairs
      exact (List.pairwise_cons.mp hpairs).1
    have hs' : s.tree.Every OpenType := every_of_mem_spotsOf ps _ 0 h.2 hsound s hs
    show start (.node p ps) < s.tree.start
    rw [hstart]
    exact lt_start_of_sublist (x := (a, b)) hs' htype' hab hbehind (hrest i above s hs htype')

/-- Types start one behind the other. -/
theorem spotsOf_ascending (ts : List Tree) (above : List (Nat × Tree)) (i : Nat)
    (h : EveryOf OpenType ts) (hsound : anyFaulty ts = false) (horder : InOrder (leavesOf ts)) :
    (spotsOf above i ts).Pairwise TypesAscend := by
  match ts with
  | [] => exact .nil
  | t :: ts =>
    obtain ⟨ht, hts⟩ := Bool.or_eq_false_iff.mp (anyFaulty_cons t ts ▸ hsound)
    refine List.pairwise_append.mpr
      ⟨spots_ascending t above i h.1 ht (horder.sublist (List.sublist_append_left _ _)),
        spotsOf_ascending ts above (i + 1) h.2 hts
          (horder.sublist (List.sublist_append_right _ _)), ?_⟩
    intro s hs s' hs' htype htype'
    have hevery := every_of_mem_spots t above i h.1 ht s hs
    have hevery' := every_of_mem_spotsOf ts above (i + 1) h.2 hts s' hs'
    obtain ⟨a, b, rest, hleaves, hab, hstart, -⟩ := leaves_of_isType hevery htype
    have hmem : (a, b) ∈ t.leaves :=
      (spots_within t above i s hs).1.subset (hleaves ▸ List.mem_cons_self)
    have hbehind : ∀ y ∈ leavesOf ts, b ≤ y.1 := fun y hy =>
      (List.pairwise_append.mp horder.ascending).2.2 (a, b) hmem y hy
    rw [hstart]
    exact lt_start_of_sublist (x := (a, b)) hevery' htype' hab hbehind
      (spotsOf_within ts above (i + 1) s' hs').1

end

end Tree

/-! ## Texts without faults -/

/-- The trees of a text without faults: they follow the grammar, and their leaves stand
one behind the other. -/
structure Tree.IsSound (parts : List Tree) : Prop where
  derived : Tree.EveryOf Phrase.Derived parts
  faultless : Tree.anyFaulty parts = false
  inOrder : Tree.InOrder (Tree.leavesOf parts)

theorem SyntaxTree.isSound {text : String} (h : (SyntaxTree.ofText text).firstFault? = none) :
    Tree.IsSound (SyntaxTree.ofText text).parts where
  derived := (SyntaxTree.isFile h).derived
  faultless := Tree.anyFaulty_of_firstFaultOf? _ h
  inOrder := (Tree.laidOut_inOrder (SyntaxTree.ofText text).laidOut).1

/-- A tree without faults is read as the unit that its parts make. -/
theorem SyntaxTree.read_ok {text : String} {tree : SyntaxTree text} {path : Option String}
    {locals : Bool} {u : CompilationUnit} (h : tree.read path locals = .ok u) :
    tree.firstFault? = none ∧ u = Outline.unit locals text path tree.parts := by
  unfold SyntaxTree.read at h
  split at h
  · cases h
  · exact ⟨‹_›, (Except.ok.inj h).symm⟩

/-- What reading a text without faults gives. -/
theorem parse_ok {text : String} {path : Option String} {locals : Bool} {u : CompilationUnit}
    (h : parse text path locals = .ok u) :
    Tree.IsSound (SyntaxTree.ofText text).parts ∧
      u = Outline.unit locals text path (SyntaxTree.ofText text).parts := by
  obtain ⟨hfault, hu⟩ := SyntaxTree.read_ok h
  exact ⟨SyntaxTree.isSound hfault, hu⟩

end SourceShelf.Java
