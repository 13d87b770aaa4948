import SourceShelf.Proofs.Java.Leaves
import SourceShelf.Proofs.Java.TypeHeads
import Mathlib.Data.List.Flatten

/-!
# Which comment documents what

A doc comment documents the declaration that it stands right before.  A type without one is
documented by the last doc comment inside it, before its name and outside annotations
(`Spot.Documents`).

* `mem_headSpots_iff`: where a doc comment of a type can stand inside it.
* `typeDoc_hasDoc`, `docBefore_hasDoc`: what `Outline.typeDoc` and `Outline.docBefore` find
  is the comment that documents a declaration.
* `Documents.unique`: a comment documents one declaration.
* `Documents.start_lt`: and stands before its name.
-/

namespace SourceShelf.Java

namespace Tree

theorem leavesOf_beforeName_sublist (t : Tree) :
    (leavesOf (Outline.beforeName t)).Sublist t.leaves := by
  refine .trans ?_ (leavesOf_parts_sublist t)
  rw [leavesOf_eq, leavesOf_eq, Outline.beforeName, List.flatMap_assoc]
  refine .trans ?_ ((List.takeWhile_sublist (p := (!·.isWord .identifier))).flatMap _)
  refine List.Sublist.flatMap_right _ fun p _ => ?_
  split
  · rw [← leavesOf_eq]
    exact leavesOf_parts_sublist p
  · rw [List.flatMap_singleton]

end Tree

namespace Spot

/-! ## The parts of a spot -/

/-- The parts of a tree with their spots. -/
def partSpots (s : Spot) : List Spot := s.tree.parts.zipIdx.map fun x => s.part x.2 x.1

theorem mem_partSpots {s m : Spot} :
    m ∈ s.partSpots ↔ ∃ k t, s.tree.parts[k]? = some t ∧ m = s.part k t := by
  rw [partSpots, List.mem_map]
  constructor
  · rintro ⟨⟨t, k⟩, hmem, rfl⟩
    exact ⟨k, t, List.mem_zipIdx_iff_getElem?.mp hmem, rfl⟩
  · rintro ⟨k, t, ht, rfl⟩
    exact ⟨(t, k), List.mem_zipIdx_iff_getElem?.mpr ht, rfl⟩

theorem map_tree_partSpots (s : Spot) : s.partSpots.map tree = s.tree.parts := by
  rw [partSpots, List.map_map]
  show s.tree.parts.zipIdx.map Prod.fst = _
  rw [List.zipIdx_map_fst]

theorem StandsIn.of_mem_partSpots {parts : List Tree} {s m : Spot} (h : s.StandsIn parts)
    (hm : m ∈ s.partSpots) : m.StandsIn parts := by
  obtain ⟨k, t, ht, rfl⟩ := mem_partSpots.mp hm
  exact h.part ht

/-! ## Comments -/

/-- True of a spot inside a type and before its name, if nothing around it there is a phrase
of the given kinds. -/
structure InHead (around : Phrase → Bool) (c d : Spot) : Prop where
  inside : c.IsInside d
  outside : ∀ o : Spot, c.IsInside o → o.IsInside d → o.tree.phrase?.any around = false
  beforeName : ∃ n, Outline.identifier? d.tree = some n ∧ c.tree.start < n.start

/-- True of a doc comment and the declaration that it documents.  It stands right before the
declaration; or, where no doc comment does so, it is the last one inside a type that stands
before the name of the type and outside phrases of some kinds. -/
structure DocumentsOutside (around : Phrase → Bool) (chars : List Char) (parts : List Tree)
    (c d : Spot) : Prop where
  comment : c.StandsIn parts
  declaration : d.StandsIn parts
  isDoc : Outline.isDoc chars c.tree = true
  place : c.RightBefore parts d ∨
    d.tree.isType = true ∧
      (∀ b : Spot, b.StandsIn parts → Outline.isDoc chars b.tree = true → ¬ b.RightBefore parts d) ∧
      c.InHead around d ∧
      ∀ b : Spot, b.StandsIn parts → Outline.isDoc chars b.tree = true → b.InHead around d →
        b.tree.start ≤ c.tree.start

/-- A comment documents a declaration from a place outside annotations. -/
abbrev Documents (chars : List Char) (parts : List Tree) (c d : Spot) : Prop :=
  DocumentsOutside Phrase.isMark chars parts c d

/-- The text of the comment that documents a declaration, if there is one. -/
def HasDoc (chars : List Char) (parts : List Tree) (d : Spot) (doc : Option String) : Prop :=
  ∀ x, doc = some x ↔ ∃ c, Documents chars parts c d ∧ Outline.textOf chars c.tree = x

/-- True of the declarations of types, and of what stands in their bodies. -/
def Declares (d : Spot) : Prop := d.tree.phrase?.any Phrase.declares = true

section Comments

variable {parts : List Tree} {chars : List Char} {c d : Spot}

/-- A doc comment is a leaf. -/
theorem StandsIn.leaf_of_isDoc (h : c.StandsIn parts) (hsound : Tree.IsSound parts)
    (hdoc : Outline.isDoc chars c.tree = true) :
    ∃ w a b, c.tree = .leaf w a b ∧ w.isComment = true := by
  have hcomment : c.tree.isComment = true := (Bool.and_eq_true_iff.mp hdoc).1
  obtain ⟨w, a, b, hleaf⟩ | ⟨p, ps, hnode, -⟩ := h.sound hsound
  · rw [hleaf] at hcomment
    exact ⟨w, a, b, hleaf, hcomment⟩
  · rw [hnode] at hcomment
    cases hcomment

/-- Every word has a length. -/
theorem StandsIn.lt_of_leaf (hsolid : Tree.IsSolid parts) (h : c.StandsIn parts) {w : Token}
    {x y : Nat} (hleaf : c.tree = .leaf w x y) : x < y := by
  refine hsolid.forward (x, y) (h.leaves_sublist.subset ?_)
  rw [hleaf]
  exact List.mem_singleton_self _

/-- Doc comments that start at one place are the same. -/
theorem eq_of_start (hsolid : Tree.IsSolid parts) {b : Spot} (hb : b.StandsIn parts)
    (hc : c.StandsIn parts) (hbdoc : Outline.isDoc chars b.tree = true)
    (hcdoc : Outline.isDoc chars c.tree = true) (hstart : b.tree.start = c.tree.start) : b = c := by
  obtain ⟨w, x, y, hleaf, -⟩ := hb.leaf_of_isDoc hsolid.toIsSound hbdoc
  obtain ⟨w', x', y', hleaf', -⟩ := hc.leaf_of_isDoc hsolid.toIsSound hcdoc
  have hforward := hb.lt_of_leaf hsolid hleaf
  have hforward' := hc.lt_of_leaf hsolid hleaf'
  rw [hleaf, hleaf'] at hstart
  obtain rfl : x = x' := hstart
  rcases hb.compare hsolid.toIsSound hc with (hin | hin) | hbefore | hbefore
  · exact hin.eq_of_parts hb (by rw [hleaf']; rfl)
  · exact (hin.eq_of_parts hc (by rw [hleaf]; rfl)).symm
  · rw [hleaf, hleaf'] at hbefore
    have : y ≤ x := hbefore _ (List.mem_singleton_self _) _ (List.mem_singleton_self _)
    omega
  · rw [hleaf, hleaf'] at hbefore
    have : y' ≤ x := hbefore _ (List.mem_singleton_self _) _ (List.mem_singleton_self _)
    omega

theorem isNamed_of_declares (h : d.Declares) : d.tree.isNamed = true := by
  unfold Declares at h
  cases hd : d.tree with
  | node p ps => rfl
  | _ =>
    rw [hd] at h
    cases h

theorem declares_of_isType (h : d.tree.isType = true) : d.Declares := by
  obtain ⟨k, hk⟩ := Option.isSome_iff_exists.mp h
  obtain ⟨p, hp, hkind⟩ := Option.bind_eq_some_iff.mp hk
  rw [Declares, hp, Option.any_some, Phrase.declares, hkind]
  rfl

theorem not_isMark_of_declares (h : d.Declares) :
    d.tree.phrase?.any Phrase.isMark = false := by
  unfold Declares at h
  cases hp : d.tree.phrase? with
  | none => rfl
  | some p =>
    rw [hp] at h
    refine Bool.eq_false_iff.mpr fun hmark => ?_
    rw [Option.any_some, Phrase.not_declares_of_isMark hmark] at h
    cases h

/-! ## Up to the name of a type -/

/-- The spots of a type that can hold its doc comment: its parts before the name, modifiers
taken apart. -/
def headSpots (d : Spot) : List Spot :=
  (d.partSpots.takeWhile (!·.tree.isWord .identifier)).flatMap fun m =>
    if m.tree.isPhrase .modifiers then m.partSpots else [m]

theorem map_tree_headSpots (d : Spot) : d.headSpots.map tree = Outline.beforeName d.tree := by
  rw [headSpots, List.map_flatMap, Outline.beforeName, ← map_tree_partSpots, List.takeWhile_map,
    List.flatMap_map]
  refine List.flatMap_congr fun m _ => ?_
  split
  · exact map_tree_partSpots m
  · rfl

theorem StandsIn.of_mem_headSpots (h : d.StandsIn parts) (hc : c ∈ d.headSpots) :
    c.StandsIn parts := by
  obtain ⟨m, hm, hcm⟩ := List.mem_flatMap.mp hc
  have hstands := h.of_mem_partSpots ((List.takeWhile_sublist _).subset hm)
  split at hcm
  · exact hstands.of_mem_partSpots hcm
  · obtain rfl := List.mem_singleton.mp hcm
    exact hstands

/-- What is up to the name of a type stands right in the type, or right in its modifiers. -/
theorem above_of_mem_headSpots (h : c ∈ d.headSpots) :
    c.above = d.chain ∨ ∃ k m, d.tree.parts[k]? = some m ∧ m.isPhrase .modifiers = true ∧
      c.above = (d.part k m).chain := by
  obtain ⟨m, hm, hcm⟩ := List.mem_flatMap.mp h
  obtain ⟨k, t, ht, rfl⟩ := mem_partSpots.mp ((List.takeWhile_sublist _).subset hm)
  split at hcm
  next hmodifiers =>
    obtain ⟨l, r, -, rfl⟩ := mem_partSpots.mp hcm
    exact .inr ⟨k, t, ht, hmodifiers, rfl⟩
  next =>
    obtain rfl := List.mem_singleton.mp hcm
    exact .inl rfl

theorem isInside_of_mem_headSpots (h : c ∈ d.headSpots) : c.IsInside d := by
  refine isInside_iff.mpr (.inr ?_)
  rcases above_of_mem_headSpots h with habove | ⟨k, m, -, -, habove⟩
  · exact habove ▸ List.suffix_refl d.chain
  · exact habove ▸ isInside_part d k m

/-- What a type is up to its name. -/
structure IsType (d : Spot) (head : List Tree) (a b : Nat) (rest : List Tree) : Prop where
  parts : d.tree.parts = head ++ .leaf .identifier a b :: rest
  length : a < b
  inHead : ∀ t ∈ head, t.InHead

theorem StandsIn.exists_isType (h : d.StandsIn parts) (hsound : Tree.IsSound parts)
    (htype : d.tree.isType = true) : ∃ head a b rest, d.IsType head a b rest := by
  obtain ⟨w, a, b, hleaf⟩ | ⟨p, ps, hnode, hderived, hfaultless⟩ := h.sound hsound
  · rw [hleaf] at htype
    cases htype
  · rw [hnode] at htype
    obtain ⟨head, a, b, rest, hps, hab, hhead⟩ := hderived.exists_head htype hfaultless
    exact ⟨head, a, b, rest, by rw [hnode]; exact hps, hab, hhead⟩

namespace IsType

variable {head rest : List Tree} {a b : Nat}

theorem not_identifier (h : d.IsType head a b rest) {t : Tree} (ht : t ∈ head) :
    t.isWord .identifier = false := by
  obtain ⟨w, x, y, rfl, hw⟩ | ⟨ps, rfl⟩ := h.inHead t ht
  · simpa [Tree.isWord, Tree.word?] using hw
  · rfl

theorem identifier? (h : d.IsType head a b rest) :
    Outline.identifier? d.tree = some (.leaf .identifier a b) := by
  rw [Outline.identifier?, h.parts, List.find?_append,
    List.find?_eq_none.mpr fun t ht => by simp [h.not_identifier ht]]
  rfl

theorem mem_takeWhile (h : d.IsType head a b rest) {m : Spot} :
    m ∈ d.partSpots.takeWhile (!·.tree.isWord .identifier) ↔
      ∃ k t, head[k]? = some t ∧ m = d.part k t := by
  have hsplit : d.partSpots.takeWhile (!·.tree.isWord .identifier) =
      head.zipIdx.map fun x => d.part x.2 x.1 := by
    rw [partSpots, h.parts, List.zipIdx_append, List.map_append, List.takeWhile_append_of_pos,
      List.zipIdx_cons, List.map_cons, List.takeWhile_cons_of_neg, List.append_nil]
    · exact fun hne => nomatch hne
    · intro m hm
      obtain ⟨⟨t, k⟩, hmem, rfl⟩ := List.mem_map.mp hm
      have ht : t ∈ head := List.mem_of_getElem? (List.mem_zipIdx_iff_getElem?.mp hmem)
      show (!t.isWord .identifier) = true
      rw [h.not_identifier ht, Bool.not_false]
  rw [hsplit, List.mem_map]
  constructor
  · rintro ⟨⟨t, k⟩, hmem, rfl⟩
    exact ⟨k, t, List.mem_zipIdx_iff_getElem?.mp hmem, rfl⟩
  · rintro ⟨k, t, ht, rfl⟩
    exact ⟨(t, k), List.mem_zipIdx_iff_getElem?.mpr ht, rfl⟩

theorem head_eq (h : d.IsType head a b rest) {k : Nat} {t : Tree} (ht : head[k]? = some t) :
    d.tree.parts[k]? = some t := by
  have hk := (List.getElem?_eq_some_iff.mp ht).1
  rw [h.parts, List.getElem?_append_left hk, ht]

theorem name_eq (h : d.IsType head a b rest) :
    d.tree.parts[head.length]? = some (.leaf .identifier a b) := by
  rw [h.parts, List.getElem?_append_right (Nat.le_refl _), Nat.sub_self]
  rfl

end IsType

/-- Among modifiers stand words, which have no parts, and annotations. -/
theorem StandsIn.isMark_of_part (h : d.StandsIn parts) (hsound : Tree.IsSound parts)
    (hd : d.tree.isPhrase .modifiers = true) {k : Nat} {t : Tree} (ht : d.tree.parts[k]? = some t) :
    t.phrase? = none ∧ t.parts = [] ∨ t.phrase?.any Phrase.isMark = true := by
  obtain ⟨w, x, y, hleaf⟩ | ⟨p, ps, hnode, hderived, -⟩ := h.sound hsound
  · rw [hleaf] at hd
    cases hd
  · obtain rfl : p = .modifiers := by simpa [hnode, Tree.isPhrase, Tree.phrase?] using hd
    rw [hnode] at ht
    obtain ⟨w, x, y, hpart⟩ | ⟨q, qs, hpart, -⟩ := (h.part (hnode ▸ ht)).sound hsound
    · obtain rfl : t = .leaf w x y := hpart
      exact .inl ⟨rfl, rfl⟩
    · obtain rfl : t = .node q qs := hpart
      exact .inr (hderived.isMark_of_modifiers (List.mem_of_getElem? ht) rfl)

/-- The leaves of the parts of a type stand in order. -/
theorem StandsIn.inOrder_parts (h : d.StandsIn parts) (hsound : Tree.IsSound parts) :
    Tree.InOrder (Tree.leavesOf d.tree.parts) :=
  (h.inOrder hsound).sublist (Tree.leavesOf_parts_sublist d.tree)

/-- Around what is up to the name of a type stand at most the type and its modifiers. -/
theorem isMark_of_mem_headSpots (htype : d.tree.isType = true) (hc : c ∈ d.headSpots)
    (hphrase : c.tree.phrase? = none) {o : Spot} (hco : c.IsInside o) (hod : o.IsInside d) :
    o.tree.phrase?.any Phrase.isMark = false := by
  have hself : d.tree.phrase?.any Phrase.isMark = false :=
    not_isMark_of_declares (declares_of_isType htype)
  have hcomment : c.tree.phrase?.any Phrase.isMark = false := by
    rw [hphrase]
    rfl
  obtain ⟨m, hm, hcm⟩ := List.mem_flatMap.mp hc
  obtain ⟨k, t, -, rfl⟩ := mem_partSpots.mp ((List.takeWhile_sublist _).subset hm)
  split at hcm
  next hmodifiers =>
    obtain ⟨l, r, -, rfl⟩ := mem_partSpots.mp hcm
    rcases isInside_iff.mp hco with rfl | hin
    · exact hcomment
    · rcases isInside_iff.mp hin with rfl | hin
      · rw [show (d.part k t).tree.phrase? = some .modifiers from of_decide_eq_true hmodifiers]
        rfl
      · exact IsInside.antisymm hod hin ▸ hself
  next =>
    obtain rfl := List.mem_singleton.mp hcm
    rcases isInside_iff.mp hco with rfl | hin
    · exact hcomment
    · exact IsInside.antisymm hod hin ▸ hself

/-- What is up to the name of a type starts before it. -/
theorem start_lt_of_mem_headSpots (hsolid : Tree.IsSolid parts) (hc : c.StandsIn parts)
    (hd : d.StandsIn parts) {head rest : List Tree} {a b : Nat} (htyped : d.IsType head a b rest)
    {w : Token} {x y : Nat} (hleaf : c.tree = .leaf w x y) (hmem : c ∈ d.headSpots) : x < a := by
  obtain ⟨m, hm, hcm⟩ := List.mem_flatMap.mp hmem
  obtain ⟨k, t, ht, rfl⟩ := htyped.mem_takeWhile.mp hm
  have hinside : c.IsInside (d.part k t) := by
    split at hcm
    · obtain ⟨l, r, -, rfl⟩ := mem_partSpots.mp hcm
      exact isInside_part _ _ _
    · obtain rfl := List.mem_singleton.mp hcm
      exact .refl _
  have hxy : (x, y) ∈ c.tree.leaves := by
    rw [hleaf]
    exact List.mem_singleton_self _
  have hbefore : y ≤ a := (hd.inOrder_parts hsolid.toIsSound).of_lt (htyped.head_eq ht)
    htyped.name_eq (List.getElem?_eq_some_iff.mp ht).1 (x, y) ((hc.outer hinside).2.subset hxy)
    (a, b) (List.mem_singleton_self _)
  have hforward := hc.lt_of_leaf hsolid hleaf
  omega

/-- What starts in a type before its name is in a part before the name. -/
theorem IsInside.exists_head (hsound : Tree.IsSound parts) (hc : c.StandsIn parts)
    (hd : d.StandsIn parts) {head rest : List Tree} {a b : Nat} (htyped : d.IsType head a b rest)
    (h : c.IsInside d) (hne : c ≠ d) {w : Token} {x y : Nat} (hleaf : c.tree = .leaf w x y)
    (hxa : x < a) : ∃ k t, head[k]? = some t ∧ c.IsInside (d.part k t) := by
  obtain ⟨k, t, ht, hinside⟩ := (h.exists_part hc).resolve_left hne
  have hmem : (x, y) ∈ t.leaves := by
    refine (hc.outer hinside).2.subset ?_
    rw [hleaf]
    exact List.mem_singleton_self _
  have hk : k < head.length := by
    rcases Nat.lt_trichotomy k head.length with hlt | rfl | hlt
    · exact hlt
    · obtain rfl := Option.some.inj (htyped.name_eq.symm.trans ht)
      obtain ⟨rfl, rfl⟩ := Prod.mk.inj (List.mem_singleton.mp hmem)
      omega
    · -- behind the name nothing starts before it
      have hbehind : b ≤ x := (hd.inOrder_parts hsound).of_lt htyped.name_eq ht hlt (a, b)
        (List.mem_singleton_self _) _ hmem
      have := htyped.length
      omega
  refine ⟨k, t, ?_, hinside⟩
  rwa [htyped.parts, List.getElem?_append_left hk] at ht

/-- A leaf of a type stands before its name and outside annotations if it is a part of the
type or of its modifiers, and before the name. -/
theorem mem_headSpots_iff (hsolid : Tree.IsSolid parts) (hc : c.StandsIn parts)
    (hd : d.StandsIn parts) (htype : d.tree.isType = true) {w : Token} {x y : Nat}
    (hleaf : c.tree = .leaf w x y) : c ∈ d.headSpots ↔ c.InHead Phrase.isMark d := by
  have hsound := hsolid.toIsSound
  obtain ⟨head, a, b, rest, htyped⟩ := hd.exists_isType hsound htype
  have hphrase : c.tree.phrase? = none := by
    rw [hleaf]
    rfl
  have hstart : c.tree.start = x := by
    rw [hleaf]
    rfl
  constructor
  · intro hmem
    refine ⟨isInside_of_mem_headSpots hmem, fun o => isMark_of_mem_headSpots htype hmem hphrase,
      _, htyped.identifier?, ?_⟩
    rw [hstart]
    exact start_lt_of_mem_headSpots hsolid hc hd htyped hleaf hmem
  · intro h
    obtain ⟨n, hn, hbefore⟩ := h.beforeName
    obtain rfl := Option.some.inj (htyped.identifier?.symm.trans hn)
    have hne : c ≠ d := by
      rintro rfl
      rw [hleaf] at htype
      cases htype
    obtain ⟨k, t, hhead, hinside⟩ :=
      h.inside.exists_head hsound hc hd htyped hne hleaf (hstart ▸ hbefore)
    have ht := htyped.head_eq hhead
    refine List.mem_flatMap.mpr ⟨d.part k t, htyped.mem_takeWhile.mpr ⟨k, t, hhead, rfl⟩, ?_⟩
    obtain ⟨w', x', y', rfl, -⟩ | ⟨ps, rfl⟩ := htyped.inHead t (List.mem_of_getElem? hhead)
    · exact List.mem_singleton.mpr (hinside.eq_of_parts hc rfl)
    · show c ∈ (d.part k (.node .modifiers ps)).partSpots
      rcases hinside.exists_part hc with rfl | ⟨l, r, hr, hinside'⟩
      · cases hleaf
      · refine mem_partSpots.mpr ⟨l, r, hr, ?_⟩
        rcases (hd.part ht).isMark_of_part hsound rfl hr with ⟨-, hnone⟩ | hmark
        · exact hinside'.eq_of_parts hc hnone
        · have hout := h.outside _ hinside' ((isInside_part _ _ _).trans (isInside_part _ _ _))
          rw [show ((d.part k (.node .modifiers ps)).part l r).tree = r from rfl, hmark] at hout
          cases hout

/-! ## What is found -/

/-- The last member of an ascending list is the one that is greatest. -/
theorem getLast?_eq_some_iff_of_ascending {α : Type} {f : α → Nat} {l : List α}
    (h : l.Pairwise fun a b => f a < f b) {x : α} :
    l.getLast? = some x ↔ x ∈ l ∧ ∀ y ∈ l, f y ≤ f x := by
  rcases List.eq_nil_or_concat l with rfl | ⟨front, last, rfl⟩
  · simp
  · rw [List.concat_eq_append] at h ⊢
    have hfront : ∀ y ∈ front, f y < f last := by
      intro y hy
      exact (List.pairwise_append.mp h).2.2 y hy last (List.mem_singleton_self _)
    rw [List.getLast?_concat, Option.some.injEq]
    constructor
    · rintro rfl
      refine ⟨by simp, fun y hy => ?_⟩
      rcases List.mem_append.mp hy with hy | hy
      · exact Nat.le_of_lt (hfront y hy)
      · obtain rfl := List.mem_singleton.mp hy
        exact Nat.le_refl _
    · rintro ⟨hx, hmax⟩
      rcases List.mem_append.mp hx with hx | hx
      · have := hfront x hx
        have := hmax last (by simp)
        omega
      · exact (List.mem_singleton.mp hx).symm

/-- Before its name a type has doc comments that start one behind the other. -/
theorem StandsIn.headDocs_ascending (hsolid : Tree.IsSolid parts) (hd : d.StandsIn parts) :
    (d.headSpots.filter (Outline.isDoc chars ·.tree)).Pairwise
      fun b c => b.tree.start < c.tree.start := by
  have horder := ((hd.inOrder hsolid.toIsSound).sublist
    (Tree.leavesOf_beforeName_sublist d.tree)).ascending
  rw [Tree.leavesOf_eq, ← map_tree_headSpots, List.flatMap_map, List.pairwise_flatMap] at horder
  refine (horder.2.sublist List.filter_sublist).imp_of_mem fun {b c} hb hc hbefore => ?_
  obtain ⟨hb, hbdoc⟩ := List.mem_filter.mp hb
  obtain ⟨hc, hcdoc⟩ := List.mem_filter.mp hc
  have hstands := hd.of_mem_headSpots hb
  obtain ⟨w, x, y, hleaf, -⟩ := hstands.leaf_of_isDoc hsolid.toIsSound hbdoc
  obtain ⟨w', x', y', hleaf', -⟩ :=
    (hd.of_mem_headSpots hc).leaf_of_isDoc hsolid.toIsSound hcdoc
  have hforward := hstands.lt_of_leaf hsolid hleaf
  rw [hleaf, hleaf'] at hbefore ⊢
  have hle : y ≤ x' := hbefore _ (List.mem_singleton_self _) _ (List.mem_singleton_self _)
  show x < x'
  omega

/-- The comment right before a declaration documents it, if it is a doc comment. -/
theorem StandsIn.docBefore_eq_some_iff (hd : d.StandsIn parts) {x : String} :
    Outline.docBefore chars (d.before? parts) = some x ↔
      ∃ c : Spot, c.StandsIn parts ∧ Outline.isDoc chars c.tree = true ∧ c.RightBefore parts d ∧
        Outline.textOf chars c.tree = x := by
  rw [Outline.docBefore, Option.map_eq_some_iff]
  constructor
  · rintro ⟨t, ht, rfl⟩
    obtain ⟨hbefore, hdoc⟩ := Option.filter_eq_some_iff.mp ht
    obtain ⟨c, hc, hright, rfl⟩ := hd.before?_eq_some_iff.mp hbefore
    exact ⟨c, hc, hdoc, hright, rfl⟩
  · rintro ⟨c, hc, hdoc, hright, rfl⟩
    exact ⟨c.tree, Option.filter_eq_some_iff.mpr ⟨hd.before?_eq_some_iff.mpr ⟨c, hc, hright, rfl⟩,
      hdoc⟩, rfl⟩

/-- Of what is no type, a doc comment right before it is the comment that documents it. -/
theorem StandsIn.docBefore_hasDoc (hd : d.StandsIn parts) (htype : d.tree.isType = false) :
    HasDoc chars parts d (Outline.docBefore chars (d.before? parts)) := by
  intro x
  rw [hd.docBefore_eq_some_iff]
  constructor
  · rintro ⟨c, hc, hdoc, hright, rfl⟩
    exact ⟨c, ⟨hc, hd, hdoc, .inl hright⟩, rfl⟩
  · rintro ⟨c, h, rfl⟩
    rcases h.place with hright | ⟨hd', -⟩
    · exact ⟨c, h.comment, h.isDoc, hright, rfl⟩
    · rw [htype] at hd'
      cases hd'

/-- Of a type, the doc comment right before it documents it, or else the last one up to its
name. -/
theorem StandsIn.typeDoc_hasDoc (hsolid : Tree.IsSolid parts) (hd : d.StandsIn parts)
    (htype : d.tree.isType = true) :
    HasDoc chars parts d (Outline.typeDoc chars (d.before? parts) d.tree) := by
  intro x
  rw [Outline.typeDoc]
  cases hbefore : Outline.docBefore chars (d.before? parts) with
  | some y =>
    obtain ⟨c, hc, hdoc, hright, rfl⟩ := hd.docBefore_eq_some_iff.mp hbefore
    rw [Option.some_or, Option.some.injEq]
    constructor
    · rintro rfl
      exact ⟨c, ⟨hc, hd, hdoc, .inl hright⟩, rfl⟩
    · rintro ⟨c', h, rfl⟩
      rcases h.place with hright' | ⟨-, hnone, -⟩
      · rw [hright.unique hc h.comment hright']
      · exact absurd hright (hnone c hc hdoc)
  | none =>
    have hnone : ∀ b : Spot, b.StandsIn parts → Outline.isDoc chars b.tree = true →
        ¬ b.RightBefore parts d := by
      intro b hb hdoc hright
      have hsome := hd.docBefore_eq_some_iff.mpr ⟨b, hb, hdoc, hright, rfl⟩
      rw [hbefore] at hsome
      cases hsome
    have hhead : ∀ c : Spot, c.StandsIn parts → Outline.isDoc chars c.tree = true →
        (c ∈ d.headSpots ↔ c.InHead Phrase.isMark d) := by
      intro c hc hdoc
      obtain ⟨w, a, b, hleaf, -⟩ := hc.leaf_of_isDoc hsolid.toIsSound hdoc
      exact mem_headSpots_iff hsolid hc hd htype hleaf
    rw [Option.none_or, ← map_tree_headSpots, List.filter_map, List.getLast?_map, Option.map_map,
      Option.map_eq_some_iff]
    constructor
    · rintro ⟨c, hlast, rfl⟩
      obtain ⟨hmem, hmax⟩ :=
        (getLast?_eq_some_iff_of_ascending (f := fun c : Spot => c.tree.start)
          (hd.headDocs_ascending hsolid)).mp hlast
      obtain ⟨hmem, hdoc⟩ := List.mem_filter.mp hmem
      have hc := hd.of_mem_headSpots hmem
      refine ⟨c, ⟨hc, hd, hdoc, .inr ⟨htype, hnone, (hhead c hc hdoc).mp hmem, ?_⟩⟩, rfl⟩
      intro b hb hbdoc hin
      exact hmax b (List.mem_filter.mpr ⟨(hhead b hb hbdoc).mpr hin, hbdoc⟩)
    · rintro ⟨c, h, rfl⟩
      rcases h.place with hright | ⟨-, -, hin, hmax⟩
      · exact absurd hright (hnone c h.comment h.isDoc)
      · refine ⟨c, (getLast?_eq_some_iff_of_ascending (f := fun c : Spot => c.tree.start)
          (hd.headDocs_ascending hsolid)).mpr ⟨?_, fun b hb => ?_⟩, rfl⟩
        · exact List.mem_filter.mpr ⟨(hhead c h.comment h.isDoc).mpr hin, h.isDoc⟩
        · obtain ⟨hb, hbdoc⟩ := List.mem_filter.mp hb
          have hstands := hd.of_mem_headSpots hb
          exact hmax b hstands hbdoc ((hhead b hstands hbdoc).mp hb)

/-! ## One declaration for a comment, one comment for a declaration -/

/-- A spot right in another one is one of its parts. -/
theorem StandsIn.mem_parts_of_above {o : Spot} (h : c.StandsIn parts) (habove : c.above = o.chain) :
    c.tree ∈ o.tree.parts :=
  List.mem_of_getElem? (h.part_inv habove).2

/-- Nothing that is declared stands where a doc comment of a type can stand inside it. -/
theorem StandsIn.not_declares_of_above (hsound : Tree.IsSound parts) (hd : d.StandsIn parts)
    {o : Spot} (ho : o.StandsIn parts) (htype : o.tree.isType = true)
    (h : d.above = o.chain ∨ ∃ k m, o.tree.parts[k]? = some m ∧ m.isPhrase .modifiers = true ∧
      d.above = (o.part k m).chain) : ¬ d.Declares := by
  intro hdeclares
  rcases h with habove | ⟨k, m, hm, hmodifiers, habove⟩
  · have hmem := hd.mem_parts_of_above habove
    obtain ⟨w, a, b, hleaf⟩ | ⟨p, ps, hnode, hderived, -⟩ := ho.sound hsound
    · rw [hleaf] at htype
      cases htype
    · rw [hnode] at hmem htype
      rw [Declares, hderived.not_declares_of_type htype hmem] at hdeclares
      cases hdeclares
  · obtain ⟨i, hi⟩ := List.getElem?_of_mem (hd.mem_parts_of_above habove)
    rcases (ho.part hm).isMark_of_part hsound hmodifiers hi with ⟨hnone, -⟩ | hmark
    · rw [Declares, hnone] at hdeclares
      cases hdeclares
    · rw [not_isMark_of_declares hdeclares] at hmark
      cases hmark

namespace Documents

variable {d' : Spot}

/-- The place of a comment that documents a type from inside. -/
theorem place_cases (hsolid : Tree.IsSolid parts) (h : Documents chars parts c d) :
    c.RightBefore parts d ∨ d.tree.isType = true ∧ c ∈ d.headSpots := by
  refine h.place.imp id fun ⟨htype, _, hin, _⟩ => ⟨htype, ?_⟩
  obtain ⟨w, a, b, hleaf, -⟩ := h.comment.leaf_of_isDoc hsolid.toIsSound h.isDoc
  exact (mem_headSpots_iff hsolid h.comment h.declaration htype hleaf).mpr hin

/-- A comment right before a declaration is not up to the name of a type. -/
theorem not_mem_headSpots_of_rightBefore (hsolid : Tree.IsSolid parts) (hd : d.StandsIn parts)
    (hd' : d'.StandsIn parts) (hdeclares : d.Declares) (htype : d'.tree.isType = true)
    (h : c.RightBefore parts d) : c ∉ d'.headSpots := by
  intro hmem
  refine hd.not_declares_of_above hsolid.toIsSound hd' htype ?_ hdeclares
  rw [← h.above]
  exact above_of_mem_headSpots hmem

/-- A comment is up to the name of one type only. -/
theorem eq_of_mem_headSpots (htype : d.tree.isType = true) (htype' : d'.tree.isType = true)
    (h : c ∈ d.headSpots) (h' : c ∈ d'.headSpots) : d = d' := by
  have hmodifiers : ∀ (e : Spot) (k : Nat) (m : Tree), e.tree.isType = true →
      m.isPhrase .modifiers = true → ∀ o : Spot, e.chain ≠ (o.part k m).chain := by
    rintro e k m he hm o heq
    obtain rfl := chain_inj heq
    have hphrase : m.phrase? = some .modifiers := of_decide_eq_true hm
    rw [part, Tree.isType, hphrase] at he
    cases he
  rcases above_of_mem_headSpots h with habove | ⟨k, m, -, hm, habove⟩ <;>
    rcases above_of_mem_headSpots h' with habove' | ⟨k', m', -, hm', habove'⟩ <;>
    rw [habove] at habove'
  · exact chain_inj habove'
  · exact absurd habove' (hmodifiers d k' m' htype hm' d')
  · exact absurd habove'.symm (hmodifiers d' k m htype' hm d)
  · exact chain_inj (List.cons.inj habove').2

/-- A comment documents one declaration. -/
theorem unique (hsolid : Tree.IsSolid parts) (h : Documents chars parts c d)
    (h' : Documents chars parts c d') (hd : d.Declares) (hd' : d'.Declares) : d = d' := by
  rcases h.place_cases hsolid with hright | ⟨htype, hmem⟩ <;>
    rcases h'.place_cases hsolid with hright' | ⟨htype', hmem'⟩
  · exact hright.unique_behind h.declaration h'.declaration (isNamed_of_declares hd)
      (isNamed_of_declares hd') hright'
  · exact absurd hmem' (not_mem_headSpots_of_rightBefore hsolid h.declaration h'.declaration hd
      htype' hright)
  · exact absurd hmem (not_mem_headSpots_of_rightBefore hsolid h'.declaration h.declaration hd'
      htype hright')
  · exact eq_of_mem_headSpots htype htype' hmem hmem'

end Documents

/-- A declaration is documented by one comment. -/
theorem DocumentsOutside.comment_unique (hsolid : Tree.IsSolid parts) {around : Phrase → Bool}
    {c' : Spot} (h : DocumentsOutside around chars parts c d)
    (h' : DocumentsOutside around chars parts c' d) : c = c' := by
  rcases h.place with hright | ⟨htype, hnone, hin, hmax⟩ <;>
    rcases h'.place with hright' | ⟨-, hnone', hin', hmax'⟩
  · exact hright.unique h.comment h'.comment hright'
  · exact absurd hright (hnone' c h.comment h.isDoc)
  · exact absurd hright' (hnone c' h'.comment h'.isDoc)
  · refine eq_of_start hsolid h.comment h'.comment h.isDoc h'.isDoc (Nat.le_antisymm ?_ ?_)
    · exact hmax' c h.comment h.isDoc hin
    · exact hmax c' h'.comment h'.isDoc hin'

/-! ## Comments and names -/

/-- The identifiers that name a declaration: its own one, or those of its variables. -/
def declaredNames (t : Tree) : List Tree :=
  if t.isType then (Outline.identifier? t).toList
  else (t :: t.parts.filter (·.isPhrase .variableDeclarator)).filterMap Outline.identifier?

theorem mem_declaredNames {t n : Tree} (h : n ∈ declaredNames t) :
    n.isWord .identifier = true ∧ (n ∈ t.parts ∨ ∃ v ∈ t.parts, n ∈ v.parts) := by
  have hfound {v : Tree} (hn : Outline.identifier? v = some n) :
      n ∈ v.parts ∧ n.isWord .identifier = true :=
    ⟨List.mem_of_find?_eq_some hn, List.find?_some hn⟩
  unfold declaredNames at h
  split at h
  · obtain ⟨hmem, hword⟩ := hfound (Option.mem_toList.mp h)
    exact ⟨hword, .inl hmem⟩
  · obtain ⟨v, hv, hn⟩ := List.mem_filterMap.mp h
    obtain ⟨hmem, hword⟩ := hfound hn
    rcases List.mem_cons.mp hv with rfl | hv
    · exact ⟨hword, .inl hmem⟩
    · exact ⟨hword, .inr ⟨v, (List.mem_filter.mp hv).1, hmem⟩⟩

/-- The names of a declaration have spots in it. -/
theorem StandsIn.exists_name (hd : d.StandsIn parts) {n : Tree} (hn : n ∈ declaredNames d.tree) :
    ∃ s : Spot, s.StandsIn parts ∧ s.IsInside d ∧ s.tree = n := by
  rcases (mem_declaredNames hn).2 with hmem | ⟨v, hv, hmem⟩
  · obtain ⟨k, hk⟩ := List.getElem?_of_mem hmem
    exact ⟨d.part k n, hd.part hk, isInside_part _ _ _, rfl⟩
  · obtain ⟨k, hk⟩ := List.getElem?_of_mem hv
    obtain ⟨l, hl⟩ := List.getElem?_of_mem hmem
    exact ⟨(d.part k v).part l n, (hd.part hk).part hl,
      (isInside_part _ _ _).trans (isInside_part _ _ _), rfl⟩

/-- A comment starts before all names of the declaration that it documents. -/
theorem Documents.start_lt (hsolid : Tree.IsSolid parts) (h : Documents chars parts c d) {n : Tree}
    (hn : n ∈ declaredNames d.tree) : c.tree.start < n.start := by
  have hsound := hsolid.toIsSound
  rcases h.place with hright | ⟨htype, -, hin, -⟩
  · obtain ⟨s, hs, hinside, rfl⟩ := h.declaration.exists_name hn
    obtain ⟨w, x, y, hleaf, -⟩ := h.comment.leaf_of_isDoc hsound h.isDoc
    have hforward := h.comment.lt_of_leaf hsolid hleaf
    obtain ⟨w', a, b, hname⟩ | ⟨p, ps, hname, -⟩ := hs.sound hsound
    · have hbefore := (hright.leaves h.comment h.declaration hsound).sublist (.refl _)
        (hs.outer hinside).2
      rw [hleaf, hname] at hbefore ⊢
      have hle : y ≤ a := hbefore _ (List.mem_singleton_self _) _ (List.mem_singleton_self _)
      show x < a
      omega
    · have hword := (mem_declaredNames hn).1
      rw [hname] at hword
      cases hword
  · obtain ⟨n', hn', hbefore⟩ := hin.beforeName
    rw [declaredNames, if_pos htype, hn'] at hn
    obtain rfl := List.mem_singleton.mp hn
    exact hbefore

end Comments

end Spot

end SourceShelf.Java
