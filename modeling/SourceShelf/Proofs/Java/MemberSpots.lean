import SourceShelf.Proofs.Java.Documents
import Mathlib.Data.List.Nodup

/-!
# Declarations of a unit and their comments

Every type of a unit has a spot, and so has everything that its body declares
(`Spot.memberSpots`).  All of them together are `Spot.declarations`, each at a spot of its
own.  What a unit has as the comment of a declaration is the one that documents it.

* `select_bodyParts`: what is selected of a body, with what stands before it.
* `declarations_nodup`: no declaration is listed twice.
* `Outline.isMadeOf_of_unit`: the spot that a type of a unit is made of.
* `Outline.before_eq`: what the walk over a file carries along is what stands right before a
  type.
* `documented_of_unit`: the comments of a unit.
-/

namespace SourceShelf.Java

namespace Spot

/-! ## Spots of bodies -/

/-- The named parts of a body, those behind the constants of an enum among them. -/
def bodySpots (b : Spot) : List Spot :=
  b.partSpots.flatMap fun m =>
    if m.tree.isPhrase .enumBodyDeclarations then m.partSpots.filter (·.tree.isNamed)
    else if m.tree.isNamed then [m]
    else []

/-- The parts of the body of a type that satisfy a test on their kind of phrase. -/
def memberSpots (test : Phrase → Bool) (d : Spot) : List Spot :=
  (((d.partSpots.find? (·.tree.phrase?.any Outline.isBody)).map bodySpots).getD []).filter
    (·.tree.phrase?.any test)

/-- The fields, the methods and the constructors of a type. -/
def members (d : Spot) : List Spot :=
  d.memberSpots Outline.isField ++ d.memberSpots (· = .methodDeclaration) ++
    d.memberSpots Outline.isConstructor

/-- Some types and what their bodies declare. -/
def declarations (types : List Spot) : List Spot := types.flatMap fun d => d :: d.members

/-- A part as the walk over a body comes to it: with the named one before it. -/
def withPart (parts : List Tree) (m : Spot) : Option Tree × Tree := (m.before? parts, m.tree)

section Members

variable {parts : List Tree} {d d' m : Spot} {test : Phrase → Bool}

theorem withBefore_eq (done ts : List Tree) :
    Outline.withBefore (lastNamed done) ts =
      (ts.zipIdx done.length).map fun x => (lastNamed ((done ++ ts).take x.2), x.1) := by
  induction ts generalizing done with
  | nil => rfl
  | cons t ts ih =>
    rw [Outline.withBefore, ← lastNamed_concat, ih, List.zipIdx_cons, List.map_cons, List.take_left,
      List.append_assoc, List.singleton_append, List.length_append, List.length_singleton]

/-- The parts of a tree, each with the named one before it. -/
theorem map_withPart_partSpots (parts : List Tree) (s : Spot) :
    s.partSpots.map (withPart parts) = Outline.withBefore none s.tree.parts := by
  rw [partSpots, List.map_map]
  exact (withBefore_eq [] s.tree.parts).symm

theorem map_withPart_bodySpots (parts : List Tree) (b : Spot) :
    b.bodySpots.map (withPart parts) = Outline.bodyParts b.tree := by
  rw [bodySpots, Outline.bodyParts, ← map_withPart_partSpots parts, List.map_flatMap,
    List.flatMap_map]
  refine List.flatMap_congr fun m _ => ?_
  show _ = if m.tree.isPhrase .enumBodyDeclarations then _ else _
  split
  · rw [← map_withPart_partSpots parts, List.filter_map]
    rfl
  · show _ = if m.tree.isNamed then _ else _
    split <;> rfl

/-- What is selected of a body are the parts at its spots, with what stands before them. -/
theorem select_bodyParts (parts : List Tree) (d : Spot) (test : Phrase → Bool) :
    Outline.select test
        (((d.tree.parts.find? (·.phrase?.any Outline.isBody)).map Outline.bodyParts).getD []) =
      (d.memberSpots test).map (withPart parts) := by
  rw [memberSpots, Outline.select, ← map_tree_partSpots, List.find?_map, Option.map_map]
  show List.filter _ (Option.getD (((d.partSpots.find? (·.tree.phrase?.any Outline.isBody)).map
    (Outline.bodyParts ∘ tree))) []) = _
  cases d.partSpots.find? (·.tree.phrase?.any Outline.isBody) with
  | none => rfl
  | some b =>
    show List.filter _ (Outline.bodyParts b.tree) = _
    rw [← map_withPart_bodySpots parts, List.filter_map]
    rfl

/-- Where what a body declares stands: right in the body, or behind the constants of an enum. -/
theorem above_of_mem_memberSpots (h : m ∈ d.memberSpots test) :
    ∃ k b, d.tree.parts[k]? = some b ∧ b.isBody = true ∧ (m.above = (d.part k b).chain ∨
      ∃ l e, b.parts[l]? = some e ∧ e.isPhrase .enumBodyDeclarations = true ∧
        m.above = ((d.part k b).part l e).chain) := by
  have hm := (List.mem_filter.mp h).1
  cases hbody : d.partSpots.find? (·.tree.phrase?.any Outline.isBody) with
  | none =>
    rw [hbody] at hm
    cases hm
  | some b =>
    rw [hbody] at hm
    obtain ⟨k, t, ht, rfl⟩ := mem_partSpots.mp (List.mem_of_find?_eq_some hbody)
    have hisBody := List.find?_some hbody
    refine ⟨k, t, ht, hisBody, ?_⟩
    obtain ⟨e, he, hm⟩ := List.mem_flatMap.mp hm
    obtain ⟨l, e, hl, rfl⟩ := mem_partSpots.mp he
    split at hm
    next henum =>
      obtain ⟨j, r, -, rfl⟩ := mem_partSpots.mp (List.mem_filter.mp hm).1
      exact .inr ⟨l, e, hl, henum, rfl⟩
    next =>
      split at hm
      · obtain rfl := List.mem_singleton.mp hm
        exact .inl rfl
      · cases hm

theorem StandsIn.of_mem_memberSpots (hd : d.StandsIn parts) (h : m ∈ d.memberSpots test) :
    m.StandsIn parts := by
  have hm := (List.mem_filter.mp h).1
  cases hbody : d.partSpots.find? (·.tree.phrase?.any Outline.isBody) with
  | none =>
    rw [hbody] at hm
    cases hm
  | some b =>
    rw [hbody] at hm
    have hb := hd.of_mem_partSpots (List.mem_of_find?_eq_some hbody)
    obtain ⟨e, he, hm⟩ := List.mem_flatMap.mp hm
    have he := hb.of_mem_partSpots he
    split at hm
    · exact he.of_mem_partSpots (List.mem_filter.mp hm).1
    · split at hm
      · obtain rfl := List.mem_singleton.mp hm
        exact he
      · cases hm

theorem test_of_mem_memberSpots (h : m ∈ d.memberSpots test) :
    ∃ p, m.tree.phrase? = some p ∧ test p = true :=
  (Option.any_eq_true _ _).mp (List.mem_filter.mp h).2

/-! ## Every declaration once -/

/-- What a body declares. -/
def isDeclared (p : Phrase) : Bool := Outline.isField p || Outline.isMember p

theorem not_type_of_isDeclared {p : Phrase} (h : isDeclared p = true) :
    Outline.typeKind? p = none := by
  cases p <;> first | rfl | cases h

theorem isType_of_mem_memberSpots (htest : ∀ p, test p = true → isDeclared p = true)
    (h : m ∈ d.memberSpots test) : m.tree.isType = false := by
  obtain ⟨p, hp, hp'⟩ := test_of_mem_memberSpots h
  rw [Tree.isType, hp, Option.bind_some, not_type_of_isDeclared (htest p hp')]
  rfl

theorem declares_of_mem_memberSpots (htest : ∀ p, test p = true → isDeclared p = true)
    (h : m ∈ d.memberSpots test) : m.Declares := by
  obtain ⟨p, hp, hp'⟩ := test_of_mem_memberSpots h
  have hdeclared := htest p hp'
  rw [isDeclared, Bool.or_comm] at hdeclared
  rw [Declares, hp, Option.any_some, Phrase.declares, Bool.or_assoc, hdeclared, Bool.or_true]

theorem declared_tests (p : Phrase) :
    (Outline.isField p = true → isDeclared p = true) ∧
      (decide (p = .methodDeclaration) = true → isDeclared p = true) ∧
      (Outline.isConstructor p = true → isDeclared p = true) := by
  refine ⟨fun h => ?_, fun h => ?_, fun h => ?_⟩
  · rw [isDeclared, h, Bool.true_or]
  · rw [isDeclared, Outline.isMember, h, Bool.true_or, Bool.or_true]
  · rw [isDeclared, Outline.isMember, h, Bool.or_true, Bool.or_true]

/-- Around one spot there is only one with as many trees around it. -/
theorem IsInside.eq_of_length {s o o' : Spot} (h : s.IsInside o) (h' : s.IsInside o')
    (hlength : o.chain.length = o'.chain.length) : o = o' :=
  chain_inj ((List.suffix_of_suffix_length_le h h' (Nat.le_of_eq hlength)).eq_of_length hlength)

theorem partSpots_nodup (s : Spot) : s.partSpots.Nodup := by
  refine List.Nodup.of_map position ?_
  rw [partSpots, List.map_map]
  show (s.tree.parts.zipIdx.map Prod.snd).Nodup
  rw [List.zipIdx_map_snd]
  exact List.nodup_range'

theorem bodySpots_nodup (b : Spot) : b.bodySpots.Nodup := by
  have hinside : ∀ m x : Spot, x ∈ (if m.tree.isPhrase .enumBodyDeclarations then
      m.partSpots.filter (·.tree.isNamed) else if m.tree.isNamed then [m] else []) →
        x.IsInside m := by
    intro m x hx
    split at hx
    · obtain ⟨k, t, -, rfl⟩ := mem_partSpots.mp (List.mem_filter.mp hx).1
      exact isInside_part m k t
    · split at hx
      · obtain rfl := List.mem_singleton.mp hx
        exact .refl _
      · cases hx
  refine List.nodup_flatMap.mpr ⟨fun m _ => ?_, ?_⟩
  · split
    · exact m.partSpots_nodup.filter _
    · split
      · exact List.nodup_singleton _
      · exact List.nodup_nil
  · refine b.partSpots_nodup.imp_of_mem fun {m m'} hm hm' hne x hx hx' => hne ?_
    obtain ⟨k, t, -, rfl⟩ := mem_partSpots.mp hm
    obtain ⟨k', t', -, rfl⟩ := mem_partSpots.mp hm'
    exact (hinside _ _ hx).eq_of_length (hinside _ _ hx') rfl

theorem memberSpots_nodup (test : Phrase → Bool) (d : Spot) : (d.memberSpots test).Nodup := by
  refine List.Nodup.filter _ ?_
  cases d.partSpots.find? (·.tree.phrase?.any Outline.isBody) with
  | none => exact List.nodup_nil
  | some b => exact b.bodySpots_nodup

/-- What stands in the body of a type stands in the body of no other one. -/
theorem eq_of_mem_memberSpots {test' : Phrase → Bool} (htype : d.tree.isType = true)
    (htype' : d'.tree.isType = true) (h : m ∈ d.memberSpots test) (h' : m ∈ d'.memberSpots test') :
    d = d' := by
  have hbody : ∀ (e o : Spot) (k : Nat) (b : Tree), e.tree.isType = true → b.isBody = true →
      e.chain ≠ (o.part k b).chain := by
    rintro e o k b he hb heq
    obtain rfl := chain_inj heq
    obtain ⟨kind, hkind⟩ := Option.isSome_iff_exists.mp he
    obtain ⟨p, hp, hp'⟩ := Option.bind_eq_some_iff.mp hkind
    rw [Tree.isBody, show b.phrase? = some p from hp, Option.any_some,
      Outline.isBody_of_typeKind? hp'] at hb
    cases hb
  obtain ⟨k, b, -, hb, habove | ⟨l, e, -, -, habove⟩⟩ := above_of_mem_memberSpots h <;>
    obtain ⟨k', b', -, hb', habove' | ⟨l', e', -, -, habove'⟩⟩ := above_of_mem_memberSpots h' <;>
    rw [habove] at habove'
  · exact chain_inj (List.cons.inj habove').2
  · exact absurd (List.cons.inj habove').2 (hbody d d' k' b' htype hb')
  · exact absurd (List.cons.inj habove').2.symm (hbody d' d k b htype' hb)
  · exact chain_inj (List.cons.inj (List.cons.inj habove').2).2

/-- A member is selected by a test that only members pass. -/
theorem mem_members (h : m ∈ d.members) :
    ∃ test, (∀ p, test p = true → isDeclared p = true) ∧ m ∈ d.memberSpots test := by
  rcases List.mem_append.mp h with h | h
  · rcases List.mem_append.mp h with h | h
    · exact ⟨_, fun p => (declared_tests p).1, h⟩
    · exact ⟨_, fun p => (declared_tests p).2.1, h⟩
  · exact ⟨_, fun p => (declared_tests p).2.2, h⟩

theorem StandsIn.of_mem_members (hd : d.StandsIn parts) (h : m ∈ d.members) :
    m.StandsIn parts := by
  obtain ⟨test, -, h⟩ := mem_members h
  exact hd.of_mem_memberSpots h

theorem declares_of_mem_members (h : m ∈ d.members) : m.Declares := by
  obtain ⟨test, htest, h⟩ := mem_members h
  exact declares_of_mem_memberSpots htest h

theorem isType_of_mem_members (h : m ∈ d.members) : m.tree.isType = false := by
  obtain ⟨test, htest, h⟩ := mem_members h
  exact isType_of_mem_memberSpots htest h

theorem memberSpots_disjoint {test' : Phrase → Bool} (h : ∀ p, test p = true → test' p = false) :
    (d.memberSpots test).Disjoint (d.memberSpots test') := by
  intro m hm hm'
  obtain ⟨p, hp, hpass⟩ := test_of_mem_memberSpots hm
  obtain ⟨p', hp', hpass'⟩ := test_of_mem_memberSpots hm'
  obtain rfl := Option.some.inj (hp.symm.trans hp')
  rw [h p hpass] at hpass'
  cases hpass'

theorem members_nodup (d : Spot) : d.members.Nodup := by
  refine ((d.memberSpots_nodup _).append (d.memberSpots_nodup _) ?_).append
    (d.memberSpots_nodup _) (List.disjoint_append_left.mpr ⟨?_, ?_⟩)
  all_goals
    refine memberSpots_disjoint fun p h => ?_
    cases p <;> first | rfl | cases h

/-- Types and what their bodies declare are listed once. -/
theorem declarations_nodup {types : List Spot} (hnodup : types.Nodup)
    (htypes : ∀ d ∈ types, d.tree.isType = true) : (declarations types).Nodup := by
  have hmember : ∀ d ∈ types, ∀ o : Spot, d ∉ o.members := by
    intro d hd o hmem
    have htype := htypes d hd
    rw [isType_of_mem_members hmem] at htype
    cases htype
  refine List.nodup_flatMap.mpr ⟨fun d hd => ?_, hnodup.imp_of_mem ?_⟩
  · exact List.nodup_cons.mpr ⟨hmember d hd d, d.members_nodup⟩
  · intro d d' hd hd' hne m hm hm'
    rcases List.mem_cons.mp hm with rfl | hm <;> rcases List.mem_cons.mp hm' with rfl | hm'
    · exact hne rfl
    · exact hmember m hd d' hm'
    · exact hmember m hd' d hm
    · obtain ⟨test, -, hm⟩ := mem_members hm
      obtain ⟨test', -, hm'⟩ := mem_members hm'
      exact hne (eq_of_mem_memberSpots (htypes d hd) (htypes d' hd') hm hm')

/-- All of them declare something. -/
theorem declares_of_mem_declarations {types : List Spot}
    (htypes : ∀ d ∈ types, d.StandsIn parts ∧ d.tree.isType = true) (h : m ∈ declarations types) :
    m.StandsIn parts ∧ m.Declares := by
  obtain ⟨d, hd, hm⟩ := List.mem_flatMap.mp h
  obtain ⟨hstands, htype⟩ := htypes d hd
  rcases List.mem_cons.mp hm with rfl | hm
  · exact ⟨hstands, declares_of_isType htype⟩
  · exact ⟨hstands.of_mem_members hm, declares_of_mem_members hm⟩

end Members

end Spot

/-- The kind of a type. -/
def Tree.typeKind (t : Tree) : TypeKind := (t.phrase?.bind Outline.typeKind?).getD .classType

/-! ## Units -/

open Spot

/-- What a unit has as the comments of a type and of what its body declares are those that
document them. -/
structure TypeDeclaration.HasDocsOf (t : TypeDeclaration) (chars : List Char) (parts : List Tree)
    (d : Spot) : Prop where
  type : HasDoc chars parts d t.doc
  /-- The text of a field starts with its comment. -/
  fields : List.Forall₂ (fun f s => ∃ doc, HasDoc chars parts s doc ∧
    f = doc.elim "" (· ++ "\n") ++ Outline.textOf chars s.tree) t.fields
      (d.memberSpots Outline.isField)
  methods : List.Forall₂ (fun m s => m.text = Outline.textOf chars s.tree ∧
    HasDoc chars parts s m.doc) t.methods (d.memberSpots (· = .methodDeclaration))
  constructors : List.Forall₂ (fun m s => m.text = Outline.textOf chars s.tree ∧
    HasDoc chars parts s m.doc) t.constructors (d.memberSpots Outline.isConstructor)

/-- A type of a unit, with the site and the spot that it is made of. -/
structure IsMadeOf (text : String) (parts : List Tree) (t : TypeDeclaration) (d : Spot) : Prop where
  stands : d.StandsIn parts
  isType : d.tree.isType = true
  typeOf : ∃ i nested site, t = Outline.typeOf text.toList i nested site ∧ site.tree = d.tree ∧
    site.before = d.before? parts ∧ site.kind = d.tree.typeKind

namespace Outline

variable {locals : Bool} {text : String} {path : Option String} {parts : List Tree}

/-- A type at a spot of a text without faults is the only one that starts where it does. -/
theorem eq_of_type_start (h : Tree.IsSound parts) {s s' : Spot} (hs : s.StandsIn parts)
    (hs' : s'.StandsIn parts) (htype : s.tree.isType = true) (htype' : s'.tree.isType = true)
    (hstart : s.tree.start = s'.tree.start) : s = s' := by
  have hmem : ∀ o : Spot, o.StandsIn parts → o.tree.isType = true → o ∈ typeSpots true parts := by
    intro o ho hotype
    exact List.mem_filter.mpr ⟨mem_spotsOf_iff.mpr ho, by rw [isListed, hotype]; rfl⟩
  have hstarts : ((typeSpots true parts).map (·.tree.start)).Nodup :=
    List.pairwise_map.mpr ((typeSpots_ascending true h).imp Nat.ne_of_lt)
  exact List.inj_on_of_nodup_map hstarts (hmem s hs htype) (hmem s' hs' htype') hstart

/-- What the walk over a file carries along is the named part right before a type. -/
theorem before_eq (h : Tree.IsSound parts) {i : Nat} {site : Site} {d : Spot}
    (hsite : (fileSites locals parts)[i]? = some site)
    (hd : (typeSpots locals parts)[i]? = some d) (htree : site.tree = d.tree) :
    site.before = d.before? parts := by
  obtain ⟨s, hs, hstree, hbefore⟩ := before_of_mem_fileSites (List.mem_of_getElem? hsite)
  obtain ⟨hmem, htype⟩ := mem_typeSpots (List.mem_of_getElem? hd)
  rw [htree] at hstree
  rw [hbefore, eq_of_type_start h hs (mem_spotsOf_iff.mp hmem) (by rw [hstree, htype]) htype
    (by rw [hstree])]

theorem isMadeOf_of_unit (h : Tree.IsSound parts) {i : Nat} {t : TypeDeclaration} {d : Spot}
    (ht : (unit locals text path parts).types[i]? = some t)
    (hd : (typeSpots locals parts)[i]? = some d) : IsMadeOf text parts t d := by
  obtain ⟨site, hsite, hfits, rfl⟩ := exists_site ht hd
  obtain ⟨hmem, htype⟩ := mem_typeSpots (List.mem_of_getElem? hd)
  refine ⟨mem_spotsOf_iff.mp hmem, htype, _, _, site, rfl, hfits.tree,
    before_eq h hsite hd hfits.tree, ?_⟩
  have hkind : d.tree.phrase?.bind Outline.typeKind? = some site.kind := hfits.kind
  rw [Tree.typeKind, hkind]
  rfl

/-- The types of a unit and their spots, one by one. -/
theorem forall₂_types {R : TypeDeclaration → Spot → Prop}
    (h : ∀ (i : Nat) t d, (unit locals text path parts).types[i]? = some t →
      (typeSpots locals parts)[i]? = some d → R t d) :
    List.Forall₂ R (unit locals text path parts).types (typeSpots locals parts) :=
  List.forall₂_iff_get.mpr ⟨length_types, fun i hi hi' =>
    h i _ _ (List.getElem?_eq_getElem hi) (List.getElem?_eq_getElem hi')⟩

/-- What is made of selected parts of a body stands for its spots, one by one. -/
theorem forall₂_select (parts : List Tree) {α : Type} {R : α → Spot → Prop}
    {f : Option Tree × Tree → α} {test : Phrase → Bool} {t : Tree} {d : Spot} (htree : t = d.tree)
    (h : ∀ m ∈ d.memberSpots test, R (f (m.withPart parts)) m) :
    List.Forall₂ R
      ((select test (((t.parts.find? (·.phrase?.any isBody)).map bodyParts).getD [])).map f)
      (d.memberSpots test) := by
  rw [htree, select_bodyParts parts, List.map_map, List.forall₂_map_left_iff, List.forall₂_same]
  exact h

/-- The comments of a unit are those that document its declarations. -/
theorem documented_of_unit (h : Tree.IsSolid parts) {i : Nat} {t : TypeDeclaration} {d : Spot}
    (ht : (unit locals text path parts).types[i]? = some t)
    (hd : (typeSpots locals parts)[i]? = some d) : t.HasDocsOf text.toList parts d := by
  obtain ⟨hstands, htype, _, _, site, rfl, htree, hbefore, -⟩ := isMadeOf_of_unit h.toIsSound ht hd
  have hdoc : ∀ {test : Phrase → Bool}, (∀ p, test p = true → isDeclared p = true) →
      ∀ m ∈ d.memberSpots test, HasDoc text.toList parts m
        (docBefore text.toList (m.before? parts)) := fun htest m hm =>
    (hstands.of_mem_memberSpots hm).docBefore_hasDoc (isType_of_mem_memberSpots htest hm)
  constructor
  · show HasDoc _ _ _ (typeDoc text.toList site.before site.tree)
    rw [hbefore, htree]
    exact hstands.typeDoc_hasDoc h htype
  · refine forall₂_select parts htree fun m hm => ⟨_, hdoc (fun p => (declared_tests p).1) m hm, ?_⟩
    show fieldOf _ (m.before? parts) m.tree = _
    unfold fieldOf
    cases docBefore text.toList (m.before? parts) with
    | none => exact String.empty_append.symm
    | some x => rfl
  · exact forall₂_select parts htree fun m hm => ⟨rfl, hdoc (fun p => (declared_tests p).2.1) m hm⟩
  · exact forall₂_select parts htree fun m hm => ⟨rfl, hdoc (fun p => (declared_tests p).2.2) m hm⟩

end Outline

end SourceShelf.Java
