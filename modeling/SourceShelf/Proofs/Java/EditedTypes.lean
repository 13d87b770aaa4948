import SourceShelf.Proofs.Java.EditedTrees

/-!
# The types of an edited text

What the outline reads of a type stands outside of the bodies of its members: its name,
its modifiers and clauses, the comment that documents it, the texts of its fields and
initializers, the names and arguments of its constants, and the names, the comments and
the lines of its members.  Where the piece of an `Edit` is such a body, a type has the
same of all that in both texts.

Parts of the two texts are `Kin` where they are the same or phrases around the piece.
From kindred parts follows what stands before the body of a type; what stands in its body
is said of each of the named parts of the body (`SameState`, `SameMember`).

* `InBody.typeApart`: the type in whose body the edited declaration stands.
* `typeOf_kin`: types that have the same but for their members.
* `typeOf_eq`: types that have the same.
-/

namespace SourceShelf.Java

/-! ## Related lists -/

section Lists

variable {α β γ : Type} {R S : α → β → Prop} {as : List α} {bs : List β} {test : α → Bool}
  {test' : β → Bool}

theorem rel_find? (h : List.Forall₂ R as bs) (htest : ∀ a b, R a b → test' b = test a)
    (hS : ∀ a b, R a b → test a = true → S a b) :
    Option.Rel S (as.find? test) (bs.find? test') := by
  induction h with
  | nil => exact .none
  | @cons a b as bs hab _ ih =>
    have hb := htest a b hab
    cases ha : test a with
    | true =>
      rw [List.find?_cons_of_pos ha, List.find?_cons_of_pos (hb.trans ha)]
      exact .some (hS a b hab ha)
    | false =>
      rw [List.find?_cons_of_neg (by simp [ha]), List.find?_cons_of_neg (by simp [hb, ha])]
      exact ih

theorem rel_getElem? (h : List.Forall₂ R as bs) (i : Nat) : Option.Rel R as[i]? bs[i]? := by
  induction h generalizing i with
  | nil => exact .none
  | cons hab _ ih =>
    cases i with
    | zero => exact .some hab
    | succ i => exact ih i

theorem rel_takeWhile (h : List.Forall₂ R as bs) (htest : ∀ a b, R a b → test' b = test a) :
    List.Forall₂ R (as.takeWhile test) (bs.takeWhile test') := by
  induction h with
  | nil => exact .nil
  | @cons a b as bs hab _ ih =>
    have hb := htest a b hab
    cases ha : test a with
    | true =>
      rw [List.takeWhile_cons_of_pos ha, List.takeWhile_cons_of_pos (hb.trans ha)]
      exact .cons hab ih
    | false =>
      rw [List.takeWhile_cons_of_neg (by simp [ha]), List.takeWhile_cons_of_neg (by simp [hb, ha])]
      exact .nil

theorem rel_filter_of (h : List.Forall₂ R as bs) (htest : ∀ a b, R a b → test' b = test a)
    (hS : ∀ a b, R a b → test a = true → S a b) :
    List.Forall₂ S (as.filter test) (bs.filter test') := by
  induction h with
  | nil => exact .nil
  | @cons a b as bs hab _ ih =>
    have hb := htest a b hab
    cases ha : test a with
    | true =>
      rw [List.filter_cons_of_pos ha, List.filter_cons_of_pos (hb.trans ha)]
      exact .cons (hS a b hab ha) ih
    | false =>
      rw [List.filter_cons_of_neg (by simp [ha]), List.filter_cons_of_neg (by simp [hb, ha])]
      exact ih

theorem map_eq_of_forall₂ {f : α → γ} {g : β → γ} (h : List.Forall₂ R as bs)
    (hfg : ∀ a b, R a b → g b = f a) : bs.map g = as.map f := by
  induction h with
  | nil => rfl
  | cons hab _ ih => rw [List.map_cons, List.map_cons, hfg _ _ hab, ih]

theorem map_filter_eq {f : α → γ} {g : β → γ} (h : List.Forall₂ R as bs)
    (htest : ∀ a b, R a b → test' b = test a) (hfg : ∀ a b, R a b → test a = true → g b = f a) :
    (bs.filter test').map g = (as.filter test).map f :=
  map_eq_of_forall₂ (rel_filter_of h htest hfg) fun _ _ hab => hab

theorem elim_eq {f : α → γ} {g : β → γ} {o : Option α} {o' : Option β} (h : Option.Rel R o o')
    (hfg : ∀ a b, R a b → g b = f a) (d : γ) : o'.elim d g = o.elim d f := by
  cases h with
  | none => rfl
  | some h => exact hfg _ _ h

end Lists

namespace Edit

open Outline

variable {e : Edit} {c c' : Tree}

/-! ## Parts that the outline reads alike -/

/-- Phrases around a body whose texts the outline reads in the body of a type only, if at
all. -/
def holdsBody : Phrase → Bool
  | .block | .constructorBody | .methodDeclaration | .constructorDeclaration
  | .compactConstructorDeclaration | .enumConstant => true
  | p => isBody p || (typeKind? p).isSome

theorem holdsBody_of_isBody {q : Phrase} (h : isBody q = true) : holdsBody q = true := by
  cases q <;> first | rfl | cases h

theorem holdsBody_of_type {p : Phrase} (h : (typeKind? p).isSome = true) :
    holdsBody p = true ∧ p ≠ .enumBodyDeclarations := by
  cases p <;> first | exact ⟨rfl, by decide⟩ | cases h

/-- Parts of the two texts that are the same, or two phrases around the edited body. -/
inductive Kin (e : Edit) : Tree → Tree → Prop where
  | alike {t t' : Tree} (h : e.Alike t t') : Kin e t t'
  | around {p : Phrase} {ps ps' : List Tree} (hp : holdsBody p = true) :
      Kin e (.node p ps) (.node p ps')

namespace Kin

variable {t t' : Tree}

theorem phrase? (h : e.Kin t t') : t'.phrase? = t.phrase? := by
  cases h with
  | alike h => exact h.phrase?
  | around => rfl

theorem word? (h : e.Kin t t') : t'.word? = t.word? := by
  cases h with
  | alike h => exact h.word?
  | around => rfl

theorem isNamed (h : e.Kin t t') : t'.isNamed = t.isNamed := by
  rw [Tree.isNamed, Tree.isNamed, h.word?]

theorem isPhrase (h : e.Kin t t') (p : Phrase) : t'.isPhrase p = t.isPhrase p := by
  rw [Tree.isPhrase, Tree.isPhrase, h.phrase?]

theorem isWord (h : e.Kin t t') (w : Token) : t'.isWord w = t.isWord w := by
  rw [Tree.isWord, Tree.isWord, h.word?]

theorem isDoc (h : e.Kin t t') : Outline.isDoc e.target t' = Outline.isDoc e.source t := by
  cases h with
  | alike h => exact h.isDoc
  | around => rfl

/-- A phrase around no body stands outside of the piece. -/
theorem alike_of_isPhrase {p : Phrase} (h : e.Kin t t') (hp : holdsBody p = false)
    (ht : t.isPhrase p = true) : e.Alike t t' := by
  cases h with
  | alike h => exact h
  | @around q ps ps' hq =>
    obtain rfl : q = p := by simpa [Tree.isPhrase, Tree.phrase?] using ht
    rw [hp] at hq
    cases hq

/-- A word stands outside of the piece. -/
theorem alike_of_isWord {w : Token} (h : e.Kin t t') (ht : t.isWord w = true) :
    e.Alike t t' := by
  cases h with
  | alike h => exact h
  | around => cases ht

theorem textOf_of_isDoc (h : e.Kin t t') (hdoc : Outline.isDoc e.source t = true) :
    textOf e.target t' = textOf e.source t := by
  cases h with
  | alike h => exact h.textOf
  | around => cases hdoc

end Kin

/-- Two parts before which a declaration has the same doc comment. -/
def SameDoc (e : Edit) (b b' : Option Tree) : Prop :=
  docBefore e.target b' = docBefore e.source b

theorem SameDoc.none : e.SameDoc none none := rfl

/-- The part before the next one. -/
theorem SameDoc.next {t t' : Tree} {b b' : Option Tree} (h : e.Kin t t') (hb : e.SameDoc b b') :
    e.SameDoc (if t.isNamed then some t else b) (if t'.isNamed then some t' else b') := by
  rw [h.isNamed]
  split
  · unfold SameDoc docBefore
    rw [Option.filter_some, Option.filter_some, h.isDoc]
    split
    · exact congrArg some (h.textOf_of_isDoc ‹_›)
    · rfl
  · exact hb

/-! ## What stands before the body of a type -/

section Header

variable {t t' : Tree}

theorem rel_identifier? (h : List.Forall₂ e.Kin t.parts t'.parts) :
    Option.Rel e.Alike (identifier? t) (identifier? t') :=
  rel_find? h (fun _ _ hxy => hxy.isWord _) fun _ _ hxy hx => hxy.alike_of_isWord hx

theorem rel_part? {p : Phrase} (hp : holdsBody p = false)
    (h : List.Forall₂ e.Kin t.parts t'.parts) :
    Option.Rel e.Alike (part? p t) (part? p t') :=
  rel_find? h (fun _ _ hxy => hxy.isPhrase _) fun _ _ hxy hx => hxy.alike_of_isPhrase hp hx

theorem elim_textOf {o o' : Option Tree} (h : Option.Rel e.Alike o o') (d : String) :
    o'.elim d (textOf e.target) = o.elim d (textOf e.source) :=
  elim_eq h (fun _ _ hxy => hxy.textOf) d

theorem parts_of_rel {o o' : Option Tree} (h : Option.Rel e.Alike o o') :
    List.Forall₂ e.Alike ((o.map Tree.parts).getD []) ((o'.map Tree.parts).getD []) := by
  cases h with
  | none => exact .nil
  | some h => exact h.parts

theorem texts_eq {ps ps' : List Tree} {test : Tree → Bool} (h : List.Forall₂ e.Alike ps ps')
    (htest : ∀ x y, e.Alike x y → test y = test x) :
    (ps'.filter test).map (textOf e.target) = (ps.filter test).map (textOf e.source) :=
  map_filter_eq h htest fun _ _ hxy _ => hxy.textOf

theorem listedTypes_eq {o o' : Option Tree} (h : Option.Rel e.Alike o o') :
    listedTypes e.target o' = listedTypes e.source o := by
  cases h with
  | none => rfl
  | @some x y hxy =>
    have hlist : e.Alike ((part? .typeList x).getD x) ((part? .typeList y).getD y) := by
      have hrel := rel_part? (p := .typeList) rfl (hxy.parts.imp fun _ _ => Kin.alike)
      revert hrel
      generalize part? .typeList x = o
      generalize part? .typeList y = o'
      rintro (h | _)
      · exact h
      · exact hxy
    refine texts_eq hlist.parts fun a b hab => ?_
    rw [hab.isNamed, hab.isComment]

theorem typeDoc_eq {b b' : Option Tree} (hb : e.SameDoc b b')
    (h : List.Forall₂ e.Kin t.parts t'.parts) :
    typeDoc e.target b' t' = typeDoc e.source b t := by
  have hbefore : List.Forall₂ e.Kin (beforeName t) (beforeName t') := by
    refine List.rel_flatMap (rel_takeWhile h fun x y hxy => by rw [hxy.isWord]) ?_
    intro x y hxy
    dsimp only
    rw [hxy.isPhrase]
    split
    · exact (hxy.alike_of_isPhrase rfl ‹_›).parts.imp fun _ _ => Kin.alike
    · exact .cons hxy .nil
  have hdocs := map_filter_eq hbefore (fun x y hxy => hxy.isDoc)
    fun x y hxy hdoc => hxy.textOf_of_isDoc hdoc
  unfold typeDoc
  rw [hb, ← List.getLast?_map, ← List.getLast?_map, hdocs]

end Header

/-! ## What stands in the body of a type -/

/-- The named parts of the body of a type, each with the one before it. -/
def bodyMembers (t : Tree) : List (Option Tree × Tree) :=
  ((t.parts.find? (·.phrase?.any isBody)).map bodyParts).getD []

/-- The same part of a body in both texts. -/
structure SamePart (e : Edit) (x y : Option Tree × Tree) : Prop where
  before : e.SameDoc x.1 y.1
  part : e.Alike x.2 y.2

/-- The edited declaration among the parts of a body. -/
structure OddPart (e : Edit) (c c' : Tree) (x y : Option Tree × Tree) : Prop where
  before : e.SameDoc x.1 y.1
  old : x.2 = c
  new : y.2 = c'

section Members

variable {ps ps' : List Tree} {b b' : Option Tree}

theorem withBefore_alike (h : List.Forall₂ e.Alike ps ps') (hb : e.SameDoc b b') :
    List.Forall₂ e.SamePart (withBefore b ps) (withBefore b' ps') := by
  induction h generalizing b b' with
  | nil => exact .nil
  | cons hxy _ ih => exact .cons ⟨hb, hxy⟩ (ih (hb.next (.alike hxy)))

theorem withBefore_apart (h : OneApart e.Alike (fun x y => x = c ∧ y = c') ps ps')
    (hc : e.Kin c c') (hb : e.SameDoc b b') :
    OneApart e.SamePart (e.OddPart c c') (withBefore b ps) (withBefore b' ps') := by
  induction h generalizing b b' with
  | here hxy hrest =>
    obtain ⟨rfl, rfl⟩ := hxy
    exact .here ⟨hb, rfl, rfl⟩ (withBefore_alike hrest (hb.next hc))
  | there hxy _ ih => exact .there ⟨hb, hxy⟩ (ih (hb.next (.alike hxy)))

/-- What a part of a body adds to the named parts: itself, or what stands behind the
constants of an enum. -/
def spread (m : Option Tree × Tree) : List (Option Tree × Tree) :=
  if m.2.isPhrase .enumBodyDeclarations then (withBefore none m.2.parts).filter (·.2.isNamed)
  else if m.2.isNamed then [m]
  else []

theorem bodyParts_eq (t : Tree) : bodyParts t = (withBefore none t.parts).flatMap spread := rfl

theorem spread_alike {x y : Option Tree × Tree} (h : e.SamePart x y) :
    List.Forall₂ e.SamePart (spread x) (spread y) := by
  unfold spread
  rw [h.part.isPhrase, h.part.isNamed]
  split
  · refine List.rel_filter (fun a b hab => ?_) (withBefore_alike h.part.parts .none)
    show a.2.isNamed = true ↔ b.2.isNamed = true
    rw [hab.part.isNamed]
  · split
    · exact .cons h .nil
    · exact .nil

theorem bodyParts_alike {t t' : Tree} (h : e.Alike t t') :
    List.Forall₂ e.SamePart (bodyParts t) (bodyParts t') :=
  List.rel_flatMap (withBefore_alike h.parts .none) fun _ _ hxy => spread_alike hxy

/-- The edited declaration is one of the named parts of the body that it stands in. -/
theorem bodyParts_apart {p q : Phrase} {cs cs' : List Tree}
    (h : e.Among (.node p cs) (.node p cs') ps ps') (hp : holdsBody p = true)
    (hbehind : p ≠ .enumBodyDeclarations) (hc : e.Spans (.node p cs) (.node p cs'))
    (horder : Tree.InOrder (Tree.leavesOf ps)) :
    OneApart e.SamePart (e.OddPart (.node p cs) (.node p cs')) (bodyParts (.node q ps))
      (bodyParts (.node q ps')) := by
  rw [bodyParts_eq, bodyParts_eq]
  cases h with
  | direct h =>
    refine (withBefore_apart (h.apart hc horder) (.around hp) .none).flatMap
      (fun _ _ => spread_alike) ?_
    rintro ⟨b, x⟩ ⟨b', y⟩ ⟨hb, rfl, rfl⟩
    have hself : ∀ b ts, spread (b, .node p ts) = [(b, .node p ts)] := fun b ts => by
      simp [spread, Tree.isPhrase, Tree.phrase?, Tree.isNamed, Tree.word?, hbehind]
    rw [hself, hself]
    exact .here ⟨hb, rfl, rfl⟩ .nil
  | @behindConstants ds ds' _ _ h hds =>
    have hinner := horder.sublist hds.leaves_sublist
    refine (withBefore_apart (hds.apart (h.spans hc hinner _) horder) (.around rfl)
      .none).flatMap (fun _ _ => spread_alike) ?_
    rintro ⟨b, x⟩ ⟨b', y⟩ ⟨hb, rfl, rfl⟩
    refine (withBefore_apart (h.apart hc hinner) (.around hp) .none).filter (fun a b hab => ?_) ?_
    · rw [hab.part.isNamed]
    · rintro ⟨b, x⟩ ⟨b', y⟩ ⟨hb, rfl, rfl⟩
      exact ⟨rfl, rfl⟩

end Members

/-! ## Types -/

/-- A type of the old text and the same type in the new one, with the edited declaration
in its body. -/
structure TypeApart (e : Edit) (c c' t t' : Tree) : Prop where
  parts : List.Forall₂ e.Kin t.parts t'.parts
  startLine : lineOf e.target t'.start = lineOf e.source t.start
  endLine : lineOf e.target t'.stop = lineOf e.source t.stop
  members : OneApart e.SamePart (e.OddPart c c') (bodyMembers t) (bodyMembers t')

theorem InBody.typeApart {p : Phrase} {cs cs' : List Tree} {t t' : Tree}
    (h : e.InBody (.node p cs) (.node p cs') t t') (hp : holdsBody p = true)
    (hbehind : p ≠ .enumBodyDeclarations) (hc : e.Spans (.node p cs) (.node p cs'))
    (horder : Tree.InOrder t.leaves) :
    e.TypeApart (.node p cs) (.node p cs') t t' := by
  have hspans := h.spans hc horder
  refine ⟨?_, hspans.startLine, hspans.endLine, ?_⟩
  · obtain ⟨r, q, ps, ps', bs, bs', rfl, rfl, -, hq, hbody, hamong⟩ := h.inv
    have hspans := hamong.spans hc (horder.sublist hbody.leaves_sublist) q
    exact hbody.forall₂ hspans horder (fun _ _ => .alike) (.around (holdsBody_of_isBody hq))
  · cases h with
    | @mk r q front rear bs bs' hr hq hfront hamong =>
      have hfind : ∀ {ts us : List Tree} {ds : List Tree}, (∀ x ∈ ts, x.isBody = false) →
          (ts ++ .node q ds :: us).find? (·.phrase?.any isBody) = some (.node q ds) := by
        intro ts us ds hts
        have hnone : ts.find? (·.phrase?.any isBody) = none :=
          List.find?_eq_none.mpr fun x hx => Bool.not_eq_true _ ▸ hts x hx
        rw [List.find?_append, hnone, Option.none_or,
          List.find?_cons_of_pos (by simpa [Tree.phrase?] using hq)]
      have hbody : ∀ {ts us : List Tree} {ds : List Tree}, (∀ x ∈ ts, x.isBody = false) →
          bodyMembers (.node r (ts ++ .node q ds :: us)) = bodyParts (.node q ds) := by
        intro ts us ds hts
        unfold bodyMembers
        rw [Tree.parts, hfind hts]
        rfl
      have hmoved : ∀ x ∈ front.map e.move, x.isBody = false := by
        intro x hx
        obtain ⟨y, hy, rfl⟩ := List.mem_map.mp hx
        rw [Tree.isBody, move, Tree.phrase?_mapPlaces]
        exact hfront y hy
      rw [hbody hfront, hbody hmoved]
      have hinner : Tree.InOrder (Tree.leavesOf bs) := by
        have hexchanged : e.Exchanged (.node q bs) (.node q bs') _ _ := ⟨front, rear, rfl, rfl⟩
        exact horder.sublist hexchanged.leaves_sublist
      exact bodyParts_apart hamong hp hbehind hc hinner

/-- What the header of a type takes from a part of its body. -/
structure SameState (e : Edit) (x y : Option Tree × Tree) : Prop where
  phrase? : y.2.phrase? = x.2.phrase?
  constant : x.2.phrase?.any (· = .enumConstant) = true →
    enumConstantOf e.target y.2 = enumConstantOf e.source x.2
  field : x.2.phrase?.any isField = true →
    fieldOf e.target y.1 y.2 = fieldOf e.source x.1 x.2
  initializer : x.2.phrase?.any isInitializer = true →
    textOf e.target y.2 = textOf e.source x.2

theorem enumConstantOf_eq {t t' : Tree} (h : List.Forall₂ e.Kin t.parts t'.parts) :
    enumConstantOf e.target t' = enumConstantOf e.source t := by
  unfold enumConstantOf
  rw [elim_textOf (rel_identifier? h), elim_textOf (rel_part? rfl h)]

theorem SamePart.state {x y : Option Tree × Tree} (h : e.SamePart x y) : e.SameState x y where
  phrase? := h.part.phrase?
  constant _ := enumConstantOf_eq (h.part.parts.imp fun _ _ => .alike)
  field _ := by
    unfold fieldOf
    rw [h.before, h.part.textOf]
  initializer _ := h.part.textOf

/-- Two types that have the same in everything but the texts of their members. -/
structure TypeKin (e : Edit) (s s' : Site) : Prop where
  kind : s'.kind = s.kind
  around : s'.around = s.around
  before : e.SameDoc s.before s'.before
  parts : List.Forall₂ e.Kin s.tree.parts s'.tree.parts
  startLine : lineOf e.target s'.tree.start = lineOf e.source s.tree.start
  endLine : lineOf e.target s'.tree.stop = lineOf e.source s.tree.stop
  state : List.Forall₂ e.SameState (bodyMembers s.tree) (bodyMembers s'.tree)

theorem select_map_eq {α : Type} {R : Option Tree × Tree → Option Tree × Tree → Prop}
    {xs ys : List (Option Tree × Tree)} {test : Phrase → Bool} {f g : Option Tree × Tree → α}
    (h : List.Forall₂ R xs ys) (hphrase : ∀ x y, R x y → y.2.phrase? = x.2.phrase?)
    (hfg : ∀ x y, R x y → x.2.phrase?.any test = true → g y = f x) :
    (select test ys).map g = (select test xs).map f :=
  map_filter_eq h (fun x y hxy => by rw [hphrase x y hxy]) hfg

/-- Types whose members alone may differ. -/
theorem typeOf_kin {s s' : Site} (h : e.TypeKin s s') (i : Nat) (nested : List Nat) :
    typeOf e.target i nested s' =
      { typeOf e.source i nested s with
        methods := (typeOf e.target i nested s').methods
        constructors := (typeOf e.target i nested s').constructors } := by
  have hmodifiers := parts_of_rel (rel_part? (p := .modifiers) rfl h.parts)
  have hparameters := parts_of_rel (rel_part? (p := .typeParameters) rfl h.parts)
  have hclause : ∀ p, holdsBody p = false →
      listedTypes e.target (part? p s'.tree) = listedTypes e.source (part? p s.tree) :=
    fun p hp => listedTypes_eq (rel_part? hp h.parts)
  have hphrase : ∀ x y, e.SameState x y → y.2.phrase? = x.2.phrase? := fun _ _ hxy => hxy.phrase?
  have hconstants := select_map_eq h.state hphrase fun _ _ hxy => hxy.constant
  have hfields := select_map_eq h.state hphrase fun _ _ hxy => hxy.field
  have hinitializers := select_map_eq h.state hphrase fun _ _ hxy => hxy.initializer
  unfold bodyMembers at hconstants hfields hinitializers
  unfold typeOf
  dsimp only
  rw [h.kind, h.around, elim_textOf (rel_identifier? h.parts),
    texts_eq hmodifiers fun x y hxy => by rw [hxy.isNamed],
    texts_eq hmodifiers fun x y hxy => by rw [hxy.isPhrase, hxy.isPhrase],
    texts_eq hparameters fun x y hxy => by rw [hxy.isPhrase],
    hclause .superInterfaces rfl, elim_textOf (rel_part? (p := .formalParameters) rfl h.parts),
    typeDoc_eq h.before h.parts, h.startLine, h.endLine, hconstants, hfields, hinitializers]
  split
  · rw [hclause .extendsInterfaces rfl]
  · rw [hclause .superclass rfl]

/-- What a type takes from a part of its body. -/
structure SameMember (e : Edit) (x y : Option Tree × Tree) : Prop extends e.SameState x y where
  member : x.2.phrase?.any (fun p => p = .methodDeclaration || isConstructor p) = true →
    ∀ kind owner, memberOf e.target kind owner y.1 y.2 = memberOf e.source kind owner x.1 x.2

theorem SamePart.memberOf_eq {x y : Option Tree × Tree} (h : e.SamePart x y) (kind : MemberKind)
    (owner : Nat) :
    memberOf e.target kind owner y.1 y.2 = memberOf e.source kind owner x.1 x.2 := by
  have hname := elim_textOf (rel_identifier? (h.part.parts.imp fun _ _ => .alike)) ""
  unfold memberOf
  rw [hname, h.part.textOf, h.before, h.part.startLine, h.part.endLine]

theorem SamePart.member {x y : Option Tree × Tree} (h : e.SamePart x y) : e.SameMember x y where
  toSameState := h.state
  member _ := h.memberOf_eq

section OddPart

variable {p : Phrase} {cs cs' : List Tree} {x y : Option Tree × Tree}

/-- A declaration that is neither a field nor an initializer gives the header of its type
no more than the name and the arguments of a constant. -/
theorem OddPart.state (h : e.OddPart (.node p cs) (.node p cs') x y)
    (hconstant : p = .enumConstant → List.Forall₂ e.Kin cs cs')
    (hfield : isField p = false) (hinitializer : isInitializer p = false) : e.SameState x y := by
  obtain ⟨b, x⟩ := x
  obtain ⟨b', y⟩ := y
  obtain ⟨-, rfl, rfl⟩ := h
  exact
    { phrase? := rfl
      constant := fun hx => enumConstantOf_eq (hconstant (by simpa [Tree.phrase?] using hx))
      field := fun hx => absurd (hfield.symm.trans hx) Bool.false_ne_true
      initializer := fun hx => absurd (hinitializer.symm.trans hx) Bool.false_ne_true }

/-- No type is selected from the body that it stands in. -/
theorem unselected_of_type (hp : (typeKind? p).isSome = true) :
    p ≠ .enumConstant ∧ isField p = false ∧ isInitializer p = false ∧
      (p = .methodDeclaration || isConstructor p) = false := by
  cases p <;> first | decide | cases hp

/-- A type gives the type in whose body it stands nothing. -/
theorem OddPart.member_of_type (h : e.OddPart (.node p cs) (.node p cs') x y)
    (hp : (typeKind? p).isSome = true) : e.SameMember x y := by
  obtain ⟨hconstant, hfield, hinitializer, hmember⟩ := unselected_of_type hp
  refine ⟨h.state (fun hp => absurd hp hconstant) hfield hinitializer, fun hx => ?_⟩
  rw [h.old] at hx
  exact absurd (hmember.symm.trans hx) Bool.false_ne_true

/-- A constant gives the type in whose body it stands its name and its arguments. -/
theorem OddPart.member_of_constant
    (h : e.OddPart (.node .enumConstant cs) (.node .enumConstant cs') x y)
    (hkin : List.Forall₂ e.Kin cs cs') : e.SameMember x y where
  toSameState := h.state (fun _ => hkin) rfl rfl
  member hx := by
    rw [h.old] at hx
    cases hx

end OddPart

theorem typeOf_eq {s s' : Site} (h : e.TypeKin s s')
    (hmembers : List.Forall₂ e.SameMember (bodyMembers s.tree) (bodyMembers s'.tree)) (i : Nat)
    (nested : List Nat) : typeOf e.target i nested s' = typeOf e.source i nested s := by
  have hphrase : ∀ x y, e.SameMember x y → y.2.phrase? = x.2.phrase? := fun _ _ hxy => hxy.phrase?
  have hany : ∀ {o : Option Phrase} {test : Phrase → Bool},
      (∀ p, test p = true → (p = .methodDeclaration || isConstructor p) = true) →
      o.any test = true → o.any (fun p => p = .methodDeclaration || isConstructor p) = true := by
    intro o test htest h
    cases o with
    | none => cases h
    | some p => exact htest p h
  have hmethods : (typeOf e.target i nested s').methods = (typeOf e.source i nested s).methods :=
    select_map_eq hmembers hphrase fun x y hxy hx =>
      hxy.member (hany (fun p hp => by simp [hp]) hx) .method i
  have hconstructors : (typeOf e.target i nested s').constructors =
      (typeOf e.source i nested s).constructors :=
    select_map_eq hmembers hphrase fun x y hxy hx =>
      hxy.member (hany (fun p hp => by simp [hp]) hx) .constructor i
  rw [typeOf_kin h, hmethods, hconstructors]

end Edit

end SourceShelf.Java
