import SourceShelf.Java.Item
import SourceShelf.Java.Tree

/-!
# Trees that follow the grammar

`Reads` says that some trees are a way to write a symbol: a word, or a phrase
by one of the alternatives of its rule.  The alternative is read step by step
(`takes`), each symbol gives a `Piece`, and comments stand between the pieces.
Hidden phrases leave no node, so the trees of a phrase may be many.  Words that
were put in and stretches that were passed over are allowed for, so that
`Reads` holds of mended texts too; `Tree.anyFaulty` tells them apart.

* `Reads.every`: each phrase in a tree that follows the grammar follows it.
* `Reads.phrase_inv`, `Phrase.Derived.inv`: the pieces of a phrase, and of one that
  leaves a node.
-/

namespace SourceShelf.Java

/-! ## Faults -/

namespace Tree

mutual

theorem isFaulty_of_firstFault? (t : Tree) (h : t.firstFault? = none) : t.isFaulty = false := by
  match t, h with
  | .leaf .., _ => rfl
  | .node p parts, h => exact anyFaulty_of_firstFaultOf? parts h

theorem anyFaulty_of_firstFaultOf? (ts : List Tree) (h : firstFaultOf? ts = none) :
    anyFaulty ts = false := by
  match ts, h with
  | [], _ => rfl
  | t :: ts, h =>
    obtain ⟨ht, hts⟩ := Option.or_eq_none_iff.mp h
    show (t.isFaulty || anyFaulty ts) = false
    rw [isFaulty_of_firstFault? t ht, anyFaulty_of_firstFaultOf? ts hts]
    rfl

end

@[simp] theorem anyFaulty_nil : anyFaulty [] = false := rfl

@[simp] theorem anyFaulty_cons (t : Tree) (ts : List Tree) :
    anyFaulty (t :: ts) = (t.isFaulty || anyFaulty ts) := rfl

@[simp] theorem anyFaulty_append (ts us : List Tree) :
    anyFaulty (ts ++ us) = (anyFaulty ts || anyFaulty us) := by
  induction ts with
  | nil => rfl
  | cons t ts ih => rw [List.cons_append, anyFaulty_cons, anyFaulty_cons, ih, Bool.or_assoc]

theorem anyFaulty_flatMap {α : Type} {f : α → List Tree} {l : List α} :
    anyFaulty (l.flatMap f) = false ↔ ∀ x ∈ l, anyFaulty (f x) = false := by
  induction l with
  | nil => simp
  | cons x l ih => simp [ih]

/-! ## Every phrase of a tree -/

mutual

/-- True when every phrase of a tree satisfies a property.  What was passed over
is not looked into. -/
def Every (P : Phrase → List Tree → Prop) : Tree → Prop
  | node p ts => P p ts ∧ EveryOf P ts
  | _ => True

/-- True when every phrase of some trees satisfies a property. -/
def EveryOf (P : Phrase → List Tree → Prop) : List Tree → Prop
  | [] => True
  | t :: ts => t.Every P ∧ EveryOf P ts

end

theorem everyOf_iff {P : Phrase → List Tree → Prop} {ts : List Tree} :
    EveryOf P ts ↔ ∀ t ∈ ts, t.Every P := by
  induction ts with
  | nil => simp [EveryOf]
  | cons t ts ih => simp [EveryOf, ih]

end Tree

/-! ## The grammar -/

/-- True when the steps of an alternative can be gone through with some symbols,
one after the other. -/
def takes : List Step → List Symbol → Prop
  | steps, [] => steps.all (·.optional) = true
  | steps, x :: xs => ∃ rest, (x, rest) ∈ Form.nextSteps steps ∧ takes rest xs

/-- The kinds of words that an alternative shows in place of others. -/
def Alternative.shown (a : Alternative) : List (Symbol × Token) :=
  a.steps.filterMap fun s => s.shownAs.map (s.symbol, ·)

/-- A word shown as another kind. -/
def Tree.shownAs (w : Token) : Tree → Tree
  | leaf _ a b => leaf w a b
  | missing _ place => missing w place
  | t => t

/-- What stands for a symbol in a phrase, or between two of them. -/
structure Piece where
  symbol? : Option Symbol
  trees : List Tree

/-- The trees of a piece as an alternative shows them. -/
def Piece.shown (names : List (Symbol × Token)) (c : Piece) : List Tree :=
  match c.symbol?.bind fun x => names.lookup x with
  | some w => c.trees.map (Tree.shownAs w)
  | none => c.trees

/-- The trees of a phrase. -/
def Phrase.wrap (p : Phrase) (ts : List Tree) : List Tree :=
  if p.isHidden then ts else [.node p ts]

/-- What may stand between two symbols: a comment, or what was passed over. -/
inductive Between : List Tree → Prop where
  | comment {t : Token} {a b : Nat} (ht : t.isComment = true) (h : a < b) : Between [.leaf t a b]
  | fault (ts : List Tree) : Between [.error ts]
  | nothing : Between []

/-- The trees are a way to write a symbol. -/
inductive Reads : Symbol → List Tree → Prop where
  | word {t : Token} {a b : Nat} (h : a < b) : Reads (.token t) [.leaf t a b]
  | missing {t : Token} {place : Nat} : Reads (.token t) [.missing t place]
  | phrase {p : Phrase} {a : Alternative} {pieces : List Piece} (ha : a ∈ p.rule)
      (htakes : takes a.steps (pieces.filterMap Piece.symbol?))
      (hreads : ∀ c ∈ pieces, ∀ x, c.symbol? = some x → Reads x c.trees)
      (hbetween : ∀ c ∈ pieces, c.symbol? = none → Between c.trees) :
      Reads (.phrase p) (p.wrap (pieces.flatMap (·.shown a.shown)))

/-- The parts of a phrase follow the grammar. -/
def Phrase.Derived (p : Phrase) (parts : List Tree) : Prop := Reads (.phrase p) [.node p parts]

namespace Piece

theorem every_shownAs {P : Phrase → List Tree → Prop} (w : Token) {t : Tree} (h : t.Every P) :
    (t.shownAs w).Every P := by
  cases t with
  | node p ts => exact h
  | _ => trivial

theorem everyOf_shown {P : Phrase → List Tree → Prop} (names : List (Symbol × Token)) {c : Piece}
    (h : Tree.EveryOf P c.trees) : Tree.EveryOf P (c.shown names) := by
  unfold shown
  split
  · rw [Tree.everyOf_iff] at h ⊢
    intro t ht
    obtain ⟨t', ht', rfl⟩ := List.mem_map.mp ht
    exact every_shownAs _ (h t' ht')
  · exact h

theorem isFaulty_shownAs (w : Token) (t : Tree) : (t.shownAs w).isFaulty = t.isFaulty := by
  cases t <;> rfl

@[simp] theorem anyFaulty_shown (names : List (Symbol × Token)) (c : Piece) :
    Tree.anyFaulty (c.shown names) = Tree.anyFaulty c.trees := by
  unfold shown
  split
  · induction c.trees with
    | nil => rfl
    | cons t ts ih => simp [isFaulty_shownAs, ih]
  · rfl

end Piece

namespace Reads

/-- Where trees follow the grammar, each phrase in them does. -/
theorem every {x : Symbol} {ts : List Tree} (h : Reads x ts) :
    Tree.EveryOf Phrase.Derived ts := by
  induction h with
  | word h => exact ⟨trivial, trivial⟩
  | missing => exact ⟨trivial, trivial⟩
  | @phrase p a pieces ha htakes hreads hbetween ih =>
    have hparts : Tree.EveryOf Phrase.Derived (pieces.flatMap (·.shown a.shown)) := by
      rw [Tree.everyOf_iff]
      intro t ht
      obtain ⟨c, hc, ht⟩ := List.mem_flatMap.mp ht
      refine Tree.everyOf_iff.mp (Piece.everyOf_shown a.shown ?_) t ht
      cases hsymbol : c.symbol? with
      | some x => exact ih c hc x hsymbol
      | none =>
        have hbetween := hbetween c hc hsymbol
        revert hbetween
        generalize c.trees = us
        rintro (⟨-, -⟩ | - | -)
        · exact ⟨trivial, trivial⟩
        · exact ⟨trivial, trivial⟩
        · trivial
    have hself := Reads.phrase ha htakes hreads hbetween
    unfold Phrase.wrap at hself ⊢
    split
    · exact hparts
    · rw [if_neg ‹_›] at hself
      exact ⟨⟨hself, hparts⟩, trivial⟩

/-- The trees of a phrase, made from its pieces. -/
theorem phrase_inv {p : Phrase} {ts : List Tree} (h : Reads (.phrase p) ts) :
    ∃ a ∈ p.rule, ∃ pieces : List Piece, takes a.steps (pieces.filterMap Piece.symbol?) ∧
      (∀ c ∈ pieces, ∀ x, c.symbol? = some x → Reads x c.trees) ∧
      (∀ c ∈ pieces, c.symbol? = none → Between c.trees) ∧
      ts = p.wrap (pieces.flatMap (·.shown a.shown)) := by
  cases h with
  | phrase ha htakes hreads hbetween => exact ⟨_, ha, _, htakes, hreads, hbetween, rfl⟩

end Reads

/-- The parts of a phrase that leaves a node, made from its pieces. -/
theorem Phrase.Derived.inv {p : Phrase} {parts : List Tree} (h : p.Derived parts)
    (hp : p.isHidden = false) :
    ∃ a ∈ p.rule, ∃ pieces : List Piece, takes a.steps (pieces.filterMap Piece.symbol?) ∧
      (∀ c ∈ pieces, ∀ x, c.symbol? = some x → Reads x c.trees) ∧
      (∀ c ∈ pieces, c.symbol? = none → Between c.trees) ∧
      parts = pieces.flatMap (·.shown a.shown) := by
  obtain ⟨a, ha, pieces, htakes, hreads, hbetween, hts⟩ := Reads.phrase_inv h
  refine ⟨a, ha, pieces, htakes, hreads, hbetween, ?_⟩
  unfold Phrase.wrap at hts
  rw [if_neg (by simp [hp])] at hts
  simpa using hts

end SourceShelf.Java
