import SourceShelf.Chunk.Basic
import SourceShelf.Proofs.Java.Edits

/-!
# Where an edited body stands

The trees of the two texts of an `Edit` are the same but for one body, which fills the
piece (`Edit.Fills`).  It is the body of a method, of a constructor or of a constant of
an enum (`Edit.MemberRewritten`, `Edit.ConstantRewritten`), and that declaration stands in
the body of a type, which stands in the body of a type, and so on up to the file
(`Edit.Declared`, `Edit.InFile`).

A type is around the piece as the declaration in its body is (`InBody.spans`), so all of
them keep their lines.
-/

namespace SourceShelf.Java.Edit

open Outline

variable {e : Edit}

/-! ## The edited declaration -/

/-- The old body and the new one, each in the place of its piece.  Neither declares a
type. -/
structure Fills (e : Edit) (b b' : Tree) : Prop where
  start : b.start? = some e.low
  stop : b.stop? = some e.high
  start' : b'.start? = some e.low
  stop' : b'.stop? = some (e.low + e.new.length)
  typeless : ∀ s ∈ b.spots [] 0, s.tree.isType = false
  typeless' : ∀ s ∈ b'.spots [] 0, s.tree.isType = false

/-- A phrase of the kind `p` that has another body of the kind `q` in the new text. -/
inductive Rewritten (e : Edit) (p q : Phrase) : Tree → Tree → Prop where
  | mk {bs bs' ps ps' : List Tree} (hfills : e.Fills (.node q bs) (.node q bs'))
      (h : e.Exchanged (.node q bs) (.node q bs') ps ps') :
      Rewritten e p q (.node p ps) (.node p ps')

/-- The kind of chunk that a member gives, by its kind of phrase and that of its body. -/
def memberKind? : Phrase → Phrase → Option ChunkKind
  | .methodDeclaration, .block => some .method
  | .constructorDeclaration, .constructorBody => some .constructor
  | .compactConstructorDeclaration, .block => some .constructor
  | _, _ => none

/-- A method or a constructor that has another body in the new text. -/
def MemberRewritten (e : Edit) (kind : ChunkKind) (m m' : Tree) : Prop :=
  ∃ p q, memberKind? p q = some kind ∧ e.Rewritten p q m m'

/-- A constant of an enum that has another body in the new text. -/
def ConstantRewritten (e : Edit) (c c' : Tree) : Prop :=
  e.Rewritten .enumConstant .classBody c c'

/-! ## The types around it -/

variable {c c' : Tree}

/-- The parts of a body in which one declaration is exchanged.  In an enum it may stand
behind the constants. -/
inductive Among (e : Edit) (c c' : Tree) : List Tree → List Tree → Prop where
  | direct {ps ps' : List Tree} (h : e.Exchanged c c' ps ps') : Among e c c' ps ps'
  | behindConstants {ds ds' ps ps' : List Tree} (h : e.Exchanged c c' ds ds')
      (hbehind : e.Exchanged (.node .enumBodyDeclarations ds) (.node .enumBodyDeclarations ds')
        ps ps') : Among e c c' ps ps'

/-- A type in whose body one declaration is exchanged.  Its body is the first of its parts
that is one. -/
inductive InBody (e : Edit) (c c' : Tree) : Tree → Tree → Prop where
  | mk {p q : Phrase} {front rear bs bs' : List Tree} (hp : (typeKind? p).isSome = true)
      (hq : isBody q = true) (hfront : ∀ x ∈ front, x.isBody = false)
      (h : e.Among c c' bs bs') :
      InBody e c c' (.node p (front ++ .node q bs :: rear))
        (.node p (front.map e.move ++ .node q bs' :: rear.map e.move))

/-- A type in which one declaration is exchanged, in its own body or in that of a type
that is declared in it. -/
inductive Declared (e : Edit) (c c' : Tree) : Tree → Tree → Prop where
  | direct {t t' : Tree} (h : e.InBody c c' t t') : Declared e c c' t t'
  | nested {t t' o o' : Tree} (h : Declared e c c' t t') (ho : e.InBody t t' o o') :
      Declared e c c' o o'

/-- The parts of a file in which one declaration is exchanged, in a type of the file. -/
def InFile (e : Edit) (c c' : Tree) (ps ps' : List Tree) : Prop :=
  ∃ t t', e.Declared c c' t t' ∧ e.Exchanged t t' ps ps'

/-! ## Leaves -/

theorem Exchanged.leaves_sublist {ps ps' : List Tree} (h : e.Exchanged c c' ps ps') :
    c.leaves.Sublist (Tree.leavesOf ps) := by
  obtain ⟨front, rear, rfl, -⟩ := h
  rw [Tree.leavesOf_append]
  exact (List.sublist_append_left _ _).trans (List.sublist_append_right _ _)

theorem Among.leaves_sublist {ps ps' : List Tree} (h : e.Among c c' ps ps') :
    c.leaves.Sublist (Tree.leavesOf ps) := by
  cases h with
  | direct h => exact h.leaves_sublist
  | behindConstants h hbehind => exact h.leaves_sublist.trans hbehind.leaves_sublist

/-- The parts of a type around its body. -/
theorem InBody.inv {t t' : Tree} (h : e.InBody c c' t t') :
    ∃ p q ps ps' bs bs', t = .node p ps ∧ t' = .node p ps' ∧ (typeKind? p).isSome = true ∧
      isBody q = true ∧ e.Exchanged (.node q bs) (.node q bs') ps ps' ∧ e.Among c c' bs bs' := by
  cases h with
  | mk hp hq hfront h => exact ⟨_, _, _, _, _, _, rfl, rfl, hp, hq, ⟨_, _, rfl, rfl⟩, h⟩

theorem InBody.leaves_sublist {t t' : Tree} (h : e.InBody c c' t t') :
    c.leaves.Sublist t.leaves := by
  obtain ⟨p, q, ps, ps', bs, bs', rfl, rfl, -, -, hbody, hamong⟩ := h.inv
  exact hamong.leaves_sublist.trans hbody.leaves_sublist

theorem Declared.leaves_sublist {t t' : Tree} (h : e.Declared c c' t t') :
    c.leaves.Sublist t.leaves := by
  induction h with
  | direct h => exact h.leaves_sublist
  | nested _ ho ih => exact ih.trans ho.leaves_sublist

theorem Declared.isType {t t' : Tree} (h : e.Declared c c' t t') :
    ∃ p ps ps', t = .node p ps ∧ t' = .node p ps' ∧ (typeKind? p).isSome = true := by
  have hbody : ∀ {d d' u u' : Tree}, e.InBody d d' u u' →
      ∃ p ps ps', u = .node p ps ∧ u' = .node p ps' ∧ (typeKind? p).isSome = true := by
    intro d d' u u' h
    obtain ⟨p, q, ps, ps', bs, bs', rfl, rfl, hp, -⟩ := h.inv
    exact ⟨p, ps, ps', rfl, rfl, hp⟩
  cases h with
  | direct h => exact hbody h
  | nested _ ho => exact hbody ho

/-! ## Places -/

theorem Fills.spans {b b' : Tree} (h : e.Fills b b') : e.Spans b b' where
  start := ⟨e.low, h.start, h.start', Nat.le_refl _⟩
  stop := by
    refine ⟨e.high, h.stop, ?_, Nat.le_refl _⟩
    rw [h.stop', place_of_ge (Nat.le_refl _), Nat.sub_self, Nat.add_zero]

theorem Rewritten.spans {p q : Phrase} (h : e.Rewritten p q c c')
    (horder : Tree.InOrder c.leaves) : e.Spans c c' := by
  cases h with
  | mk hfills h => exact h.spans hfills.spans horder p

theorem Among.spans {ps ps' : List Tree} (h : e.Among c c' ps ps') (hc : e.Spans c c')
    (horder : Tree.InOrder (Tree.leavesOf ps)) (p : Phrase) :
    e.Spans (.node p ps) (.node p ps') := by
  cases h with
  | direct h => exact h.spans hc horder p
  | behindConstants h hbehind =>
    exact hbehind.spans (h.spans hc (horder.sublist hbehind.leaves_sublist) _) horder p

theorem InBody.spans {t t' : Tree} (h : e.InBody c c' t t') (hc : e.Spans c c')
    (horder : Tree.InOrder t.leaves) : e.Spans t t' := by
  obtain ⟨p, q, ps, ps', bs, bs', rfl, rfl, -, -, hbody, hamong⟩ := h.inv
  exact hbody.spans (hamong.spans hc (horder.sublist hbody.leaves_sublist) q) horder p

theorem Declared.spans {t t' : Tree} (h : e.Declared c c' t t') (hc : e.Spans c c')
    (horder : Tree.InOrder t.leaves) : e.Spans t t' := by
  induction h with
  | direct h => exact h.spans hc horder
  | nested _ ho ih => exact ho.spans (ih (horder.sublist ho.leaves_sublist)) horder

end SourceShelf.Java.Edit
