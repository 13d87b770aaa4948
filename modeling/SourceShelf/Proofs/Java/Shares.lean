import Mathlib
import SourceShelf.Proofs.Java.MemberSpots

/-!
# Shares of the comments of a tree

Parts of a tree that are told apart by a key have no comments in common.  So what is taken
of a type by the kinds of its parts, and of its body by the kinds of what stands there, has
each comment at most once.

* `subperm_shares`: shares of some trees, one for each key.
* `comments_part_sublist`, `comments_body_sublist`: what is taken of a type.
* `subperm_bodyShares`: what is taken of a body, the doc comments of its fields among it.
-/

namespace SourceShelf.Java

namespace Tree

/-! ## Shares by keys -/

/-- Parts with different keys, together. -/
theorem subperm_filters {α : Type} [DecidableEq α] (key : Tree → α) (ts : List Tree) {keys : List α}
    (hkeys : keys.Nodup) : (keys.flatMap fun k => ts.filter (key · = k)).Subperm ts := by
  induction keys generalizing ts with
  | nil => exact List.nil_subperm
  | cons k keys ih =>
    obtain ⟨hk, hkeys⟩ := List.nodup_cons.mp hkeys
    rw [List.flatMap_cons]
    have hrest : (keys.flatMap fun i => ts.filter (key · = i)) =
        keys.flatMap fun i => (ts.filter fun t => !decide (key t = k)).filter (key · = i) := by
      refine List.flatMap_congr fun i hi => ?_
      rw [List.filter_filter]
      refine List.filter_congr fun t _ => ?_
      by_cases hti : key t = i
      · have hne : key t ≠ k := fun htk => hk (htk ▸ hti ▸ hi)
        simp [hti, hti ▸ hne]
      · simp [hti]
    rw [hrest]
    exact ((List.Subperm.refl _).append (ih _ hkeys)).trans
      (List.filter_append_perm (fun t => decide (key t = k)) ts).subperm

theorem nodup_of_subperm {α : Type} {l m : List α} (h : l.Subperm m) (hm : m.Nodup) : l.Nodup := by
  obtain ⟨k, hperm, hsub⟩ := h
  exact hperm.nodup_iff.mp (hm.sublist hsub)

theorem commentsOf_append (ts us : List Tree) :
    commentsOf (ts ++ us) = commentsOf ts ++ commentsOf us := by
  rw [commentsOf_eq, commentsOf_eq, commentsOf_eq, List.flatMap_append]

theorem commentsOf_sublist_of_sublist {ts us : List Tree} (h : ts.Sublist us) :
    (commentsOf ts).Sublist (commentsOf us) := by
  rw [commentsOf_eq, commentsOf_eq]
  exact h.flatMap comments

theorem commentsOf_subperm {ts us : List Tree} (h : ts.Subperm us) :
    (commentsOf ts).Subperm (commentsOf us) := by
  obtain ⟨vs, hperm, hsub⟩ := h
  rw [commentsOf_eq, commentsOf_eq]
  exact (hperm.flatMap_right comments).symm.subperm.trans (hsub.flatMap comments).subperm

theorem commentsOf_singleton (t : Tree) : commentsOf [t] = t.comments := List.append_nil _

theorem comments_sublist_of_mem {t : Tree} {ts : List Tree} (h : t ∈ ts) :
    t.comments.Sublist (commentsOf ts) := by
  rw [← commentsOf_singleton]
  exact commentsOf_sublist_of_sublist (List.singleton_sublist.mpr h)

theorem commentsOf_parts_sublist (t : Tree) : (commentsOf t.parts).Sublist t.comments := by
  cases t with
  | node p ps => exact .refl _
  | error ps => exact .refl _
  | _ => exact List.nil_sublist _

/-- Shares of the comments of some trees, one for each key, are comments of the trees. -/
theorem subperm_shares {α : Type} [DecidableEq α] (key : Tree → α) (ts : List Tree) (keys : List α)
    {shares : List (List (Nat × Nat))} (hkeys : keys.Nodup)
    (h : List.Forall₂ (fun k share => share.Subperm (commentsOf (ts.filter (key · = k)))) keys
      shares) : shares.flatten.Subperm (commentsOf ts) := by
  refine .trans ?_ (commentsOf_subperm (subperm_filters key ts hkeys))
  clear hkeys
  induction h with
  | nil => exact List.nil_subperm
  | cons hshare _ ih =>
    rw [List.flatten_cons, List.flatMap_cons, commentsOf_append]
    exact hshare.append ih

/-! ## Trees without comments -/

theorem comments_of_not_named {t : Tree} (h : t.isNamed = false) : t.comments = [] := by
  cases t with
  | leaf w a b =>
    have hw : w.isNamed = false := h
    rw [comments, if_neg]
    cases w <;> first | exact Bool.false_ne_true | cases hw
  | node p ps => cases h
  | error ps => cases h
  | _ => rfl

theorem comments_of_identifier {t : Tree} (h : t.isWord .identifier = true) : t.comments = [] := by
  cases t with
  | leaf w a b =>
    obtain rfl : w = .identifier := by simpa [isWord, word?] using h
    rfl
  | node p ps => cases h
  | error ps => cases h
  | _ => rfl

theorem commentsOf_of_forall {ts : List Tree} (h : ∀ t ∈ ts, t.comments = []) :
    commentsOf ts = [] := by
  rw [commentsOf_eq]
  exact List.flatMap_eq_nil_iff.mpr h

theorem phrase?_of_isComment {t : Tree} (h : t.isComment = true) : t.phrase? = none := by
  cases t with
  | node p ps => cases h
  | _ => rfl

/-! ## What is taken of a type -/

/-- The kind of phrase of a part of a type; words and modifiers have none. -/
def headKey (t : Tree) : Option Phrase := t.phrase?.filter (· ≠ .modifiers)

/-- The first part of a kind. -/
theorem comments_part_sublist {t : Tree} {p : Phrase} (hp : p ≠ .modifiers) :
    ((Outline.part? p t).elim [] comments).Sublist
      (commentsOf (t.parts.filter (headKey · = some p))) := by
  cases hpart : Outline.part? p t with
  | none => exact List.nil_sublist _
  | some u =>
    rw [Outline.part?] at hpart
    have hphrase := List.find?_some hpart
    have hu : u.phrase? = some p := of_decide_eq_true hphrase
    refine comments_sublist_of_mem (List.mem_filter.mpr ⟨List.mem_of_find?_eq_some hpart, ?_⟩)
    simp [headKey, hu, hp]

/-- The first part that is a body. -/
theorem comments_body_sublist {t b : Tree}
    (hb : t.parts.find? (·.phrase?.any Outline.isBody) = some b) :
    ∃ p, b.phrase? = some p ∧ Outline.isBody p = true ∧
      b.comments.Sublist (commentsOf (t.parts.filter (headKey · = some p))) := by
  have hany := List.find?_some hb
  obtain ⟨p, hp, hbody⟩ := (Option.any_eq_true _ _).mp hany
  refine ⟨p, hp, hbody, comments_sublist_of_mem
    (List.mem_filter.mpr ⟨List.mem_of_find?_eq_some hb, ?_⟩)⟩
  have hne : p ≠ .modifiers := by
    rintro rfl
    cases hbody
  simp [headKey, hp, hne]

/-- A comment up to the name of a type. -/
theorem comments_beforeName_sublist {t u : Tree} (h : u ∈ Outline.beforeName t)
    (hu : u.isComment = true) :
    u.comments.Sublist (commentsOf (t.parts.filter (headKey · = none))) := by
  obtain ⟨p, hp, hup⟩ := List.mem_flatMap.mp h
  have hmem := (List.takeWhile_sublist _).subset hp
  split at hup
  next hmodifiers =>
    have hphrase : p.phrase? = some .modifiers := of_decide_eq_true hmodifiers
    refine ((comments_sublist_of_mem hup).trans (commentsOf_parts_sublist p)).trans
      (comments_sublist_of_mem (List.mem_filter.mpr ⟨hmem, ?_⟩))
    simp [headKey, hphrase]
  next =>
    obtain rfl := List.mem_singleton.mp hup
    refine comments_sublist_of_mem (List.mem_filter.mpr ⟨hmem, ?_⟩)
    simp [headKey, phrase?_of_isComment hu]

/-! ## What is taken of a body -/

open Outline (withBefore bodyParts select isDoc)

/-- What stands before a part, if it is a doc comment. -/
def docOf (chars : List Char) (before : Option Tree) : List Tree :=
  (before.filter (isDoc chars)).toList

/-- The doc comments right before some parts. -/
def docsOf (chars : List Char) (members : List (Option Tree × Tree)) : List Tree :=
  members.flatMap fun m => docOf chars m.1

theorem docOf_sublist (chars : List Char) (t : Tree) : (docOf chars (some t)).Sublist [t] := by
  unfold docOf
  rw [Option.filter_some]
  split
  · exact .refl _
  · exact List.nil_sublist _

theorem isComment_of_mem_docOf {chars : List Char} {before : Option Tree} {t : Tree}
    (h : t ∈ docOf chars before) : t.isComment = true := by
  have hfilter : before.filter (isDoc chars) = some t := Option.mem_toList.mp h
  exact (Bool.and_eq_true_iff.mp (Option.filter_eq_some_iff.mp hfilter).2).1

/-- Doc comments right before parts are parts themselves.  The walk carries the last one along
that may still stand right before a part. -/
theorem docsOf_flatMap_sublist {chars : List Char}
    {f : Option Tree × Tree → List (Option Tree × Tree)}
    (h : ∀ before t, (docsOf chars (f (before, t)) ++
      docOf chars (if t.isNamed then some t else before)).Sublist
        (docOf chars before ++ (f (before, t)).map Prod.snd))
    (before : Option Tree) (ts : List Tree) :
    (docsOf chars ((withBefore before ts).flatMap f)).Sublist
      (docOf chars before ++ ((withBefore before ts).flatMap f).map Prod.snd) := by
  induction ts generalizing before with
  | nil => exact List.nil_sublist _
  | cons t ts ih =>
    rw [withBefore, List.flatMap_cons, docsOf, List.flatMap_append, List.map_append,
      ← List.append_assoc]
    refine .trans ((List.Sublist.refl _).append (ih _)) ?_
    rw [← List.append_assoc]
    exact (h before t).append (.refl _)

theorem filter_eq_flatMap {α : Type} (test : α → Bool) (l : List α) :
    l.filter test = l.flatMap fun x => if test x then [x] else [] := by
  induction l with
  | nil => rfl
  | cons x l ih =>
    rw [List.flatMap_cons, ← ih, List.filter_cons]
    split <;> rfl

/-- The named parts of a body one by one. -/
theorem docsOf_named (chars : List Char) (before : Option Tree) (t : Tree) :
    (docsOf chars (if t.isNamed then [(before, t)] else []) ++
      docOf chars (if t.isNamed then some t else before)).Sublist
        (docOf chars before ++ (if t.isNamed then [(before, t)] else []).map Prod.snd) := by
  split
  · rw [docsOf, List.flatMap_singleton]
    exact (List.Sublist.refl _).append (docOf_sublist chars t)
  · rw [List.map_nil, List.append_nil]
    exact .refl _

/-- The doc comments right before the parts of a body are parts of the body. -/
theorem docsOf_bodyParts_sublist (chars : List Char) (b : Tree) :
    (docsOf chars (bodyParts b)).Sublist ((bodyParts b).map Prod.snd) := by
  refine docsOf_flatMap_sublist (fun before t => ?_) none b.parts
  dsimp only
  split
  next henum =>
    have hnamed : t.isNamed = true ∧ t.isComment = false := by
      cases t with
      | node p ps => exact ⟨rfl, rfl⟩
      | _ => cases henum
    have hdoc : docOf chars (some t) = [] := by
      rw [docOf, Option.filter_some, isDoc, hnamed.2]
      rfl
    rw [if_pos hnamed.1, hdoc, List.append_nil, filter_eq_flatMap]
    exact (docsOf_flatMap_sublist (docsOf_named chars) none t.parts).trans
      (List.sublist_append_right _ _)
  next => exact docsOf_named chars before t

/-- What is listed of a body has comments of it. -/
theorem comments_bodyParts_sublist (b : Tree) :
    (commentsOf ((bodyParts b).map Prod.snd)).Sublist b.comments := by
  refine .trans ?_ (commentsOf_parts_sublist b)
  rw [← Outline.map_snd_withBefore none b.parts, commentsOf_eq, commentsOf_eq, bodyParts,
    List.map_flatMap, List.flatMap_assoc, List.flatMap_map]
  refine List.Sublist.flatMap_right _ fun x _ => ?_
  obtain ⟨before, t⟩ := x
  dsimp only
  rw [← commentsOf_eq]
  split
  · have hparts : (((withBefore none t.parts).filter (·.2.isNamed)).map Prod.snd).Sublist
        t.parts := by
      conv_rhs => rw [← Outline.map_snd_withBefore none t.parts]
      exact List.filter_sublist.map Prod.snd
    exact (commentsOf_sublist_of_sublist hparts).trans (commentsOf_parts_sublist t)
  · split
    · rw [List.map_singleton, commentsOf_singleton]
    · exact List.nil_sublist _

/-- What stands in a body, told apart: constants, fields and initializers. -/
def bodyKey (p : Phrase) : Bool × Bool × Bool :=
  (p = .enumConstant, Outline.isField p, Outline.isInitializer p)

theorem bodyKey_spec (p : Phrase) :
    (decide (p = .enumConstant) = true → bodyKey p = (true, false, false)) ∧
      (Outline.isField p = true → bodyKey p = (false, true, false)) ∧
      (Outline.isInitializer p = true → bodyKey p = (false, false, true)) := by
  cases p <;> decide

/-- What is selected of a body by a kind of phrase is what has its key. -/
theorem map_snd_select_sublist {test : Phrase → Bool} {key : Bool × Bool × Bool}
    (h : ∀ p, test p = true → bodyKey p = key) (members : List (Option Tree × Tree)) :
    ((select test members).map Prod.snd).Sublist
      ((members.map Prod.snd).filter fun t =>
        t.phrase?.elim (false, false, false) bodyKey = key) := by
  rw [List.filter_map]
  refine List.Sublist.map _ (List.monotone_filter_right members fun m hm => ?_)
  obtain ⟨p, hp, hpass⟩ := (Option.any_eq_true _ _).mp hm
  simp [hp, h p hpass]

theorem commentsOf_flatMap {α : Type} (l : List α) (f : α → List Tree) :
    commentsOf (l.flatMap f) = l.flatMap fun x => commentsOf (f x) := by
  simp only [commentsOf_eq, List.flatMap_assoc]

/-- Doc comments right before parts of a body are among what has no key. -/
theorem docsOf_select_sublist (chars : List Char) (test : Phrase → Bool) (b : Tree) :
    (docsOf chars (select test (bodyParts b))).Sublist
      (((bodyParts b).map Prod.snd).filter fun t =>
        t.phrase?.elim (false, false, false) bodyKey = (false, false, false)) := by
  have hsub : (docsOf chars (select test (bodyParts b))).Sublist ((bodyParts b).map Prod.snd) :=
    (List.Sublist.flatMap List.filter_sublist _).trans (docsOf_bodyParts_sublist chars b)
  refine List.sublist_filter_iff.mpr ⟨_, hsub, (List.filter_eq_self.mpr fun t ht => ?_).symm⟩
  obtain ⟨m, -, hm⟩ := List.mem_flatMap.mp ht
  rw [phrase?_of_isComment (isComment_of_mem_docOf hm)]
  rfl

/-- Fields with the doc comments right before them. -/
theorem commentsOf_fields_perm (chars : List Char) (fields : List (Option Tree × Tree)) :
    (commentsOf (fields.flatMap fun m => docOf chars m.1 ++ [m.2])).Perm
      (commentsOf (docsOf chars fields) ++ commentsOf (fields.map Prod.snd)) := by
  have hsplit : commentsOf (fields.flatMap fun m => docOf chars m.1 ++ [m.2]) =
      fields.flatMap fun m => commentsOf (docOf chars m.1) ++ m.2.comments := by
    rw [commentsOf_flatMap]
    refine List.flatMap_congr fun m _ => ?_
    rw [commentsOf_append, commentsOf_singleton]
  have hfields : commentsOf (fields.map Prod.snd) = fields.flatMap fun m => m.2.comments := by
    rw [commentsOf_eq, List.flatMap_map]
  rw [hsplit, hfields, docsOf, commentsOf_flatMap]
  exact (List.flatMap_append_perm fields _ _).symm

/-- What is taken of a body: of the constants some parts, the fields with the doc comments
right before them, and the initializers. -/
theorem subperm_bodyShares (chars : List Char) (b : Tree) (f : Tree → List Tree)
    (hf : ∀ t, (commentsOf (f t)).Sublist t.comments) :
    (commentsOf ((select (· = .enumConstant) (bodyParts b)).flatMap fun m => f m.2) ++
        commentsOf ((select Outline.isField (bodyParts b)).flatMap fun m =>
          docOf chars m.1 ++ [m.2]) ++
        commentsOf ((select Outline.isInitializer (bodyParts b)).map Prod.snd)).Subperm
      b.comments := by
  have hconstants : (commentsOf ((select (· = .enumConstant) (bodyParts b)).flatMap fun m =>
      f m.2)).Sublist (commentsOf ((select (· = .enumConstant) (bodyParts b)).map Prod.snd)) := by
    rw [commentsOf_flatMap, commentsOf_eq, List.flatMap_map]
    exact List.Sublist.flatMap_right _ fun m _ => hf m.2
  have hselected {test : Phrase → Bool} {key : Bool × Bool × Bool}
      (h : ∀ p, test p = true → bodyKey p = key) :=
    commentsOf_sublist_of_sublist (map_snd_select_sublist h (bodyParts b))
  have hdocs := commentsOf_sublist_of_sublist (docsOf_select_sublist chars Outline.isField b)
  have hshares := subperm_shares (fun t => t.phrase?.elim (false, false, false) bodyKey)
    ((bodyParts b).map Prod.snd)
    [(true, false, false), (false, false, false), (false, true, false), (false, false, true)]
    (by decide)
    (.cons (hconstants.trans (hselected fun p => (bodyKey_spec p).1)).subperm
      (.cons hdocs.subperm
        (.cons (hselected fun p => (bodyKey_spec p).2.1).subperm
          (.cons (hselected fun p => (bodyKey_spec p).2.2).subperm .nil))))
  refine .trans ?_ (hshares.trans (comments_bodyParts_sublist b).subperm)
  refine (((List.Perm.refl _).append (commentsOf_fields_perm chars _)).append_right _).subperm.trans
    (List.Perm.subperm ?_)
  simp only [List.flatten_cons, List.flatten_nil, List.append_nil, List.append_assoc]
  exact .refl _

end Tree

end SourceShelf.Java
