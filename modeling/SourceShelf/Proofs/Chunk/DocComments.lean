import SourceShelf.Proofs.Chunk.Fragments

/-!
# Comments of chunks

No chunk shows a comment twice.  A header shows the name of the package, the imports, the doc
comment of its type and parts of the type; the chunk of a member shows the doc comment of the
member and the member.  None of these is inside another one.

* `fileTree_disjoint`: the package and the imports have no comment of what is declared.
* `subperm_declaration`: what a header shows of its type, the doc comment inside it included.
* `headerFragments_nodup`, `memberFragments_nodup`: a comment is shown once.
-/

namespace SourceShelf.Java

open Fragment Spot
open Outline (textOf isDoc identifier? part? namedParts beforeName)

/-! ## The package and the imports -/

/-- Imports, and what names a package. -/
def Phrase.isPath (p : Phrase) : Bool :=
  p = .importDeclaration || p = .scopedIdentifier || p = .asterisk

/-- In imports and in the names of packages are only such phrases. -/
private theorem paths_avoid :
    (∀ p ∈ [Phrase.reservedIdentifier], p.avoids [.reservedIdentifier] (!·.isPath) = true) ∧
      ∀ p ∈ Phrase.all, p.isPath = true →
        p.isHidden = false ∧ p.avoids [.reservedIdentifier] (!·.isPath) = true := by
  decide +kernel

theorem Phrase.not_isPath_of_declares {p : Phrase} (h : p.declares = true) : p.isPath = false := by
  cases p <;> first | rfl | cases h

/-- The name of the package, and the imports. -/
def fileTrees (parts : List Tree) : List Tree :=
  (packageName? parts).toList ++ parts.filter (·.isPhrase .importDeclaration)

/-- True of the spots of the name of the package and of imports: around them stands nothing but
a package declaration. -/
structure Spot.IsPath (o : Spot) : Prop where
  path : o.tree.phrase?.all Phrase.isPath = true
  noComment : o.tree.isComment = false
  around : ∀ s : Spot, o.IsInside s → s = o ∨ s.tree.phrase? = some .packageDeclaration

section File

variable {parts : List Tree}

/-- Nothing is around the trees of a file. -/
theorem eq_of_isInside_top {t : Tree} {k : Nat} {s : Spot} (h : IsInside ⟨t, k, []⟩ s) :
    s = ⟨t, k, []⟩ :=
  ((isInside_iff.mp h).resolve_right fun hnil => nomatch List.suffix_nil.mp hnil).symm

/-- A name is no comment. -/
theorem isPath_of_dottedName {p n : Tree} (h : Outline.dottedName? p = some n) :
    n.phrase?.all Phrase.isPath = true ∧ n.isComment = false := by
  rw [Outline.dottedName?] at h
  have htest := List.find?_some h
  rcases Bool.or_eq_true_iff.mp htest with hword | hphrase
  · have hword : n.word? = some .identifier := of_decide_eq_true hword
    rw [Tree.isComment, hword]
    cases n with
    | node q qs => cases hword
    | _ => exact ⟨rfl, rfl⟩
  · have hphrase : n.phrase? = some .scopedIdentifier := of_decide_eq_true hphrase
    rw [hphrase]
    cases n with
    | node q qs => exact ⟨rfl, rfl⟩
    | _ => cases hphrase

theorem exists_isPath {t : Tree} (h : t ∈ fileTrees parts) :
    ∃ o : Spot, o.StandsIn parts ∧ o.tree = t ∧ o.IsPath := by
  rcases List.mem_append.mp h with h | h
  · have hname := List.mem_of_getLast? (Option.mem_toList.mp h)
    obtain ⟨p, hp, hn⟩ := List.mem_filterMap.mp hname
    obtain ⟨hp, hpackage⟩ := List.mem_filter.mp hp
    obtain ⟨hpath, hcomment⟩ := isPath_of_dottedName hn
    obtain ⟨k, hk⟩ := List.getElem?_of_mem hp
    obtain ⟨l, hl⟩ := List.getElem?_of_mem (List.mem_of_find?_eq_some hn)
    refine ⟨Spot.part ⟨p, k, []⟩ l t, .part (.top hk) hl, rfl, hpath, hcomment, fun s hs => ?_⟩
    rcases isInside_iff.mp hs with heq | hin
    · exact .inl heq.symm
    · rw [eq_of_isInside_top hin]
      exact .inr (of_decide_eq_true hpackage)
  · obtain ⟨hmem, himport⟩ := List.mem_filter.mp h
    obtain ⟨k, hk⟩ := List.getElem?_of_mem hmem
    have hphrase : t.phrase? = some .importDeclaration := of_decide_eq_true himport
    refine ⟨⟨t, k, []⟩, .top hk, rfl, by rw [hphrase]; rfl, ?_, fun s hs =>
      .inl (eq_of_isInside_top hs)⟩
    cases t with
    | node p ps => rfl
    | _ => cases hphrase

/-- Nothing that is declared is in an import or in the name of a package. -/
theorem Spot.IsPath.not_around (hsound : Tree.IsSound parts) {o d : Spot} (ho : o.IsPath)
    (hd : d.StandsIn parts) (hdeclares : d.Declares) : ¬ d.IsInside o := by
  intro hin
  have hpath := hd.phrase_of_closed hsound paths_avoid.1 (fun p => paths_avoid.2 p p.mem_all) hin
    ho.path
  obtain ⟨p, hp, hdeclared⟩ := (Option.any_eq_true _ _).mp hdeclares
  rw [hp, Option.all_some, Phrase.not_isPath_of_declares hdeclared] at hpath
  cases hpath

/-- The package and the imports have no comment of what is declared. -/
theorem fileTree_disjoint (hsolid : Tree.IsSolid parts) {t : Tree} (ht : t ∈ fileTrees parts)
    {d : Spot} (hd : d.StandsIn parts) (hdeclares : d.Declares) :
    t.comments.Disjoint d.tree.comments := by
  obtain ⟨o, hstands, rfl, ho⟩ := exists_isPath ht
  refine hstands.comments_disjoint hsolid hd (fun hin => ?_)
    (ho.not_around hsolid.toIsSound hd hdeclares)
  rcases ho.around d hin with rfl | hpackage
  · exact ho.not_around hsolid.toIsSound hd hdeclares (.refl _)
  · rw [Declares, hpackage] at hdeclares
    cases hdeclares

/-- The package and the imports do not show a comment right before what is declared. -/
theorem fileTree_disjoint_before (hsolid : Tree.IsSolid parts) {t : Tree}
    (ht : t ∈ fileTrees parts) {c d : Spot} (hc : c.StandsIn parts) (hd : d.StandsIn parts)
    (hdeclares : d.Declares) (hcomment : c.tree.isComment = true) (h : c.RightBefore parts d) :
    t.comments.Disjoint c.tree.comments := by
  obtain ⟨o, hstands, rfl, ho⟩ := exists_isPath ht
  have hne : c ≠ o := by
    rintro rfl
    rw [ho.noComment] at hcomment
    cases hcomment
  refine hstands.comments_disjoint hsolid hc (fun hin => ?_) fun hin => ?_
  · rcases ho.around c hin with heq | hpackage
    · exact hne heq
    · rw [Tree.phrase?_of_isComment hcomment] at hpackage
      cases hpackage
  · have hin := (isInside_iff.mp hin).resolve_left hne
    rw [h.above] at hin
    exact ho.not_around hsolid.toIsSound hd hdeclares (isInside_iff.mpr (.inr hin))

/-- A comment right before what is declared is none of its comments. -/
theorem comments_disjoint_before (hsolid : Tree.IsSolid parts) {c d : Spot} (hc : c.StandsIn parts)
    (hd : d.StandsIn parts) (h : c.RightBefore parts d) :
    c.tree.comments.Disjoint d.tree.comments := by
  intro x hx hx'
  have hleaf := (Tree.comments_sublist c.tree).subset hx
  have hbefore := h.leaves hc hd hsolid.toIsSound x hleaf x
    ((Tree.comments_sublist d.tree).subset hx')
  have hforward := hsolid.forward x (hc.leaves_sublist.subset hleaf)
  omega

/-- The package and the imports show a comment once. -/
theorem fileTrees_nodup (hsolid : Tree.IsSolid parts) :
    (Tree.commentsOf (fileTrees parts)).Nodup := by
  have hname : (Tree.commentsOf (packageName? parts).toList).Sublist
      (Tree.commentsOf (parts.filter (·.phrase? = some .packageDeclaration))) := by
    cases hn : packageName? parts with
    | none => exact List.nil_sublist _
    | some n =>
      obtain ⟨p, hp, hn⟩ := List.mem_filterMap.mp (List.mem_of_getLast? hn)
      have hpart : n ∈ p.parts := List.mem_of_find?_eq_some hn
      rw [Option.toList_some, Tree.commentsOf_singleton]
      exact ((Tree.comments_sublist_of_mem hpart).trans (Tree.commentsOf_parts_sublist p)).trans
        (Tree.comments_sublist_of_mem hp)
  have hshares := Tree.subperm_shares Tree.phrase? parts
    [some .packageDeclaration, some .importDeclaration] (by decide)
    (.cons hname.subperm (.cons (List.Subperm.refl _) .nil))
  rw [List.flatten_cons, List.flatten_cons, List.flatten_nil, List.append_nil] at hshares
  have hnodup := (hsolid.inOrder.nodup hsolid.forward).sublist (Tree.commentsOf_sublist parts)
  rw [fileTrees, Tree.commentsOf_append]
  exact Tree.nodup_of_subperm hshares hnodup

end File

/-! ## What is shown of a type -/

theorem comments_lineFragments (ts : List Tree) :
    comments (lineFragments ts) = Tree.commentsOf ts := by
  rw [lineFragments, comments_flatMap, Tree.commentsOf_eq]
  exact List.flatMap_congr fun t _ => List.append_nil _

theorem comments_sources (ts : List Tree) : comments (ts.map source) = Tree.commentsOf ts := by
  induction ts with
  | nil => rfl
  | cons t ts ih => rw [List.map_cons, comments_source, ih, Tree.commentsOf]

theorem comments_listedFragments (opening closing : String) (ts : List Tree) :
    comments (listedFragments opening closing ts) = Tree.commentsOf ts := by
  rw [listedFragments]
  split
  next hempty =>
    rw [List.isEmpty_iff.mp hempty]
    rfl
  next =>
    rw [comments_words, comments_append, comments_separated, comments_words, comments_nil,
      List.append_nil, List.flatMap_map, Tree.commentsOf_eq]
    exact List.flatMap_congr fun t _ => List.append_nil _

theorem comments_packageFragments_sublist (chars : List Char) (parts : List Tree) :
    (comments (packageFragments chars parts)).Sublist
      (Tree.commentsOf (packageName? parts).toList) := by
  unfold packageFragments
  cases packageName? parts with
  | none => exact .refl _
  | some n =>
    dsimp only
    split
    · exact List.nil_sublist _
    · exact .refl _

theorem comments_importFragments (parts : List Tree) :
    comments (importFragments parts) =
      Tree.commentsOf (parts.filter (·.isPhrase .importDeclaration)) := by
  unfold importFragments
  dsimp only
  split
  next hempty =>
    rw [List.isEmpty_iff.mp hempty]
    rfl
  next =>
    rw [comments_append, comments_lineFragments, comments_words, comments_nil, List.append_nil]

/-- Names show no comments. -/
theorem comments_identifier (t : Tree) :
    comments ((identifier? t).toList.map source) = [] := by
  rw [comments_sources]
  refine Tree.commentsOf_of_forall fun n hn => Tree.comments_of_identifier ?_
  have hfound : t.parts.find? (·.isWord .identifier) = some n := Option.mem_toList.mp hn
  have htest := List.find?_some hfound
  exact htest

theorem comments_nameFragments (d : Spot) : comments d.nameFragments = [] := by
  rw [nameFragments, comments_separated, List.flatMap_map]
  exact List.flatMap_eq_nil_iff.mpr fun e _ => comments_identifier e.tree

/-- What a header shows of the declaration of a type. -/
theorem comments_declarationFragments (t : Tree) :
    comments t.declarationFragments =
      Tree.commentsOf t.typeParameters ++
        (if t.typeKind = .recordType then (part? .formalParameters t).elim [] Tree.comments
        else []) ++
        Tree.commentsOf (Tree.listed t.superClause?) ++
        Tree.commentsOf (Tree.listed (part? .superInterfaces t)) := by
  have hkeywords : comments (t.keywords.flatMap fun k => [source k, words " "]) = [] := by
    rw [comments_flatMap]
    refine List.flatMap_eq_nil_iff.mpr fun k hk => ?_
    have hnamed : k.isNamed = false := by
      simpa using (List.mem_filter.mp hk).2
    rw [comments_source, Tree.comments_of_not_named hnamed]
    rfl
  rw [Tree.declarationFragments]
  simp only [comments_append, hkeywords, comments_identifier, comments_listedFragments,
    comments_words, comments_nil, List.nil_append]
  congr 3
  split
  · cases part? .formalParameters t with
    | none => rfl
    | some p => exact List.append_nil _
  · rfl

theorem comments_typeParameters_sublist (t : Tree) :
    (Tree.commentsOf t.typeParameters).Sublist
      ((part? .typeParameters t).elim [] Tree.comments) := by
  rw [Tree.typeParameters]
  cases part? .typeParameters t with
  | none => exact .refl _
  | some p =>
    exact (Tree.commentsOf_sublist_of_sublist List.filter_sublist).trans
      (Tree.commentsOf_parts_sublist p)

theorem comments_listed_sublist (clause : Option Tree) :
    (Tree.commentsOf (Tree.listed clause)).Sublist (clause.elim [] Tree.comments) := by
  cases clause with
  | none => exact .refl _
  | some c =>
    show (Tree.commentsOf (namedParts ((part? .typeList c).getD c))).Sublist c.comments
    have hnamed : ∀ u : Tree, (Tree.commentsOf (namedParts u)).Sublist u.comments := fun u =>
      (Tree.commentsOf_sublist_of_sublist List.filter_sublist).trans
        (Tree.commentsOf_parts_sublist u)
    cases hlist : part? .typeList c with
    | none => exact hnamed c
    | some l =>
      have hmem : l ∈ c.parts := List.mem_of_find?_eq_some hlist
      exact ((hnamed l).trans (Tree.comments_sublist_of_mem hmem)).trans
        (Tree.commentsOf_parts_sublist c)

/-- The parts of a type that a header shows are told apart by their kinds. -/
theorem headKeys_nodup {supers body : Phrase}
    (hsupers : supers = .extendsInterfaces ∨ supers = .superclass)
    (hbody : Outline.isBody body = true) :
    [none, some Phrase.typeParameters, some .formalParameters, some supers, some .superInterfaces,
      some body].Nodup := by
  rcases hsupers with rfl | rfl <;> cases body <;> first | decide | cases hbody

/-- What a header shows of a type has each comment of the type at most once: the doc comment
inside it, its declaration, and its state. -/
theorem subperm_declaration (t : Tree) {docs state : List (Nat × Nat)}
    (hdocs : docs.Subperm (Tree.commentsOf (t.parts.filter (Tree.headKey · = none))))
    (hstate : state.Subperm
      ((t.parts.find? (·.phrase?.any Outline.isBody)).elim [] Tree.comments)) :
    (docs ++ comments t.declarationFragments ++ state).Subperm t.comments := by
  obtain ⟨body, hbody, hshare⟩ : ∃ p, Outline.isBody p = true ∧
      state.Subperm (Tree.commentsOf (t.parts.filter (Tree.headKey · = some p))) := by
    cases hfind : t.parts.find? (·.phrase?.any Outline.isBody) with
    | none =>
      rw [hfind] at hstate
      exact ⟨.classBody, rfl, hstate.trans List.nil_subperm⟩
    | some b =>
      rw [hfind] at hstate
      obtain ⟨p, -, hp, hsub⟩ := Tree.comments_body_sublist hfind
      exact ⟨p, hp, hstate.trans hsub.subperm⟩
  obtain ⟨supers, hsupers, hclause⟩ : ∃ p, (p = .extendsInterfaces ∨ p = .superclass) ∧
      t.superClause? = part? p t := by
    rw [Tree.superClause?]
    split
    · exact ⟨_, .inl rfl, rfl⟩
    · exact ⟨_, .inr rfl, rfl⟩
  have hpart (p : Phrase) (hp : p ≠ .modifiers) := (Tree.comments_part_sublist (t := t) hp).subperm
  have hcomponents : (if t.typeKind = .recordType then
      (part? .formalParameters t).elim [] Tree.comments else []).Subperm
        (Tree.commentsOf (t.parts.filter (Tree.headKey · = some .formalParameters))) := by
    split
    · exact hpart _ (by decide)
    · exact List.nil_subperm
  have hsuperPart : supers ≠ .modifiers := by
    rcases hsupers with rfl | rfl <;> decide
  have hshares := Tree.subperm_shares Tree.headKey t.parts _ (headKeys_nodup hsupers hbody)
    (.cons hdocs (.cons ((comments_typeParameters_sublist t).subperm.trans (hpart _ (by decide)))
      (.cons hcomponents
        (.cons ((comments_listed_sublist (part? supers t)).subperm.trans (hpart _ hsuperPart))
          (.cons ((comments_listed_sublist (part? .superInterfaces t)).subperm.trans
            (hpart _ (by decide))) (.cons hshare .nil))))))
  refine .trans (List.Perm.subperm ?_)
    (hshares.trans (Tree.commentsOf_parts_sublist t).subperm)
  rw [comments_declarationFragments, hclause]
  simp only [List.flatten_cons, List.flatten_nil, List.append_nil, List.append_assoc]
  exact .refl _

section Chunks

variable {parts : List Tree} {chars : List Char} {c d m : Spot}

theorem comments_constantParts_sublist (t : Tree) :
    (Tree.commentsOf t.constantParts).Sublist t.comments := by
  have hname : Tree.commentsOf (identifier? t).toList = [] := by
    rw [← comments_sources]
    exact comments_identifier t
  rw [Tree.constantParts, Tree.commentsOf_append, hname, List.nil_append]
  cases harguments : part? .argumentList t with
  | none => exact List.nil_sublist _
  | some l =>
    have hmem : l ∈ t.parts := List.mem_of_find?_eq_some harguments
    rw [Option.toList_some, Tree.commentsOf_singleton]
    exact (Tree.comments_sublist_of_mem hmem).trans (Tree.commentsOf_parts_sublist t)

/-- What a header shows of the state of a type. -/
theorem comments_stateFragments (chars : List Char) (parts : List Tree) (d : Spot) :
    comments (d.stateFragments chars parts) =
      (if d.tree.typeKind = .enumType then
        Tree.commentsOf ((d.memberSpots (· = .enumConstant)).flatMap fun m => m.tree.constantParts)
      else []) ++
        Tree.commentsOf ((d.memberSpots Outline.isField).flatMap fun m =>
          Tree.docOf chars (m.before? parts) ++ [m.tree]) ++
        Tree.commentsOf ((d.memberSpots Outline.isInitializer).map tree) := by
  rw [stateFragments, comments_append, comments_append]
  refine congrArg₂ (· ++ ·) (congrArg₂ (· ++ ·) ?_ ?_) ?_
  · split
    · rw [comments_append, comments_separated, comments_words, comments_nil, List.append_nil,
        List.flatMap_map, Tree.commentsOf_flatMap]
      exact List.flatMap_congr fun m _ => comments_sources _
    · rfl
  · rw [comments_flatMap, Tree.commentsOf_flatMap]
    exact List.flatMap_congr fun m _ => comments_lineFragments _
  · rw [comments_flatMap, Tree.commentsOf_eq, List.flatMap_map]
    exact List.flatMap_congr fun m _ => List.append_nil _

/-- What a header shows of the state of a type has each comment of the body at most once. -/
theorem subperm_stateFragments (chars : List Char) (parts : List Tree) (d : Spot) :
    (comments (d.stateFragments chars parts)).Subperm
      ((d.tree.parts.find? (·.phrase?.any Outline.isBody)).elim [] Tree.comments) := by
  have hselect (test : Phrase → Bool) := select_bodyParts parts d test
  rw [comments_stateFragments]
  cases hbody : d.tree.parts.find? (·.phrase?.any Outline.isBody) with
  | none =>
    rw [hbody] at hselect
    have hnone : ∀ test, d.memberSpots test = [] := fun test =>
      List.map_eq_nil_iff.mp (hselect test).symm
    rw [hnone, hnone, hnone]
    split <;> exact List.nil_subperm
  | some b =>
    rw [hbody] at hselect
    have hselect (test : Phrase → Bool) : Outline.select test (Outline.bodyParts b) =
        (d.memberSpots test).map (withPart parts) := hselect test
    have hshares := Tree.subperm_bodyShares chars b Tree.constantParts
      comments_constantParts_sublist
    rw [hselect, hselect, hselect, List.flatMap_map, List.flatMap_map, List.map_map] at hshares
    refine .trans (List.Sublist.subperm ?_) hshares
    refine (List.Sublist.append (List.Sublist.append ?_ (.refl _)) (.refl _))
    split
    · exact .refl _
    · exact List.nil_sublist _

/-- What a chunk has of its file: the package, and the imports if it has any. -/
theorem comments_file_sublist (chars : List Char) (parts : List Tree) (imports : Bool) :
    (comments (packageFragments chars parts ++
      if imports then importFragments parts else [])).Sublist
        (Tree.commentsOf (fileTrees parts)) := by
  rw [comments_append, fileTrees, Tree.commentsOf_append]
  refine (comments_packageFragments_sublist chars parts).append ?_
  cases imports with
  | true => rw [if_pos rfl, comments_importFragments]
  | false => exact List.nil_sublist _

/-- A chunk shows a comment once, if what it shows behind its file does so and has comments of a
declaration and of what stands right before it. -/
theorem nodup_behind_file (hsolid : Tree.IsSolid parts) (hd : d.StandsIn parts)
    (hdeclares : d.Declares) {file behind : List (Nat × Nat)}
    (hfile : file.Sublist (Tree.commentsOf (fileTrees parts))) (hbehind : behind.Nodup)
    (hmem : ∀ x ∈ behind, x ∈ d.tree.comments ∨
      ∃ t ∈ Tree.docOf chars (d.before? parts), x ∈ t.comments) : (file ++ behind).Nodup := by
  refine ((fileTrees_nodup hsolid).sublist hfile).append hbehind fun x hx hx' => ?_
  rw [Tree.commentsOf_eq] at hfile
  obtain ⟨t, ht, hxt⟩ := List.mem_flatMap.mp (hfile.subset hx)
  rcases hmem x hx' with hmem | ⟨u, hu, hxu⟩
  · exact fileTree_disjoint hsolid ht hd hdeclares hxt hmem
  · have hcomment := Tree.isComment_of_mem_docOf hu
    have hbefore := Option.mem_toList.mp hu
    obtain ⟨hbefore, -⟩ := Option.filter_eq_some_iff.mp hbefore
    obtain ⟨c, hc, hright, rfl⟩ := hd.before?_eq_some_iff.mp hbefore
    exact fileTree_disjoint_before hsolid ht hc hd hdeclares hcomment hright hxt hxu

/-- The doc comment of a type, its declaration and its state. -/
theorem nodup_type (chars : List Char) (hsolid : Tree.IsSolid parts) (hd : d.StandsIn parts) :
    let shown := Tree.commentsOf (d.tree.typeDocs chars (d.before? parts)) ++
      comments d.tree.declarationFragments ++ comments (d.stateFragments chars parts)
    shown.Nodup ∧ ∀ x ∈ shown, x ∈ d.tree.comments ∨
      ∃ t ∈ Tree.docOf chars (d.before? parts), x ∈ t.comments := by
  have hnodup := hd.comments_nodup hsolid
  have hstate := subperm_stateFragments chars parts d
  rw [Tree.typeDocs, Tree.docOf]
  cases hbefore : (d.before? parts).filter (isDoc chars) with
  | none =>
    have hdocs : (Tree.commentsOf
        ((beforeName d.tree).filter (isDoc chars)).getLast?.toList).Subperm
            (Tree.commentsOf (d.tree.parts.filter (Tree.headKey · = none))) := by
      cases hlast : ((beforeName d.tree).filter (isDoc chars)).getLast? with
      | none => exact List.nil_subperm
      | some t =>
        obtain ⟨hmem, hdoc⟩ := List.mem_filter.mp (List.mem_of_getLast? hlast)
        rw [Option.toList_some, Tree.commentsOf_singleton]
        exact (Tree.comments_beforeName_sublist hmem (Bool.and_eq_true_iff.mp hdoc).1).subperm
    have hshown := subperm_declaration d.tree hdocs hstate
    exact ⟨Tree.nodup_of_subperm hshown hnodup, fun x hx => .inl (hshown.subset hx)⟩
  | some t =>
    obtain ⟨hbefore, hdoc⟩ := Option.filter_eq_some_iff.mp hbefore
    obtain ⟨c, hc, hright, rfl⟩ := hd.before?_eq_some_iff.mp hbefore
    have hshown := subperm_declaration d.tree List.nil_subperm hstate
    rw [List.nil_append] at hshown
    rw [Option.some_or, Option.toList_some, Tree.commentsOf_singleton, List.append_assoc]
    refine ⟨(hc.comments_nodup hsolid).append (Tree.nodup_of_subperm hshown hnodup) ?_, ?_⟩
    · exact fun x hx hx' => comments_disjoint_before hsolid hc hd hright hx (hshown.subset hx')
    · intro x hx
      rcases List.mem_append.mp hx with hx | hx
      · exact .inr ⟨c.tree, List.mem_singleton_self _, hx⟩
      · exact .inl (hshown.subset hx)

/-- A header shows a comment once. -/
theorem headerFragments_nodup (hsolid : Tree.IsSolid parts) (hd : d.StandsIn parts)
    (htype : d.tree.isType = true) : (comments (d.headerFragments chars parts)).Nodup := by
  have hfile := comments_file_sublist chars parts true
  obtain ⟨hnodup, hmem⟩ := nodup_type chars hsolid hd
  have hall := nodup_behind_file hsolid hd (declares_of_isType htype) hfile hnodup hmem
  rw [headerFragments]
  simp only [comments_append, comments_words, comments_nil, comments_nameFragments,
    comments_lineFragments, List.append_nil, List.nil_append, List.append_assoc, if_pos] at hall ⊢
  exact hall

/-- The doc comment of a member, and the member. -/
theorem nodup_member (chars : List Char) (hsolid : Tree.IsSolid parts) (hm : m.StandsIn parts) :
    (Tree.commentsOf (Tree.docOf chars (m.before? parts)) ++ m.tree.comments).Nodup := by
  rw [Tree.docOf]
  cases hbefore : (m.before? parts).filter (isDoc chars) with
  | none => exact hm.comments_nodup hsolid
  | some t =>
    obtain ⟨hbefore, -⟩ := Option.filter_eq_some_iff.mp hbefore
    obtain ⟨c, hc, hright, rfl⟩ := hm.before?_eq_some_iff.mp hbefore
    rw [Option.toList_some, Tree.commentsOf_singleton]
    exact (hc.comments_nodup hsolid).append (hm.comments_nodup hsolid)
      (comments_disjoint_before hsolid hc hm hright)

/-- The chunk of a member shows a comment once. -/
theorem memberFragments_nodup (hsolid : Tree.IsSolid parts) (o : ChunkOptions)
    (hm : m.StandsIn parts) (hdeclares : m.Declares) :
    (comments (d.memberFragments o chars parts m)).Nodup := by
  have hfile := comments_file_sublist chars parts o.memberImports
  have hshown : ((if o.memberDocs then Tree.commentsOf (Tree.docOf chars (m.before? parts)) else
      []) ++ m.tree.comments).Sublist
        (Tree.commentsOf (Tree.docOf chars (m.before? parts)) ++ m.tree.comments) := by
    refine List.Sublist.append ?_ (.refl _)
    split
    · exact .refl _
    · exact List.nil_sublist _
  have hmem : ∀ x ∈ (if o.memberDocs then Tree.commentsOf (Tree.docOf chars (m.before? parts)) else
      []) ++ m.tree.comments, x ∈ m.tree.comments ∨
        ∃ t ∈ Tree.docOf chars (m.before? parts), x ∈ t.comments := by
    intro x hx
    rcases List.mem_append.mp (hshown.subset hx) with hx | hx
    · rw [Tree.commentsOf_eq] at hx
      exact .inr (List.mem_flatMap.mp hx)
    · exact .inl hx
  have hall := nodup_behind_file hsolid hm hdeclares hfile
    ((nodup_member chars hsolid hm).sublist hshown) hmem
  rw [memberFragments]
  have hdocs : comments (if o.memberDocs then lineFragments (Tree.docOf chars (m.before? parts))
      else []) =
        if o.memberDocs then Tree.commentsOf (Tree.docOf chars (m.before? parts)) else [] := by
    split
    · exact comments_lineFragments _
    · rfl
  simp only [comments_append, comments_words, comments_nil, comments_nameFragments,
    comments_lineFragments, Tree.commentsOf_singleton, hdocs, List.append_nil, List.nil_append,
    List.append_assoc] at hall ⊢
  exact hall

end Chunks

end SourceShelf.Java
