import SourceShelf.Proofs.Chunk.Stream
import SourceShelf.Proofs.Java.Shares

/-!
# What a chunk shows of its text

A chunk is made of words of its own and of texts of trees (`Fragment`).
`Spot.headerFragments` and `Spot.memberFragments` list the fragments of a header and of a
member, so they say which trees of the text a chunk shows, and in which order.

* `render_headerFragments`, `render_memberFragments`: the fragments make up the chunks.
* `texts_of_parse`: the chunks of all types of a unit.
-/

namespace SourceShelf.Java

open Outline (textOf isDoc identifier? part? namedParts beforeName)

/-! ## Fragments -/

/-- A piece of a chunk: words of the chunk, the text of a tree, or this text without blanks. -/
inductive Fragment where
  | words (s : String)
  | source (t : Tree)
  | unspaced (t : Tree)

namespace Fragment

def text (chars : List Char) : Fragment → String
  | words s => s
  | source t => textOf chars t
  | unspaced t => removeBlanks (textOf chars t)

/-- The tree that a fragment shows. -/
def trees : Fragment → List Tree
  | words _ => []
  | source t => [t]
  | unspaced t => [t]

/-- The text that some fragments make up. -/
def render (chars : List Char) (fs : List Fragment) : String := String.join (fs.map (text chars))

/-- Where the comments are that some fragments show, once for each time. -/
def comments (fs : List Fragment) : List (Nat × Nat) := Tree.commentsOf (fs.flatMap trees)

/-- Fragments with words between. -/
def separated (words : String) (items : List (List Fragment)) : List Fragment :=
  [Fragment.words words].intercalate items

section Lemmas

variable {chars : List Char}

@[simp] theorem text_words (s : String) : (words s).text chars = s := rfl

@[simp] theorem text_source (t : Tree) : (source t).text chars = textOf chars t := rfl

@[simp] theorem text_unspaced (t : Tree) :
    (unspaced t).text chars = removeBlanks (textOf chars t) := rfl

@[simp] theorem render_nil : render chars [] = "" := rfl

@[simp] theorem render_cons (f : Fragment) (fs : List Fragment) :
    render chars (f :: fs) = f.text chars ++ render chars fs := by
  rw [render, List.map_cons, String.join_cons]
  rfl

@[simp] theorem render_append (fs gs : List Fragment) :
    render chars (fs ++ gs) = render chars fs ++ render chars gs := by
  rw [render, List.map_append, String.join_append]
  rfl

theorem render_flatMap {α : Type} (l : List α) (f : α → List Fragment) :
    render chars (l.flatMap f) = String.join (l.map fun x => render chars (f x)) := by
  induction l with
  | nil => rfl
  | cons x l ih => rw [List.flatMap_cons, render_append, ih, List.map_cons, String.join_cons]

theorem render_separated (s : String) (items : List (List Fragment)) :
    render chars (separated s items) = s.intercalate (items.map (render chars)) := by
  induction items with
  | nil => rfl
  | cons fs items ih =>
    cases items with
    | nil => simp [separated, List.intercalate]
    | cons gs items =>
      rw [separated, List.intercalate_cons_cons, List.map_cons, List.map_cons,
        String.intercalate_cons_cons, ← List.map_cons, ← ih, render_append, render_append,
        render_cons, render_nil, String.append_empty]
      rfl

@[simp] theorem comments_nil : comments [] = [] := rfl

@[simp] theorem comments_words (s : String) (fs : List Fragment) :
    comments (words s :: fs) = comments fs := rfl

@[simp] theorem comments_source (t : Tree) (fs : List Fragment) :
    comments (source t :: fs) = t.comments ++ comments fs := rfl

@[simp] theorem comments_append (fs gs : List Fragment) :
    comments (fs ++ gs) = comments fs ++ comments gs := by
  rw [comments, List.flatMap_append, Tree.commentsOf_append]
  rfl

theorem comments_flatMap {α : Type} (l : List α) (f : α → List Fragment) :
    comments (l.flatMap f) = l.flatMap fun x => comments (f x) := by
  induction l with
  | nil => rfl
  | cons x l ih => rw [List.flatMap_cons, comments_append, ih, List.flatMap_cons]

theorem comments_separated (s : String) (items : List (List Fragment)) :
    comments (separated s items) = items.flatMap comments := by
  induction items with
  | nil => rfl
  | cons fs items ih =>
    cases items with
    | nil => simp [separated, List.intercalate]
    | cons gs items =>
      rw [separated, List.intercalate_cons_cons, comments_append, comments_append, comments_words,
        comments_nil, List.append_nil, List.flatMap_cons, ← ih]
      rfl

end Lemmas

end Fragment

open Fragment

/-! ## The fragments of a chunk -/

/-- The name of the last package declaration that has one. -/
def packageName? (parts : List Tree) : Option Tree :=
  ((parts.filter (·.isPhrase .packageDeclaration)).filterMap Outline.dottedName?).getLast?

/-- The package declaration. -/
def packageFragments (chars : List Char) (parts : List Tree) : List Fragment :=
  match packageName? parts with
  | none => []
  | some n =>
    if (removeBlanks (textOf chars n)).isEmpty then []
    else [words "package ", unspaced n, words ";\n\n"]

/-- Trees on lines of their own. -/
def lineFragments (ts : List Tree) : List Fragment := ts.flatMap fun t => [source t, words "\n"]

/-- The imports. -/
def importFragments (parts : List Tree) : List Fragment :=
  let imports := parts.filter (·.isPhrase .importDeclaration)
  if imports.isEmpty then [] else lineFragments imports ++ [words "\n"]

/-- Some trees behind an opening, with commas between, if there are any. -/
def listedFragments (opening closing : String) (ts : List Tree) : List Fragment :=
  if ts.isEmpty then []
  else words opening :: (separated ", " (ts.map fun t => [source t]) ++ [words closing])

namespace Tree

/-- The modifiers of a type without its annotations and comments. -/
def keywords (t : Tree) : List Tree :=
  (((part? .modifiers t).map parts).getD []).filter (!·.isNamed)

def typeParameters (t : Tree) : List Tree :=
  (((part? .typeParameters t).map parts).getD []).filter (·.isPhrase .typeParameter)

/-- The types that a clause lists. -/
def listed (clause : Option Tree) : List Tree :=
  clause.elim [] fun c => namedParts ((part? .typeList c).getD c)

/-- The clause of the types that a type extends. -/
def superClause? (t : Tree) : Option Tree :=
  part? (if t.typeKind = .interfaceType then .extendsInterfaces else .superclass) t

/-- What a chunk shows of a constant of an enum. -/
def constantParts (t : Tree) : List Tree := (identifier? t).toList ++ (part? .argumentList t).toList

/-- The doc comment of a type. -/
def typeDocs (chars : List Char) (before : Option Tree) (t : Tree) : List Tree :=
  ((before.filter (isDoc chars)).or ((beforeName t).filter (isDoc chars)).getLast?).toList

/-- The declaration of a type up to its body. -/
def declarationFragments (t : Tree) : List Fragment :=
  (t.keywords.flatMap fun k => [source k, words " "]) ++
    [words t.typeKind.keyword, words " "] ++ (identifier? t).toList.map source ++
    listedFragments "<" ">" t.typeParameters ++
    (if t.typeKind = .recordType then
      (part? .formalParameters t).elim [words "()"] fun p => [source p]
    else []) ++
    listedFragments " extends " "" (listed t.superClause?) ++
    listedFragments " implements " "" (listed (part? .superInterfaces t))

end Tree

namespace Spot

/-- The names of the types around a type and its own. -/
def nameFragments (d : Spot) : List Fragment :=
  separated "." ((d :: d.enclosers).reverse.map fun e => (identifier? e.tree).toList.map source)

/-- The constants, the fields and the initializers of a type. -/
def stateFragments (chars : List Char) (parts : List Tree) (d : Spot) : List Fragment :=
  (if d.tree.typeKind = .enumType then
    separated ", " ((d.memberSpots (· = .enumConstant)).map fun m =>
      m.tree.constantParts.map source) ++ [words ";\n"]
  else []) ++
    ((d.memberSpots Outline.isField).flatMap fun m =>
      lineFragments (Tree.docOf chars (m.before? parts) ++ [m.tree])) ++
    (d.memberSpots Outline.isInitializer).flatMap fun m => lineFragments [m.tree]

/-- What the header chunk of a type is made of. -/
def headerFragments (chars : List Char) (parts : List Tree) (d : Spot) : List Fragment :=
  packageFragments chars parts ++ importFragments parts ++
    lineFragments (d.tree.typeDocs chars (d.before? parts)) ++
    (words "// enclosing: " :: (d.nameFragments ++ [words "\n"])) ++
    (d.tree.declarationFragments ++ [words " \x7b\n\n"]) ++
    d.stateFragments chars parts ++ [words "\x7d\n"]

/-- What the chunk of a member of a type is made of. -/
def memberFragments (o : ChunkOptions) (chars : List Char) (parts : List Tree) (d m : Spot) :
    List Fragment :=
  packageFragments chars parts ++ (if o.memberImports then importFragments parts else []) ++
    (words "class " :: (d.nameFragments ++ [words " \x7b\n\n"])) ++
    (if o.memberDocs then lineFragments (Tree.docOf chars (m.before? parts)) else []) ++
    lineFragments [m.tree] ++ [words "\x7d\n"]

/-- What the chunks of a type are made of, the methods before the constructors. -/
def chunkFragments (o : ChunkOptions) (chars : List Char) (parts : List Tree) (d : Spot) :
    List (List Fragment) :=
  d.headerFragments chars parts ::
    ((d.memberSpots (· = .methodDeclaration)).map (d.memberFragments o chars parts) ++
      (d.memberSpots Outline.isConstructor).map (d.memberFragments o chars parts))

end Spot

/-! ## The fragments make up the chunks -/

section Rendering

variable {locals : Bool} {text : String} {path : Option String} {parts : List Tree}
  {chars : List Char}

theorem render_lineFragments (ts : List Tree) :
    render chars (lineFragments ts) = String.join (ts.map fun t => textOf chars t ++ "\n") := by
  rw [lineFragments, render_flatMap]
  simp only [render_cons, render_nil, text_source, text_words, String.append_empty]

theorem render_sources (ts : List Tree) :
    (ts.map fun t => [source t]).map (render chars) = ts.map (textOf chars) := by
  rw [List.map_map]
  refine List.map_congr_left fun t _ => ?_
  rw [Function.comp_apply, render_cons, render_nil, String.append_empty]
  rfl

theorem render_listedFragments (opening closing : String) (ts : List Tree) :
    render chars (listedFragments opening closing ts) =
      if (ts.map (textOf chars)).isEmpty then ""
      else opening ++ listed (ts.map (textOf chars)) ++ closing := by
  rw [listedFragments, List.isEmpty_map]
  split
  · rfl
  · rw [render_cons, render_append, render_separated, render_sources, render_cons, render_nil,
      String.append_empty, String.append_assoc]
    rfl

theorem render_packageFragments :
    render text.toList (packageFragments text.toList parts) =
      (Outline.unit locals text path parts).packageBlock := by
  have hpackage : (Outline.unit locals text path parts).package =
      (packageName? parts).elim "" fun n => removeBlanks (textOf text.toList n) := rfl
  cases hname : packageName? parts with
  | none =>
    rw [hname, Option.elim_none] at hpackage
    rw [CompilationUnit.packageBlock, hpackage, packageFragments, hname]
    rfl
  | some n =>
    rw [hname, Option.elim_some] at hpackage
    rw [CompilationUnit.packageBlock, hpackage, packageFragments, hname]
    dsimp only
    by_cases hempty : (removeBlanks (textOf text.toList n)).isEmpty = true
    · rw [if_pos hempty, if_pos hempty, render_nil]
    · rw [if_neg hempty, if_neg hempty]
      simp only [render_cons, render_nil, text_words, text_unspaced, String.append_empty,
        String.append_assoc]

theorem render_importFragments :
    render text.toList (importFragments parts) =
      (Outline.unit locals text path parts).importBlock := by
  have himports : (Outline.unit locals text path parts).imports =
      (parts.filter (·.isPhrase .importDeclaration)).map (Outline.importOf text.toList) := rfl
  rw [CompilationUnit.importBlock, himports, List.isEmpty_map, importFragments]
  by_cases hempty : (parts.filter (·.isPhrase .importDeclaration)).isEmpty = true
  · rw [if_pos hempty, if_pos hempty, render_nil]
  · rw [if_neg hempty, if_neg hempty, render_append, render_lineFragments, render_cons,
      render_nil, String.append_empty, List.map_map]
    rfl

theorem docBlock_eq {doc : Option Tree}
    (hne : ∀ t, doc = some t → (textOf chars t).isEmpty = false) :
    docBlock (doc.map (textOf chars)) = render chars (lineFragments doc.toList) := by
  cases doc with
  | none => rfl
  | some t =>
    rw [Option.map_some, docBlock, hne t rfl, if_neg Bool.false_ne_true, Option.toList_some,
      render_lineFragments, List.map_singleton, String.join_cons]
    exact (String.append_empty).symm

/-- The text of a doc comment is not empty. -/
theorem Spot.StandsIn.textOf_isEmpty (hsolid : Tree.IsSolid parts) {c : Spot}
    (hc : c.StandsIn parts) (hdoc : isDoc chars c.tree = true) :
    (textOf chars c.tree).isEmpty = false := by
  obtain ⟨w, a, b, hleaf, -⟩ := hc.leaf_of_isDoc hsolid.toIsSound hdoc
  have hforward := hc.lt_of_leaf hsolid hleaf
  have hprefix : "/**".toList <+: chars.drop a := by
    rw [hleaf] at hdoc
    exact List.isPrefixOf_iff_prefix.mp (Bool.and_eq_true_iff.mp hdoc).2
  have hne : ((chars.drop a).take (b - a)) ≠ [] := by
    obtain ⟨rest, hrest⟩ := hprefix
    rw [← hrest, ← Nat.succ_pred_eq_of_pos (Nat.sub_pos_of_lt hforward)]
    exact List.cons_ne_nil _ _
  rw [hleaf, textOf, Outline.slice, Bool.eq_false_iff]
  intro hempty
  have hnil := congrArg String.toList (String.isEmpty_iff.mp hempty)
  rw [String.toList_ofList] at hnil
  exact hne hnil

/-- The doc comment that a unit has of a declaration, on a line of its own. -/
theorem docBlock_of_hasDoc (hsolid : Tree.IsSolid parts) {d : Spot} {doc : Option Tree}
    (h : d.HasDoc chars parts (doc.map (textOf chars))) :
    docBlock (doc.map (textOf chars)) = render chars (lineFragments doc.toList) := by
  refine docBlock_eq fun t ht => ?_
  obtain ⟨c, hdocuments, htext⟩ := (h (textOf chars t)).mp (by rw [ht, Option.map_some])
  rw [← htext]
  exact hdocuments.comment.textOf_isEmpty hsolid hdocuments.isDoc

theorem render_nameFragments (d : Spot) :
    render chars d.nameFragments = ".".intercalate (d.names chars) := by
  rw [Spot.nameFragments, render_separated, List.map_map, Spot.names]
  congr 1
  refine List.map_congr_left fun e _ => ?_
  rw [Function.comp_apply, Spot.name]
  cases identifier? e.tree with
  | none => rfl
  | some n =>
    simp only [Option.toList_some, List.map_singleton, render_cons, render_nil, text_source,
      String.append_empty, Option.elim_some]

theorem map_textOf_listed (clause : Option Tree) :
    Outline.listedTypes chars clause = (Tree.listed clause).map (textOf chars) := by
  cases clause <;> rfl

/-- The declaration of a type is made of its parts. -/
theorem render_declarationFragments {i : Nat} {nested : List Nat} {site : Outline.Site}
    (hkind : site.kind = site.tree.typeKind) :
    render chars site.tree.declarationFragments =
      (Outline.typeOf chars i nested site).declarationLine := by
  have hmodifiers : (Outline.typeOf chars i nested site).modifiers =
      site.tree.keywords.map (textOf chars) := rfl
  have hname : (Outline.typeOf chars i nested site).name =
      render chars ((identifier? site.tree).toList.map source) := by
    show (identifier? site.tree).elim "" (textOf chars) = _
    cases identifier? site.tree <;> simp
  have hparameters : (Outline.typeOf chars i nested site).typeParameters =
      site.tree.typeParameters.map (textOf chars) := rfl
  have hcomponents : (Outline.typeOf chars i nested site).recordComponents.getD "" =
      render chars (if site.tree.typeKind = .recordType then
        (part? .formalParameters site.tree).elim [words "()"] fun p => [source p]
      else []) := by
    show Option.getD (if site.kind = .recordType then
      some ((part? .formalParameters site.tree).elim "()" (textOf chars)) else none) "" = _
    rw [hkind]
    split
    · cases part? .formalParameters site.tree <;> simp
    · rfl
  have hsupers : (Outline.typeOf chars i nested site).supertypes =
      (Tree.listed site.tree.superClause?).map (textOf chars) := by
    rw [← map_textOf_listed, Tree.superClause?, ← hkind]
    rfl
  have hinterfaces : (Outline.typeOf chars i nested site).interfaces =
      (Tree.listed (part? .superInterfaces site.tree)).map (textOf chars) := map_textOf_listed _
  have hkeyword : (Outline.typeOf chars i nested site).kind = site.tree.typeKind := hkind
  rw [TypeDeclaration.declarationLine, hmodifiers, hname, hparameters, hcomponents, hsupers,
    hinterfaces, hkeyword, Tree.declarationFragments]
  simp only [render_append, render_listedFragments, render_flatMap, render_cons, render_nil,
    text_source, text_words, String.append_empty, List.map_map, String.append_assoc]
  rfl

/-! ## The chunks of a unit -/

theorem render_constantParts (t : Tree) :
    render chars (t.constantParts.map source) = Outline.enumConstantOf chars t := by
  rw [Tree.constantParts, Outline.enumConstantOf]
  cases identifier? t <;> cases part? .argumentList t <;> simp

theorem render_field (before : Option Tree) (t : Tree) :
    render chars (lineFragments (Tree.docOf chars before ++ [t])) =
      Outline.fieldOf chars before t ++ "\n" := by
  rw [render_lineFragments, Tree.docOf, Outline.fieldOf, Outline.docBefore]
  cases before.filter (isDoc chars) with
  | none =>
    simp only [Option.toList_none, List.nil_append, List.map_singleton, String.join_cons,
      Option.map_none]
    exact String.append_empty
  | some c =>
    simp only [Option.toList_some, List.singleton_append, List.map_cons, List.map_nil,
      String.join_cons, Option.map_some, String.append_assoc]
    rw [String.join_nil, String.append_empty]

/-- The constants, the fields and the initializers of a type. -/
theorem render_stateFragments {i : Nat} {nested : List Nat} {site : Outline.Site} {d : Spot}
    (htree : site.tree = d.tree) (hkind : site.kind = d.tree.typeKind) {t : TypeDeclaration}
    (ht : t = Outline.typeOf chars i nested site) :
    render chars (d.stateFragments chars parts) =
      (if t.kind = .enumType then listed t.enumConstants ++ ";\n" else "") ++
        String.join (t.fields.map (· ++ "\n")) ++ String.join (t.initializers.map (· ++ "\n")) := by
  have hselect (test : Phrase → Bool) := Spot.select_bodyParts parts d test
  have hconstants : t.enumConstants = (d.memberSpots (· = .enumConstant)).map fun m =>
      Outline.enumConstantOf chars m.tree := by
    rw [ht]
    show (Outline.select _ _).map _ = _
    rw [htree, hselect, List.map_map]
    rfl
  have hfields : t.fields = (d.memberSpots Outline.isField).map fun m =>
      Outline.fieldOf chars (m.before? parts) m.tree := by
    rw [ht]
    show (Outline.select _ _).map _ = _
    rw [htree, hselect, List.map_map]
    rfl
  have hinitializers : t.initializers = (d.memberSpots Outline.isInitializer).map fun m =>
      textOf chars m.tree := by
    rw [ht]
    show (Outline.select _ _).map _ = _
    rw [htree, hselect, List.map_map]
    rfl
  have hkeyword : t.kind = d.tree.typeKind := by
    rw [ht]
    exact hkind
  rw [Spot.stateFragments, hconstants, hfields, hinitializers, hkeyword, render_append,
    render_append, render_flatMap, render_flatMap, List.map_map, List.map_map]
  have hlist : (d.memberSpots (· = .enumConstant)).map (render chars ∘ fun m =>
      m.tree.constantParts.map source) = (d.memberSpots (· = .enumConstant)).map fun m =>
        Outline.enumConstantOf chars m.tree :=
    List.map_congr_left fun m _ => render_constantParts m.tree
  have hlines : ∀ m : Spot,
      render chars (lineFragments [m.tree]) = textOf chars m.tree ++ "\n" := by
    intro m
    rw [render_lineFragments, List.map_singleton, String.join_cons]
    exact String.append_empty
  refine congrArg₂ (· ++ ·) (congrArg₂ (· ++ ·) ?_ ?_) ?_
  · split
    · rw [render_append, render_separated, List.map_map, hlist, render_cons, render_nil,
        String.append_empty]
      rfl
    · rfl
  · simp only [render_field]
    rfl
  · simp only [hlines]
    rfl

/-- The header chunk of a type is made of its fragments. -/
theorem render_headerFragments (hsolid : Tree.IsSolid parts) {t : TypeDeclaration} {d : Spot}
    (h : IsMadeOf text parts t d) :
    render text.toList (d.headerFragments text.toList parts) =
      headerText (Outline.unit locals text path parts) t
        (".".intercalate (d.names text.toList)) := by
  obtain ⟨i, nested, site, ht, htree, hbefore, hkind⟩ := h.typeOf
  have hdoc : docBlock t.doc =
      render text.toList (lineFragments (d.tree.typeDocs text.toList (d.before? parts))) := by
    have htypeDoc : t.doc = (((d.before? parts).filter (isDoc text.toList)).or
        ((beforeName d.tree).filter (isDoc text.toList)).getLast?).map (textOf text.toList) := by
      rw [ht, Option.map_or, ← htree, ← hbefore]
      rfl
    have hdocuments : d.HasDoc text.toList parts
        (Outline.typeDoc text.toList (d.before? parts) d.tree) :=
      h.stands.typeDoc_hasDoc hsolid h.isType
    rw [Outline.typeDoc, Outline.docBefore, ← Option.map_or] at hdocuments
    rw [htypeDoc, Tree.typeDocs]
    exact docBlock_of_hasDoc hsolid hdocuments
  have hline : t.declarationLine = render text.toList d.tree.declarationFragments := by
    rw [ht, ← render_declarationFragments (htree ▸ hkind), htree]
  rw [headerText, hdoc, hline, Spot.headerFragments]
  simp only [render_append, render_cons, render_nil, text_words, render_nameFragments,
    render_stateFragments htree hkind ht, String.append_empty, String.append_assoc]
  rw [render_packageFragments, render_importFragments]

/-- The chunk of a member is made of its fragments. -/
theorem render_memberFragments (hsolid : Tree.IsSolid parts) (o : ChunkOptions) {d m : Spot}
    (hm : m.StandsIn parts) (htype : m.tree.isType = false) {x : MemberDeclaration}
    (htext : x.text = textOf text.toList m.tree)
    (hdoc : x.doc = Outline.docBefore text.toList (m.before? parts)) :
    render text.toList (d.memberFragments o text.toList parts m) =
      memberText o (Outline.unit locals text path parts) (".".intercalate (d.names text.toList))
        x := by
  have hblock : docBlock x.doc =
      render text.toList (lineFragments (Tree.docOf text.toList (m.before? parts))) := by
    have hdocuments : m.HasDoc text.toList parts
        (Outline.docBefore text.toList (m.before? parts)) := hm.docBefore_hasDoc htype
    rw [hdoc]
    rw [Outline.docBefore] at hdocuments ⊢
    exact docBlock_of_hasDoc hsolid hdocuments
  have hline : render text.toList (lineFragments [m.tree]) = x.text ++ "\n" := by
    rw [render_lineFragments, List.map_singleton, String.join_cons, htext]
    exact String.append_empty
  rw [memberText, hblock, Spot.memberFragments]
  simp only [render_append, render_cons, render_nil, text_words, render_nameFragments, hline,
    String.append_empty, String.append_assoc]
  rw [← render_packageFragments, ← render_importFragments]
  cases o.memberImports <;> cases o.memberDocs <;> rfl

/-- The chunks of selected members of a type are made of their fragments. -/
theorem render_selected (hsolid : Tree.IsSolid parts) (o : ChunkOptions) {t : TypeDeclaration}
    {d : Spot} (h : IsMadeOf text parts t d) {test : Phrase → Bool}
    (htest : ∀ p, test p = true → Spot.isDeclared p = true) (kind : MemberKind) (owner : Nat)
    (chunkKind : ChunkKind) :
    let u := Outline.unit locals text path parts
    (((((Outline.select test (((d.tree.parts.find? (·.phrase?.any Outline.isBody)).map
        Outline.bodyParts).getD [])).map fun m =>
          Outline.memberOf text.toList kind owner m.1 m.2)).map
      (memberChunk o u (".".intercalate (d.names text.toList)) chunkKind)).map Chunk.text) =
    ((d.memberSpots test).map (d.memberFragments o text.toList parts)).map
      (render text.toList) := by
  intro u
  rw [Spot.select_bodyParts parts, List.map_map, List.map_map, List.map_map, List.map_map]
  refine List.map_congr_left fun m hm => ?_
  exact (render_memberFragments hsolid o (h.stands.of_mem_memberSpots hm)
    (Spot.isType_of_mem_memberSpots htest hm) rfl rfl).symm

/-- The chunks of a type are made of its fragments. -/
theorem texts_of_type (hsolid : Tree.IsSolid parts) (o : ChunkOptions) {i : Nat}
    {t : TypeDeclaration} {d : Spot}
    (ht : (Outline.unit locals text path parts).types[i]? = some t)
    (hd : (typeSpots locals parts)[i]? = some d) :
    (chunksOf o (Outline.unit locals text path parts) t).map Chunk.text =
      (d.chunkFragments o text.toList parts).map (render text.toList) := by
  have hmade := Outline.isMadeOf_of_unit hsolid.toIsSound ht hd
  have hname : (Outline.unit locals text path parts).qualifiedName t =
      .ok (".".intercalate (d.names text.toList)) :=
    (Outline.wellFormed_of_sound hsolid.toIsSound).qualifiedName i t d ht hd
  obtain ⟨j, nested, site, hof, htree, -, -⟩ := hmade.typeOf
  rw [chunksOf, typeChunks, hname]
  show headerText _ t _ :: List.map _ (_ ++ _) = _ :: List.map _ (_ ++ _)
  rw [List.map_append, List.map_append, render_headerFragments hsolid hmade]
  refine congrArg₂ _ rfl (congrArg₂ (· ++ ·) ?_ ?_)
  · rw [← render_selected hsolid o hmade (fun p => (Spot.declared_tests p).2.1) .method j .method,
      ← htree, hof]
    rfl
  · rw [← render_selected hsolid o hmade (fun p => (Spot.declared_tests p).2.2) .constructor j
      .constructor, ← htree, hof]
    rfl

end Rendering

/-- The chunks of a unit that was read from a text are made of fragments. -/
theorem texts_of_parse {text : String} {path : Option String} {locals : Bool} {u : CompilationUnit}
    (h : parse text path locals = .ok u) (o : ChunkOptions) :
    (u.chunks o).chunks.map Chunk.text =
      ((typeSpots locals (SyntaxTree.ofText text).parts).flatMap fun d =>
        d.chunkFragments o text.toList (SyntaxTree.ofText text).parts).map
          (render text.toList) := by
  have hchunks := chunks_eq_of_parse h o
  obtain ⟨hfault, rfl⟩ := SyntaxTree.read_ok h
  have htypes : List.Forall₂ (fun t (d : Spot) =>
      (chunksOf o (Outline.unit locals text path (SyntaxTree.ofText text).parts) t).map Chunk.text =
        (d.chunkFragments o text.toList (SyntaxTree.ofText text).parts).map (render text.toList))
      (Outline.unit locals text path (SyntaxTree.ofText text).parts).types
      (typeSpots locals (SyntaxTree.ofText text).parts) :=
    Outline.forall₂_types fun _ _ _ => texts_of_type (SyntaxTree.isSolid hfault) o
  rw [hchunks, List.map_flatMap, List.map_flatMap]
  refine List.forall₂_eq_eq_eq.le _ _ (List.rel_flatMap htypes fun t d htexts => ?_)
  rw [htexts]
  exact List.forall₂_refl _

end SourceShelf.Java
