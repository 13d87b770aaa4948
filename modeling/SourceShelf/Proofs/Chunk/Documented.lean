import SourceShelf.Proofs.Chunk.DocComments
import SourceShelf.Proofs.Java.Ladders

/-!
# Doc comments of a unit

A unit has of each declaration the doc comment that documents it.  No comment documents two
declarations, and no chunk shows one twice: `comment_documents_once`.

A doc comment of a type may stand inside it, before its name and outside annotations.  The
text `annotatedText` has two of them, the second inside an annotation; though it is not among
the arguments of this annotation, it is passed over (`doc_in_annotation_passed_over`).
-/

namespace SourceShelf.Java

open Fragment Spot
open Outline (textOf)

/-! ## A comment inside an annotation -/

/-- A class with a doc comment between its annotations, and one inside the second of them. -/
def annotatedText : String := "class X\x7b@A/** d1 */@/** d2 */B class C\x7b\x7d\x7d"

/-- The annotation with a comment in it. -/
def commentedMark : Tree :=
  .node .annotationMarker [.leaf .at 19 20, .leaf .blockComment 20 29, .leaf .identifier 29 30]

def annotatedModifiers : Tree :=
  .node .modifiers [.node .annotationMarker [.leaf .at 8 9, .leaf .identifier 9 10],
    .leaf .blockComment 10 19, commentedMark]

def annotatedClass : Tree :=
  .node .classDeclaration [annotatedModifiers, .leaf .classWord 31 36, .leaf .identifier 37 38,
    .node .classBody [.leaf .braceOpen 38 39, .leaf .braceClose 39 40]]

def annotatedBody : Tree :=
  .node .classBody [.leaf .braceOpen 7 8, annotatedClass, .leaf .braceClose 40 41]

def annotatedParts : List Tree :=
  [.node .classDeclaration [.leaf .classWord 0 5, .leaf .identifier 6 7, annotatedBody]]

set_option maxRecDepth 100000 in
theorem read_annotated : Ladder.read? annotatedText = some annotatedParts := by rfl

theorem laidOut_annotated :
    Java.laidOut 0 annotatedText.length (Tree.leavesOf annotatedParts) = true := by
  decide +kernel

theorem parts_annotated : (SyntaxTree.ofText annotatedText).parts = annotatedParts :=
  Ladder.parts_of_read? read_annotated laidOut_annotated

theorem parse_annotated :
    parse annotatedText none true = .ok (Outline.unit true annotatedText none annotatedParts) :=
  Ladder.parse_of_read? read_annotated laidOut_annotated rfl

/-- The class that stands in the body of the other one. -/
def annotatedSpot : Spot :=
  ((⟨.node .classDeclaration [.leaf .classWord 0 5, .leaf .identifier 6 7, annotatedBody], 0, []⟩ :
    Spot).part 2 annotatedBody).part 1 annotatedClass

/-- The annotation with a comment in it, among the modifiers of the class. -/
def markSpot : Spot := (annotatedSpot.part 0 annotatedModifiers).part 2 commentedMark

/-- The comment inside the annotation. -/
def commentSpot : Spot := markSpot.part 1 (.leaf .blockComment 20 29)

theorem annotatedSpot_standsIn : annotatedSpot.StandsIn annotatedParts :=
  .part (.part (.top rfl) rfl) rfl

theorem commentSpot_standsIn : commentSpot.StandsIn annotatedParts :=
  .part (.part (.part annotatedSpot_standsIn rfl) rfl) rfl

/-- The comment inside the annotation is outside lists of arguments. -/
theorem commentSpot_inHead : commentSpot.InHead (· = .annotationArgumentList) annotatedSpot where
  inside := ((isInside_part _ _ _).trans (isInside_part _ _ _)).trans (isInside_part _ _ _)
  beforeName := ⟨_, rfl, by decide⟩
  outside := by
    intro o hin hout
    rcases isInside_iff.mp hin with rfl | hin
    · rfl
    · have hin : markSpot.IsInside o := hin
      rcases isInside_iff.mp hin with rfl | hin
      · rfl
      · have hin : (annotatedSpot.part 0 annotatedModifiers).IsInside o := hin
        rcases isInside_iff.mp hin with rfl | hin
        · rfl
        · rw [hout.antisymm hin]
          rfl

/-- So it is the last one before the name of the class. -/
theorem commentSpot_documents :
    DocumentsOutside (· = .annotationArgumentList) annotatedText.toList annotatedParts commentSpot
      annotatedSpot := by
  have hstarts : ∀ s ∈ Tree.spotsOf [] 0 annotatedParts,
      Outline.isDoc annotatedText.toList s.tree = true → s.tree.start ≤ 20 := by
    decide +kernel
  refine ⟨commentSpot_standsIn, annotatedSpot_standsIn, by decide +kernel,
    .inr ⟨rfl, fun b hb _ hright => ?_, commentSpot_inHead, fun b hb hdoc _ => ?_⟩⟩
  · have hbefore := annotatedSpot_standsIn.before?_eq_some_iff.mpr ⟨b, hb, hright, rfl⟩
    cases hbefore
  · exact hstarts b (mem_spotsOf_iff.mpr hb) hdoc

/-! ## Units -/

/-- The comments of a unit whose types stand at some spots of its text. -/
structure CompilationUnit.DocumentedOnce (u : CompilationUnit) (text : String) (parts : List Tree)
    (types : List Spot) : Prop where
  /-- What the unit has as the comment of a declaration is the one that documents it. -/
  docs : List.Forall₂ (fun t d => t.HasDocsOf text.toList parts d) u.types types
  declares : ∀ d ∈ declarations types, d.StandsIn parts ∧ d.Declares
  nodup : (declarations types).Nodup
  /-- No comment documents two declarations. -/
  declaration : ∀ c, ∀ d ∈ declarations types, ∀ d' ∈ declarations types,
    Documents text.toList parts c d → Documents text.toList parts c d' → d = d'
  /-- No declaration is documented by two comments. -/
  comment : ∀ c c' d, Documents text.toList parts c d → Documents text.toList parts c' d → c = c'
  beforeNames : ∀ c d, Documents text.toList parts c d → ∀ n ∈ declaredNames d.tree,
    c.tree.start < n.start
  /-- The chunks are made of texts of trees. -/
  texts : ∀ o, (u.chunks o).stopped = none ∧ (u.chunks o).chunks.map Chunk.text =
    (types.flatMap fun d => d.chunkFragments o text.toList parts).map (render text.toList)
  /-- No comment is twice in what a chunk is made of. -/
  once : ∀ o, ∀ d ∈ types, ∀ fs ∈ d.chunkFragments o text.toList parts, (comments fs).Nodup

/-- A comment documents one declaration, and a chunk shows it once. -/
theorem comment_documents_once {text : String} {path : Option String} {locals : Bool}
    {u : CompilationUnit} (h : parse text path locals = .ok u) :
    u.DocumentedOnce text (SyntaxTree.ofText text).parts
      (typeSpots locals (SyntaxTree.ofText text).parts) := by
  have htexts := texts_of_parse h
  have hchunks := chunks_eq_of_parse h
  obtain ⟨hfault, rfl⟩ := SyntaxTree.read_ok h
  have hsolid := SyntaxTree.isSolid hfault
  generalize (SyntaxTree.ofText text).parts = parts at hsolid htexts hchunks ⊢
  have htypes : ∀ d ∈ typeSpots locals parts, d.StandsIn parts ∧ d.tree.isType = true := by
    intro d hd
    obtain ⟨hmem, htype⟩ := Outline.mem_typeSpots hd
    exact ⟨mem_spotsOf_iff.mp hmem, htype⟩
  have hdeclares : ∀ d ∈ declarations (typeSpots locals parts), d.StandsIn parts ∧ d.Declares :=
    fun d hd => declares_of_mem_declarations htypes hd
  constructor
  case docs => exact Outline.forall₂_types fun i t d => Outline.documented_of_unit hsolid
  case declares => exact hdeclares
  case nodup =>
    refine declarations_nodup ?_ fun d hd => (htypes d hd).2
    refine (Outline.typeSpots_ascending locals hsolid.toIsSound).imp fun hlt heq => ?_
    rw [heq] at hlt
    exact Nat.lt_irrefl _ hlt
  case declaration =>
    exact fun c d hd d' hd' hc hc' => hc.unique hsolid hc' (hdeclares d hd).2 (hdeclares d' hd').2
  case comment => exact fun c c' d hc hc' => hc.comment_unique hsolid hc'
  case beforeNames => exact fun c d hc n hn => hc.start_lt hsolid hn
  case texts => exact fun o => ⟨by rw [hchunks], htexts o⟩
  case once =>
    intro o d hd fs hfs
    obtain ⟨hstands, htype⟩ := htypes d hd
    have hmember {test : Phrase → Bool} (htest : ∀ p, test p = true → isDeclared p = true)
        (hfs : fs ∈ (d.memberSpots test).map (d.memberFragments o text.toList parts)) :
        (comments fs).Nodup := by
      obtain ⟨m, hm, rfl⟩ := List.mem_map.mp hfs
      exact memberFragments_nodup hsolid o (hstands.of_mem_memberSpots hm)
        (declares_of_mem_memberSpots htest hm)
    rcases List.mem_cons.mp hfs with rfl | hfs
    · exact headerFragments_nodup hsolid hstands htype
    · rcases List.mem_append.mp hfs with hfs | hfs
      · exact hmember (fun p => (declared_tests p).2.1) hfs
      · exact hmember (fun p => (declared_tests p).2.2) hfs

/-- The text with a comment inside an annotation. -/
theorem comment_documents_once_annotated :
    parse annotatedText none true = .ok (Outline.unit true annotatedText none annotatedParts) ∧
      (Outline.unit true annotatedText none annotatedParts).DocumentedOnce annotatedText
        (SyntaxTree.ofText annotatedText).parts
        (typeSpots true (SyntaxTree.ofText annotatedText).parts) :=
  ⟨parse_annotated, comment_documents_once parse_annotated⟩

/-- Annotations do not count as a whole, not only their arguments: a doc comment inside one of
them is passed over. -/
theorem doc_in_annotation_passed_over :
    ∃ u t d, parse annotatedText none true = .ok u ∧ u.types[1]? = some t ∧
      (typeSpots true (SyntaxTree.ofText annotatedText).parts)[1]? = some d ∧
      (∃ c, DocumentsOutside (· = .annotationArgumentList) annotatedText.toList
        (SyntaxTree.ofText annotatedText).parts c d ∧
          textOf annotatedText.toList c.tree = "/** d2 */") ∧
      t.doc = some "/** d1 */" ∧
      ¬ ∃ c, DocumentsOutside (· = .annotationArgumentList) annotatedText.toList
        (SyntaxTree.ofText annotatedText).parts c d ∧
          textOf annotatedText.toList c.tree = "/** d1 */" := by
  have hsolid : Tree.IsSolid annotatedParts :=
    parts_annotated ▸ SyntaxTree.isSolid (SyntaxTree.read_ok parse_annotated).1
  obtain ⟨t, ht⟩ : ∃ t, (Outline.unit true annotatedText none annotatedParts).types[1]? = some t :=
    ⟨_, rfl⟩
  have hdoc : (Outline.unit true annotatedText none annotatedParts).types[1]?.map
      TypeDeclaration.doc = some (some "/** d1 */") := by
    decide +kernel
  have htext : textOf annotatedText.toList commentSpot.tree = "/** d2 */" := by decide +kernel
  rw [parts_annotated]
  refine ⟨_, t, annotatedSpot, parse_annotated, ht, rfl, ⟨_, commentSpot_documents, htext⟩, ?_, ?_⟩
  · rw [ht] at hdoc
    exact Option.some.inj hdoc
  · rintro ⟨c, hc, hother⟩
    rw [hc.comment_unique hsolid commentSpot_documents, htext] at hother
    exact absurd hother (by decide)

end SourceShelf.Java
