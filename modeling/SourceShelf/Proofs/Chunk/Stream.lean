import Mathlib.Algebra.GroupWithZero.Nat
import SourceShelf.Chunk.Writing
import SourceShelf.Proofs.Java.Bodies
import SourceShelf.Proofs.Java.Siblings

/-!
# The chunks of a text

Every type of a text, however deep it stands, gives a header chunk, and behind it a
chunk for each method and each constructor that stands directly in its body.
`Spot.cuts` says so of the tree of the text, and `Chunk.IsCutFrom` what a chunk has of
the declaration it is cut from: its text, its lines and its name.

* `members_of_unit`: the members that a unit has of a type are those of its body.
* `typeChunks_cutFrom`: the chunks of one type.
* `ofTypes_eq`: the stream of all types, by induction on them.
* `chunks_of_parse`: the chunks of every text that can be read.
-/

namespace SourceShelf.Java

/-! ## What is cut from a text -/

/-- A declaration that a chunk is cut from, and the type that it belongs to. -/
structure Cut where
  kind : ChunkKind
  type : Spot
  tree : Tree

/-- What is cut from a type: its header, its methods and its constructors, in this order
and each in the order of the text. -/
def Spot.cuts (s : Spot) : List Cut :=
  ⟨.typeHeader, s, s.tree⟩ ::
    (s.tree.methods.map (⟨.method, s, ·⟩) ++ s.tree.constructors.map (⟨.constructor, s, ·⟩))

/-- The characters of a text that belong to a tree. -/
def Tree.sliceOf (chars : List Char) (t : Tree) : List Char :=
  (chars.drop t.start).take (t.stop - t.start)

namespace Cut

/-- The symbol of a chunk: the qualified name of the type, and for a member its own name
behind it. -/
def symbol (chars : List Char) (c : Cut) : String :=
  let type := ".".intercalate (c.type.names chars)
  match c.kind with
  | .typeHeader => type
  | _ => type ++ "#" ++ (Outline.identifier? c.tree).elim "" (Outline.textOf chars)

end Cut

end Java

/-- What a chunk has of the declaration it is cut from.  The chunk of a member holds the
text of the declaration as it is. -/
structure Chunk.IsCutFrom (chars : List Char) (c : Chunk) (cut : Java.Cut) : Prop where
  kind : c.kind = cut.kind
  symbol : c.symbol = some (cut.symbol chars)
  text : cut.kind ≠ .typeHeader → cut.tree.sliceOf chars <:+: c.text.toList
  startLine : c.startLine = 1 + (chars.take cut.tree.start).count '\n'
  endLine : c.endLine - c.startLine = (cut.tree.sliceOf chars).count '\n'

namespace Java

/-! ## Lines -/

theorem Tree.InOrder.start_le_stop {t : Tree} (h : Tree.InOrder t.leaves) : t.start ≤ t.stop := by
  cases hleaves : t.leaves with
  | nil =>
    have hstart : t.start = 0 := by rw [start, start?_eq, hleaves]; rfl
    omega
  | cons x rest =>
    have hmem : x ∈ t.leaves := hleaves ▸ List.mem_cons_self
    have hbounds := Tree.bounds_of_inOrder h hmem
    have hx := h.forward x hmem
    omega

/-- A tree has as many lines more than one as there are line ends in it. -/
theorem Outline.lineOf_stop (chars : List Char) {t : Tree} (h : t.start ≤ t.stop) :
    Outline.lineOf chars t.stop = Outline.lineOf chars t.start + (t.sliceOf chars).count '\n' := by
  have htake : chars.take t.stop = chars.take t.start ++ t.sliceOf chars := by
    rw [Tree.sliceOf, ← List.take_add]
    congr 1
    omega
  unfold Outline.lineOf
  rw [htake, List.count_append]
  omega

/-! ## Members -/

namespace Tree

/-- A part of the body of a type, by a test on it. -/
theorem leaves_sublist_of_mem_body {test : Tree → Bool} {ps : List Tree} {m : Tree}
    (h : m ∈ (ps.find? test).elim [] Tree.parts) : m.leaves.Sublist (leavesOf ps) := by
  cases hbody : ps.find? test with
  | none =>
    rw [hbody] at h
    cases h
  | some body =>
    rw [hbody] at h
    exact (leaves_sublist_of_mem_parts h).trans
      (leaves_sublist_of_mem (List.mem_of_find?_eq_some hbody))

/-- What stands in the body of a type has leaves of it. -/
theorem leaves_sublist_of_mem_members {t m : Tree} (h : m ∈ t.members) :
    m.leaves.Sublist t.leaves := by
  unfold members at h
  split at h
  · obtain ⟨b, hb, hm⟩ := List.mem_flatMap.mp h
    split at hm
    · exact (leaves_sublist_of_mem_parts hm).trans (leaves_sublist_of_mem_body hb)
    · cases hm
  · exact leaves_sublist_of_mem_body h
  · cases h

end Tree

/-- A member of a unit is made of a declaration. -/
structure MemberDeclaration.IsOf (m : MemberDeclaration) (chars : List Char) (t : Tree) :
    Prop where
  name : m.name = (Outline.identifier? t).elim "" (Outline.textOf chars)
  text : m.text = Outline.textOf chars t
  startLine : m.startLine = Outline.lineOf chars t.start
  endLine : m.endLine = Outline.lineOf chars t.stop

theorem Outline.memberOf_isOf (chars : List Char) (kind : MemberKind) (owner : Nat)
    (before : Option Tree) (t : Tree) : (memberOf chars kind owner before t).IsOf chars t :=
  ⟨rfl, rfl, rfl, rfl⟩

/-- What is made of selected parts stands for the declarations they are. -/
theorem Outline.forall₂_memberOf {chars : List Char} {kind : MemberKind} {owner : Nat}
    {selected : List (Option Tree × Tree)} {trees : List Tree}
    (h : selected.map Prod.snd = trees) :
    List.Forall₂ (MemberDeclaration.IsOf · chars ·)
      (selected.map fun m => memberOf chars kind owner m.1 m.2) trees := by
  subst h
  induction selected with
  | nil => exact .nil
  | cons m selected ih => exact .cons (memberOf_isOf ..) ih

section Unit

variable {locals : Bool} {text : String} {path : Option String} {parts : List Tree}

/-- The members that a unit has of a type are those that stand in its body. -/
theorem Outline.members_of_unit (h : Tree.IsSound parts) {i : Nat} {t : TypeDeclaration} {s : Spot}
    (ht : (unit locals text path parts).types[i]? = some t)
    (hs : (typeSpots locals parts)[i]? = some s) :
    List.Forall₂ (MemberDeclaration.IsOf · text.toList ·) t.methods s.tree.methods ∧
      List.Forall₂ (MemberDeclaration.IsOf · text.toList ·) t.constructors s.tree.constructors := by
  obtain ⟨site, -, hfits, rfl⟩ := exists_site ht hs
  obtain ⟨hmem, htype⟩ := mem_typeSpots (List.mem_of_getElem? hs)
  have hevery := Tree.every_of_mem_spotsOf parts [] 0 h.derived h.faultless s hmem
  have htree : site.tree = s.tree := hfits.tree
  constructor
  · refine forall₂_memberOf ?_
    rw [htree, select_members htype hevery fun q hq => by rw [isMember, hq, Bool.true_or]]
    refine List.filter_congr fun m _ => ?_
    rw [Tree.isPhrase]
    cases m.phrase? <;> simp
  · refine forall₂_memberOf ?_
    rw [htree, select_members htype hevery fun q hq => by rw [isMember, hq, Bool.or_true]]
    refine List.filter_congr fun m _ => ?_
    rw [Tree.isPhrase, Tree.isPhrase]
    cases m.phrase? with
    | none => rfl
    | some q => cases q <;> rfl

/-! ## Chunks -/

/-- The chunk of a member holds its text and has its lines. -/
theorem memberChunk_isCutFrom (o : ChunkOptions) (u : CompilationUnit) {chars : List Char}
    (s : Spot) {kind : ChunkKind} (hkind : kind ≠ .typeHeader) {m : MemberDeclaration} {t : Tree}
    (hm : m.IsOf chars t) (hforward : t.start ≤ t.stop) :
    (memberChunk o u (".".intercalate (s.names chars)) kind m).IsCutFrom chars ⟨kind, s, t⟩ where
  kind := rfl
  symbol := by
    show some (".".intercalate (s.names chars) ++ "#" ++ m.name) = _
    rw [hm.name]
    cases kind with
    | typeHeader => exact absurd rfl hkind
    | method => rfl
    | constructor => rfl
  text := by
    intro _
    have hslice : m.text.toList = t.sliceOf chars := by
      rw [hm.text]
      exact String.toList_ofList
    show t.sliceOf chars <:+: (memberText o u _ m).toList
    rw [← hslice]
    unfold memberText
    rw [String.toList_append, String.toList_append, String.toList_append]
    exact ((List.suffix_append _ _).isInfix.trans (List.prefix_append _ _).isInfix).trans
      (List.prefix_append _ _).isInfix
  startLine := by
    show m.startLine = _
    rw [hm.startLine]
    rfl
  endLine := by
    show m.endLine - m.startLine = ((t.sliceOf chars).count '\n' : Nat)
    rw [hm.startLine, hm.endLine, Outline.lineOf_stop chars hforward]
    omega

/-- The header chunk of a type has its name and its lines. -/
theorem headerChunk_isCutFrom (u : CompilationUnit) {chars : List Char} {s : Spot}
    {t : TypeDeclaration} (ht : t.StandsAt chars s) (hforward : s.tree.start ≤ s.tree.stop) :
    (headerChunk u t (".".intercalate (s.names chars))).IsCutFrom chars
      ⟨.typeHeader, s, s.tree⟩ where
  kind := rfl
  symbol := rfl
  text := fun hkind => absurd rfl hkind
  startLine := by
    show t.startLine = _
    rw [ht.startLine]
    rfl
  endLine := by
    show t.endLine - t.startLine = ((s.tree.sliceOf chars).count '\n' : Nat)
    rw [ht.startLine, ht.endLine, Outline.lineOf_stop chars hforward]
    omega

/-- The chunks of some members, in their order. -/
theorem memberChunks_cutFrom (o : ChunkOptions) (u : CompilationUnit) {chars : List Char}
    (s : Spot) {kind : ChunkKind} (hkind : kind ≠ .typeHeader) {ms : List MemberDeclaration}
    {trees : List Tree} (h : List.Forall₂ (MemberDeclaration.IsOf · chars ·) ms trees)
    (hforward : ∀ t ∈ trees, t.start ≤ t.stop) :
    List.Forall₂ (Chunk.IsCutFrom chars)
      (ms.map (memberChunk o u (".".intercalate (s.names chars)) kind))
      (trees.map (⟨kind, s, ·⟩)) := by
  induction h with
  | nil => exact .nil
  | cons hm _ ih =>
    exact .cons (memberChunk_isCutFrom o u s hkind hm (hforward _ List.mem_cons_self))
      (ih fun t ht => hforward t (List.mem_cons_of_mem _ ht))

/-- The chunks of a type are cut from it and from what stands in its body. -/
theorem typeChunks_cutFrom (o : ChunkOptions) (h : Tree.IsSound parts) {i : Nat}
    {t : TypeDeclaration} {s : Spot}
    (ht : (Outline.unit locals text path parts).types[i]? = some t)
    (hs : (typeSpots locals parts)[i]? = some s) :
    ∃ cs, typeChunks o (Outline.unit locals text path parts) t = .ok cs ∧
      List.Forall₂ (Chunk.IsCutFrom text.toList) cs s.cuts := by
  have hlt := (List.getElem?_eq_some_iff.mp ht).1
  have hname : (Outline.unit locals text path parts).qualifiedName t =
      .ok (".".intercalate (s.names text.toList)) := by
    rw [CompilationUnit.qualifiedName, Outline.names_eq ht hs (by omega)]
    rfl
  have hmem := (Outline.mem_typeSpots (List.mem_of_getElem? hs)).1
  have horder := h.inOrder.sublist (Tree.spotsOf_within parts [] 0 s hmem).1
  have hforward : ∀ m ∈ s.tree.members, m.start ≤ m.stop := fun m hm =>
    (horder.sublist (Tree.leaves_sublist_of_mem_members hm)).start_le_stop
  obtain ⟨hmethods, hconstructors⟩ := Outline.members_of_unit h ht hs
  unfold typeChunks
  rw [hname]
  refine ⟨_, rfl, .cons ?_ (List.rel_append ?_ ?_)⟩
  · exact headerChunk_isCutFrom _ (Outline.standsAt_of_unit ht hs) horder.start_le_stop
  · exact memberChunks_cutFrom o _ s (by decide) hmethods fun m hm =>
      hforward m (List.mem_filter.mp hm).1
  · exact memberChunks_cutFrom o _ s (by decide) hconstructors fun m hm =>
      hforward m (List.mem_filter.mp hm).1

end Unit

/-- The chunks of a type, if it has a name. -/
def chunksOf (o : ChunkOptions) (u : CompilationUnit) (t : TypeDeclaration) : List Chunk :=
  match typeChunks o u t with
  | .ok cs => cs
  | .error _ => []

/-- Where every type has a name, the stream goes on to its end. -/
theorem ofTypes_eq {o : ChunkOptions} {u : CompilationUnit} {ts : List TypeDeclaration}
    (h : ∀ t ∈ ts, ∃ cs, typeChunks o u t = .ok cs) :
    ChunkStream.ofTypes o u ts = { chunks := ts.flatMap (chunksOf o u) } := by
  induction ts with
  | nil => rfl
  | cons t ts ih =>
    obtain ⟨cs, hcs⟩ := h t List.mem_cons_self
    unfold ChunkStream.ofTypes
    rw [List.flatMap_cons, chunksOf, hcs, ih fun t ht => h t (List.mem_cons_of_mem _ ht)]

theorem toExcept_ofTypes_eq {o : ChunkOptions} {u : CompilationUnit} {ts : List TypeDeclaration}
    (h : ∀ t ∈ ts, ∃ cs, typeChunks o u t = .ok cs) :
    (ChunkStream.ofTypes o u ts).toExcept = .ok (ts.flatMap (chunksOf o u)) := by
  rw [ofTypes_eq h]
  rfl

/-- Every type of a unit that was read from a text has chunks. -/
theorem typeChunks_of_parse {text : String} {path : Option String} {locals : Bool}
    {u : CompilationUnit} (h : parse text path locals = .ok u) (o : ChunkOptions) :
    ∀ t ∈ u.types, typeChunks o u t = .ok (chunksOf o u t) := by
  obtain ⟨hsound, rfl⟩ := parse_ok h
  intro t ht
  obtain ⟨i, hi⟩ := List.getElem?_of_mem ht
  have hlt : i < (typeSpots locals (SyntaxTree.ofText text).parts).length := by
    rw [← Outline.length_types]
    exact (List.getElem?_eq_some_iff.mp hi).1
  obtain ⟨cs, hcs, -⟩ := typeChunks_cutFrom o hsound hi (List.getElem?_eq_getElem hlt)
  rw [chunksOf, hcs]

/-- The chunks of a unit that was read from a text are those of its types. -/
theorem chunks_eq_of_parse {text : String} {path : Option String} {locals : Bool}
    {u : CompilationUnit} (h : parse text path locals = .ok u) (o : ChunkOptions) :
    u.chunks o = { chunks := u.types.flatMap (chunksOf o u) } :=
  ofTypes_eq fun t ht => ⟨_, typeChunks_of_parse h o t ht⟩

/-- The stream of types that are each cut into what they have. -/
theorem toExcept_ofTypes {o : ChunkOptions} {u : CompilationUnit} {chars : List Char}
    {ts : List TypeDeclaration} {spots : List Spot}
    (h : List.Forall₂ (fun t s => ∃ cs, typeChunks o u t = .ok cs ∧
      List.Forall₂ (Chunk.IsCutFrom chars) cs s.cuts) ts spots) :
    ∃ cs, (ChunkStream.ofTypes o u ts).toExcept = .ok cs ∧
      List.Forall₂ (Chunk.IsCutFrom chars) cs (spots.flatMap Spot.cuts) := by
  have hchunks : ∀ t ∈ ts, ∃ cs, typeChunks o u t = .ok cs := by
    induction h with
    | nil => exact fun t ht => nomatch ht
    | cons ht _ ih =>
      obtain ⟨cs, hcs, -⟩ := ht
      exact List.forall_mem_cons.mpr ⟨⟨cs, hcs⟩, ih⟩
  refine ⟨_, toExcept_ofTypes_eq hchunks, List.rel_flatMap h ?_⟩
  rintro t s ⟨cs, hcs, hcut⟩
  rw [chunksOf, hcs]
  exact hcut

/-- Every type of a tree, however deep it stands. -/
theorem typeSpots_true (parts : List Tree) :
    typeSpots true parts = (Tree.spotsOf [] 0 parts).filter (·.tree.isType) := by
  unfold typeSpots
  refine List.filter_congr fun s _ => ?_
  rw [Spot.isListed, Bool.true_or, Bool.and_true]

/-- The chunks of every text that can be read: for every type in it, in the order of the
text, its header, its methods and its constructors, each as the text has it, and nothing
else. -/
theorem chunks_of_parse {text : String} {path : Option String} {u : CompilationUnit}
    (h : parse text path true = .ok u) (o : ChunkOptions) :
    let types := (Tree.spotsOf [] 0 (SyntaxTree.ofText text).parts).filter (·.tree.isType)
    ∃ cs, (u.chunks o).toExcept = .ok cs ∧
      List.Forall₂ (Chunk.IsCutFrom text.toList) cs (types.flatMap Spot.cuts) ∧
      cs.length =
        (types.map fun s => 1 + s.tree.methods.length + s.tree.constructors.length).sum := by
  obtain ⟨hsound, rfl⟩ := parse_ok h
  rw [← typeSpots_true]
  have htypes : List.Forall₂ (fun t s => ∃ cs,
      typeChunks o (Outline.unit true text path (SyntaxTree.ofText text).parts) t = .ok cs ∧
        List.Forall₂ (Chunk.IsCutFrom text.toList) cs s.cuts)
      (Outline.unit true text path (SyntaxTree.ofText text).parts).types
      (typeSpots true (SyntaxTree.ofText text).parts) := by
    refine List.forall₂_iff_get.mpr ⟨Outline.length_types, fun i hi hi' => ?_⟩
    exact typeChunks_cutFrom o hsound (List.getElem?_eq_getElem hi) (List.getElem?_eq_getElem hi')
  obtain ⟨cs, hcs, hcut⟩ := toExcept_ofTypes htypes
  refine ⟨cs, hcs, hcut, ?_⟩
  rw [hcut.length_eq, List.length_flatMap]
  congr 1
  refine List.map_congr_left fun s _ => ?_
  simp [Spot.cuts]
  omega

/-- The chunks of three types and their members. -/
theorem chunks_of_parse_nesting :
    let types := (Tree.spotsOf [] 0 (SyntaxTree.ofText nestingText).parts).filter (·.tree.isType)
    parse nestingText none true = .ok nestingUnit ∧
      ∃ cs, (nestingUnit.chunks {}).toExcept = .ok cs ∧
        cs.map (·.symbol) = [some "A", some "A#f", some "L", some "A.B", some "A.B#B"] ∧
        List.Forall₂ (Chunk.IsCutFrom nestingText.toList) cs (types.flatMap Spot.cuts) ∧
        cs.length =
          (types.map fun s => 1 + s.tree.methods.length + s.tree.constructors.length).sum := by
  intro types
  obtain ⟨cs, hcs, hcut, hlength⟩ := chunks_of_parse parse_nesting {}
  have hsymbols : (nestingUnit.chunks {}).toExcept.map (·.map (·.symbol)) =
      .ok [some "A", some "A#f", some "L", some "A.B", some "A.B#B"] := by
    decide +kernel
  rw [hcs] at hsymbols
  exact ⟨parse_nesting, cs, hcs, Except.ok.inj hsymbols, hcut, hlength⟩

end Java

end SourceShelf
