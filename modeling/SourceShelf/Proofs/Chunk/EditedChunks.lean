import SourceShelf.Proofs.Chunk.Stream
import SourceShelf.Proofs.Java.EditedUnits
import SourceShelf.Proofs.Java.Ladders

/-!
# The chunks of an edited text

Where two texts differ in the body of one method or one constructor, their chunks differ
in the text of one chunk, that of the member; where they differ in the body of a constant
of an enum, they have the same chunks.  Everything else that a chunk has is read outside
of such a body: names, comments, fields, lines and the package.

* `CompilationUnit.SameFrame`: what chunks take from the unit as a whole.
* `OddMember`, `OddChunk`: the member and the chunk that differ.
* `chunks_isolated`: the chunks of the two texts.
-/

namespace SourceShelf.Java

open Outline

/-! ## The unit as a whole -/

namespace CompilationUnit

variable {u u' : CompilationUnit} {t t' : TypeDeclaration} {o : ChunkOptions}

/-- Two units with the same package, the same imports, and types with the same names in
the same places. -/
structure SameFrame (u u' : CompilationUnit) : Prop where
  package : u'.package = u.package
  imports : u'.imports = u.imports
  types : List.Forall₂ (fun t t' => t'.name = t.name ∧ t'.parent = t.parent) u.types u'.types

namespace SameFrame

theorem type? (h : SameFrame u u') (i : Int) :
    (∃ e, u.type? i = .error e ∧ u'.type? i = .error e) ∨
      ∃ p p', u.type? i = .ok p ∧ u'.type? i = .ok p' ∧ p'.name = p.name ∧
        p'.parent = p.parent := by
  unfold CompilationUnit.type?
  rw [← h.types.length_eq]
  dsimp only
  generalize (if i < 0 then i + (u.types.length : Int) else i) = position
  by_cases hposition : position < 0
  · exact .inl ⟨_, if_pos hposition, if_pos hposition⟩
  · rw [if_neg hposition, if_neg hposition]
    have hrel := rel_getElem? h.types position.toNat
    revert hrel
    generalize u.types[position.toNat]? = p
    generalize u'.types[position.toNat]? = p'
    rintro (hpp | _)
    · exact .inr ⟨_, _, rfl, rfl, hpp⟩
    · exact .inl ⟨_, rfl, rfl⟩

theorem names (h : SameFrame u u') (fuel : Nat) (hname : t'.name = t.name)
    (hparent : t'.parent = t.parent) : u'.names fuel t' = u.names fuel t := by
  induction fuel generalizing t t' with
  | zero => rfl
  | succ fuel ih =>
    unfold CompilationUnit.names CompilationUnit.parentOf
    rw [hparent, hname]
    cases t.parent with
    | none => rfl
    | some i =>
      dsimp only
      rcases h.type? i with ⟨err, herr, herr'⟩ | ⟨p, p', hp, hp', hnames, hparents⟩
      · rw [herr, herr']
        rfl
      · rw [hp, hp']
        dsimp only [Except.map]
        rw [ih hnames hparents]

theorem qualifiedName (h : SameFrame u u') (hname : t'.name = t.name)
    (hparent : t'.parent = t.parent) : u'.qualifiedName t' = u.qualifiedName t := by
  rw [CompilationUnit.qualifiedName, CompilationUnit.qualifiedName, ← h.types.length_eq,
    h.names _ hname hparent]

theorem packageBlock (h : SameFrame u u') : u'.packageBlock = u.packageBlock := by
  rw [CompilationUnit.packageBlock, CompilationUnit.packageBlock, h.package]

theorem importBlock (h : SameFrame u u') : u'.importBlock = u.importBlock := by
  rw [CompilationUnit.importBlock, CompilationUnit.importBlock, h.imports]

theorem headerChunk (h : SameFrame u u') (t : TypeDeclaration) (name : String) :
    headerChunk u' t name = headerChunk u t name := by
  rw [Java.headerChunk, Java.headerChunk, headerText, headerText, h.packageBlock, h.importBlock]

theorem memberChunk (h : SameFrame u u') (name : String) (kind : ChunkKind) :
    memberChunk o u' name kind = memberChunk o u name kind := by
  funext m
  rw [Java.memberChunk, Java.memberChunk, memberText, memberText, h.packageBlock, h.importBlock]

theorem typeChunks (h : SameFrame u u') (t : TypeDeclaration) :
    typeChunks o u' t = typeChunks o u t := by
  simp only [Java.typeChunks, h.qualifiedName rfl rfl, h.headerChunk, h.memberChunk]

/-- The chunks of the same types. -/
theorem chunks (h : SameFrame u u') (htypes : u.types = u'.types) : u'.chunks o = u.chunks o := by
  have hstream : ∀ ts, ChunkStream.ofTypes o u' ts = ChunkStream.ofTypes o u ts := by
    intro ts
    induction ts with
    | nil => rfl
    | cons t ts ih => rw [ChunkStream.ofTypes, ChunkStream.ofTypes, h.typeChunks, ih]
  rw [CompilationUnit.chunks, CompilationUnit.chunks, ← htypes, hstream]

end SameFrame

end CompilationUnit

/-! ## Types and their places -/

theorem chunksOf_eq {o : ChunkOptions} {u : CompilationUnit} {t : TypeDeclaration} {name : String}
    (h : u.qualifiedName t = .ok name) :
    chunksOf o u t = headerChunk u t name ::
      (t.methods.map (memberChunk o u name .method) ++
        t.constructors.map (memberChunk o u name .constructor)) := by
  rw [chunksOf, typeChunks, h]
  rfl

theorem exists_qualifiedName {locals : Bool} {text : String} {path : Option String}
    {parts : List Tree} {t : TypeDeclaration} {i : Nat}
    (ht : (unit locals text path parts).types[i]? = some t) :
    ∃ s, (typeSpots locals parts)[i]? = some s ∧
      (unit locals text path parts).qualifiedName t =
        .ok (".".intercalate (s.names text.toList)) := by
  have hi := (List.getElem?_eq_some_iff.mp ht).1
  have hs := List.getElem?_eq_getElem (length_types ▸ hi)
  refine ⟨_, hs, ?_⟩
  rw [CompilationUnit.qualifiedName, names_eq ht hs (by omega)]
  rfl

theorem tree_of_site {locals : Bool} {parts : List Tree} {site : Site} {s : Spot} {i : Nat}
    (hsite : (fileSites locals parts)[i]? = some site)
    (hs : (typeSpots locals parts)[i]? = some s) : site.tree = s.tree := by
  have hfits := rel_getElem? (fileSites_fit locals parts) i
  rw [List.getElem?_zipIdx, hsite, hs] at hfits
  cases hfits with
  | some hfits => exact hfits.tree

/-! ## The member that differs -/

namespace Edit

variable {e : Edit} {p q : Phrase} {cs cs' : List Tree} {c c' : Tree}

/-- A phrase with another body has the same parts but for that body. -/
theorem Rewritten.kin (h : e.Rewritten p q c c') (hq : holdsBody q = true)
    (horder : Tree.InOrder c.leaves) :
    ∃ cs cs', c = .node p cs ∧ c' = .node p cs' ∧ List.Forall₂ e.Kin cs cs' := by
  cases h with
  | mk hfills h =>
    exact ⟨_, _, rfl, rfl, h.forall₂ hfills.spans horder (fun _ _ => .alike) (.around hq)⟩

/-- What is made of the member with the old body and of the one with the new body. -/
structure OddMember (e : Edit) (c c' : Tree) (m m' : MemberDeclaration) : Prop where
  eq : m' = { m with text := m'.text }
  old : m.IsOf e.source c
  new : m'.IsOf e.target c'

theorem OddPart.oddMember {x y : Option Tree × Tree}
    (h : e.OddPart (.node p cs) (.node p cs') x y) (hkin : List.Forall₂ e.Kin cs cs')
    (hc : e.Spans (.node p cs) (.node p cs')) (kind : MemberKind) (owner : Nat) :
    e.OddMember (.node p cs) (.node p cs') (memberOf e.source kind owner x.1 x.2)
      (memberOf e.target kind owner y.1 y.2) := by
  obtain ⟨b, x⟩ := x
  obtain ⟨b', y⟩ := y
  obtain ⟨hb, rfl, rfl⟩ := h
  refine ⟨?_, memberOf_isOf .., memberOf_isOf ..⟩
  have hidentifier : Option.Rel e.Alike (identifier? (.node p cs)) (identifier? (.node p cs')) :=
    rel_identifier? hkin
  have hname := elim_textOf hidentifier ""
  unfold memberOf
  rw [hname, hb, hc.startLine, hc.endLine]

section Members

variable {xs ys : List (Option Tree × Tree)} (test : Phrase → Bool) (kind : MemberKind)
  (owner : Nat)

/-- Members of the kind of the one that differs. -/
theorem members_apart (h : OneApart e.SamePart (e.OddPart (.node p cs) (.node p cs')) xs ys)
    (hp : test p = true) (hkin : List.Forall₂ e.Kin cs cs')
    (hc : e.Spans (.node p cs) (.node p cs')) :
    OneApart Eq (e.OddMember (.node p cs) (.node p cs'))
      ((select test xs).map fun m => memberOf e.source kind owner m.1 m.2)
      ((select test ys).map fun m => memberOf e.target kind owner m.1 m.2) := by
  have hselected : OneApart e.SamePart (e.OddPart (.node p cs) (.node p cs')) (select test xs)
      (select test ys) := by
    refine h.filter (fun x y hxy => by rw [hxy.part.phrase?]) fun x y hxy => ?_
    rw [hxy.old, hxy.new]
    exact ⟨hp, hp⟩
  exact hselected.map (fun x y hxy => (hxy.memberOf_eq kind owner).symm)
    fun x y hxy => hxy.oddMember hkin hc kind owner

/-- Members of another kind. -/
theorem members_same (h : OneApart e.SamePart (e.OddPart (.node p cs) (.node p cs')) xs ys)
    (hp : test p = false) :
    (select test ys).map (fun m => memberOf e.target kind owner m.1 m.2) =
      (select test xs).map fun m => memberOf e.source kind owner m.1 m.2 := by
  have hparts : List.Forall₂ (fun x y => e.SamePart x y ∨
      e.OddPart (.node p cs) (.node p cs') x y) xs ys :=
    h.forall₂ (fun _ _ => .inl) fun _ _ => .inr
  refine select_map_eq hparts ?_ ?_
  · rintro x y (hxy | hxy)
    · exact hxy.part.phrase?
    · rw [hxy.old, hxy.new]
      rfl
  · rintro x y (hxy | hxy) hx
    · exact hxy.memberOf_eq kind owner
    · rw [hxy.old] at hx
      exact absurd (hp.symm.trans hx) Bool.false_ne_true

end Members

/-! ## The chunk that differs -/

/-- The chunk of the member with the old body and that of the member with the new one. -/
structure OddChunk (e : Edit) (old new : Cut) (d d' : Chunk) : Prop where
  eq : d' = { d with text := d'.text }
  old : d.IsCutFrom e.source old
  new : d'.IsCutFrom e.target new

theorem Spans.forward {t t' : Tree} (h : e.Spans t t') :
    t.start ≤ t.stop ∧ t'.start ≤ t'.stop := by
  obtain ⟨a, ha, ha', hle⟩ := h.start
  obtain ⟨z, hz, hz', hge⟩ := h.stop
  have hlt := e.low_lt_high
  rw [Tree.start, Tree.start, Tree.stop, Tree.stop, ha, ha', hz, hz', Option.getD_some,
    Option.getD_some, Option.getD_some, place_of_ge hge]
  omega

theorem memberChunks_apart {o : ChunkOptions} {u u' : CompilationUnit} {s s' : Spot}
    {kind : ChunkKind} {ms ms' : List MemberDeclaration} {name : String}
    (h : OneApart Eq (e.OddMember c c') ms ms') (hu : u.SameFrame u') (hc : e.Spans c c')
    (hkind : kind ≠ .typeHeader) (hname : name = ".".intercalate (s.names e.source))
    (hname' : name = ".".intercalate (s'.names e.target)) :
    OneApart Eq (e.OddChunk ⟨kind, s, c⟩ ⟨kind, s', c'⟩) (ms.map (memberChunk o u name kind))
      (ms'.map (memberChunk o u' name kind)) := by
  refine h.map (fun m m' hm => ?_) fun m m' hm => ⟨?_, ?_, ?_⟩
  · rw [hm, hu.memberChunk]
  · rw [hm.eq]
    rfl
  · rw [hname]
    exact memberChunk_isCutFrom o u s hkind hm.old hc.forward.1
  · rw [hname']
    exact memberChunk_isCutFrom o u' s' hkind hm.new hc.forward.2

/-- What a kind of chunk tells of the member that it is cut from. -/
theorem memberKind?_spec {kind : ChunkKind} (h : memberKind? p q = some kind) :
    typeKind? p = none ∧ holdsBody p = true ∧ holdsBody q = true ∧ p ≠ .enumBodyDeclarations ∧
      p ≠ .enumConstant ∧ isField p = false ∧ isInitializer p = false ∧
      (kind = .method ∧ p = .methodDeclaration ∨
        kind = .constructor ∧ p ≠ .methodDeclaration ∧ isConstructor p = true) := by
  unfold memberKind? at h
  split at h
  all_goals
    cases h
    try decide

/-- The type in whose body a member differs: its header is the same, and so are the
members of the other kind. -/
theorem chunksOf_apart {o : ChunkOptions} {u u' : CompilationUnit} {i : Nat} {nested : List Nat}
    {site site' : Site} {s s' : Spot} {kind : ChunkKind} (hu : u.SameFrame u')
    (h : e.OddSite (.node p cs) (.node p cs') site site') (hkind : memberKind? p q = some kind)
    (hkin : List.Forall₂ e.Kin cs cs') (hc : e.Spans (.node p cs) (.node p cs'))
    (hname : u.qualifiedName (typeOf e.source i nested site) =
      .ok (".".intercalate (s.names e.source)))
    (hname' : u'.qualifiedName (typeOf e.target i nested site') =
      .ok (".".intercalate (s'.names e.target))) :
    OneApart Eq (e.OddChunk ⟨kind, s, .node p cs⟩ ⟨kind, s', .node p cs'⟩)
      (chunksOf o u (typeOf e.source i nested site))
      (chunksOf o u' (typeOf e.target i nested site')) := by
  obtain ⟨-, -, -, -, hconstant, hfield, hinitializer, hmember⟩ := memberKind?_spec hkind
  have hheader := typeOf_kin (h.kin fun x y hxy =>
    hxy.state (fun hp => absurd hp hconstant) hfield hinitializer) i nested
  have hnames : ".".intercalate (s.names e.source) = ".".intercalate (s'.names e.target) := by
    have hself : (typeOf e.target i nested site').name = (typeOf e.source i nested site).name := by
      rw [hheader]
    have hparent : (typeOf e.target i nested site').parent =
        (typeOf e.source i nested site).parent := by rw [hheader]
    have hsame := hu.qualifiedName hself hparent
    rw [hname, hname'] at hsame
    exact (Except.ok.inj hsame).symm
  have hfirst : headerChunk u (typeOf e.source i nested site) (".".intercalate (s.names e.source)) =
      headerChunk u' (typeOf e.target i nested site') (".".intercalate (s.names e.source)) := by
    rw [hu.headerChunk, hheader]
    rfl
  rw [chunksOf_eq hname, chunksOf_eq hname', ← hnames]
  refine .there hfirst ?_
  rcases hmember with ⟨rfl, rfl⟩ | ⟨rfl, hmethod, hconstructor⟩
  · have hmethods := members_apart (· = .methodDeclaration) .method i h.apart.members rfl hkin hc
    have hconstructors := members_same isConstructor .constructor i h.apart.members rfl
    refine (memberChunks_apart hmethods hu hc (by decide) rfl hnames).append_right ?_
    rw [hu.memberChunk]
    exact (List.forall₂_eq_eq_eq).symm ▸ congrArg _ hconstructors.symm
  · have hmethods := members_same (· = .methodDeclaration) .method i h.apart.members
      (decide_eq_false hmethod)
    have hconstructors := members_apart isConstructor .constructor i h.apart.members hconstructor
      hkin hc
    refine OneApart.append_left ?_
      (memberChunks_apart hconstructors hu hc (by decide) rfl hnames)
    rw [hu.memberChunk]
    exact (List.forall₂_eq_eq_eq).symm ▸ congrArg _ hmethods.symm

/-- Kinds of declarations with a body that may differ: neither types nor bodies, fields or
initializers. -/
structure HasBody (p q : Phrase) : Prop where
  noType : typeKind? p = none
  holds : holdsBody p = true
  body : holdsBody q = true
  behind : p ≠ .enumBodyDeclarations
  field : isField p = false
  initializer : isInitializer p = false

theorem hasBody_of_memberKind? {kind : ChunkKind} (h : memberKind? p q = some kind) :
    HasBody p q := by
  obtain ⟨hp, hholds, hq, hbehind, -, hfield, hinitializer, -⟩ := memberKind?_spec h
  exact ⟨hp, hholds, hq, hbehind, hfield, hinitializer⟩

theorem hasBody_constant : HasBody .enumConstant .classBody :=
  ⟨rfl, rfl, rfl, by decide, rfl, rfl⟩

section Unit

variable (locals : Bool) {text text' : String} (path path' : Option String) {ts ts' : List Tree}

/-- The units of the two texts: the same package and imports, and the same types but for
the one in whose body the edited declaration stands. -/
theorem InFile.units_apart (hfile : e.InFile c c' ts ts') (h : e.Rewritten p q c c')
    (hpq : HasBody p q) (horder : Tree.InOrder (Tree.leavesOf ts))
    (hsource : text.toList = e.source) (htarget : text'.toList = e.target) :
    (unit locals text path ts).SameFrame (unit locals text' path' ts') ∧
      OneApart Eq (fun t t' => ∃ i, (unit locals text path ts).types[i]? = some t ∧
          (unit locals text' path' ts').types[i]? = some t' ∧
          e.OddType c c' (fileSites locals ts) (fileSites locals ts') i t t')
        (unit locals text path ts).types (unit locals text' path' ts').types := by
  have hinner := horder.sublist hfile.leaves_sublist
  have hspans := h.spans hinner
  have hsites : e.SameSites locals c c' := h.sameSites hpq.noType hpq.holds hpq.body hinner
  obtain ⟨cs, cs', rfl, rfl, hkin⟩ := h.kin hpq.body hinner
  have hparts := hfile.kin hspans horder
  have htypes := types_apart path path' hsource htarget
    (hfile.apartSites hpq.holds hpq.behind hspans hsites horder)
  refine ⟨⟨?_, ?_, htypes.forall₂ ?_ ?_⟩, htypes⟩
  · show packageOf text'.toList ts' = packageOf text.toList ts
    rw [hsource, htarget, packageOf_eq hparts]
  · show (ts'.filter _).map (importOf text'.toList) = (ts.filter _).map (importOf text.toList)
    rw [hsource, htarget, imports_eq hparts]
  · rintro t _ rfl
    exact ⟨rfl, rfl⟩
  · rintro t t' ⟨i, -, -, ⟨s, s', -, -, hs, rfl, rfl⟩⟩
    have hkin := hs.kin fun x y hxy => hxy.state (fun _ => hkin) hpq.field hpq.initializer
    rw [typeOf_kin hkin]
    exact ⟨rfl, rfl⟩

/-- The chunks of the two texts where the body of a method or a constructor is edited. -/
theorem InFile.chunks_apart (hfile : e.InFile c c' ts ts') {kind : ChunkKind}
    (h : e.MemberRewritten kind c c') (horder : Tree.InOrder (Tree.leavesOf ts))
    (hsource : text.toList = e.source) (htarget : text'.toList = e.target) (o : ChunkOptions) :
    OneApart Eq (fun d d' => ∃ s ∈ typeSpots locals ts, ∃ s' ∈ typeSpots locals ts',
        e.InBody c c' s.tree s'.tree ∧ e.OddChunk ⟨kind, s, c⟩ ⟨kind, s', c'⟩ d d')
      ((unit locals text path ts).types.flatMap (chunksOf o (unit locals text path ts)))
      ((unit locals text' path' ts').types.flatMap (chunksOf o (unit locals text' path' ts'))) := by
  obtain ⟨p, q, hkind, hmember⟩ := h
  have hinner := horder.sublist hfile.leaves_sublist
  have hpq := hasBody_of_memberKind? hkind
  obtain ⟨hframe, htypes⟩ :=
    hfile.units_apart locals path path' hmember hpq horder hsource htarget
  have hspans := hmember.spans hinner
  obtain ⟨cs, cs', rfl, rfl, hkin⟩ := hmember.kin hpq.body hinner
  refine htypes.flatMap ?_ ?_
  · rintro t _ rfl
    rw [List.forall₂_eq_eq_eq, chunksOf, chunksOf, hframe.typeChunks]
  · rintro t t' ⟨i, ht, ht', ⟨site, site', hi, hi', hodd, rfl, rfl⟩⟩
    obtain ⟨s, hs, hname⟩ := exists_qualifiedName ht
    obtain ⟨s', hs', hname'⟩ := exists_qualifiedName ht'
    have hbody : e.InBody (.node p cs) (.node p cs') s.tree s'.tree := by
      rw [← tree_of_site hi hs, ← tree_of_site hi' hs']
      exact hodd.inBody
    rw [hsource] at hname
    rw [htarget] at hname'
    exact (chunksOf_apart hframe hodd hkind hkin hspans hname hname').imp (fun _ _ h => h)
      fun d d' h => ⟨s, List.mem_of_getElem? hs, s', List.mem_of_getElem? hs', hbody, h⟩

/-- The chunks of the two texts where the body of a constant is edited. -/
theorem InFile.chunks_eq (hfile : e.InFile c c' ts ts') (h : e.ConstantRewritten c c')
    (horder : Tree.InOrder (Tree.leavesOf ts)) (hsource : text.toList = e.source)
    (htarget : text'.toList = e.target) (o : ChunkOptions) :
    (unit locals text' path' ts').chunks o = (unit locals text path ts).chunks o := by
  have hinner := horder.sublist hfile.leaves_sublist
  obtain ⟨hframe, htypes⟩ :=
    hfile.units_apart locals path path' h hasBody_constant horder hsource htarget
  obtain ⟨cs, cs', rfl, rfl, hkin⟩ := h.kin rfl hinner
  have hsame : List.Forall₂ Eq (unit locals text path ts).types
      (unit locals text' path' ts').types := by
    refine htypes.forall₂ (fun t t' ht => ht) ?_
    rintro t t' ⟨i, -, -, ⟨site, site', -, -, hodd, rfl, rfl⟩⟩
    exact ((hodd.same fun x y hxy => hxy.member_of_constant hkin).type i _).symm
  rw [List.forall₂_eq_eq_eq] at hsame
  exact hframe.chunks hsame

end Unit

end Edit

/-- The chunks of a unit that is read from parts, type by type. -/
theorem toExcept_chunks_unit (locals : Bool) (text : String) (path : Option String)
    (parts : List Tree) (o : ChunkOptions) :
    ((unit locals text path parts).chunks o).toExcept =
      .ok ((unit locals text path parts).types.flatMap
        (chunksOf o (unit locals text path parts))) := by
  refine toExcept_ofTypes_eq fun t ht => ?_
  obtain ⟨i, hi⟩ := List.mem_iff_getElem?.mp ht
  obtain ⟨s, -, hname⟩ := exists_qualifiedName hi
  rw [typeChunks, hname]
  exact ⟨_, rfl⟩

/-- Two texts that differ in one body, with trees that are the same but for it.  If it is
that of a method or a constructor in the body of a type, whose types around it reach up to
the file, the chunks are the same but for the text of the chunk of that member.  If it is
that of a constant of an enum, they are the same. -/
theorem chunks_isolated {text text' : String} {tree : SyntaxTree text} {tree' : SyntaxTree text'}
    {path path' : Option String} {locals : Bool} {u u' : CompilationUnit}
    (hu : tree.read path locals = .ok u) (hu' : tree'.read path' locals = .ok u') {e : Edit}
    (hsource : text.toList = e.source) (htarget : text'.toList = e.target) {c c' : Tree}
    (hfile : e.InFile c c' tree.parts tree'.parts) (o : ChunkOptions) :
    (∀ kind, e.MemberRewritten kind c c' → ∃ front d d' rear,
      (u.chunks o).toExcept = .ok (front ++ d :: rear) ∧
      (u'.chunks o).toExcept = .ok (front ++ d' :: rear) ∧
      d' = { d with text := d'.text } ∧
      ∃ s ∈ typeSpots locals tree.parts, ∃ s' ∈ typeSpots locals tree'.parts,
        e.InBody c c' s.tree s'.tree ∧ d.IsCutFrom text.toList ⟨kind, s, c⟩ ∧
        d'.IsCutFrom text'.toList ⟨kind, s', c'⟩) ∧
    (e.ConstantRewritten c c' → ∃ cs,
      (u.chunks o).toExcept = .ok cs ∧ (u'.chunks o).toExcept = .ok cs) := by
  obtain ⟨-, rfl⟩ := SyntaxTree.read_ok hu
  obtain ⟨-, rfl⟩ := SyntaxTree.read_ok hu'
  have horder := (Tree.laidOut_inOrder tree.laidOut).1
  constructor
  · intro kind hmember
    rw [toExcept_chunks_unit, toExcept_chunks_unit]
    obtain ⟨front, d, d', rear, hcs, hcs', s, hs, s', hs', hbody, hodd⟩ :=
      (hfile.chunks_apart locals path path' hmember horder hsource htarget o).exists_of_eq
    rw [hsource, htarget]
    exact ⟨front, d, d', rear, congrArg _ hcs, congrArg _ hcs', hodd.eq, s, hs, s', hs', hbody,
      hodd.old, hodd.new⟩
  · intro hconstant
    rw [hfile.chunks_eq locals path path' hconstant horder hsource htarget o,
      toExcept_chunks_unit]
    exact ⟨_, rfl, rfl⟩

/-- A semicolon put between two braces, with one more brace behind them. -/
def Edit.fill (before : List Char) : Edit where
  before := before
  old := ['{', '}']
  new := ['{', ';', '}']
  behind := ['}']
  old_opens := rfl
  new_opens := rfl
  lines := rfl

/-- The parts of a body with nothing in it. -/
def emptyBody (place : Nat) : List Tree :=
  [.leaf .braceOpen place (place + 1), .leaf .braceClose (place + 1) (place + 2)]

/-- The parts of a body with a semicolon in it. -/
def filledBody (place : Nat) : List Tree :=
  [.leaf .braceOpen place (place + 1), .leaf .semicolon (place + 1) (place + 2),
    .leaf .braceClose (place + 2) (place + 3)]

/-- The constructor of a class `A` with no other member, without blanks. -/
def onlyConstructor (body : List Tree) : Tree :=
  .node .constructorDeclaration [.leaf .identifier 8 9,
    .node .formalParameters [.leaf .parenOpen 9 10, .leaf .parenClose 10 11],
    .node .constructorBody body]

/-- A class `A` with its constructor. -/
def onlyClass (body : List Tree) (stop : Nat) : Tree :=
  .node .classDeclaration [.leaf .classWord 0 5, .leaf .identifier 6 7,
    .node .classBody [.leaf .braceOpen 7 8, onlyConstructor body,
      .leaf .braceClose stop (stop + 1)]]

/-- The constant of an enum `E` with no other constant, without blanks. -/
def onlyConstant (body : List Tree) : Tree :=
  .node .enumConstant [.leaf .identifier 7 8, .node .classBody body]

/-- An enum `E` with its constant. -/
def onlyEnum (body : List Tree) (stop : Nat) : Tree :=
  .node .enumDeclaration [.leaf .enumWord 0 4, .leaf .identifier 5 6,
    .node .enumBody [.leaf .braceOpen 6 7, onlyConstant body, .leaf .braceClose stop (stop + 1)]]

/-- The tree of a text with an empty constructor. -/
def emptyClass : SyntaxTree "class A\x7bA()\x7b\x7d\x7d" where
  parts := [onlyClass (emptyBody 11) 13]
  laidOut := by decide +kernel

/-- The tree of a text with a constructor that is not empty. -/
def filledClass : SyntaxTree "class A\x7bA()\x7b;\x7d\x7d" where
  parts := [onlyClass (filledBody 11) 14]
  laidOut := by decide +kernel

/-- The tree of a text with a constant whose body is empty. -/
def emptyEnum : SyntaxTree "enum E\x7bA\x7b\x7d\x7d" where
  parts := [onlyEnum (emptyBody 8) 10]
  laidOut := by decide +kernel

/-- The tree of a text with a constant whose body is not empty. -/
def filledEnum : SyntaxTree "enum E\x7bA\x7b;\x7d\x7d" where
  parts := [onlyEnum (filledBody 8) 11]
  laidOut := by decide +kernel

set_option maxRecDepth 100000 in
/-- Each of the four texts leaves a reader no choice. -/
theorem ofText_bodies :
    SyntaxTree.ofText "class A\x7bA()\x7b\x7d\x7d" = emptyClass ∧
      SyntaxTree.ofText "class A\x7bA()\x7b;\x7d\x7d" = filledClass ∧
      SyntaxTree.ofText "enum E\x7bA\x7b\x7d\x7d" = emptyEnum ∧
      SyntaxTree.ofText "enum E\x7bA\x7b;\x7d\x7d" = filledEnum :=
  ⟨Ladder.ofText_of_read? (by rfl), Ladder.ofText_of_read? (by rfl),
    Ladder.ofText_of_read? (by rfl), Ladder.ofText_of_read? (by rfl)⟩

theorem fills_fill (before : List Char) {q : Phrase} (hq : typeKind? q = none) :
    (Edit.fill before).Fills (.node q (emptyBody before.length))
      (.node q (filledBody before.length)) where
  start := rfl
  stop := rfl
  start' := rfl
  stop' := rfl
  typeless := by
    intro s hs
    simp only [emptyBody, Tree.spots, Tree.spotsOf, List.append_nil, List.cons_append,
      List.nil_append, List.mem_cons, List.not_mem_nil, or_false] at hs
    rcases hs with rfl | rfl | rfl
    · simp [hq]
    · rfl
    · rfl
  typeless' := by
    intro s hs
    simp only [filledBody, Tree.spots, Tree.spotsOf, List.append_nil, List.cons_append,
      List.nil_append, List.mem_cons, List.not_mem_nil, or_false] at hs
    rcases hs with rfl | rfl | rfl | rfl
    · simp [hq]
    · rfl
    · rfl
    · rfl

/-- The chunks of a class before and after its constructor gets a semicolon, and those of
an enum before and after the body of its constant does. -/
theorem chunks_isolated_fill :
    (∃ u u' front d d' rear, parse "class A\x7bA()\x7b\x7d\x7d" none true = .ok u ∧
      parse "class A\x7bA()\x7b;\x7d\x7d" none true = .ok u' ∧
      (u.chunks {}).toExcept = .ok (front ++ d :: rear) ∧
      (u'.chunks {}).toExcept = .ok (front ++ d' :: rear) ∧ d' = { d with text := d'.text }) ∧
    ∃ u u' cs, parse "enum E\x7bA\x7b\x7d\x7d" none true = .ok u ∧
      parse "enum E\x7bA\x7b;\x7d\x7d" none true = .ok u' ∧ (u.chunks {}).toExcept = .ok cs ∧
        (u'.chunks {}).toExcept = .ok cs := by
  obtain ⟨hemptyClass, hfilledClass, hemptyEnum, hfilledEnum⟩ := ofText_bodies
  simp only [parse, hemptyClass, hfilledClass, hemptyEnum, hfilledEnum]
  constructor
  · let e := Edit.fill "class A\x7bA()".toList
    have hmember : e.MemberRewritten .constructor (onlyConstructor (emptyBody 11))
        (onlyConstructor (filledBody 11)) :=
      ⟨.constructorDeclaration, .constructorBody, rfl, .mk (fills_fill _ rfl)
        ⟨[.leaf .identifier 8 9, .node .formalParameters [.leaf .parenOpen 9 10,
          .leaf .parenClose 10 11]], [], rfl, rfl⟩⟩
    have hbody : e.InBody (onlyConstructor (emptyBody 11)) (onlyConstructor (filledBody 11))
        (onlyClass (emptyBody 11) 13) (onlyClass (filledBody 11) 14) := by
      refine @Edit.InBody.mk e _ _ .classDeclaration .classBody
        [.leaf .classWord 0 5, .leaf .identifier 6 7] [] _ _ rfl rfl ?_
        (.direct ⟨[.leaf .braceOpen 7 8], [.leaf .braceClose 13 14], rfl, rfl⟩)
      simp [Tree.isBody, Tree.phrase?]
    have hfile : e.InFile _ _ emptyClass.parts filledClass.parts :=
      ⟨_, _, .direct hbody, [], [], rfl, rfl⟩
    have hread : emptyClass.read none true = .ok (unit true _ none emptyClass.parts) := rfl
    have hread' : filledClass.read none true = .ok (unit true _ none filledClass.parts) := rfl
    obtain ⟨front, d, d', rear, h, h', heq, -⟩ :=
      (chunks_isolated hread hread' rfl rfl hfile {}).1 _ hmember
    exact ⟨_, _, front, d, d', rear, hread, hread', h, h', heq⟩
  · let e := Edit.fill "enum E\x7bA".toList
    have hconstant : e.ConstantRewritten (onlyConstant (emptyBody 8))
        (onlyConstant (filledBody 8)) :=
      .mk (fills_fill _ rfl) ⟨[.leaf .identifier 7 8], [], rfl, rfl⟩
    have hbody : e.InBody (onlyConstant (emptyBody 8)) (onlyConstant (filledBody 8))
        (onlyEnum (emptyBody 8) 10) (onlyEnum (filledBody 8) 11) := by
      refine @Edit.InBody.mk e _ _ .enumDeclaration .enumBody
        [.leaf .enumWord 0 4, .leaf .identifier 5 6] [] _ _ rfl rfl ?_
        (.direct ⟨[.leaf .braceOpen 6 7], [.leaf .braceClose 10 11], rfl, rfl⟩)
      simp [Tree.isBody, Tree.phrase?]
    have hfile : e.InFile _ _ emptyEnum.parts filledEnum.parts :=
      ⟨_, _, .direct hbody, [], [], rfl, rfl⟩
    have hread : emptyEnum.read none true = .ok (unit true _ none emptyEnum.parts) := rfl
    have hread' : filledEnum.read none true = .ok (unit true _ none filledEnum.parts) := rfl
    obtain ⟨cs, h, h'⟩ := (chunks_isolated hread hread' rfl rfl hfile {}).2 hconstant
    exact ⟨_, _, cs, hread, hread', h, h'⟩

end SourceShelf.Java
