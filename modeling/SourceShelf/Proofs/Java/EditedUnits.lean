import SourceShelf.Proofs.Java.EditedTypes
import SourceShelf.Proofs.Java.Units

/-!
# The unit of an edited text

The walk over the types of a file finds the same types in the two texts of an `Edit`.  A
tree outside of the piece has the same types in both (`SameSites.of_alike`), and the two
bodies have none.  Around the edited declaration the types are the same, too, but for the
one in whose body it stands (`Declared.apartSites`): all that the walk hands on from one
part to the next, the comment before it and the number of types before it, is the same.

* `InFile.apartSites`: the types of the two files.
* `packageOf_eq`, `imports_eq`: what the files have apart from types.
* `types_apart`: the types of the two units.
-/

namespace SourceShelf.Java.Edit

open Outline

variable {e : Edit} {c c' : Tree}

/-! ## The walk over the types -/

/-- The same type in both texts. -/
structure SameSite (e : Edit) (s s' : Site) : Prop where
  around : s'.around = s.around
  type : ∀ i nested, typeOf e.target i nested s' = typeOf e.source i nested s

/-- The type in whose body the edited declaration stands. -/
structure OddSite (e : Edit) (c c' : Tree) (s s' : Site) : Prop where
  kind : s'.kind = s.kind
  around : s'.around = s.around
  before : e.SameDoc s.before s'.before
  inBody : e.InBody c c' s.tree s'.tree
  apart : e.TypeApart c c' s.tree s'.tree

theorem OddSite.kin {s s' : Site} (h : e.OddSite c c' s s')
    (hodd : ∀ x y, e.OddPart c c' x y → e.SameState x y) : e.TypeKin s s' where
  kind := h.kind
  around := h.around
  before := h.before
  parts := h.apart.parts
  startLine := h.apart.startLine
  endLine := h.apart.endLine
  state := h.apart.members.forall₂ (fun _ _ hxy => hxy.state) hodd

/-- Where the edited declaration gives nothing but what it has in both texts, the type is
the same. -/
theorem OddSite.same {s s' : Site} (h : e.OddSite c c' s s')
    (hodd : ∀ x y, e.OddPart c c' x y → e.SameMember x y) : e.SameSite s s' where
  around := h.around
  type := typeOf_eq (h.kin fun x y hxy => (hodd x y hxy).toSameState)
    (h.apart.members.forall₂ (fun _ _ hxy => hxy.member) hodd)

theorem sameSite_of_alike {t t' : Tree} {b b' : Option Tree} (h : e.Alike t t')
    (hb : e.SameDoc b b') (kind : TypeKind) (around : Around) :
    e.SameSite ⟨t, kind, b, around⟩ ⟨t', kind, b', around⟩ := by
  have hmembers : List.Forall₂ e.SamePart (bodyMembers t) (bodyMembers t') := by
    have hbody : Option.Rel e.Alike (t.parts.find? (·.phrase?.any isBody))
        (t'.parts.find? (·.phrase?.any isBody)) :=
      rel_find? h.parts (fun x y hxy => by rw [hxy.phrase?]) fun x y hxy _ => hxy
    unfold bodyMembers
    revert hbody
    generalize t.parts.find? (·.phrase?.any isBody) = o
    generalize t'.parts.find? (·.phrase?.any isBody) = o'
    rintro (hxy | _)
    · exact bodyParts_alike hxy
    · exact .nil
  refine ⟨rfl, typeOf_eq ⟨rfl, rfl, hb, h.parts.imp fun _ _ => .alike, h.startLine, h.endLine, ?_⟩
    (hmembers.imp fun _ _ hxy => hxy.member)⟩
  exact hmembers.imp fun _ _ hxy => hxy.state

section Sites

variable {locals : Bool}

theorem sites_of_no_type {p : Phrase} (hp : typeKind? p = none) (around : Around)
    (b : Option Tree) (n : Nat) (ps : List Tree) :
    sites locals around b n (.node p ps) =
      sitesOf locals (fun _ => if isBody p then around.inBody else .elsewhere) none n ps := by
  rw [sites, hp]

/-- Parts in which the walk finds the same types. -/
structure SameSites (e : Edit) (locals : Bool) (t t' : Tree) : Prop where
  kin : e.Kin t t'
  sites : ∀ around b b' n, e.SameDoc b b' →
    List.Forall₂ e.SameSite (sites locals around b n t) (Outline.sites locals around b' n t')

/-- Parts in which the walk finds the same types but for one that `D` relates, if they
stand in what `around` tells. -/
structure ApartSites (e : Edit) (locals : Bool) (D : Site → Site → Prop)
    (around : Phrase → Around) (t t' : Tree) : Prop where
  kin : e.Kin t t'
  sites : ∀ b b' n, e.SameDoc b b' →
    OneApart e.SameSite D (sites locals (t.phrase?.elim .elsewhere around) b n t)
      (Outline.sites locals (t.phrase?.elim .elsewhere around) b' n t')

variable {ts ts' : List Tree} {around : Phrase → Around} {D : Site → Site → Prop}

theorem sitesOf_same (h : List.Forall₂ (e.SameSites locals) ts ts') (b b' : Option Tree) (n : Nat)
    (hb : e.SameDoc b b') :
    List.Forall₂ e.SameSite (sitesOf locals around b n ts) (sitesOf locals around b' n ts') := by
  induction h generalizing b b' n with
  | nil => exact .nil
  | @cons t t' ts ts' ht _ ih =>
    have hhere := ht.sites (t.phrase?.elim .elsewhere around) b b' n hb
    rw [sitesOf_cons, sitesOf_cons, ht.kin.phrase?, ← hhere.length_eq]
    exact List.rel_append hhere (ih _ _ _ (hb.next ht.kin))

theorem sitesOf_apart
    (h : OneApart (e.SameSites locals) (e.ApartSites locals D around) ts ts') (b b' : Option Tree)
    (n : Nat) (hb : e.SameDoc b b') :
    OneApart e.SameSite D (sitesOf locals around b n ts) (sitesOf locals around b' n ts') := by
  induction h generalizing b b' n with
  | here ht hts =>
    have hhere := ht.sites b b' n hb
    rw [sitesOf_cons, sitesOf_cons, ht.kin.phrase?, ← hhere.length_eq]
    exact hhere.append_right (sitesOf_same hts _ _ _ (hb.next ht.kin))
  | @there t t' ts ts' ht _ ih =>
    have hhere := ht.sites (t.phrase?.elim .elsewhere around) b b' n hb
    rw [sitesOf_cons, sitesOf_cons, ht.kin.phrase?, ← hhere.length_eq]
    exact OneApart.append_left hhere (ih _ _ _ (hb.next ht.kin))

mutual

/-- The walk over trees outside of the piece. -/
theorem SameSites.of_alike (t t' : Tree) (h : e.Alike t t') : e.SameSites locals t t' := by
  refine ⟨.alike h, fun around b b' n hb => ?_⟩
  match t, h with
  | .leaf .., h =>
    obtain rfl := h.eq
    exact .nil
  | .missing .., h =>
    obtain rfl := h.eq
    exact .nil
  | .junk .., h =>
    obtain rfl := h.eq
    exact .nil
  | .error ps, h =>
    have hparts := sameSites_of_alike ps _ h.parts
    obtain rfl := h.eq
    exact sitesOf_same hparts none none n .none
  | .node p ps, h =>
    have hparts := sameSites_of_alike ps _ h.parts
    have hsite := sameSite_of_alike h hb
    obtain rfl := h.eq
    cases hkind : typeKind? p with
    | none =>
      rw [move, Tree.mapPlaces, sites_of_no_type hkind, sites_of_no_type hkind]
      exact sitesOf_same hparts none none n .none
    | some kind =>
      rw [move, Tree.mapPlaces, Outline.sites, Outline.sites, hkind]
      dsimp only
      split
      · exact .nil
      · exact .cons (hsite kind around) (sitesOf_same hparts none none (n + 1) .none)

theorem sameSites_of_alike (ts ts' : List Tree) (h : List.Forall₂ e.Alike ts ts') :
    List.Forall₂ (e.SameSites locals) ts ts' := by
  match ts, ts', h with
  | [], _, .nil => exact .nil
  | t :: ts, t' :: ts', .cons ht hts =>
    exact .cons (SameSites.of_alike t t' ht) (sameSites_of_alike ts ts' hts)

end

mutual

/-- The walk over a tree that declares no type. -/
theorem sites_of_typeless (t : Tree) (above : List (Nat × Tree)) (i : Nat)
    (h : ∀ s ∈ t.spots above i, s.tree.isType = false) (around : Around) (b : Option Tree)
    (n : Nat) : sites locals around b n t = [] := by
  match t, h with
  | .leaf .., _ => rfl
  | .missing .., _ => rfl
  | .junk .., _ => rfl
  | .error ps, h =>
    exact sitesOf_of_typeless ps _ 0 (fun s hs => h s (List.mem_cons_of_mem _ hs)) _ none n
  | .node p ps, h =>
    have hp : typeKind? p = none := by
      simpa using h _ List.mem_cons_self
    rw [sites_of_no_type hp]
    exact sitesOf_of_typeless ps _ 0 (fun s hs => h s (List.mem_cons_of_mem _ hs)) _ none n

theorem sitesOf_of_typeless (ts : List Tree) (above : List (Nat × Tree)) (i : Nat)
    (h : ∀ s ∈ Tree.spotsOf above i ts, s.tree.isType = false) (around : Phrase → Around)
    (b : Option Tree) (n : Nat) : sitesOf locals around b n ts = [] := by
  match ts, h with
  | [], _ => rfl
  | t :: ts, h =>
    rw [sitesOf_cons, sites_of_typeless t above i fun s hs => h s (List.mem_append_left _ hs),
      sitesOf_of_typeless ts above (i + 1) fun s hs => h s (List.mem_append_right _ hs)]
    rfl

end

/-! ## The types around the edited declaration -/

/-- The walk over a declaration that has another body.  Neither body declares a type. -/
theorem Rewritten.sameSites {p q : Phrase} (h : e.Rewritten p q c c') (hp : typeKind? p = none)
    (hholds : holdsBody p = true) (hbody : holdsBody q = true)
    (horder : Tree.InOrder c.leaves) : e.SameSites locals c c' := by
  cases h with
  | @mk bs bs' ps ps' hfills h =>
    have hparts : List.Forall₂ (e.SameSites locals) ps ps' := by
      refine h.forall₂ hfills.spans horder SameSites.of_alike ?_
      refine ⟨.around hbody, fun around b b' n _ => ?_⟩
      rw [sites_of_typeless _ [] 0 hfills.typeless, sites_of_typeless _ [] 0 hfills.typeless']
      exact .nil
    refine ⟨.around hholds, fun around b b' n _ => ?_⟩
    rw [sites_of_no_type hp, sites_of_no_type hp]
    exact sitesOf_same hparts none none n .none

theorem Among.sameSites (h : e.Among c c' ts ts') (hc : e.Spans c c')
    (hsites : e.SameSites locals c c') (horder : Tree.InOrder (Tree.leavesOf ts)) :
    List.Forall₂ (e.SameSites locals) ts ts' := by
  cases h with
  | direct h => exact h.forall₂ hc horder SameSites.of_alike hsites
  | behindConstants h hbehind =>
    have hinner := horder.sublist hbehind.leaves_sublist
    have hparts := h.forall₂ hc hinner SameSites.of_alike hsites
    refine hbehind.forall₂ (h.spans hc hinner _) horder SameSites.of_alike ?_
    refine ⟨.around rfl, fun around b b' n _ => ?_⟩
    rw [sites_of_no_type rfl, sites_of_no_type rfl]
    exact sitesOf_same hparts none none n .none

theorem Among.apartSites (h : e.Among c c' ts ts') (hc : e.Spans c c') {i : Nat}
    (hsites : e.ApartSites locals D (fun _ => .body i) c c')
    (horder : Tree.InOrder (Tree.leavesOf ts)) :
    OneApart (e.SameSites locals) (e.ApartSites locals D fun _ => .body i) ts ts' := by
  cases h with
  | direct h => exact h.oneApart hc horder SameSites.of_alike hsites
  | behindConstants h hbehind =>
    have hinner := horder.sublist hbehind.leaves_sublist
    have hparts : OneApart (e.SameSites locals) _ _ _ :=
      h.oneApart hc hinner SameSites.of_alike hsites
    refine hbehind.oneApart (h.spans hc hinner _) horder SameSites.of_alike ?_
    refine ⟨.around rfl, fun b b' n _ => ?_⟩
    rw [sites_of_no_type rfl, sites_of_no_type rfl]
    exact sitesOf_apart hparts none none n .none

theorem sites_of_type {p : Phrase} {kind : TypeKind} (hp : typeKind? p = some kind)
    {a : Around} (ha : a ≠ .elsewhere) (b : Option Tree) (n : Nat) (ps : List Tree) :
    sites locals a b n (.node p ps) = ⟨.node p ps, kind, b, a⟩ ::
      sitesOf locals (fun q => if isBody q then .body n else .elsewhere) none (n + 1) ps := by
  rw [sites, hp]
  dsimp only
  rw [if_neg (by simp [ha])]

theorem typeKind?_of_isBody {q : Phrase} (h : isBody q = true) : typeKind? q = none := by
  cases q <;> first | rfl | cases h

/-- The type in whose body the edited declaration stands. -/
theorem InBody.oddSites {p : Phrase} {cs cs' : List Tree} {t t' : Tree}
    (h : e.InBody (.node p cs) (.node p cs') t t') (hp : holdsBody p = true)
    (hbehind : p ≠ .enumBodyDeclarations) (hc : e.Spans (.node p cs) (.node p cs'))
    (hsites : e.SameSites locals (.node p cs) (.node p cs')) (horder : Tree.InOrder t.leaves)
    {a : Around} (ha : a ≠ .elsewhere) :
    e.ApartSites locals (e.OddSite (.node p cs) (.node p cs')) (fun _ => a) t t' := by
  have hapart := h.typeApart hp hbehind hc horder
  obtain ⟨r, q, ps, ps', bs, bs', rfl, rfl, hr, hq, hbody, hamong⟩ := h.inv
  obtain ⟨kind, hkind⟩ := Option.isSome_iff_exists.mp hr
  have hinner := horder.sublist hbody.leaves_sublist
  have hparts : List.Forall₂ (e.SameSites locals) ps ps' := by
    refine hbody.forall₂ (hamong.spans hc hinner q) horder SameSites.of_alike ?_
    refine ⟨.around (holdsBody_of_isBody hq), fun around b b' n _ => ?_⟩
    rw [sites_of_no_type (typeKind?_of_isBody hq), sites_of_no_type (typeKind?_of_isBody hq)]
    exact sitesOf_same (hamong.sameSites hc hsites hinner) none none n .none
  refine ⟨.around (holdsBody_of_type hr).1, fun b b' n hb => ?_⟩
  show OneApart _ _ (sites locals a b n _) (sites locals a b' n _)
  rw [sites_of_type hkind ha, sites_of_type hkind ha]
  exact .here ⟨rfl, rfl, hb, h, hapart⟩ (sitesOf_same hparts none none (n + 1) .none)

/-- The types around the type in whose body the edited declaration stands. -/
theorem InBody.apartSites {p : Phrase} {cs cs' : List Tree} {t t' : Tree}
    (h : e.InBody (.node p cs) (.node p cs') t t') (hp : (typeKind? p).isSome = true)
    (hc : e.Spans (.node p cs) (.node p cs'))
    (hsites : ∀ a, a ≠ .elsewhere → e.ApartSites locals D (fun _ => a) (.node p cs) (.node p cs'))
    (horder : Tree.InOrder t.leaves) {a : Around} (ha : a ≠ .elsewhere) :
    e.ApartSites locals D (fun _ => a) t t' := by
  have hapart := h.typeApart (holdsBody_of_type hp).1 (holdsBody_of_type hp).2 hc horder
  obtain ⟨r, q, ps, ps', bs, bs', rfl, rfl, hr, hq, hbody, hamong⟩ := h.inv
  obtain ⟨kind, hkind⟩ := Option.isSome_iff_exists.mp hr
  have hinner := horder.sublist hbody.leaves_sublist
  refine ⟨.around (holdsBody_of_type hr).1, fun b b' n hb => ?_⟩
  have hparts : OneApart (e.SameSites locals)
      (e.ApartSites locals D fun q => if isBody q then .body n else .elsewhere) ps ps' := by
    refine hbody.oneApart (hamong.spans hc hinner q) horder SameSites.of_alike ?_
    refine ⟨.around (holdsBody_of_isBody hq), fun b b' m _ => ?_⟩
    show OneApart _ _ (sites locals (if isBody q then .body n else .elsewhere) b m _)
      (sites locals (if isBody q then .body n else .elsewhere) b' m _)
    rw [sites_of_no_type (typeKind?_of_isBody hq), sites_of_no_type (typeKind?_of_isBody hq), hq]
    exact sitesOf_apart (hamong.apartSites hc (hsites _ Around.noConfusion) hinner) none none m
      .none
  show OneApart _ _ (sites locals a b n _) (sites locals a b' n _)
  rw [sites_of_type hkind ha, sites_of_type hkind ha]
  have hodd : e.OddSite (.node p cs) (.node p cs') ⟨.node r ps, kind, b, a⟩
      ⟨.node r ps', kind, b', a⟩ := ⟨rfl, rfl, hb, h, hapart⟩
  exact .there (hodd.same fun x y hxy => hxy.member_of_type hp)
    (sitesOf_apart hparts none none (n + 1) .none)

/-- The types around the edited declaration.  The induction goes out from the type in
whose body it stands: there alone a type differs. -/
theorem Declared.apartSites {p : Phrase} {cs cs' : List Tree} {t t' : Tree}
    (h : e.Declared (.node p cs) (.node p cs') t t') (hp : holdsBody p = true)
    (hbehind : p ≠ .enumBodyDeclarations) (hc : e.Spans (.node p cs) (.node p cs'))
    (hsites : e.SameSites locals (.node p cs) (.node p cs')) (horder : Tree.InOrder t.leaves)
    {a : Around} (ha : a ≠ .elsewhere) :
    e.ApartSites locals (e.OddSite (.node p cs) (.node p cs')) (fun _ => a) t t' := by
  induction h generalizing a with
  | direct h => exact h.oddSites hp hbehind hc hsites horder ha
  | @nested t t' o o' h ho ih =>
    have hinner := horder.sublist ho.leaves_sublist
    have hspans := h.spans hc hinner
    obtain ⟨r, ps, ps', rfl, rfl, hr⟩ := h.isType
    exact ho.apartSites hr hspans (fun a ha => ih hinner ha) horder ha

theorem InFile.apartSites {p : Phrase} {cs cs' : List Tree}
    (h : e.InFile (.node p cs) (.node p cs') ts ts') (hp : holdsBody p = true)
    (hbehind : p ≠ .enumBodyDeclarations) (hc : e.Spans (.node p cs) (.node p cs'))
    (hsites : e.SameSites locals (.node p cs) (.node p cs'))
    (horder : Tree.InOrder (Tree.leavesOf ts)) :
    OneApart e.SameSite (e.OddSite (.node p cs) (.node p cs')) (fileSites locals ts)
      (fileSites locals ts') := by
  obtain ⟨t, t', h, hfile⟩ := h
  have hinner := horder.sublist hfile.leaves_sublist
  have hodd := h.apartSites hp hbehind hc hsites hinner (a := .file) Around.noConfusion
  exact sitesOf_apart (hfile.oneApart (h.spans hc hinner) horder SameSites.of_alike hodd)
    none none 0 .none

theorem InFile.leaves_sublist (h : e.InFile c c' ts ts') :
    c.leaves.Sublist (Tree.leavesOf ts) := by
  obtain ⟨t, t', h, hfile⟩ := h
  exact h.leaves_sublist.trans hfile.leaves_sublist

theorem InFile.kin (h : e.InFile c c' ts ts') (hc : e.Spans c c')
    (horder : Tree.InOrder (Tree.leavesOf ts)) : List.Forall₂ e.Kin ts ts' := by
  obtain ⟨t, t', h, hfile⟩ := h
  have hinner := horder.sublist hfile.leaves_sublist
  refine hfile.forall₂ (h.spans hc hinner) horder (fun _ _ => .alike) ?_
  obtain ⟨r, ps, ps', rfl, rfl, hr⟩ := h.isType
  exact .around (holdsBody_of_type hr).1

end Sites

/-! ## Units -/

theorem rel_dottedName? {t t' : Tree} (h : e.Alike t t') :
    Option.Rel e.Alike (dottedName? t) (dottedName? t') :=
  rel_find? h.parts (fun x y hxy => by rw [hxy.isWord, hxy.isPhrase]) fun _ _ hxy _ => hxy

theorem importOf_eq {t t' : Tree} (h : e.Alike t t') :
    importOf e.target t' = importOf e.source t := by
  have hany : ∀ {test : Tree → Bool}, (∀ x y, e.Alike x y → test y = test x) →
      t'.parts.any test = t.parts.any test := by
    intro test htest
    have hmap := congrArg (·.any id) (map_eq_of_forall₂ h.parts htest)
    simpa [List.any_map] using hmap
  have hpath := elim_eq (f := fun n => removeBlanks (textOf e.source n))
    (g := fun n => removeBlanks (textOf e.target n)) (rel_dottedName? h)
    (fun x y hxy => by rw [hxy.textOf]) ""
  unfold importOf
  rw [hpath, h.textOf, hany fun x y hxy => hxy.isWord _, hany fun x y hxy => hxy.isPhrase _]

variable {ts ts' : List Tree}

theorem imports_eq (h : List.Forall₂ e.Kin ts ts') :
    (ts'.filter (·.isPhrase .importDeclaration)).map (importOf e.target) =
      (ts.filter (·.isPhrase .importDeclaration)).map (importOf e.source) :=
  map_filter_eq h (fun _ _ hxy => hxy.isPhrase _) fun _ _ hxy hx =>
    importOf_eq (hxy.alike_of_isPhrase rfl hx)

theorem packageOf_eq (h : List.Forall₂ e.Kin ts ts') :
    packageOf e.target ts' = packageOf e.source ts := by
  have hdeclarations := rel_filter_of h (fun _ _ hxy => hxy.isPhrase .packageDeclaration)
    fun _ _ hxy hx => hxy.alike_of_isPhrase rfl hx
  have hnames : List.Forall₂ e.Alike _ _ :=
    List.rel_filterMap (fun _ _ hxy => rel_dottedName? hxy) hdeclarations
  have htexts := map_eq_of_forall₂ hnames fun _ _ hxy => hxy.textOf
  have helim : ∀ (chars : List Char) (names : List Tree),
      names.getLast?.elim "" (fun n => removeBlanks (textOf chars n)) =
        (names.map (textOf chars)).getLast?.elim "" removeBlanks := by
    intro chars names
    rw [List.getLast?_map, Option.elim_map]
    rfl
  unfold packageOf
  dsimp only
  rw [helim, helim, htexts]

/-- The types in the body of the one at position `i`. -/
def nestedIn (sites : List Site) (i : Nat) : List Nat :=
  (sites.zipIdx.filter fun n => n.1.around.parent = some i).map Prod.snd

/-- What is made in the two units of the type in whose body the edited declaration
stands, and where. -/
structure OddType (e : Edit) (c c' : Tree) (sites sites' : List Site) (i : Nat)
    (t t' : TypeDeclaration) : Prop where
  exists_sites : ∃ s s', sites[i]? = some s ∧ sites'[i]? = some s' ∧ e.OddSite c c' s s' ∧
    t = typeOf e.source i (nestedIn sites i) s ∧ t' = typeOf e.target i (nestedIn sites i) s'

section Unit

variable {locals : Bool} {text text' : String} (path path' : Option String)

theorem types_eq : (unit locals text path ts).types =
    (fileSites locals ts).zipIdx.map fun x =>
      typeOf text.toList x.2 (nestedIn (fileSites locals ts) x.2) x.1 := rfl

theorem types_apart (hsource : text.toList = e.source) (htarget : text'.toList = e.target)
    (h : OneApart e.SameSite (e.OddSite c c') (fileSites locals ts) (fileSites locals ts')) :
    OneApart Eq (fun t t' => ∃ i, (unit locals text path ts).types[i]? = some t ∧
        (unit locals text' path' ts').types[i]? = some t' ∧
        e.OddType c c' (fileSites locals ts) (fileSites locals ts') i t t')
      (unit locals text path ts).types (unit locals text' path' ts').types := by
  have harounds : List.Forall₂ (fun x y => y.1.around = x.1.around ∧ y.2 = x.2)
      (fileSites locals ts).zipIdx (fileSites locals ts').zipIdx :=
    (h.zipIdx 0).forall₂ (fun _ _ hxy => ⟨hxy.1.around, hxy.2⟩)
      fun _ _ hxy => ⟨hxy.1.around, hxy.2⟩
  have hnested : ∀ i, nestedIn (fileSites locals ts') i = nestedIn (fileSites locals ts) i :=
    fun i => map_filter_eq harounds (fun x y hxy => by rw [hxy.1]) fun x y hxy _ => hxy.2
  rw [types_eq, types_eq, hsource, htarget]
  refine (h.zipIdx 0).and_mem.map ?_ ?_
  · rintro ⟨s, i⟩ ⟨s', j⟩ ⟨hs, rfl⟩
    dsimp only
    rw [hnested, hs.type]
  · rintro ⟨s, i⟩ ⟨s', j⟩ ⟨⟨hs, rfl⟩, hmem, hmem'⟩
    have hi : (fileSites locals ts)[j]? = some s := by
      simpa using List.mem_zipIdx_iff_getElem?.mp hmem
    have hi' : (fileSites locals ts')[j]? = some s' := by
      simpa using List.mem_zipIdx_iff_getElem?.mp hmem'
    refine ⟨j, ?_, ?_, ⟨s, s', hi, hi', hs, rfl, ?_⟩⟩
    · rw [List.getElem?_map, List.getElem?_zipIdx, hi]
      simp
    · rw [List.getElem?_map, List.getElem?_zipIdx, hi']
      simp
    · rw [← hnested]

end Unit

end SourceShelf.Java.Edit
