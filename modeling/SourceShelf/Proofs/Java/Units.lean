import SourceShelf.Proofs.Java.Ladders
import SourceShelf.Proofs.Java.Places
import Mathlib.Data.List.Induction

/-!
# Units are well formed

The types of a unit refer to each other by numbers.  `CompilationUnit.WellFormed` says
what these numbers mean for the tree of the text: the types are those of the tree in
the order of the text, the parent of a type is the type in whose body it stands, and
the nested types and those of the file itself are listed as the tree has them.

`wellFormed_of_parse` proves it of every text that can be read, with and without local
types.  There are three groups.

* Numbers: what `Outline.unit` makes of the sites that `fileSites_fit` matches with the
  spots of the tree.
* Places: types start one behind the other and lie inside each other as the tree has
  it, from `Tree.spotsOf_ascending` and `Tree.spotsOf_within`.
* Names: `names_eq` follows the parents of a type, each of which stands
  before it, along `Spot.enclosers`.
-/

namespace SourceShelf.Java

/-! ## The types around a spot -/

namespace Spot

/-- The types in whose bodies something stands, innermost first, by the trees around
it.  The walk goes out through bodies and types in turn and stops at the first tree
that is neither; `inBody` tells that it is in a body. -/
def enclosersIn (inBody : Bool) : List (Nat × Tree) → List Spot
  | [] => []
  | (i, t) :: above =>
    if t.isBody then enclosersIn true above
    else if inBody && t.isType then ⟨t, i, above⟩ :: enclosersIn false above
    else []

/-- The types in whose bodies a tree stands, innermost first. -/
def enclosers (s : Spot) : List Spot := enclosersIn false s.above

/-- The simple name of a type. -/
def name (chars : List Char) (s : Spot) : String :=
  (Outline.identifier? s.tree).elim "" (Outline.textOf chars)

/-- The names of the types in whose bodies a type stands, outermost first, and its
own. -/
def names (chars : List Char) (s : Spot) : List String :=
  (s :: s.enclosers).reverse.map (name chars)

theorem enclosersIn_true (above : List (Nat × Tree)) :
    enclosersIn true above = (owner? above).elim [] fun o => o :: o.enclosers := by
  induction above with
  | nil => rfl
  | cons x above ih =>
    obtain ⟨i, t⟩ := x
    unfold enclosersIn owner?
    split
    · exact ih
    · rw [Bool.true_and]
      split <;> rfl

/-- The types around a spot are the first of them and those around it. -/
theorem enclosers_eq (s : Spot) :
    s.enclosers = s.encloser?.elim [] fun o => o :: o.enclosers := by
  obtain ⟨t, i, above⟩ := s
  cases above with
  | nil => rfl
  | cons x above =>
    obtain ⟨j, b⟩ := x
    show enclosersIn false _ = (if b.isBody then owner? above else none).elim _ _
    unfold enclosersIn
    split
    · exact enclosersIn_true above
    · rfl

theorem names_of_encloser (chars : List Char) {s o : Spot} (h : s.encloser? = some o) :
    s.names chars = o.names chars ++ [s.name chars] := by
  rw [names, enclosers_eq, h, names]
  simp

theorem names_of_no_encloser (chars : List Char) {s : Spot} (h : s.encloser? = none) :
    s.names chars = [s.name chars] := by
  rw [names, enclosers_eq, h]
  rfl

theorem mem_above_of_owner {above : List (Nat × Tree)} {o : Spot} (h : owner? above = some o) :
    (o.position, o.tree) ∈ above ∧ o.tree.isType = true := by
  induction above with
  | nil => cases h
  | cons x above ih =>
    obtain ⟨i, t⟩ := x
    unfold owner? at h
    split at h
    · obtain ⟨hmem, htype⟩ := ih h
      exact ⟨List.mem_cons_of_mem _ hmem, htype⟩
    · split at h
      · obtain rfl := Option.some.inj h
        exact ⟨List.mem_cons_self, ‹_›⟩
      · cases h

/-- The type in whose body something stands is one of the trees around it. -/
theorem mem_above_of_encloser {s o : Spot} (h : s.encloser? = some o) :
    (o.position, o.tree) ∈ s.above := by
  unfold encloser? at h
  cases habove : s.above with
  | nil =>
    rw [habove] at h
    cases h
  | cons x above =>
    obtain ⟨i, b⟩ := x
    rw [habove] at h
    have h : (if b.isBody then owner? above else none) = some o := h
    split at h
    · exact List.mem_cons_of_mem _ (mem_above_of_owner h).1
    · cases h

end Spot

/-! ## Well-formed units -/

/-- A type has the kind, the name and the lines of the tree that declares it. -/
structure TypeDeclaration.StandsAt (t : TypeDeclaration) (chars : List Char) (s : Spot) :
    Prop where
  kind : s.tree.phrase?.bind Outline.typeKind? = some t.kind
  name : t.name = s.name chars
  startLine : t.startLine = Outline.lineOf chars s.tree.start
  endLine : t.endLine = Outline.lineOf chars s.tree.stop

namespace CompilationUnit

/-- The parent of the type at a position. -/
def parentAt? (u : CompilationUnit) (i : Nat) : Option Int := u.types[i]?.bind (·.parent)

/-- The types of a unit are those at some spots of the tree of its text, and their
numbers mean what the tree has. -/
structure WellFormed (u : CompilationUnit) (text : String) (spots : List Spot) : Prop where
  /-- There is one type for each spot, in the same order. -/
  length : u.types.length = spots.length
  standsAt : ∀ (i : Nat) (t : TypeDeclaration) (s : Spot), u.types[i]? = some t →
    spots[i]? = some s → t.StandsAt text.toList s
  index : ∀ (i : Nat) (t : TypeDeclaration), u.types[i]? = some t → t.index = i
  /-- A parent comes before its type, and is the type in whose body it stands. -/
  parent : ∀ (i : Nat) (t : TypeDeclaration) (s : Spot) (p : Int), u.types[i]? = some t →
    spots[i]? = some s → t.parent = some p →
    ∃ k o, p = Int.ofNat k ∧ k < i ∧ spots[k]? = some o ∧ s.encloser? = some o
  noParent : ∀ (i : Nat) (t : TypeDeclaration) (s : Spot), u.types[i]? = some t →
    spots[i]? = some s → t.parent = none → s.encloser? = none
  /-- The nested types of a type are those that have it as their parent, ascending. -/
  nested : ∀ (i : Nat) (t : TypeDeclaration), u.types[i]? = some t →
    t.nested = (List.range u.types.length).filter fun j => u.parentAt? j = some (Int.ofNat i)
  /-- The types of the file are those with nothing around them, ascending. -/
  topLevel : u.topLevel = (List.range spots.length).filter fun i =>
    spots[i]?.any (·.above.isEmpty)
  topLevel_parent : ∀ i ∈ u.topLevel, ∃ t, u.types[i]? = some t ∧ t.parent = none
  /-- The types stand in the order of the text. -/
  ascending : spots.Pairwise fun s s' => s.tree.start < s'.tree.start
  startLines : u.types.Pairwise fun t t' => t.startLine ≤ t'.startLine
  /-- The lines of a type contain those of its nested types. -/
  contains : ∀ (i j : Nat) (t n : TypeDeclaration), u.types[i]? = some t → j ∈ t.nested →
    u.types[j]? = some n → t.startLine ≤ n.startLine ∧ n.endLine ≤ t.endLine
  owner : ∀ (i : Nat) (t : TypeDeclaration), u.types[i]? = some t →
    ∀ m ∈ t.methods ++ t.constructors, m.owner = i
  /-- The qualified name is the names of the types around a type and its own. -/
  qualifiedName : ∀ (i : Nat) (t : TypeDeclaration) (s : Spot), u.types[i]? = some t →
    spots[i]? = some s → u.qualifiedName t = .ok (".".intercalate (s.names text.toList))

/-- A position that is not negative counts from the front. -/
theorem type?_ofNat {u : CompilationUnit} {i : Nat} {t : TypeDeclaration}
    (ht : u.types[i]? = some t) : u.type? (Int.ofNat i) = .ok t := by
  unfold type?
  have hneg : ¬ Int.ofNat i < 0 := by simp
  have hnat : (Int.ofNat i).toNat = i := rfl
  rw [if_neg hneg, if_neg hneg, hnat, ht]

end CompilationUnit

namespace Outline

variable {locals : Bool} {text : String} {path : Option String} {parts : List Tree}

/-! ## Numbers -/

/-- The positions at which a list has what satisfies a test. -/
theorem zipIdx_filter_map_snd {α : Type} (l : List α) (test : α → Bool) :
    (l.zipIdx.filter fun x => test x.1).map Prod.snd =
      (List.range l.length).filter fun i => l[i]?.any test := by
  induction l using List.reverseRecOn with
  | nil => rfl
  | append_singleton l x ih =>
    rw [List.zipIdx_append, List.filter_append, List.map_append, ih, List.length_append,
      List.length_singleton, List.range_succ, List.filter_append]
    congr 1
    · refine List.filter_congr fun i hi => ?_
      rw [List.getElem?_append_left (List.mem_range.mp hi)]
    · rw [List.zipIdx_singleton, List.filter_singleton, List.filter_singleton,
        List.getElem?_concat_length, Option.any_some, Nat.zero_add]
      cases test x <;> rfl

theorem getElem?_types (i : Nat) :
    (unit locals text path parts).types[i]? = (fileSites locals parts)[i]?.map fun s =>
      typeOf text.toList i (((fileSites locals parts).zipIdx.filter fun n =>
        n.1.around.parent = some i).map Prod.snd) s := by
  unfold unit
  dsimp only
  rw [List.getElem?_map, List.getElem?_zipIdx, Option.map_map, Nat.zero_add]
  rfl

/-- What is found at a position: the site, the type that is made of it, and the spot. -/
theorem exists_site {i : Nat} {t : TypeDeclaration} {s : Spot}
    (ht : (unit locals text path parts).types[i]? = some t)
    (hs : (typeSpots locals parts)[i]? = some s) :
    ∃ site, (fileSites locals parts)[i]? = some site ∧
      Site.Fits (typeSpots locals parts) (site, i) s ∧
      t = typeOf text.toList i (((fileSites locals parts).zipIdx.filter fun n =>
        n.1.around.parent = some i).map Prod.snd) site := by
  rw [getElem?_types] at ht
  obtain ⟨site, hsite, rfl⟩ := Option.map_eq_some_iff.mp ht
  refine ⟨site, hsite, ?_, rfl⟩
  obtain ⟨hi, rfl⟩ := List.getElem?_eq_some_iff.mp hsite
  obtain ⟨hi', rfl⟩ := List.getElem?_eq_some_iff.mp hs
  have hfits := (fileSites_fit locals parts).get (i := i) (by simpa using hi) hi'
  simpa using hfits

theorem length_types : (unit locals text path parts).types.length =
    (typeSpots locals parts).length := by
  have hlength := (fileSites_fit locals parts).length_eq
  rw [← hlength]
  simp [unit]

theorem parentAt?_eq (i : Nat) : (unit locals text path parts).parentAt? i =
    (fileSites locals parts)[i]?.bind fun s => s.around.parent.map Int.ofNat := by
  unfold CompilationUnit.parentAt?
  rw [getElem?_types]
  cases (fileSites locals parts)[i]? <;> rfl

theorem nested_eq {i : Nat} {t : TypeDeclaration}
    (ht : (unit locals text path parts).types[i]? = some t) :
    t.nested = (List.range (unit locals text path parts).types.length).filter fun j =>
      (unit locals text path parts).parentAt? j = some (Int.ofNat i) := by
  rw [getElem?_types] at ht
  obtain ⟨site, -, rfl⟩ := Option.map_eq_some_iff.mp ht
  show (((fileSites locals parts).zipIdx.filter fun n =>
    decide (n.1.around.parent = some i)).map Prod.snd) = _
  rw [zipIdx_filter_map_snd (fileSites locals parts) fun s : Site =>
    decide (s.around.parent = some i)]
  have hlength : (unit locals text path parts).types.length = (fileSites locals parts).length := by
    simp [unit]
  rw [hlength]
  refine List.filter_congr fun j _ => ?_
  rw [parentAt?_eq]
  cases (fileSites locals parts)[j]? with
  | none => rfl
  | some site =>
    rw [Option.any_some, Option.bind_some]
    cases site.around.parent with
    | none => rfl
    | some k =>
      show decide (some k = some i) = decide (some (Int.ofNat k) = some (Int.ofNat i))
      simp only [Option.some.injEq, Int.ofNat.injEq]

/-- A site is in the file itself where nothing is around it. -/
theorem Site.Fits.around_eq_file {types : List Spot} {site : Site × Nat} {s : Spot}
    (h : Site.Fits types site s) : site.1.around = .file ↔ s.above = [] := by
  have hagrees := h.around
  cases haround : site.1.around with
  | file =>
    rw [haround] at hagrees
    exact ⟨fun _ => hagrees, fun _ => rfl⟩
  | body k =>
    rw [haround] at hagrees
    obtain ⟨-, o, ho, -⟩ := hagrees
    refine ⟨fun hfile => Around.noConfusion hfile, fun habove => ?_⟩
    rw [habove] at ho
    cases ho
  | elsewhere =>
    rw [haround] at hagrees
    exact ⟨fun hfile => Around.noConfusion hfile, fun habove => absurd habove hagrees.1⟩

theorem topLevel_eq : (unit locals text path parts).topLevel =
    (List.range (typeSpots locals parts).length).filter fun i =>
      (typeSpots locals parts)[i]?.any (·.above.isEmpty) := by
  show (((fileSites locals parts).zipIdx.filter fun n =>
    decide (n.1.around = .file)).map Prod.snd) = _
  have hfits := fileSites_fit locals parts
  have hlength : (fileSites locals parts).length = (typeSpots locals parts).length := by
    rw [← hfits.length_eq, List.length_zipIdx]
  rw [zipIdx_filter_map_snd (fileSites locals parts) fun s : Site => decide (s.around = .file),
    hlength]
  refine List.filter_congr fun i hi => ?_
  have hi := List.mem_range.mp hi
  have hi' : i < (fileSites locals parts).length := hlength ▸ hi
  have hfit := hfits.get (i := i) (by simpa using hi') hi
  rw [List.getElem?_eq_getElem hi, List.getElem?_eq_getElem hi', Option.any_some, Option.any_some]
  have hiff := hfit.around_eq_file
  simp only [List.get_eq_getElem, List.getElem_zipIdx, Nat.zero_add] at hiff
  rw [Bool.eq_iff_iff, decide_eq_true_iff, List.isEmpty_iff]
  exact hiff

/-- A type of the file itself has no parent. -/
theorem no_parent_of_topLevel {i : Nat} (hi : i ∈ (unit locals text path parts).topLevel) :
    ∃ t, (unit locals text path parts).types[i]? = some t ∧ t.parent = none := by
  obtain ⟨⟨site, j⟩, hmem, rfl⟩ := List.mem_map.mp hi
  obtain ⟨hmem, hfile⟩ := List.mem_filter.mp hmem
  have hsite : (fileSites locals parts)[j]? = some site := by
    simpa using List.mem_zipIdx_iff_getElem?.mp hmem
  have hfile : site.around = .file := by simpa using hfile
  rw [getElem?_types, hsite]
  refine ⟨_, rfl, ?_⟩
  show site.around.parent.map Int.ofNat = none
  rw [hfile]
  rfl

/-- The parent of a type is the type in whose body it stands, and comes before it. -/
theorem parent_spec {i : Nat} {t : TypeDeclaration} {s : Spot}
    (ht : (unit locals text path parts).types[i]? = some t)
    (hs : (typeSpots locals parts)[i]? = some s) :
    (∃ k o, t.parent = some (Int.ofNat k) ∧ k < i ∧ (typeSpots locals parts)[k]? = some o ∧
      s.encloser? = some o) ∨ t.parent = none ∧ s.encloser? = none := by
  obtain ⟨site, -, hfits, rfl⟩ := exists_site ht hs
  have hagrees := hfits.around
  unfold typeOf
  dsimp only at hagrees ⊢
  cases haround : site.around with
  | file =>
    rw [haround] at hagrees
    have habove : s.above = [] := hagrees
    refine .inr ⟨rfl, ?_⟩
    rw [Spot.encloser?, habove]
    rfl
  | body k =>
    rw [haround] at hagrees
    obtain ⟨hk, o, ho, hspot⟩ := hagrees
    exact .inl ⟨k, o, rfl, hk, hspot, ho⟩
  | elsewhere =>
    rw [haround] at hagrees
    exact .inr ⟨rfl, hagrees.2⟩

theorem standsAt_of_unit {i : Nat} {t : TypeDeclaration} {s : Spot}
    (ht : (unit locals text path parts).types[i]? = some t)
    (hs : (typeSpots locals parts)[i]? = some s) : t.StandsAt text.toList s := by
  obtain ⟨site, -, hfits, rfl⟩ := exists_site ht hs
  have htree : site.tree = s.tree := hfits.tree
  constructor
  · exact hfits.kind
  · show (identifier? site.tree).elim "" (textOf text.toList) = s.name text.toList
    rw [htree]
    rfl
  · show ((lineOf text.toList site.tree.start : Nat) : Int) = _
    rw [htree]
  · show ((lineOf text.toList site.tree.stop : Nat) : Int) = _
    rw [htree]

theorem owner_of_unit {i : Nat} {t : TypeDeclaration}
    (ht : (unit locals text path parts).types[i]? = some t) :
    ∀ m ∈ t.methods ++ t.constructors, m.owner = i := by
  rw [getElem?_types] at ht
  obtain ⟨site, -, rfl⟩ := Option.map_eq_some_iff.mp ht
  intro m hm
  rcases List.mem_append.mp hm with hm | hm
  · obtain ⟨part, -, rfl⟩ := List.mem_map.mp hm
    rfl
  · obtain ⟨part, -, rfl⟩ := List.mem_map.mp hm
    rfl

/-! ## Names -/

/-- The names of a type go along the types around it.  The induction is on the position,
which a parent makes smaller. -/
theorem names_eq {i fuel : Nat} {t : TypeDeclaration} {s : Spot}
    (ht : (unit locals text path parts).types[i]? = some t)
    (hs : (typeSpots locals parts)[i]? = some s) (hfuel : i < fuel) :
    (unit locals text path parts).names fuel t = .ok (s.names text.toList) := by
  induction fuel generalizing i t s with
  | zero => omega
  | succ fuel ih =>
    have hname : t.name = s.name text.toList := (standsAt_of_unit ht hs).name
    unfold CompilationUnit.names CompilationUnit.parentOf
    rcases parent_spec ht hs with ⟨k, o, hparent, hk, ho, hencloser⟩ | ⟨hparent, hencloser⟩
    · have hlt : k < (unit locals text path parts).types.length := by
        rw [length_types]
        exact (List.getElem?_eq_some_iff.mp ho).1
      have hp := List.getElem?_eq_getElem hlt
      rw [hparent]
      dsimp only
      rw [CompilationUnit.type?_ofNat hp]
      dsimp only [Except.map]
      rw [ih hp ho (by omega), Spot.names_of_encloser _ hencloser, hname]
    · rw [hparent, Spot.names_of_no_encloser _ hencloser, hname]

/-! ## Places -/

theorem lineOf_mono (chars : List Char) {a b : Nat} (h : a ≤ b) :
    lineOf chars a ≤ lineOf chars b := by
  unfold lineOf
  have hprefix : chars.take a <+: chars.take b := List.take_prefix_take_left h
  have hcount := hprefix.sublist.count_le '\n'
  omega

theorem mem_typeSpots {s : Spot} (h : s ∈ typeSpots locals parts) :
    s ∈ Tree.spotsOf [] 0 parts ∧ s.tree.isType = true := by
  obtain ⟨hmem, hlisted⟩ := List.mem_filter.mp h
  exact ⟨hmem, (Bool.and_eq_true_iff.mp hlisted).1⟩

/-- The types of a text start one behind the other. -/
theorem typeSpots_ascending (locals : Bool) (h : Tree.IsSound parts) :
    (typeSpots locals parts).Pairwise fun s s' => s.tree.start < s'.tree.start := by
  have hopen := Tree.openType_of_derived h.derived h.faultless
  have hspots := Tree.spotsOf_ascending parts [] 0 hopen h.faultless h.inOrder
  refine (hspots.sublist List.filter_sublist).imp_of_mem fun {s s'} hs hs' hlt => ?_
  exact hlt (mem_typeSpots hs).2 (mem_typeSpots hs').2

/-- A type lies inside the type in whose body it stands. -/
theorem within_encloser (h : Tree.IsSound parts) {s o : Spot} (hs : s ∈ typeSpots locals parts)
    (ho : s.encloser? = some o) (homem : o ∈ typeSpots locals parts) :
    o.tree.start ≤ s.tree.start ∧ s.tree.stop ≤ o.tree.stop := by
  obtain ⟨hmem, htype⟩ := mem_typeSpots hs
  obtain ⟨homem, -⟩ := mem_typeSpots homem
  have hsub : s.tree.leaves.Sublist o.tree.leaves := by
    have hwithin := (Tree.spotsOf_within parts [] 0 s hmem).2
    rcases hwithin _ (Spot.mem_above_of_encloser ho) with hin | hsub
    · cases hin
    · exact hsub
  have horder := h.inOrder.sublist (Tree.spotsOf_within parts [] 0 o homem).1
  have hevery := Tree.every_of_mem_spotsOf parts [] 0
    (Tree.openType_of_derived h.derived h.faultless) h.faultless s hmem
  obtain ⟨a, b, rest, hleaves, -⟩ := Tree.leaves_of_isType hevery htype
  exact Tree.within_of_sublist horder hsub (hleaves ▸ List.cons_ne_nil _ _)

/-- The types of a unit start on later and later lines. -/
theorem startLines_ascending (h : Tree.IsSound parts) :
    (unit locals text path parts).types.Pairwise fun t t' => t.startLine ≤ t'.startLine := by
  have hspots := List.pairwise_iff_getElem.mp (typeSpots_ascending locals h)
  rw [List.pairwise_iff_getElem]
  intro i j hi hj hij
  have hi' : i < (typeSpots locals parts).length := length_types ▸ hi
  have hj' : j < (typeSpots locals parts).length := length_types ▸ hj
  have hti := standsAt_of_unit (List.getElem?_eq_getElem hi) (List.getElem?_eq_getElem hi')
  have htj := standsAt_of_unit (List.getElem?_eq_getElem hj) (List.getElem?_eq_getElem hj')
  rw [hti.startLine, htj.startLine]
  exact Int.ofNat_le.mpr (lineOf_mono _ (Nat.le_of_lt (hspots i j hi' hj' hij)))

/-- The parent of a nested type is the type it is nested in. -/
theorem parent_of_mem_nested {i j : Nat} {t n : TypeDeclaration}
    (ht : (unit locals text path parts).types[i]? = some t) (hj : j ∈ t.nested)
    (hn : (unit locals text path parts).types[j]? = some n) :
    n.parent = some (Int.ofNat i) := by
  rw [nested_eq ht] at hj
  have hat := of_decide_eq_true (List.mem_filter.mp hj).2
  rw [CompilationUnit.parentAt?, hn] at hat
  exact hat

/-- The lines of a nested type are among those of the type it is nested in. -/
theorem lines_of_mem_nested (h : Tree.IsSound parts) {i j : Nat} {t n : TypeDeclaration}
    (ht : (unit locals text path parts).types[i]? = some t) (hj : j ∈ t.nested)
    (hn : (unit locals text path parts).types[j]? = some n) :
    t.startLine ≤ n.startLine ∧ n.endLine ≤ t.endLine := by
  have hi' : i < (typeSpots locals parts).length := by
    rw [← length_types]
    exact (List.getElem?_eq_some_iff.mp ht).1
  have hj' : j < (typeSpots locals parts).length := by
    rw [← length_types]
    exact (List.getElem?_eq_some_iff.mp hn).1
  have hspot := List.getElem?_eq_getElem hi'
  have hspot' := List.getElem?_eq_getElem hj'
  have hencloser : (typeSpots locals parts)[j].encloser? = some (typeSpots locals parts)[i] := by
    have hparent := parent_of_mem_nested ht hj hn
    rcases parent_spec hn hspot' with ⟨k, o, hk, -, ho, hencloser⟩ | ⟨hnone, -⟩
    · rw [hparent] at hk
      obtain rfl : i = k := Int.ofNat_inj.mp (Option.some.inj hk)
      rw [hspot] at ho
      rw [hencloser, ho]
    · rw [hparent] at hnone
      cases hnone
  obtain ⟨hstart, hstop⟩ :=
    within_encloser h (List.getElem_mem hj') hencloser (List.getElem_mem hi')
  have ht' := standsAt_of_unit ht hspot
  have hn' := standsAt_of_unit hn hspot'
  rw [ht'.startLine, hn'.startLine, ht'.endLine, hn'.endLine]
  exact ⟨Int.ofNat_le.mpr (lineOf_mono _ hstart), Int.ofNat_le.mpr (lineOf_mono _ hstop)⟩

theorem wellFormed_of_sound (h : Tree.IsSound parts) :
    (unit locals text path parts).WellFormed text (typeSpots locals parts) where
  length := length_types
  standsAt := fun i t s => standsAt_of_unit
  index := by
    intro i t ht
    rw [getElem?_types] at ht
    obtain ⟨site, -, rfl⟩ := Option.map_eq_some_iff.mp ht
    rfl
  parent := by
    intro i t s p ht hs hp
    rcases parent_spec ht hs with ⟨k, o, hparent, hk, ho, hencloser⟩ | ⟨hparent, -⟩
    · rw [hparent] at hp
      exact ⟨k, o, (Option.some.inj hp).symm, hk, ho, hencloser⟩
    · rw [hparent] at hp
      cases hp
  noParent := by
    intro i t s ht hs hp
    rcases parent_spec ht hs with ⟨k, o, hparent, -⟩ | ⟨-, hencloser⟩
    · rw [hparent] at hp
      cases hp
    · exact hencloser
  nested := fun i t => nested_eq
  topLevel := topLevel_eq
  topLevel_parent := fun i => no_parent_of_topLevel
  ascending := typeSpots_ascending locals h
  startLines := startLines_ascending h
  contains := fun _ _ _ _ => lines_of_mem_nested h
  owner := fun i t => owner_of_unit
  qualifiedName := by
    intro i t s ht hs
    have hlt := (List.getElem?_eq_some_iff.mp ht).1
    rw [CompilationUnit.qualifiedName, names_eq ht hs (by omega)]
    rfl

end Outline

/-- The unit of every text that can be read is well formed. -/
theorem wellFormed_of_parse {text : String} {path : Option String} {locals : Bool}
    {u : CompilationUnit} (h : parse text path locals = .ok u) :
    u.WellFormed text (typeSpots locals (SyntaxTree.ofText text).parts) := by
  obtain ⟨hsound, rfl⟩ := parse_ok h
  exact Outline.wellFormed_of_sound hsound

/-- A unit of three types, one of them nested and one local. -/
theorem wellFormed_of_parse_nesting :
    parse nestingText none true = .ok nestingUnit ∧
      nestingUnit.WellFormed nestingText (typeSpots true (SyntaxTree.ofText nestingText).parts) :=
  ⟨parse_nesting, wellFormed_of_parse parse_nesting⟩

end SourceShelf.Java
