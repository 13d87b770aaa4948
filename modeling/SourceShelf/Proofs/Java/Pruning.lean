import SourceShelf.Proofs.Java.Units

/-!
# Units without local types

A walk that leaves local types out skips everything inside them, so every type
behind one gets a smaller number.  `CompilationUnit.withoutLocals` says the same of the
unit with all types: a type is kept if the chain of its parents ends in the file itself,
and all numbers are those among the kept types.

The walk is compared with itself.  `keeps` tells of every number whether the type is
kept, and `rank` gives its number among the kept ones; the numbering of a walk is right
(`Agrees`) when a type is kept exactly if it stands in the file or in the body of a kept
type.

* `sites_dropped`: a walk inside a type that is not kept finds no kept type.
* `sites_pruned`: elsewhere, leaving types out is keeping the kept ones.
* `unit_pruned`: the unit of a tree.
-/

namespace SourceShelf.Java

/-! ## Taking types out of a unit -/

/-- The same type, where only some types are kept and have new numbers. -/
def TypeDeclaration.moved (keeps : Nat → Bool) (move : Nat → Nat) (t : TypeDeclaration) :
    TypeDeclaration :=
  { t with
    index := move t.index
    parent := t.parent.map fun k => Int.ofNat (move k.toNat)
    nested := (t.nested.filter keeps).map move
    methods := t.methods.map fun m => { m with owner := move m.owner }
    constructors := t.constructors.map fun m => { m with owner := move m.owner } }

@[simp] theorem TypeDeclaration.moved_name (keeps : Nat → Bool) (move : Nat → Nat)
    (t : TypeDeclaration) : (t.moved keeps move).name = t.name := rfl

@[simp] theorem TypeDeclaration.moved_parent (keeps : Nat → Bool) (move : Nat → Nat)
    (t : TypeDeclaration) :
    (t.moved keeps move).parent = t.parent.map fun k => Int.ofNat (move k.toNat) := rfl

/-- The number of kept types before a number. -/
def rank (keeps : Nat → Bool) (n : Nat) : Nat := (List.range n).countP keeps

namespace CompilationUnit

/-- The type at the end of the chain of parents of a type.  A chain is no longer than
there are types. -/
def outermost? (u : CompilationUnit) : Nat → Nat → Option Nat
  | 0, _ => none
  | fuel + 1, i =>
    match u.parentAt? i with
    | none => some i
    | some k => u.outermost? fuel k.toNat

/-- True of a type if the chain of its parents ends in a type of the file itself. -/
def isKept (u : CompilationUnit) (i : Nat) : Bool :=
  (u.outermost? u.types.length i).any (u.topLevel.contains ·)

/-- The kept types. -/
def keptTypes (u : CompilationUnit) : List TypeDeclaration :=
  (u.types.zipIdx.filter fun t => u.isKept t.2).map Prod.fst

/-- The unit without the types that are not kept; the others are renumbered in
order. -/
def withoutLocals (u : CompilationUnit) : CompilationUnit :=
  { u with
    types := u.keptTypes.map (·.moved u.isKept (rank u.isKept))
    topLevel := (u.topLevel.filter u.isKept).map (rank u.isKept) }

end CompilationUnit

/-! ## Numbers among the kept -/

section Rank

variable {keeps : Nat → Bool} {i j n : Nat}

@[simp] theorem rank_zero (keeps : Nat → Bool) : rank keeps 0 = 0 := rfl

theorem rank_succ (keeps : Nat → Bool) (n : Nat) :
    rank keeps (n + 1) = rank keeps n + if keeps n then 1 else 0 := by
  rw [rank, List.range_succ, List.countP_append, List.countP_singleton, rank]

theorem rank_mono (keeps : Nat → Bool) (h : i ≤ j) : rank keeps i ≤ rank keeps j := by
  induction h with
  | refl => exact Nat.le_refl _
  | step _ ih =>
    rw [rank_succ]
    omega

theorem rank_lt_of_kept (hi : keeps i = true) (h : i < j) : rank keeps i < rank keeps j := by
  have hstep : rank keeps (i + 1) = rank keeps i + 1 := by rw [rank_succ, if_pos hi]
  have hle : rank keeps (i + 1) ≤ rank keeps j := rank_mono keeps h
  omega

theorem rank_le (keeps : Nat → Bool) (n : Nat) : rank keeps n ≤ n :=
  List.countP_le_length.trans (by rw [List.length_range])

/-- Kept types keep different numbers. -/
theorem rank_inj (hi : keeps i = true) (hj : keeps j = true) (h : rank keeps i = rank keeps j) :
    i = j := by
  rcases Nat.lt_trichotomy i j with hlt | heq | hlt
  · have := rank_lt_of_kept hi hlt
    omega
  · exact heq
  · have := rank_lt_of_kept hj hlt
    omega

/-- Behind some types there are as many numbers less as types were dropped. -/
theorem rank_add_length {α : Type} (keeps : Nat → Bool) (l : List α) (n : Nat) :
    rank keeps (n + l.length) =
      rank keeps n + ((l.zipIdx n).filter fun x => keeps x.2).length := by
  induction l generalizing n with
  | nil => rfl
  | cons x l ih =>
    have hsplit : n + (x :: l).length = n + 1 + l.length := by simp only [List.length_cons]; omega
    rw [hsplit, ih (n + 1), rank_succ, List.zipIdx_cons, List.filter_cons]
    split
    · simp only [List.length_cons]
      omega
    · omega

end Rank

namespace Outline

/-! ## The two walks -/

/-- What a phrase stands in, by the numbers among the kept types. -/
def Around.moved (keeps : Nat → Bool) : Around → Around
  | .body i => .body (rank keeps i)
  | a => a

/-- True of the file and the bodies of kept types. -/
def Around.keeps (keeps : Nat → Bool) : Around → Bool
  | .file => true
  | .body i => keeps i
  | .elsewhere => false

/-- The same site, by the numbers among the kept types. -/
def Site.moved (keeps : Nat → Bool) (s : Site) : Site := { s with around := s.around.moved keeps }

/-- The kept ones among numbered sites, with their new numbers. -/
def pruned (keeps : Nat → Bool) (found : List (Site × Nat)) : List (Site × Nat) :=
  (found.filter fun s => keeps s.2).map fun s => (s.1.moved keeps, rank keeps s.2)

/-- Of some numbered sites, those are kept that stand in the file or in the body of a
kept type. -/
def Chosen (keeps : Nat → Bool) (found : List (Site × Nat)) : Prop :=
  ∀ s ∈ found, keeps s.2 = s.1.around.keeps keeps

variable {keeps : Nat → Bool}

theorem Around.moved_ite (c : Prop) [Decidable c] (a : Around) :
    (if c then a else .elsewhere).moved keeps = if c then a.moved keeps else .elsewhere := by
  split <;> rfl

theorem Around.inBody_moved (a : Around) : (a.moved keeps).inBody = a.inBody.moved keeps := by
  cases a <;> rfl

theorem Around.moved_eq_elsewhere {a : Around} : a.moved keeps = .elsewhere ↔ a = .elsewhere := by
  cases a <;> simp [moved]

theorem Chosen.append {found found' : List (Site × Nat)} (h : Chosen keeps (found ++ found')) :
    Chosen keeps found ∧ Chosen keeps found' :=
  ⟨fun s hs => h s (List.mem_append_left _ hs), fun s hs => h s (List.mem_append_right _ hs)⟩

mutual

/-- Where nothing that is kept is around, nothing is kept. -/
theorem sites_dropped (t : Tree) (around : Around) (before : Option Tree) (next : Nat)
    (haround : around.keeps keeps = false)
    (hchosen : Chosen keeps ((sites true around before next t).zipIdx next)) :
    ∀ s ∈ (sites true around before next t).zipIdx next, keeps s.2 = false := by
  match t, hchosen with
  | .leaf .., _ => exact fun s hs => nomatch hs
  | .missing .., _ => exact fun s hs => nomatch hs
  | .junk .., _ => exact fun s hs => nomatch hs
  | .error ps, hchosen => exact sitesOf_dropped ps _ none next (fun _ => rfl) hchosen
  | .node p ps, hchosen =>
    rw [sites] at hchosen ⊢
    cases hkind : typeKind? p with
    | none =>
      rw [hkind] at hchosen
      refine sitesOf_dropped ps _ none next (fun q => ?_) hchosen
      cases around <;> split <;> first | rfl | exact haround
    | some kind =>
      rw [hkind] at hchosen
      simp only [Bool.not_true, Bool.and_false, Bool.false_eq_true, if_false, List.zipIdx_cons]
        at hchosen ⊢
      have hself : keeps next = false := (hchosen _ List.mem_cons_self).trans haround
      refine List.forall_mem_cons.mpr ⟨hself, ?_⟩
      refine sitesOf_dropped ps _ none (next + 1) (fun q => ?_)
        fun s hs => hchosen s (List.mem_cons_of_mem _ hs)
      split
      · exact hself
      · rfl

theorem sitesOf_dropped (ts : List Tree) (around : Phrase → Around) (before : Option Tree)
    (next : Nat) (haround : ∀ q, (around q).keeps keeps = false)
    (hchosen : Chosen keeps ((sitesOf true around before next ts).zipIdx next)) :
    ∀ s ∈ (sitesOf true around before next ts).zipIdx next, keeps s.2 = false := by
  match ts, hchosen with
  | [], _ => exact fun s hs => nomatch hs
  | t :: ts, hchosen =>
    rw [sitesOf_cons, List.zipIdx_append] at hchosen ⊢
    obtain ⟨hfirst, hrest⟩ := hchosen.append
    have hhere : (t.phrase?.elim Around.elsewhere around).keeps keeps = false := by
      cases t.phrase? with
      | none => rfl
      | some q => exact haround q
    rw [List.forall_mem_append]
    exact ⟨sites_dropped t _ before next hhere hfirst, sitesOf_dropped ts around _ _ haround hrest⟩

end

/-- Where nothing is kept, nothing is left. -/
theorem pruned_of_dropped {found : List (Site × Nat)} (h : ∀ s ∈ found, keeps s.2 = false) :
    pruned keeps found = [] := by
  rw [pruned, List.filter_eq_nil_iff.mpr fun s hs => by simp [h s hs], List.map_nil]

theorem pruned_append (found found' : List (Site × Nat)) :
    pruned keeps (found ++ found') = pruned keeps found ++ pruned keeps found' := by
  rw [pruned, List.filter_append, List.map_append, pruned, pruned]

mutual

/-- Where the file or a kept type is around, leaving types out is keeping the kept
ones. -/
theorem sites_pruned (t : Tree) (around : Around) (before : Option Tree) (next : Nat)
    (haround : around ≠ .elsewhere → around.keeps keeps = true)
    (hchosen : Chosen keeps ((sites true around before next t).zipIdx next)) :
    (sites false (around.moved keeps) before (rank keeps next) t).zipIdx (rank keeps next) =
      pruned keeps ((sites true around before next t).zipIdx next) := by
  match t, hchosen with
  | .leaf .., _ => rfl
  | .missing .., _ => rfl
  | .junk .., _ => rfl
  | .error ps, hchosen =>
    exact sitesOf_pruned ps (fun _ => .elsewhere) none next (fun _ h => absurd rfl h) hchosen
  | .node p ps, hchosen =>
    rw [sites] at hchosen ⊢
    rw [sites]
    cases hkind : typeKind? p with
    | none =>
      rw [hkind] at hchosen
      have hparts := sitesOf_pruned ps (fun _ => if isBody p then around.inBody else .elsewhere)
        none next (fun q hq => ?_) hchosen
      · simp only [Around.moved_ite, ← Around.inBody_moved] at hparts
        exact hparts
      · cases around with
        | body i =>
          rw [if_pos (by by_contra hbody; exact hq (if_neg hbody))]
          exact haround (fun h => nomatch h)
        | file => exact absurd (ite_self _) hq
        | elsewhere => exact absurd (ite_self _) hq
    | some kind =>
      rw [hkind] at hchosen
      simp only [Bool.not_true, Bool.and_false, Bool.false_eq_true, if_false, List.zipIdx_cons]
        at hchosen ⊢
      have hself := hchosen _ List.mem_cons_self
      dsimp only at hself
      have hrest : Chosen keeps _ := fun s hs => hchosen s (List.mem_cons_of_mem _ hs)
      by_cases helse : around = .elsewhere
      · -- a local type: nothing of it is kept
        subst helse
        have hdropped := sitesOf_dropped ps _ none (next + 1) (fun q => ?_) hrest
        · rw [if_pos (by simp [Around.moved])]
          exact (pruned_of_dropped (List.forall_mem_cons.mpr ⟨hself, hdropped⟩)).symm
        · split
          · exact hself
          · rfl
      · have hkept : keeps next = true := hself.trans (haround helse)
        have hparts := sitesOf_pruned ps (fun q => if isBody q then .body next else .elsewhere)
          none (next + 1) (fun q hq => ?_) hrest
        · have hnext : rank keeps (next + 1) = rank keeps next + 1 := by
            rw [rank_succ, if_pos hkept]
          simp only [Around.moved_ite, hnext] at hparts
          rw [if_neg (by simp [Around.moved_eq_elsewhere, helse]), List.zipIdx_cons]
          rw [pruned, List.filter_cons, if_pos hkept, List.map_cons]
          exact congrArg _ hparts
        · rw [if_pos (by by_contra hbody; exact hq (if_neg hbody))]
          exact hkept

theorem sitesOf_pruned (ts : List Tree) (around : Phrase → Around) (before : Option Tree)
    (next : Nat) (haround : ∀ q, around q ≠ .elsewhere → (around q).keeps keeps = true)
    (hchosen : Chosen keeps ((sitesOf true around before next ts).zipIdx next)) :
    (sitesOf false (fun q => (around q).moved keeps) before (rank keeps next) ts).zipIdx
        (rank keeps next) =
      pruned keeps ((sitesOf true around before next ts).zipIdx next) := by
  match ts, hchosen with
  | [], _ => rfl
  | t :: ts, hchosen =>
    rw [sitesOf_cons, List.zipIdx_append] at hchosen ⊢
    rw [sitesOf_cons, List.zipIdx_append, pruned_append]
    obtain ⟨hfirst, hrest⟩ := hchosen.append
    have hhere : t.phrase?.elim Around.elsewhere (fun q => (around q).moved keeps) =
        (t.phrase?.elim Around.elsewhere around).moved keeps := by
      cases t.phrase? <;> rfl
    have ht := sites_pruned t (t.phrase?.elim Around.elsewhere around) before next (by
      cases t.phrase? with
      | none => exact fun h => absurd rfl h
      | some q => exact haround q) hfirst
    have hlength := congrArg List.length ht
    rw [List.length_zipIdx, pruned, List.length_map] at hlength
    have hnext : rank keeps next +
        (sites false ((t.phrase?.elim Around.elsewhere around).moved keeps) before
          (rank keeps next) t).length =
        rank keeps (next + (sites true (t.phrase?.elim Around.elsewhere around) before next
          t).length) := by
      rw [rank_add_length, hlength]
    rw [hhere, hnext, ht, sitesOf_pruned ts around _ _ haround hrest]

end

/-! ## Numbered lists -/

theorem zipIdx_map_zipIdx {α β : Type} (f : α × Nat → β) (l : List α) :
    (l.zipIdx.map f).zipIdx = l.zipIdx.map fun x => (f x, x.2) := by
  refine List.ext_getElem (by simp) fun i hi hi' => ?_
  simp

/-- A kept item stands at its new number among the kept ones. -/
theorem getElem?_filter_zipIdx {α : Type} {l : List α} {i : Nat} {x : α} (hx : l[i]? = some x)
    (hi : keeps i = true) :
    (l.zipIdx.filter fun x => keeps x.2)[rank keeps i]? = some (x, i) := by
  obtain ⟨front, rest, rfl, rfl⟩ : ∃ front rest, l = front ++ x :: rest ∧ front.length = i := by
    obtain ⟨hlt, rfl⟩ := List.getElem?_eq_some_iff.mp hx
    refine ⟨l.take i, l.drop (i + 1), ?_, List.length_take_of_le (Nat.le_of_lt hlt)⟩
    rw [List.getElem_cons_drop, List.take_append_drop]
  have hrank : rank keeps front.length = (front.zipIdx.filter fun x => keeps x.2).length := by
    have hall := rank_add_length keeps front 0
    rwa [Nat.zero_add, rank_zero, Nat.zero_add] at hall
  rw [hrank, List.zipIdx_append, List.filter_append, List.zipIdx_cons, Nat.zero_add,
    List.filter_cons, if_pos hi, List.getElem?_append_right (Nat.le_refl _), Nat.sub_self]
  rfl

/-- The numbers of the kept sites with a property. -/
theorem map_snd_filter_pruned {found : List (Site × Nat)} {p q : Site → Bool}
    (h : ∀ s ∈ found, keeps s.2 = true → q (s.1.moved keeps) = p s.1) :
    ((pruned keeps found).filter fun s => q s.1).map Prod.snd =
      ((((found.filter fun s => p s.1).map Prod.snd).filter keeps).map (rank keeps)) := by
  rw [pruned, List.filter_map, List.map_map, List.filter_filter, List.filter_map, List.map_map,
    List.filter_filter]
  refine congrArg _ (List.filter_congr fun s hs => ?_)
  dsimp only [Function.comp_apply]
  cases hkept : keeps s.2 with
  | false => simp
  | true => rw [h s hs hkept, Bool.and_comm]

/-! ## Which types are kept -/

section Unit

variable {locals : Bool} {text : String} {path : Option String} {parts : List Tree} {i : Nat}
variable {site : Site}

/-- A type comes behind the one in whose body it stands. -/
theorem body_lt (hsite : (fileSites locals parts)[i]? = some site) {k : Nat}
    (haround : site.around = .body k) : k < i := by
  obtain ⟨hi, rfl⟩ := List.getElem?_eq_some_iff.mp hsite
  have hfits := fileSites_fit locals parts
  have hi' : i < (typeSpots locals parts).length := by
    rw [← hfits.length_eq, List.length_zipIdx]
    exact hi
  have hagrees := (hfits.get (by simpa using hi) hi').around
  simp only [List.get_eq_getElem, List.getElem_zipIdx, Nat.zero_add] at hagrees
  rw [haround] at hagrees
  exact hagrees.1

theorem topLevel_contains (hsite : (fileSites locals parts)[i]? = some site) :
    (unit locals text path parts).topLevel.contains i = decide (site.around = .file) := by
  have htop : (unit locals text path parts).topLevel =
      (List.range (fileSites locals parts).length).filter fun i =>
        (fileSites locals parts)[i]?.any fun s => decide (s.around = .file) :=
    zipIdx_filter_map_snd (fileSites locals parts) fun s : Site => decide (s.around = .file)
  have hi := (List.getElem?_eq_some_iff.mp hsite).1
  rw [Bool.eq_iff_iff, List.contains_iff_mem, htop, List.mem_filter, List.mem_range, hsite]
  simp [hi]

/-- A chain of parents that has come to its end stays there. -/
theorem outermost?_congr {fuel fuel' : Nat} (h : i < fuel) (h' : i < fuel') :
    (unit locals text path parts).outermost? fuel i =
      (unit locals text path parts).outermost? fuel' i := by
  induction fuel generalizing i fuel' with
  | zero => omega
  | succ fuel ih =>
    obtain ⟨fuel', rfl⟩ := Nat.exists_eq_add_one_of_ne_zero (Nat.ne_zero_of_lt h')
    unfold CompilationUnit.outermost?
    cases hparent : (unit locals text path parts).parentAt? i with
    | none => rfl
    | some k =>
      rw [parentAt?_eq] at hparent
      obtain ⟨site, hsite, hk⟩ := Option.bind_eq_some_iff.mp hparent
      cases haround : site.around with
      | file => rw [haround] at hk; cases hk
      | elsewhere => rw [haround] at hk; cases hk
      | body j =>
        rw [haround] at hk
        cases hk
        have hlt := body_lt hsite haround
        exact ih (by simp; omega) (by simp; omega)

/-- A type is kept if it stands in the file itself or in the body of a kept type. -/
theorem isKept_eq (hsite : (fileSites locals parts)[i]? = some site) :
    (unit locals text path parts).isKept i =
      site.around.keeps (unit locals text path parts).isKept := by
  have hi : i < (unit locals text path parts).types.length := by
    have hlength : (unit locals text path parts).types.length =
        (fileSites locals parts).length := by
      simp [unit]
    rw [hlength]
    exact (List.getElem?_eq_some_iff.mp hsite).1
  have hparent : (unit locals text path parts).parentAt? i = site.around.parent.map Int.ofNat := by
    rw [parentAt?_eq, hsite, Option.bind_some]
  have hnext : (unit locals text path parts).outermost?
      (unit locals text path parts).types.length i =
      match site.around.parent.map Int.ofNat with
      | none => some i
      | some k => (unit locals text path parts).outermost?
          (unit locals text path parts).types.length k.toNat := by
    rw [outermost?_congr hi (Nat.lt_succ_of_lt hi), CompilationUnit.outermost?, hparent]
  rw [CompilationUnit.isKept, hnext]
  cases haround : site.around with
  | file => exact (topLevel_contains hsite).trans (by simp [haround, Around.keeps])
  | elsewhere => exact (topLevel_contains hsite).trans (by simp [haround, Around.keeps])
  | body k => rfl

/-! ## The unit -/

/-- The sites of a walk that leaves local types out. -/
theorem fileSites_pruned (text : String) (path : Option String) (parts : List Tree) :
    (fileSites false parts).zipIdx =
      pruned (unit true text path parts).isKept (fileSites true parts).zipIdx := by
  have hchosen : Chosen (unit true text path parts).isKept (fileSites true parts).zipIdx := by
    intro s hs
    exact isKept_eq (List.mem_zipIdx_iff_getElem?.mp hs)
  exact sitesOf_pruned parts (fun _ => .file) none 0 (fun _ _ => rfl) hchosen

/-- What is made of a kept site, by its new number and those of the types in its
body. -/
theorem typeOf_moved {keeps : Nat → Bool} (chars : List Char) (nested : List Nat) (i : Nat)
    (s : Site) :
    typeOf chars (rank keeps i) ((nested.filter keeps).map (rank keeps)) (s.moved keeps) =
      (typeOf chars i nested s).moved keeps (rank keeps) := by
  have hparent : (s.around.moved keeps).parent.map Int.ofNat =
      (s.around.parent.map Int.ofNat).map fun k => Int.ofNat (rank keeps k.toNat) := by
    cases s.around <;> rfl
  unfold typeOf TypeDeclaration.moved Site.moved
  simp only [hparent, List.map_map]
  rfl

/-- The types in the body of a kept type, by their new numbers. -/
theorem nested_moved {keeps : Nat → Bool} {found : List (Site × Nat)} (h : Chosen keeps found)
    {i : Nat} (hi : keeps i = true) :
    ((pruned keeps found).filter fun n => n.1.around.parent = some (rank keeps i)).map Prod.snd =
      (((found.filter fun n => n.1.around.parent = some i).map Prod.snd).filter keeps).map
        (rank keeps) := by
  refine map_snd_filter_pruned (p := fun s : Site => decide (s.around.parent = some i))
    (q := fun s : Site => decide (s.around.parent = some (rank keeps i))) fun s hs hkept => ?_
  have haround := (h s hs).symm.trans hkept
  rw [Bool.eq_iff_iff, decide_eq_true_iff, decide_eq_true_iff]
  cases hs : s.1.around with
  | file => simp [Site.moved, Around.moved, Around.parent, hs]
  | elsewhere => simp [Site.moved, Around.moved, Around.parent, hs]
  | body k =>
    rw [hs] at haround
    simp only [Site.moved, Around.moved, Around.parent, hs, Option.some.injEq]
    exact ⟨rank_inj haround hi, congrArg _⟩

theorem types_unit (locals : Bool) (text : String) (path : Option String) (parts : List Tree) :
    (unit locals text path parts).types = (fileSites locals parts).zipIdx.map fun s =>
      typeOf text.toList s.2 (((fileSites locals parts).zipIdx.filter fun n =>
        n.1.around.parent = some s.2).map Prod.snd) s.1 := rfl

/-- Leaving local types out of a unit is taking them out of the unit with all types. -/
theorem unit_pruned (text : String) (path : Option String) (parts : List Tree) :
    unit false text path parts = (unit true text path parts).withoutLocals := by
  have hfound := fileSites_pruned text path parts
  have hchosen : Chosen (unit true text path parts).isKept (fileSites true parts).zipIdx :=
    fun s hs => isKept_eq (List.mem_zipIdx_iff_getElem?.mp hs)
  have htypes : (unit false text path parts).types =
      (unit true text path parts).withoutLocals.types := by
    unfold CompilationUnit.withoutLocals CompilationUnit.keptTypes
    dsimp only
    generalize (unit true text path parts).isKept = keeps at *
    rw [types_unit, types_unit, hfound, zipIdx_map_zipIdx, List.filter_map, List.map_map,
      List.map_map, pruned, List.map_map]
    refine List.map_congr_left fun s hs => ?_
    have hkept : keeps s.2 = true := (List.mem_filter.mp hs).2
    dsimp only [Function.comp_apply]
    rw [← typeOf_moved, ← nested_moved hchosen hkept, pruned]
  have htop : (unit false text path parts).topLevel =
      (unit true text path parts).withoutLocals.topLevel := by
    unfold CompilationUnit.withoutLocals unit
    dsimp only
    change _ = ((((fileSites true parts).zipIdx.filter _).map Prod.snd).filter
      (unit true text path parts).isKept).map (rank (unit true text path parts).isKept)
    rw [hfound]
    refine map_snd_filter_pruned (p := fun s : Site => decide (s.around = .file))
      (q := fun s : Site => decide (s.around = .file)) fun s _ _ => ?_
    cases hs : s.1.around <;> simp [Site.moved, Around.moved, hs]
  have hunit (u v : CompilationUnit) (hpackage : u.package = v.package)
      (himports : u.imports = v.imports) (htypes : u.types = v.types)
      (htop : u.topLevel = v.topLevel) (hpath : u.path = v.path) : u = v := by
    cases u
    cases v
    simp_all
  exact hunit _ _ rfl rfl htypes htop rfl

/-- Where local types are left out, the types without a parent are those of the file
itself. -/
theorem parent_eq_none_iff {i : Nat} {t : TypeDeclaration}
    (ht : (unit false text path parts).types[i]? = some t) :
    t.parent = none ↔ i ∈ (unit false text path parts).topLevel := by
  rw [getElem?_types] at ht
  obtain ⟨site, hsite, rfl⟩ := Option.map_eq_some_iff.mp ht
  have helse : site.around ≠ .elsewhere := by
    have hmem : (site, i) ∈ pruned (unit true text path parts).isKept
        (fileSites true parts).zipIdx := by
      rw [← fileSites_pruned]
      exact List.mem_zipIdx_iff_getElem?.mpr hsite
    obtain ⟨s, hs, heq⟩ := List.mem_map.mp hmem
    obtain ⟨hs, hkept⟩ := List.mem_filter.mp hs
    rw [isKept_eq (List.mem_zipIdx_iff_getElem?.mp hs)] at hkept
    obtain ⟨rfl, -⟩ := Prod.mk.inj heq
    intro hmoved
    rw [Around.moved_eq_elsewhere.mp hmoved] at hkept
    cases hkept
  rw [← List.contains_iff_mem, topLevel_contains hsite, decide_eq_true_iff]
  show site.around.parent.map Int.ofNat = none ↔ _
  cases haround : site.around with
  | file => simp [Around.parent]
  | body k => simp [Around.parent]
  | elsewhere => exact absurd haround helse

/-! ## Names -/

/-- A kept type, by its new number. -/
theorem getElem?_withoutLocals {u : CompilationUnit} {i : Nat} {t : TypeDeclaration}
    (ht : u.types[i]? = some t) (hi : u.isKept i = true) :
    u.withoutLocals.types[rank u.isKept i]? = some (t.moved u.isKept (rank u.isKept)) := by
  unfold CompilationUnit.withoutLocals CompilationUnit.keptTypes
  dsimp only
  rw [List.getElem?_map, List.getElem?_map, getElem?_filter_zipIdx ht hi]
  rfl

/-- What a kept type stands in the body of is kept. -/
theorem parent_of_kept {i : Nat} {t : TypeDeclaration}
    (ht : (unit true text path parts).types[i]? = some t)
    (hi : (unit true text path parts).isKept i = true) :
    t.parent = none ∨ ∃ k p, t.parent = some (Int.ofNat k) ∧
      (unit true text path parts).types[k]? = some p ∧
      (unit true text path parts).isKept k = true := by
  have hlt := (List.getElem?_eq_some_iff.mp ht).1
  rw [getElem?_types] at ht
  obtain ⟨site, hsite, rfl⟩ := Option.map_eq_some_iff.mp ht
  rw [isKept_eq hsite] at hi
  cases haround : site.around with
  | file => exact .inl (by simp [typeOf, haround, Around.parent])
  | elsewhere => exact .inl (by simp [typeOf, haround, Around.parent])
  | body k =>
    rw [haround] at hi
    have hk : k < (unit true text path parts).types.length :=
      Nat.lt_trans (body_lt hsite haround) hlt
    exact .inr ⟨k, _, by simp [typeOf, haround, Around.parent], List.getElem?_eq_getElem hk, hi⟩

/-- The types around a kept type keep their names. -/
theorem names_withoutLocals (fuel : Nat) {i : Nat} {t : TypeDeclaration}
    (ht : (unit true text path parts).types[i]? = some t)
    (hi : (unit true text path parts).isKept i = true) :
    (unit true text path parts).withoutLocals.names fuel
        (t.moved (unit true text path parts).isKept (rank (unit true text path parts).isKept)) =
      (unit true text path parts).names fuel t := by
  induction fuel generalizing i t with
  | zero => rfl
  | succ fuel ih =>
    unfold CompilationUnit.names CompilationUnit.parentOf
    rw [TypeDeclaration.moved_parent, TypeDeclaration.moved_name]
    rcases parent_of_kept ht hi with hnone | ⟨k, p, hparent, hp, hk⟩
    · rw [hnone]
      rfl
    · have hnat : (Int.ofNat k).toNat = k := rfl
      rw [hparent, Option.map_some, hnat]
      dsimp only
      rw [CompilationUnit.type?_ofNat hp,
        CompilationUnit.type?_ofNat (getElem?_withoutLocals hp hk)]
      dsimp only [Except.map]
      rw [ih hp hk]

/-- Kept types keep their qualified names. -/
theorem qualifiedName_withoutLocals {i : Nat} {t : TypeDeclaration}
    (ht : (unit true text path parts).types[i]? = some t)
    (hi : (unit true text path parts).isKept i = true) :
    (unit true text path parts).withoutLocals.qualifiedName
        (t.moved (unit true text path parts).isKept (rank (unit true text path parts).isKept)) =
      (unit true text path parts).qualifiedName t := by
  have hlt := (List.getElem?_eq_some_iff.mp ht).1
  have hmoved := getElem?_withoutLocals ht hi
  rw [← unit_pruned] at hmoved
  have hspot := List.getElem?_eq_getElem (length_types ▸ (List.getElem?_eq_some_iff.mp hmoved).1)
  have hmlt := (List.getElem?_eq_some_iff.mp hmoved).1
  -- more fuel than there are types changes nothing
  have hfuel := names_eq hmoved hspot (Nat.lt_succ_of_lt hmlt)
  have hmore := names_eq hmoved hspot
    (Nat.lt_of_le_of_lt (rank_le (unit true text path parts).isKept i) (Nat.lt_succ_of_lt hlt))
  rw [CompilationUnit.qualifiedName, ← unit_pruned, hfuel, ← hmore, unit_pruned,
    names_withoutLocals _ ht hi, CompilationUnit.qualifiedName]

end Unit

end Outline

end SourceShelf.Java
