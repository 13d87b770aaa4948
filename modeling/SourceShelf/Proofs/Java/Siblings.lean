import SourceShelf.Proofs.Java.Units

/-!
# Spots and the parts beside them

A spot is reached from the trees of a file by going from a tree to one of its parts, again
and again (`Spot.StandsIn`).  Its chain are the tree itself and all trees around it, so one
spot is inside another just when the chain of the outer one ends that of the inner one.

* `mem_spotsOf_iff`: the spots that `Tree.spotsOf` lists are those that are reached so.
* `StandsIn.outer`: what the chain of a spot says of the trees around it.
* `StandsIn.before?_eq_some_iff`: the named part right before a spot.
* `Outline.before_of_mem_fileSites`: the walk over a file carries it along.
-/

namespace SourceShelf.Java

/-! ## Spots, from the outside in -/

namespace Spot

/-- The tree of a spot and all trees around it, innermost first. -/
def chain (s : Spot) : List (Nat × Tree) := (s.position, s.tree) :: s.above

/-- A part of the tree of a spot. -/
def part (s : Spot) (i : Nat) (t : Tree) : Spot := ⟨t, i, s.chain⟩

/-- True of the spots of some trees. -/
inductive StandsIn (parts : List Tree) : Spot → Prop where
  | top {i : Nat} {t : Tree} (h : parts[i]? = some t) : StandsIn parts ⟨t, i, []⟩
  | part {s : Spot} {i : Nat} {t : Tree} (hs : StandsIn parts s) (h : s.tree.parts[i]? = some t) :
      StandsIn parts (s.part i t)

end Spot

namespace Tree

theorem leaves_sublist_of_mem {t : Tree} {ts : List Tree} (h : t ∈ ts) :
    t.leaves.Sublist (leavesOf ts) := by
  induction ts with
  | nil => cases h
  | cons u ts ih =>
    rcases List.mem_cons.mp h with rfl | h
    · exact List.sublist_append_left _ _
    · exact (ih h).trans (List.sublist_append_right _ _)

theorem leaves_sublist_of_mem_parts {t p : Tree} (h : p ∈ t.parts) :
    p.leaves.Sublist t.leaves := by
  cases t with
  | node q ps => exact leaves_sublist_of_mem h
  | error ps => exact leaves_sublist_of_mem h
  | leaf _ _ _ => cases h
  | missing _ _ => cases h
  | junk _ _ => cases h

theorem mem_spots_iff {t : Tree} {above : List (Nat × Tree)} {i : Nat} {s : Spot} :
    s ∈ t.spots above i ↔ s = ⟨t, i, above⟩ ∨ s ∈ spotsOf ((i, t) :: above) 0 t.parts := by
  cases t with
  | node p parts => exact List.mem_cons
  | error parts => exact List.mem_cons
  | _ => simp [spots, parts, spotsOf]

theorem mem_spotsOf_exists {ts : List Tree} {above : List (Nat × Tree)} {i : Nat} {s : Spot} :
    s ∈ spotsOf above i ts ↔ ∃ (k : Nat) (t : Tree), ts[k]? = some t ∧
      s ∈ t.spots above (i + k) := by
  induction ts generalizing i with
  | nil => simp [spotsOf]
  | cons t ts ih =>
    rw [spotsOf, List.mem_append, ih]
    constructor
    · rintro (hs | ⟨k, u, hk, hs⟩)
      · exact ⟨0, t, rfl, hs⟩
      · exact ⟨k + 1, u, hk, by rwa [Nat.add_comm k, ← Nat.add_assoc]⟩
    · rintro ⟨k, u, hk, hs⟩
      cases k with
      | zero =>
        obtain rfl := Option.some.inj hk
        exact .inl hs
      | succ k => exact .inr ⟨k, u, hk, by rwa [Nat.add_comm k, ← Nat.add_assoc] at hs⟩

mutual

/-- The parts of the trees in a tree are among the trees in it. -/
theorem part_mem_spots (t : Tree) (above : List (Nat × Tree)) (i : Nat) {s : Spot}
    (hs : s ∈ t.spots above i) {k : Nat} {u : Tree} (hu : s.tree.parts[k]? = some u) :
    s.part k u ∈ t.spots above i := by
  match t, hs, hu with
  | .leaf .., hs, hu =>
    obtain rfl := List.mem_singleton.mp hs
    cases hu
  | .missing .., hs, hu =>
    obtain rfl := List.mem_singleton.mp hs
    cases hu
  | .junk .., hs, hu =>
    obtain rfl := List.mem_singleton.mp hs
    cases hu
  | .node p parts, hs, hu =>
    refine List.mem_cons_of_mem _ ?_
    rcases List.mem_cons.mp hs with rfl | hs
    · exact mem_spotsOf_exists.mpr ⟨k, u, hu, mem_spots_iff.mpr (.inl (by rw [Nat.zero_add]; rfl))⟩
    · exact part_mem_spotsOf parts _ 0 hs hu
  | .error parts, hs, hu =>
    refine List.mem_cons_of_mem _ ?_
    rcases List.mem_cons.mp hs with rfl | hs
    · exact mem_spotsOf_exists.mpr ⟨k, u, hu, mem_spots_iff.mpr (.inl (by rw [Nat.zero_add]; rfl))⟩
    · exact part_mem_spotsOf parts _ 0 hs hu

theorem part_mem_spotsOf (ts : List Tree) (above : List (Nat × Tree)) (i : Nat) {s : Spot}
    (hs : s ∈ spotsOf above i ts) {k : Nat} {u : Tree} (hu : s.tree.parts[k]? = some u) :
    s.part k u ∈ spotsOf above i ts := by
  match ts, hs with
  | [], hs => cases hs
  | t :: ts, hs =>
    rcases List.mem_append.mp hs with hs | hs
    · exact List.mem_append_left _ (part_mem_spots t above i hs hu)
    · exact List.mem_append_right _ (part_mem_spotsOf ts above (i + 1) hs hu)

end

mutual

theorem standsIn_of_mem_spots {file : List Tree} (t : Tree) (above : List (Nat × Tree)) (i : Nat)
    (h : Spot.StandsIn file ⟨t, i, above⟩) (s : Spot) (hs : s ∈ t.spots above i) :
    s.StandsIn file := by
  match t, h, hs with
  | .leaf .., h, hs => exact List.mem_singleton.mp hs ▸ h
  | .missing .., h, hs => exact List.mem_singleton.mp hs ▸ h
  | .junk .., h, hs => exact List.mem_singleton.mp hs ▸ h
  | .node p parts, h, hs =>
    rcases List.mem_cons.mp hs with rfl | hs
    · exact h
    · exact standsIn_of_mem_spotsOf parts _ 0 (fun k u hu => by
        rw [Nat.zero_add]; exact .part h hu) s hs
  | .error parts, h, hs =>
    rcases List.mem_cons.mp hs with rfl | hs
    · exact h
    · exact standsIn_of_mem_spotsOf parts _ 0 (fun k u hu => by
        rw [Nat.zero_add]; exact .part h hu) s hs

theorem standsIn_of_mem_spotsOf {file : List Tree} (ts : List Tree) (above : List (Nat × Tree))
    (i : Nat) (h : ∀ k u, ts[k]? = some u → Spot.StandsIn file ⟨u, i + k, above⟩) (s : Spot)
    (hs : s ∈ spotsOf above i ts) : s.StandsIn file := by
  match ts, h, hs with
  | [], _, hs => cases hs
  | t :: ts, h, hs =>
    rcases List.mem_append.mp hs with hs | hs
    · exact standsIn_of_mem_spots t above i (h 0 t rfl) s hs
    · refine standsIn_of_mem_spotsOf ts above (i + 1) (fun k u hu => ?_) s hs
      rw [Nat.add_assoc, Nat.add_comm 1]
      exact h (k + 1) u hu

end

end Tree

/-- The spots that are listed are those that are reached from the outside in. -/
theorem mem_spotsOf_iff {parts : List Tree} {s : Spot} :
    s ∈ Tree.spotsOf [] 0 parts ↔ s.StandsIn parts := by
  constructor
  · refine Tree.standsIn_of_mem_spotsOf parts [] 0 (fun k u hu => ?_) s
    rw [Nat.zero_add]
    exact .top hu
  · intro h
    induction h with
    | top h =>
      refine Tree.mem_spotsOf_exists.mpr ⟨_, _, h, Tree.mem_spots_iff.mpr (.inl ?_)⟩
      rw [Nat.zero_add]
    | part _ h ih => exact Tree.part_mem_spotsOf parts [] 0 ih h

namespace Spot

variable {parts : List Tree} {s s' : Spot}

theorem chain_inj (h : s.chain = s'.chain) : s = s' := by
  obtain ⟨t, i, above⟩ := s
  obtain ⟨t', i', above'⟩ := s'
  obtain ⟨hhead, rfl⟩ := List.cons.inj h
  obtain ⟨rfl, rfl⟩ := Prod.mk.inj hhead
  rfl

/-- A spot inside another one, or this one itself. -/
def IsInside (s o : Spot) : Prop := o.chain <:+ s.chain

theorem IsInside.refl (s : Spot) : s.IsInside s := List.suffix_refl _

theorem IsInside.trans {o : Spot} (h : s.IsInside s') (h' : s'.IsInside o) : s.IsInside o :=
  List.IsSuffix.trans h' h

theorem isInside_part (s : Spot) (i : Nat) (t : Tree) : (s.part i t).IsInside s :=
  List.suffix_cons _ _

theorem isInside_iff {o : Spot} : s.IsInside o ↔ s = o ∨ o.chain <:+ s.above := by
  have hchain : s.chain = (s.position, s.tree) :: s.above := rfl
  rw [IsInside, hchain, List.suffix_cons_iff, ← hchain]
  exact or_congr ⟨fun h => (chain_inj h).symm, fun h => h ▸ rfl⟩ Iff.rfl

theorem IsInside.antisymm (h : s.IsInside s') (h' : s'.IsInside s) : s = s' :=
  chain_inj (h'.eq_of_length_le h.length_le)

namespace StandsIn

/-- The tree whose part a spot is. -/
theorem part_inv (h : s.StandsIn parts) {x : Nat × Tree} {rest : List (Nat × Tree)}
    (habove : s.above = x :: rest) :
    StandsIn parts ⟨x.2, x.1, rest⟩ ∧ x.2.parts[s.position]? = some s.tree := by
  cases h with
  | top h => cases habove
  | @part o i t ho h =>
    obtain ⟨rfl, rfl⟩ := List.cons.inj habove
    exact ⟨ho, h⟩

/-- What is around a spot stands in the file, and has the leaves of the spot. -/
theorem outer (h : s.StandsIn parts) {o : Spot} (ho : s.IsInside o) :
    o.StandsIn parts ∧ s.tree.leaves.Sublist o.tree.leaves := by
  induction h with
  | top h =>
    obtain rfl := (isInside_iff.mp ho).resolve_right fun hnil => nomatch List.suffix_nil.mp hnil
    exact ⟨.top h, .refl _⟩
  | @part s i t hs h ih =>
    rcases isInside_iff.mp ho with rfl | ho
    · exact ⟨.part hs h, .refl _⟩
    · obtain ⟨hstands, hsub⟩ := ih ho
      refine ⟨hstands, List.Sublist.trans ?_ hsub⟩
      exact Tree.leaves_sublist_of_mem_parts (List.mem_of_getElem? h)

end StandsIn

/-- What is inside a spot is this spot, or inside one of its parts. -/
theorem IsInside.exists_part {o : Spot} (h : s.IsInside o) (hs : s.StandsIn parts) :
    s = o ∨ ∃ k t, o.tree.parts[k]? = some t ∧ s.IsInside (o.part k t) := by
  induction hs with
  | top _ =>
    exact .inl ((isInside_iff.mp h).resolve_right fun hnil => nomatch List.suffix_nil.mp hnil)
  | @part s i t hs ht ih =>
    rcases isInside_iff.mp h with rfl | hin
    · exact .inl rfl
    · rcases ih hin with rfl | ⟨k, u, hu, hinside⟩
      · exact .inr ⟨i, t, ht, .refl _⟩
      · exact .inr ⟨k, u, hu, (isInside_part s i t).trans hinside⟩

/-- Nothing is inside a spot without parts but this spot. -/
theorem IsInside.eq_of_parts {o : Spot} (h : s.IsInside o) (hs : s.StandsIn parts)
    (hparts : o.tree.parts = []) : s = o := by
  rcases h.exists_part hs with heq | ⟨k, t, ht, -⟩
  · exact heq
  · rw [hparts] at ht
    cases ht

/-- Around every spot is one of the trees of the file. -/
theorem StandsIn.exists_top (h : s.StandsIn parts) :
    ∃ k t, parts[k]? = some t ∧ s.IsInside ⟨t, k, []⟩ := by
  induction h with
  | top h => exact ⟨_, _, h, .refl _⟩
  | @part s i t _ _ ih =>
    obtain ⟨k, u, hu, hinside⟩ := ih
    exact ⟨k, u, hu, (isInside_part s i t).trans hinside⟩

/-! ## The parts beside a spot -/

/-- The parts among which a spot stands. -/
def siblings (parts : List Tree) (s : Spot) : List Tree :=
  match s.above with
  | [] => parts
  | (_, t) :: _ => t.parts

theorem StandsIn.siblings_eq (h : s.StandsIn parts) :
    (s.siblings parts)[s.position]? = some s.tree := by
  cases h with
  | top h => exact h
  | part _ h => exact h

theorem StandsIn.sibling (h : s.StandsIn parts) {i : Nat} {t : Tree}
    (ht : (s.siblings parts)[i]? = some t) : StandsIn parts ⟨t, i, s.above⟩ := by
  cases h with
  | top _ => exact .top ht
  | part hs _ => exact .part hs ht

/-- Two parts at one position are the same. -/
theorem StandsIn.eq_of_position (h : s.StandsIn parts) (h' : s'.StandsIn parts)
    (habove : s.above = s'.above) (hposition : s.position = s'.position) : s = s' := by
  have hsiblings : s.siblings parts = s'.siblings parts := by
    rw [siblings, siblings, habove]
  have htree := h.siblings_eq
  rw [hsiblings, hposition, h'.siblings_eq] at htree
  obtain ⟨t, i, above⟩ := s
  obtain ⟨t', i', above'⟩ := s'
  obtain rfl := Option.some.inj htree
  obtain rfl : i = i' := hposition
  obtain rfl : above = above' := habove
  rfl

/-- The last named tree. -/
def lastNamed (ts : List Tree) : Option Tree := ts.reverse.find? (·.isNamed)

theorem lastNamed_concat (ts : List Tree) (t : Tree) :
    lastNamed (ts ++ [t]) = if t.isNamed then some t else lastNamed ts := by
  rw [lastNamed, List.reverse_append]
  show List.find? _ (t :: ts.reverse) = _
  rw [List.find?_cons]
  split <;> simp_all [lastNamed]

/-- The named part right before a spot. -/
def before? (parts : List Tree) (s : Spot) : Option Tree :=
  lastNamed ((s.siblings parts).take s.position)

/-- True of the named part right before a spot: it stands among the same parts, and no other
named one between them. -/
structure RightBefore (parts : List Tree) (c d : Spot) : Prop where
  above : c.above = d.above
  before : c.position < d.position
  named : c.tree.isNamed = true
  between : ∀ i t, c.position < i → i < d.position → (d.siblings parts)[i]? = some t →
    t.isNamed = false

theorem lastNamed_take_eq_some_iff {ts : List Tree} {n : Nat} {t : Tree} (hn : n ≤ ts.length) :
    lastNamed (ts.take n) = some t ↔ ∃ k < n, ts[k]? = some t ∧ t.isNamed = true ∧
      ∀ i u, k < i → i < n → ts[i]? = some u → u.isNamed = false := by
  induction n with
  | zero => simp [lastNamed]
  | succ n ih =>
    obtain ⟨u, hu⟩ : ∃ u, ts[n]? = some u := ⟨_, List.getElem?_eq_getElem hn⟩
    rw [List.take_add_one, hu, Option.toList_some, lastNamed_concat]
    by_cases hnamed : u.isNamed = true
    · rw [if_pos hnamed]
      constructor
      · intro h
        obtain rfl := Option.some.inj h
        exact ⟨n, Nat.lt_succ_self n, hu, hnamed, fun i _ hi hin => by omega⟩
      · rintro ⟨k, hk, ht, -, hbetween⟩
        rcases Nat.lt_succ_iff_lt_or_eq.mp hk with hlt | rfl
        · rw [hbetween n u hlt (Nat.lt_succ_self n) hu] at hnamed
          cases hnamed
        · rw [← ht, hu]
    · rw [if_neg hnamed, ih (by omega)]
      constructor
      · rintro ⟨k, hk, ht, hknamed, hbetween⟩
        refine ⟨k, by omega, ht, hknamed, fun i v hi hin hv => ?_⟩
        rcases Nat.lt_succ_iff_lt_or_eq.mp hin with hlt | rfl
        · exact hbetween i v hi hlt hv
        · rw [hu] at hv
          obtain rfl := Option.some.inj hv
          exact Bool.eq_false_iff.mpr hnamed
      · rintro ⟨k, hk, ht, hknamed, hbetween⟩
        have hne : k ≠ n := by
          rintro rfl
          rw [hu] at ht
          exact hnamed (Option.some.inj ht ▸ hknamed)
        exact ⟨k, by omega, ht, hknamed, fun i v hi hin => hbetween i v hi (by omega)⟩

/-- The named part right before a spot has a spot of its own. -/
theorem StandsIn.before?_eq_some_iff {d : Spot} (h : d.StandsIn parts) {t : Tree} :
    d.before? parts = some t ↔
      ∃ c : Spot, c.StandsIn parts ∧ c.RightBefore parts d ∧ c.tree = t := by
  have hlt := (List.getElem?_eq_some_iff.mp h.siblings_eq).1
  rw [before?, lastNamed_take_eq_some_iff (Nat.le_of_lt hlt)]
  constructor
  · rintro ⟨k, hk, ht, hnamed, hbetween⟩
    exact ⟨⟨t, k, d.above⟩, h.sibling ht, ⟨rfl, hk, hnamed, hbetween⟩, rfl⟩
  · rintro ⟨c, hc, hbefore, rfl⟩
    have hsiblings : c.siblings parts = d.siblings parts := by
      rw [siblings, siblings, hbefore.above]
    exact ⟨c.position, hbefore.before, hsiblings ▸ hc.siblings_eq, hbefore.named, hbefore.between⟩

/-- Only one part is right before a spot. -/
theorem RightBefore.unique {c c' d : Spot} (hc : c.StandsIn parts) (hc' : c'.StandsIn parts)
    (h : c.RightBefore parts d) (h' : c'.RightBefore parts d) : c = c' := by
  have hsiblings : ∀ b : Spot, b.above = d.above → b.siblings parts = d.siblings parts := by
    intro b hb
    rw [siblings, siblings, hb]
  refine hc.eq_of_position hc' (h.above.trans h'.above.symm) ?_
  rcases Nat.lt_trichotomy c.position c'.position with hlt | heq | hlt
  · have := h.between _ c'.tree hlt h'.before (hsiblings c' h'.above ▸ hc'.siblings_eq)
    rw [h'.named] at this
    cases this
  · exact heq
  · have := h'.between _ c.tree hlt h.before (hsiblings c h.above ▸ hc.siblings_eq)
    rw [h.named] at this
    cases this

/-- A part is right before only one named spot. -/
theorem RightBefore.unique_behind {c d d' : Spot} (hd : d.StandsIn parts) (hd' : d'.StandsIn parts)
    (hnamed : d.tree.isNamed = true) (hnamed' : d'.tree.isNamed = true)
    (h : c.RightBefore parts d) (h' : c.RightBefore parts d') : d = d' := by
  have hsiblings : d.siblings parts = d'.siblings parts := by
    rw [siblings, siblings, ← h.above, h'.above]
  refine hd.eq_of_position hd' (h.above.symm.trans h'.above) ?_
  rcases Nat.lt_trichotomy d.position d'.position with hlt | heq | hlt
  · have := h'.between _ d.tree h.before hlt (hsiblings ▸ hd.siblings_eq)
    rw [hnamed] at this
    cases this
  · exact heq
  · have := h.between _ d'.tree h'.before hlt (hsiblings ▸ hd'.siblings_eq)
    rw [hnamed'] at this
    cases this

end Spot

/-! ## The walk over a file -/

namespace Outline

open Spot

variable {locals : Bool} {parts : List Tree}

/-- True of a site with the named part right before a spot that has its tree. -/
def Site.HasBefore (parts : List Tree) (site : Site) : Prop :=
  ∃ s : Spot, s.StandsIn parts ∧ s.tree = site.tree ∧ site.before = s.before? parts

mutual

theorem before_of_mem_sites (t : Tree) (around : Around) (next i : Nat) (above : List (Nat × Tree))
    (h : StandsIn parts ⟨t, i, above⟩) (site : Site)
    (hsite : site ∈ sites locals around (before? parts ⟨t, i, above⟩) next t) :
    site.HasBefore parts := by
  match t, h, hsite with
  | .leaf .., _, hsite => cases hsite
  | .missing .., _, hsite => cases hsite
  | .junk .., _, hsite => cases hsite
  | .error ps, h, hsite =>
    exact before_of_mem_sitesOf ps _ next [] _ (fun k u hu => h.part hu) (fun _ _ => rfl) site hsite
  | .node p ps, h, hsite =>
    unfold sites at hsite
    split at hsite
    · split at hsite
      · cases hsite
      · rcases List.mem_cons.mp hsite with rfl | hsite
        · exact ⟨_, h, rfl, rfl⟩
        · exact before_of_mem_sitesOf ps _ (next + 1) [] _ (fun k u hu => h.part hu)
            (fun _ _ => rfl) site hsite
    · exact before_of_mem_sitesOf ps _ next [] _ (fun k u hu => h.part hu) (fun _ _ => rfl) site
        hsite

/-- The walk goes on behind some of the parts of a tree. -/
theorem before_of_mem_sitesOf (ts : List Tree) (around : Phrase → Around) (next : Nat)
    (done : List Tree) (above : List (Nat × Tree))
    (h : ∀ k u, (done ++ ts)[k]? = some u → StandsIn parts ⟨u, k, above⟩)
    (hsiblings : ∀ k u, siblings parts ⟨u, k, above⟩ = done ++ ts) (site : Site)
    (hsite : site ∈ sitesOf locals around (lastNamed done) next ts) : site.HasBefore parts := by
  match ts, h, hsiblings, hsite with
  | [], _, _, hsite => cases hsite
  | t :: ts, h, hsiblings, hsite =>
    rw [sitesOf_cons] at hsite
    have hsplit : done ++ t :: ts = done ++ [t] ++ ts := by simp
    rcases List.mem_append.mp hsite with hsite | hsite
    · have hself : StandsIn parts ⟨t, done.length, above⟩ := h done.length t (by simp)
      have hbefore : before? parts ⟨t, done.length, above⟩ = lastNamed done := by
        rw [before?, hsiblings, List.take_left]
      exact before_of_mem_sites t _ next done.length above hself site (hbefore ▸ hsite)
    · rw [← lastNamed_concat] at hsite
      exact before_of_mem_sitesOf ts around _ (done ++ [t]) above (hsplit ▸ h) (hsplit ▸ hsiblings)
        site hsite

end

/-- The types that the walk over a file finds come with the named part right before them. -/
theorem before_of_mem_fileSites {site : Site} (h : site ∈ fileSites locals parts) :
    site.HasBefore parts :=
  before_of_mem_sitesOf parts _ 0 [] [] (fun _ _ hu => .top hu) (fun _ _ => rfl) site h

end Outline

end SourceShelf.Java
