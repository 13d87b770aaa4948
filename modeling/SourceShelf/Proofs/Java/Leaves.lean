import SourceShelf.Proofs.Java.Siblings

/-!
# Leaves that have a length

Every word and every comment of a text without faults has at least one character
(`SyntaxTree.isSolid`).  So no two leaves stand at the same place, and of two parts of a
phrase all leaves of the first stand before those of the second.

* `Reads.forward`: the leaves of trees that follow the grammar.
* `Tree.IsSolid`: trees without faults whose leaves have lengths.
* `Tree.InOrder.of_lt`: leaves of two parts.
* `Spot.StandsIn.compare`: spots that are not one inside the other.
* `Tree.comments`: where the comments of a tree are; trees that stand apart have none in
  common (`Spot.StandsIn.comments_disjoint`).
-/

namespace SourceShelf.Java

namespace Tree

/-! ## Leaves and comments of lists -/

theorem leavesOf_eq (ts : List Tree) : leavesOf ts = ts.flatMap leaves := by
  induction ts with
  | nil => rfl
  | cons t ts ih => rw [leavesOf, ih, List.flatMap_cons]

theorem leavesOf_parts_sublist (t : Tree) : (leavesOf t.parts).Sublist t.leaves := by
  cases t with
  | node p ps => exact .refl _
  | error ps => exact .refl _
  | _ => exact List.nil_sublist _

mutual

/-- Where the comments of a tree start and end. -/
def comments : Tree → List (Nat × Nat)
  | leaf w a b => if w.isComment then [(a, b)] else []
  | node _ parts => commentsOf parts
  | error parts => commentsOf parts
  | missing .. => []
  | junk .. => []

/-- Where the comments of some trees start and end. -/
def commentsOf : List Tree → List (Nat × Nat)
  | [] => []
  | t :: ts => t.comments ++ commentsOf ts

end

theorem commentsOf_eq (ts : List Tree) : commentsOf ts = ts.flatMap comments := by
  induction ts with
  | nil => rfl
  | cons t ts ih => rw [commentsOf, ih, List.flatMap_cons]

mutual

theorem comments_sublist (t : Tree) : t.comments.Sublist t.leaves := by
  match t with
  | .leaf w a b =>
    unfold comments
    split
    · exact .refl _
    · exact List.nil_sublist _
  | .missing .. => exact List.nil_sublist _
  | .junk .. => exact List.nil_sublist _
  | .node p ps => exact commentsOf_sublist ps
  | .error ps => exact commentsOf_sublist ps

theorem commentsOf_sublist (ts : List Tree) : (commentsOf ts).Sublist (leavesOf ts) := by
  match ts with
  | [] => exact .refl _
  | t :: ts => exact (comments_sublist t).append (commentsOf_sublist ts)

end

theorem leaves_shownAs (w : Token) (t : Tree) : (t.shownAs w).leaves = t.leaves := by
  cases t <;> rfl

end Tree

theorem Piece.leavesOf_shown (names : List (Symbol × Token)) (c : Piece) :
    Tree.leavesOf (c.shown names) = Tree.leavesOf c.trees := by
  unfold shown
  split
  · rw [Tree.leavesOf_eq, Tree.leavesOf_eq, List.flatMap_map]
    exact List.flatMap_congr fun t _ => Tree.leaves_shownAs _ t
  · rfl

/-! ## Lengths -/

/-- What stands between symbols has a length, unless it is a fault. -/
theorem Between.forward {ts : List Tree} (h : Between ts) (hfaultless : Tree.anyFaulty ts = false) :
    ∀ x ∈ Tree.leavesOf ts, x.1 < x.2 := by
  cases h with
  | comment _ hab =>
    intro x hx
    obtain rfl := List.mem_singleton.mp hx
    exact hab
  | fault _ => cases hfaultless
  | nothing => nofun

/-- What follows the grammar has leaves with lengths, unless it shows a fault. -/
theorem Reads.forward {x : Symbol} {ts : List Tree} (h : Reads x ts)
    (hfaultless : Tree.anyFaulty ts = false) : ∀ y ∈ Tree.leavesOf ts, y.1 < y.2 := by
  induction h with
  | word hab =>
    intro y hy
    obtain rfl := List.mem_singleton.mp hy
    exact hab
  | missing => cases hfaultless
  | @phrase p a pieces ha htakes hreads hbetween ih =>
    have hwrap : Tree.leavesOf (p.wrap (pieces.flatMap (·.shown a.shown))) =
          Tree.leavesOf (pieces.flatMap (·.shown a.shown)) ∧
        Tree.anyFaulty (p.wrap (pieces.flatMap (·.shown a.shown))) =
          Tree.anyFaulty (pieces.flatMap (·.shown a.shown)) := by
      unfold Phrase.wrap
      split
      · exact ⟨rfl, rfl⟩
      · exact ⟨List.append_nil _, Bool.or_false _⟩
    rw [hwrap.2] at hfaultless
    rw [hwrap.1]
    have hpieces := Tree.anyFaulty_flatMap.mp hfaultless
    intro y hy
    rw [Tree.leavesOf_eq, List.flatMap_assoc] at hy
    obtain ⟨c, hc, hy⟩ := List.mem_flatMap.mp hy
    rw [← Tree.leavesOf_eq, Piece.leavesOf_shown] at hy
    have hsound := hpieces c hc
    rw [Piece.anyFaulty_shown] at hsound
    cases hsymbol : c.symbol? with
    | some z => exact ih c hc z hsymbol hsound y hy
    | none => exact (hbetween c hc hsymbol).forward hsound y hy

/-- Trees without faults whose leaves have lengths. -/
structure Tree.IsSolid (parts : List Tree) : Prop extends Tree.IsSound parts where
  forward : ∀ x ∈ Tree.leavesOf parts, x.1 < x.2

/-- A text without faults has words and comments with lengths. -/
theorem SyntaxTree.isSolid {text : String} (h : (SyntaxTree.ofText text).firstFault? = none) :
    Tree.IsSolid (SyntaxTree.ofText text).parts where
  toIsSound := SyntaxTree.isSound h
  forward := by
    have hfaultless := (SyntaxTree.isSound h).faultless
    obtain ⟨before, inner, behind, hparts, hinner, hbefore, hbehind⟩ := SyntaxTree.isFile h
    rw [hparts, Tree.anyFaulty_append, Tree.anyFaulty_append, Bool.or_eq_false_iff,
      Bool.or_eq_false_iff] at hfaultless
    obtain ⟨⟨hsound, hinnerSound⟩, hsound'⟩ := hfaultless
    have hbetween {ts : List Tree} (hts : ∀ t ∈ ts, Between [t])
        (hfaultless : Tree.anyFaulty ts = false) : ∀ x ∈ Tree.leavesOf ts, x.1 < x.2 := by
      induction ts with
      | nil => nofun
      | cons t ts ih =>
        obtain ⟨ht, hrest⟩ := Bool.or_eq_false_iff.mp hfaultless
        intro x hx
        rcases List.mem_append.mp hx with hx | hx
        · refine (hts t List.mem_cons_self).forward ?_ x ?_
          · exact (Bool.or_false _).trans ht
          · exact List.mem_append_left _ hx
        · exact ih (fun t ht => hts t (List.mem_cons_of_mem _ ht)) hrest x hx
    intro x hx
    rw [hparts, Tree.leavesOf_eq, List.flatMap_append, List.flatMap_append, ← Tree.leavesOf_eq,
      ← Tree.leavesOf_eq, ← Tree.leavesOf_eq] at hx
    rcases List.mem_append.mp hx with hx | hx
    · rcases List.mem_append.mp hx with hx | hx
      · exact hbetween hbefore hsound x hx
      · refine Reads.forward hinner ?_ x (List.mem_append_left _ hx)
        exact (Bool.or_false _).trans hinnerSound
    · exact hbetween hbehind hsound' x hx

/-! ## The order of leaves -/

namespace Tree

/-- Of two parts, all leaves of the first stand before those of the second. -/
theorem InOrder.of_lt {ts : List Tree} (h : InOrder (leavesOf ts)) {i j : Nat} {t u : Tree}
    (ht : ts[i]? = some t) (hu : ts[j]? = some u) (hij : i < j) :
    ∀ x ∈ t.leaves, ∀ y ∈ u.leaves, x.2 ≤ y.1 := by
  have hpairs := h.ascending
  rw [leavesOf_eq, List.pairwise_flatMap] at hpairs
  obtain ⟨hi, rfl⟩ := List.getElem?_eq_some_iff.mp ht
  obtain ⟨hj, rfl⟩ := List.getElem?_eq_some_iff.mp hu
  exact List.pairwise_iff_getElem.mp hpairs.2 i j hi hj hij

theorem InOrder.nodup {leaves : List (Nat × Nat)} (h : InOrder leaves)
    (hforward : ∀ x ∈ leaves, x.1 < x.2) : leaves.Nodup := by
  refine h.ascending.imp_of_mem fun {x y} hx _ hle heq => ?_
  have := hforward x hx
  rw [heq] at this hle
  omega

end Tree

namespace Spot

variable {parts : List Tree} {s o : Spot}

theorem StandsIn.leaves_sublist (h : s.StandsIn parts) :
    s.tree.leaves.Sublist (Tree.leavesOf parts) :=
  (Tree.spotsOf_within parts [] 0 s (mem_spotsOf_iff.mpr h)).1

theorem StandsIn.inOrder (h : s.StandsIn parts) (hsound : Tree.IsSound parts) :
    Tree.InOrder s.tree.leaves :=
  hsound.inOrder.sublist h.leaves_sublist

/-- The parts among which a spot stands have leaves in order. -/
theorem StandsIn.inOrder_siblings (h : s.StandsIn parts) (hsound : Tree.IsSound parts) :
    Tree.InOrder (Tree.leavesOf (s.siblings parts)) := by
  cases h with
  | top h => exact hsound.inOrder
  | @part o i t ho h =>
    exact (ho.inOrder hsound).sublist (Tree.leavesOf_parts_sublist o.tree)

/-- All leaves of one tree stand before those of another. -/
def LeavesBefore (t u : Tree) : Prop := ∀ x ∈ t.leaves, ∀ y ∈ u.leaves, x.2 ≤ y.1

theorem LeavesBefore.sublist {t u t' u' : Tree} (h : LeavesBefore t u)
    (ht : t'.leaves.Sublist t.leaves) (hu : u'.leaves.Sublist u.leaves) : LeavesBefore t' u' :=
  fun x hx y hy => h x (ht.subset hx) y (hu.subset hy)

/-- What is right before a spot ends before it. -/
theorem RightBefore.leaves {c d : Spot} (h : c.RightBefore parts d) (hc : c.StandsIn parts)
    (hd : d.StandsIn parts) (hsound : Tree.IsSound parts) : LeavesBefore c.tree d.tree := by
  have hsiblings : c.siblings parts = d.siblings parts := by
    rw [siblings, siblings, h.above]
  exact (hd.inOrder_siblings hsound).of_lt (hsiblings ▸ hc.siblings_eq) hd.siblings_eq h.before

/-- Of two spots one is inside the other, or the leaves of one stand before those of the
other. -/
theorem StandsIn.compare (hsound : Tree.IsSound parts) (h : s.StandsIn parts)
    (ho : o.StandsIn parts) :
    (s.IsInside o ∨ o.IsInside s) ∨ LeavesBefore s.tree o.tree ∨ LeavesBefore o.tree s.tree := by
  induction h with
  | @top i t h =>
    obtain ⟨k, u, hu, hinside⟩ := ho.exists_top
    have hsub := (ho.outer hinside).2
    rcases Nat.lt_trichotomy i k with hlt | rfl | hlt
    · exact .inr (.inl (LeavesBefore.sublist (hsound.inOrder.of_lt h hu hlt) (.refl _) hsub))
    · obtain rfl := Option.some.inj (h.symm.trans hu)
      exact .inl (.inr hinside)
    · exact .inr (.inr (LeavesBefore.sublist (hsound.inOrder.of_lt hu h hlt) hsub (.refl _)))
  | @part s i t hs h ih =>
    have hstands := StandsIn.part hs h
    have hinner := isInside_part s i t
    rcases ih with (hin | hin) | hbefore | hbehind
    · exact .inl (.inl (hinner.trans hin))
    · rcases hin.exists_part ho with rfl | ⟨k, u, hu, hinside⟩
      · exact .inl (.inl hinner)
      · have horder := hstands.inOrder_siblings hsound
        have hsub := (ho.outer hinside).2
        rcases Nat.lt_trichotomy i k with hlt | rfl | hlt
        · exact .inr (.inl (LeavesBefore.sublist (horder.of_lt h hu hlt) (.refl _) hsub))
        · obtain rfl := Option.some.inj (h.symm.trans hu)
          exact .inl (.inr hinside)
        · exact .inr (.inr (LeavesBefore.sublist (horder.of_lt hu h hlt) hsub (.refl _)))
    · exact .inr (.inl (hbefore.sublist (hstands.outer hinner).2 (.refl _)))
    · exact .inr (.inr (hbehind.sublist (.refl _) (hstands.outer hinner).2))

/-- Spots of which none is inside the other have no comment in common. -/
theorem StandsIn.comments_disjoint (hsolid : Tree.IsSolid parts) (h : s.StandsIn parts)
    (ho : o.StandsIn parts) (hso : ¬ s.IsInside o) (hos : ¬ o.IsInside s) :
    s.tree.comments.Disjoint o.tree.comments := by
  intro x hx hx'
  have hleaf := (Tree.comments_sublist s.tree).subset hx
  have hleaf' := (Tree.comments_sublist o.tree).subset hx'
  have hforward := hsolid.forward x (h.leaves_sublist.subset hleaf)
  rcases h.compare hsolid.toIsSound ho with (hin | hin) | hbefore | hbefore
  · exact hso hin
  · exact hos hin
  · have := hbefore x hleaf x hleaf'
    omega
  · have := hbefore x hleaf' x hleaf
    omega

/-- No comment is twice in a tree. -/
theorem StandsIn.comments_nodup (hsolid : Tree.IsSolid parts) (h : s.StandsIn parts) :
    s.tree.comments.Nodup :=
  ((hsolid.inOrder.nodup hsolid.forward).sublist h.leaves_sublist).sublist
    (Tree.comments_sublist _)

end Spot

end SourceShelf.Java
