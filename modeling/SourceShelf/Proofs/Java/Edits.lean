import SourceShelf.Proofs.Java.Places

/-!
# Two texts that differ in one body

An `Edit` exchanges one piece of a text, which starts with a brace, for another one with
as many line ends.  What stands before the piece keeps its places, and what stands
behind it moves (`Edit.move`).

A tree that stands outside of the piece says the same in both texts (`Edit.Alike`): it
has the same words, the same text and the same lines, and is a doc comment in both or in
neither.  The last of these asks for the brace.  The test reads three characters from
the start of a comment on, and for a shorter comment right before the piece one of them
would be the brace, which is no part of `/**`.

* `slice_place`, `lineOf_place`, `doc_place`: what the two texts say at places outside of
  the piece, and `Alike.textOf`, `Alike.isDoc` and others what a tree there says.
* `OneApart`: lists that are related but for one place.
* `Exchanged`: lists of trees that differ in one of them.  The others stand outside of the
  piece (`Exchanged.apart`), and the phrases around them span it (`Exchanged.spans`).
-/

namespace SourceShelf.Java

/-! ## Trees at other places -/

namespace Tree

mutual

/-- The same tree at other places. -/
def mapPlaces (f : Nat → Nat) : Tree → Tree
  | leaf w a b => leaf w (f a) (f b)
  | missing w p => missing w (f p)
  | junk a b => junk (f a) (f b)
  | node p parts => node p (mapPlacesOf f parts)
  | error parts => error (mapPlacesOf f parts)

/-- The same trees at other places. -/
def mapPlacesOf (f : Nat → Nat) : List Tree → List Tree
  | [] => []
  | t :: ts => t.mapPlaces f :: mapPlacesOf f ts

end

variable (f : Nat → Nat)

theorem mapPlacesOf_eq_map (ts : List Tree) : mapPlacesOf f ts = ts.map (mapPlaces f) := by
  induction ts with
  | nil => rfl
  | cons t ts ih => rw [mapPlacesOf, ih, List.map_cons]

@[simp] theorem phrase?_mapPlaces (t : Tree) : (t.mapPlaces f).phrase? = t.phrase? := by
  cases t <;> rfl

@[simp] theorem word?_mapPlaces (t : Tree) : (t.mapPlaces f).word? = t.word? := by
  cases t <;> rfl

@[simp] theorem parts_mapPlaces (t : Tree) :
    (t.mapPlaces f).parts = t.parts.map (mapPlaces f) := by
  cases t with
  | node p ps => exact mapPlacesOf_eq_map f ps
  | error ps => exact mapPlacesOf_eq_map f ps
  | leaf w a b => rfl
  | missing w p => rfl
  | junk a b => rfl

mutual

theorem leaves_mapPlaces (t : Tree) :
    (t.mapPlaces f).leaves = t.leaves.map (Prod.map f f) := by
  match t with
  | leaf .. => rfl
  | missing .. => rfl
  | junk .. => rfl
  | node p ps => exact leavesOf_mapPlacesOf ps
  | error ps => exact leavesOf_mapPlacesOf ps

theorem leavesOf_mapPlacesOf (ts : List Tree) :
    leavesOf (mapPlacesOf f ts) = (leavesOf ts).map (Prod.map f f) := by
  match ts with
  | [] => rfl
  | t :: ts =>
    rw [mapPlacesOf, leavesOf, leavesOf, leaves_mapPlaces t, leavesOf_mapPlacesOf ts,
      List.map_append]

end

variable {f}

/-- Where a tree without leaves starts and ends makes no difference if `f` leaves the
start of the text alone. -/
theorem start_mapPlaces (hf : f 0 = 0) (t : Tree) : (t.mapPlaces f).start = f t.start := by
  rw [start, start, start?_eq, start?_eq, leaves_mapPlaces]
  cases t.leaves with
  | nil => exact hf.symm
  | cons x rest => rfl

theorem stop_mapPlaces (hf : f 0 = 0) (t : Tree) : (t.mapPlaces f).stop = f t.stop := by
  rw [stop, stop, stop?_eq, stop?_eq, leaves_mapPlaces, List.getLast?_map]
  cases t.leaves.getLast? with
  | none => exact hf.symm
  | some x => rfl

theorem leavesOf_append (ts us : List Tree) : leavesOf (ts ++ us) = leavesOf ts ++ leavesOf us := by
  induction ts with
  | nil => rfl
  | cons t ts ih => rw [List.cons_append, leavesOf, leavesOf, ih, List.append_assoc]

theorem mem_leavesOf {ts : List Tree} {t : Tree} {x : Nat × Nat} (ht : t ∈ ts)
    (hx : x ∈ t.leaves) : x ∈ leavesOf ts := by
  obtain ⟨us, vs, rfl⟩ := List.append_of_mem ht
  rw [leavesOf_append]
  exact List.mem_append_right _ (List.mem_append_left _ hx)

theorem mem_leaves_of_part {t p : Tree} {x : Nat × Nat} (hp : p ∈ t.parts) (hx : x ∈ p.leaves) :
    x ∈ t.leaves := by
  cases t with
  | node q ps => exact mem_leavesOf hp hx
  | error ps => exact mem_leavesOf hp hx
  | leaf w a b => cases hp
  | missing w a => cases hp
  | junk a b => cases hp

end Tree

/-! ## Edits -/

/-- The exchange of a piece of a text for another one.  Both start with a brace and have
the same number of line ends. -/
structure Edit where
  before : List Char
  old : List Char
  new : List Char
  behind : List Char
  old_opens : old.head? = some '{'
  new_opens : new.head? = some '{'
  lines : new.count '\n' = old.count '\n'

namespace Edit

variable (e : Edit)

/-- The text with the old piece. -/
def source : List Char := e.before ++ e.old ++ e.behind

/-- The text with the new piece. -/
def target : List Char := e.before ++ e.new ++ e.behind

/-- Where the old piece starts, and where the new one does. -/
def low : Nat := e.before.length

/-- Where the old piece ends. -/
def high : Nat := e.before.length + e.old.length

/-- Where a place outside of the old piece is in the new text. -/
def place (p : Nat) : Nat := if p ≤ e.low then p else p - e.old.length + e.new.length

/-- A tree outside of the old piece as it stands in the new text. -/
def move (t : Tree) : Tree := t.mapPlaces e.place

theorem low_lt_high : e.low < e.high := by
  have hne : e.old ≠ [] := by
    intro hnil
    have hopens := e.old_opens
    rw [hnil] at hopens
    cases hopens
  have hpos := List.length_pos_iff.mpr hne
  unfold low high
  omega

variable {e}

theorem place_of_le {p : Nat} (h : p ≤ e.low) : e.place p = p := if_pos h

theorem place_of_ge {p : Nat} (h : e.high ≤ p) :
    e.place p = e.low + e.new.length + (p - e.high) := by
  have hlt := e.low_lt_high
  rw [place, if_neg (by omega)]
  unfold low high at *
  omega

/-- Two places on the same side of the old piece. -/
def Beside (e : Edit) (a b : Nat) : Prop := a ≤ e.low ∧ b ≤ e.low ∨ e.high ≤ a ∧ e.high ≤ b

/-! ## What both texts have -/

theorem drop_of_le (piece : List Char) {p : Nat} (h : p ≤ e.low) :
    (e.before ++ piece ++ e.behind).drop p = e.before.drop p ++ (piece ++ e.behind) := by
  rw [List.append_assoc, List.drop_append_of_le_length h]

theorem drop_of_ge (piece : List Char) (k : Nat) :
    (e.before ++ piece ++ e.behind).drop (e.low + piece.length + k) = e.behind.drop k := by
  rw [← List.drop_drop, low, ← List.length_append, List.drop_left]

theorem drop_source_of_ge {p : Nat} (h : e.high ≤ p) :
    e.source.drop p = e.behind.drop (p - e.high) := by
  have hp : p = e.low + e.old.length + (p - e.high) := by
    unfold low high at *
    omega
  conv_lhs => rw [hp]
  exact drop_of_ge e.old _

theorem drop_target_of_ge {p : Nat} (h : e.high ≤ p) :
    e.target.drop (e.place p) = e.behind.drop (p - e.high) := by
  rw [place_of_ge h]
  exact drop_of_ge e.new _

/-- A part of the text on one side of the piece is in both texts. -/
theorem slice_place {a b : Nat} (h : e.Beside a b) :
    Outline.slice e.target (e.place a) (e.place b) = Outline.slice e.source a b := by
  unfold Outline.slice
  congr 1
  rcases h with ⟨ha, hb⟩ | ⟨ha, hb⟩
  · rw [place_of_le ha, place_of_le hb]
    have hlength : b - a ≤ (e.before.drop a).length := by
      rw [List.length_drop]
      exact Nat.sub_le_sub_right hb a
    rw [source, target, drop_of_le _ ha, drop_of_le _ ha, List.take_append_of_le_length hlength,
      List.take_append_of_le_length hlength]
  · rw [drop_source_of_ge ha, drop_target_of_ge ha, place_of_ge ha, place_of_ge hb]
    congr 1
    omega

/-- A place outside of the piece has the same line in both texts. -/
theorem lineOf_place {p : Nat} (h : p ≤ e.low ∨ e.high ≤ p) :
    Outline.lineOf e.target (e.place p) = Outline.lineOf e.source p := by
  unfold Outline.lineOf
  congr 1
  rcases h with hp | hp
  · rw [place_of_le hp, source, target, List.append_assoc, List.append_assoc,
      List.take_append_of_le_length hp, List.take_append_of_le_length hp]
  · have hcount : ∀ piece k, ((e.before ++ piece ++ e.behind).take
        (e.low + piece.length + k)).count '\n' =
        e.before.count '\n' + piece.count '\n' + (e.behind.take k).count '\n' := by
      intro piece k
      rw [low, ← List.length_append, List.take_append, List.take_of_length_le (by omega),
        Nat.add_sub_cancel_left, List.count_append, List.count_append]
    have hsource : p = e.low + e.old.length + (p - e.high) := by
      unfold low high at *
      omega
    rw [place_of_ge hp, target, hcount, e.lines, ← hcount, ← hsource]
    rfl

/-- Whether a place outside of the piece starts with `/**` does not hang on the piece. -/
theorem doc_place {p : Nat} (h : p ≤ e.low ∨ e.high ≤ p) :
    "/**".toList.isPrefixOf (e.target.drop (e.place p)) =
      "/**".toList.isPrefixOf (e.source.drop p) := by
  rcases h with hp | hp
  · have hopens : ∀ (cs rest : List Char) (piece : List Char), piece.head? = some '{' →
        "/**".toList.isPrefixOf (cs ++ (piece ++ rest)) = "/**".toList.isPrefixOf cs := by
      intro cs rest piece hpiece
      obtain ⟨tail, rfl⟩ := List.head?_eq_some_iff.mp hpiece
      -- the brace is the first, the second or the third character read, or is not read
      rcases cs with _ | ⟨c, _ | ⟨d, _ | ⟨x, cs⟩⟩⟩ <;> simp [List.isPrefixOf]
    rw [place_of_le hp, source, target, drop_of_le _ hp, drop_of_le _ hp,
      hopens _ _ _ e.new_opens, hopens _ _ _ e.old_opens]
  · rw [drop_source_of_ge hp, drop_target_of_ge hp]

/-! ## Trees outside of the piece -/

/-- A tree that stands before the old piece or behind it. -/
def Outside (e : Edit) (t : Tree) : Prop :=
  (∀ x ∈ t.leaves, x.1 ≤ e.low ∧ x.2 ≤ e.low) ∨ ∀ x ∈ t.leaves, e.high ≤ x.1 ∧ e.high ≤ x.2

/-- A tree outside of the old piece, and the same tree in the new text. -/
structure Alike (e : Edit) (t t' : Tree) : Prop where
  outside : e.Outside t
  eq : t' = e.move t

theorem Outside.beside {t : Tree} (h : e.Outside t) : e.Beside t.start t.stop := by
  rw [Tree.start, Tree.stop, Tree.start?_eq, Tree.stop?_eq]
  cases hleaves : t.leaves with
  | nil => exact .inl ⟨Nat.zero_le _, Nat.zero_le _⟩
  | cons x rest =>
    have hfirst : x ∈ t.leaves := hleaves ▸ List.mem_cons_self
    obtain ⟨y, hlast⟩ : ∃ y, (x :: rest).getLast? = some y :=
      ⟨_, List.getLast?_eq_some_getLast (List.cons_ne_nil x rest)⟩
    have hy : y ∈ t.leaves := hleaves ▸ List.mem_of_getLast? hlast
    rw [hlast]
    rcases h with hleft | hright
    · exact .inl ⟨(hleft x hfirst).1, (hleft y hy).2⟩
    · exact .inr ⟨(hright x hfirst).1, (hright y hy).2⟩

theorem Outside.part {t p : Tree} (h : e.Outside t) (hp : p ∈ t.parts) : e.Outside p :=
  h.imp (fun hleft x hx => hleft x (Tree.mem_leaves_of_part hp hx))
    fun hright x hx => hright x (Tree.mem_leaves_of_part hp hx)

namespace Alike

variable {t t' : Tree}

theorem phrase? (h : e.Alike t t') : t'.phrase? = t.phrase? := by
  rw [h.eq, move, Tree.phrase?_mapPlaces]

theorem word? (h : e.Alike t t') : t'.word? = t.word? := by
  rw [h.eq, move, Tree.word?_mapPlaces]

theorem isNamed (h : e.Alike t t') : t'.isNamed = t.isNamed := by
  rw [Tree.isNamed, Tree.isNamed, h.word?]

theorem isComment (h : e.Alike t t') : t'.isComment = t.isComment := by
  rw [Tree.isComment, Tree.isComment, h.word?]

theorem isPhrase (h : e.Alike t t') (p : Phrase) : t'.isPhrase p = t.isPhrase p := by
  rw [Tree.isPhrase, Tree.isPhrase, h.phrase?]

theorem isWord (h : e.Alike t t') (w : Token) : t'.isWord w = t.isWord w := by
  rw [Tree.isWord, Tree.isWord, h.word?]

theorem parts (h : e.Alike t t') : List.Forall₂ e.Alike t.parts t'.parts := by
  rw [h.eq, move, Tree.parts_mapPlaces, List.forall₂_map_right_iff]
  exact List.forall₂_same.mpr fun p hp => ⟨h.outside.part hp, rfl⟩

private theorem place_zero : e.place 0 = 0 := place_of_le (Nat.zero_le _)

/-- The text of a tree outside of the piece. -/
theorem textOf (h : e.Alike t t') :
    Outline.textOf e.target t' = Outline.textOf e.source t := by
  rw [Outline.textOf, Outline.textOf, h.eq, move, Tree.start_mapPlaces place_zero,
    Tree.stop_mapPlaces place_zero, slice_place h.outside.beside]

theorem startLine (h : e.Alike t t') :
    Outline.lineOf e.target t'.start = Outline.lineOf e.source t.start := by
  rw [h.eq, move, Tree.start_mapPlaces place_zero]
  exact lineOf_place (h.outside.beside.imp And.left And.left)

theorem endLine (h : e.Alike t t') :
    Outline.lineOf e.target t'.stop = Outline.lineOf e.source t.stop := by
  rw [h.eq, move, Tree.stop_mapPlaces place_zero]
  exact lineOf_place (h.outside.beside.imp And.right And.right)

theorem isDoc (h : e.Alike t t') :
    Outline.isDoc e.target t' = Outline.isDoc e.source t := by
  rw [Outline.isDoc, Outline.isDoc, h.isComment, h.eq, move, Tree.start_mapPlaces place_zero,
    doc_place (h.outside.beside.imp And.left And.left)]

end Alike

end Edit

/-! ## Lists that differ in one place -/

/-- Two lists that are related by `R`, but for one place, where `D` relates them. -/
inductive OneApart {α β : Type} (R D : α → β → Prop) : List α → List β → Prop where
  | here {a : α} {b : β} {as : List α} {bs : List β} (h : D a b) (hrest : List.Forall₂ R as bs) :
      OneApart R D (a :: as) (b :: bs)
  | there {a : α} {b : β} {as : List α} {bs : List β} (h : R a b) (hrest : OneApart R D as bs) :
      OneApart R D (a :: as) (b :: bs)

namespace OneApart

variable {α β γ δ : Type} {R D : α → β → Prop} {S E : γ → δ → Prop} {as as₀ : List α}
  {bs bs₀ : List β}

theorem imp {R' D' : α → β → Prop} (h : OneApart R D as bs) (hR : ∀ a b, R a b → R' a b)
    (hD : ∀ a b, D a b → D' a b) : OneApart R' D' as bs := by
  induction h with
  | here hab hrest => exact .here (hD _ _ hab) (hrest.imp hR)
  | there hab _ ih => exact .there (hR _ _ hab) ih

theorem append_left (h₀ : List.Forall₂ R as₀ bs₀) (h : OneApart R D as bs) :
    OneApart R D (as₀ ++ as) (bs₀ ++ bs) := by
  induction h₀ with
  | nil => exact h
  | cons hab _ ih => exact .there hab ih

theorem append_right (h : OneApart R D as bs) (h₀ : List.Forall₂ R as₀ bs₀) :
    OneApart R D (as ++ as₀) (bs ++ bs₀) := by
  induction h with
  | here hab hrest => exact .here hab (List.rel_append hrest h₀)
  | there hab _ ih => exact .there hab ih

theorem length_eq (h : OneApart R D as bs) : as.length = bs.length := by
  induction h with
  | here _ hrest => rw [List.length_cons, List.length_cons, hrest.length_eq]
  | there _ _ ih => rw [List.length_cons, List.length_cons, ih]

/-- Where `R` and `D` say the same, no place differs from the others. -/
theorem forall₂ {P : α → β → Prop} (h : OneApart R D as bs) (hR : ∀ a b, R a b → P a b)
    (hD : ∀ a b, D a b → P a b) : List.Forall₂ P as bs := by
  induction h with
  | here hab hrest => exact .cons (hD _ _ hab) (hrest.imp hR)
  | there hab _ ih => exact .cons (hR _ _ hab) ih

theorem flatMap {f : α → List γ} {g : β → List δ} (h : OneApart R D as bs)
    (hR : ∀ a b, R a b → List.Forall₂ S (f a) (g b))
    (hD : ∀ a b, D a b → OneApart S E (f a) (g b)) :
    OneApart S E (as.flatMap f) (bs.flatMap g) := by
  induction h with
  | here hab hrest =>
    rw [List.flatMap_cons, List.flatMap_cons]
    exact (hD _ _ hab).append_right (List.rel_flatMap hrest fun a b hab => hR a b hab)
  | there hab _ ih =>
    rw [List.flatMap_cons, List.flatMap_cons]
    exact append_left (hR _ _ hab) ih

theorem filter {test : α → Bool} {test' : β → Bool} (h : OneApart R D as bs)
    (hR : ∀ a b, R a b → (test a = true ↔ test' b = true))
    (hD : ∀ a b, D a b → test a = true ∧ test' b = true) :
    OneApart R D (as.filter test) (bs.filter test') := by
  induction h with
  | here hab hrest =>
    obtain ⟨ha, hb⟩ := hD _ _ hab
    rw [List.filter_cons_of_pos ha, List.filter_cons_of_pos hb]
    exact .here hab (List.rel_filter (fun _ _ hxy => hR _ _ hxy) hrest)
  | @there a b _ _ hab _ ih =>
    by_cases ha : test a = true
    · rw [List.filter_cons_of_pos ha, List.filter_cons_of_pos ((hR a b hab).mp ha)]
      exact .there hab ih
    · rw [List.filter_cons_of_neg ha, List.filter_cons_of_neg (mt (hR a b hab).mpr ha)]
      exact ih

theorem map {f : α → γ} {g : β → δ} (h : OneApart R D as bs)
    (hR : ∀ a b, R a b → S (f a) (g b)) (hD : ∀ a b, D a b → E (f a) (g b)) :
    OneApart S E (as.map f) (bs.map g) := by
  induction h with
  | here hab hrest =>
    refine .here (hD _ _ hab) ?_
    rw [List.forall₂_map_left_iff, List.forall₂_map_right_iff]
    exact hrest.imp hR
  | there hab _ ih => exact .there (hR _ _ hab) ih

theorem zipIdx (h : OneApart R D as bs) (n : Nat) :
    OneApart (fun x y => R x.1 y.1 ∧ y.2 = x.2) (fun x y => D x.1 y.1 ∧ y.2 = x.2)
      (as.zipIdx n) (bs.zipIdx n) := by
  induction h generalizing n with
  | @here a b as bs hab hrest =>
    rw [List.zipIdx_cons, List.zipIdx_cons]
    refine .here ⟨hab, rfl⟩ ?_
    generalize n + 1 = n
    induction hrest generalizing n with
    | nil => exact .nil
    | cons hxy _ ih =>
      rw [List.zipIdx_cons, List.zipIdx_cons]
      exact .cons ⟨hxy, rfl⟩ (ih (n + 1))
  | there hab _ ih =>
    rw [List.zipIdx_cons, List.zipIdx_cons]
    exact .there ⟨hab, rfl⟩ (ih (n + 1))

/-- What differs stands in the lists. -/
theorem and_mem (h : OneApart R D as bs) :
    OneApart R (fun a b => D a b ∧ a ∈ as ∧ b ∈ bs) as bs := by
  induction h with
  | here hab hrest => exact .here ⟨hab, List.mem_cons_self, List.mem_cons_self⟩ hrest
  | there hab _ ih =>
    refine .there hab (ih.imp (fun _ _ h => h) fun a b h => ?_)
    exact ⟨h.1, List.mem_cons_of_mem _ h.2.1, List.mem_cons_of_mem _ h.2.2⟩

/-- Lists that are the same but for one place. -/
theorem exists_of_eq {D : α → α → Prop} {as bs : List α} (h : OneApart Eq D as bs) :
    ∃ front a b rear, as = front ++ a :: rear ∧ bs = front ++ b :: rear ∧ D a b := by
  induction h with
  | @here a b as bs hab hrest =>
    rw [List.forall₂_eq_eq_eq] at hrest
    exact ⟨[], a, b, as, rfl, congrArg (b :: ·) hrest.symm, hab⟩
  | @there a b as bs hab _ ih =>
    obtain ⟨front, x, y, rear, rfl, rfl, hxy⟩ := ih
    exact ⟨a :: front, x, y, rear, rfl, congrArg (· :: (front ++ y :: rear)) hab.symm, hxy⟩

end OneApart

/-! ## One part exchanged -/

namespace Edit

variable {e : Edit}

/-- Lists of parts that differ in one of them.  The others are the same trees, those
behind the piece at their new places. -/
def Exchanged (e : Edit) (c c' : Tree) (ps ps' : List Tree) : Prop :=
  ∃ front rear, ps = front ++ c :: rear ∧ ps' = front.map e.move ++ c' :: rear.map e.move

/-- Two trees that start at the same place before the piece, if not at its start, and end
at the same place behind it, if not at its end. -/
structure Spans (e : Edit) (t t' : Tree) : Prop where
  start : ∃ a, t.start? = some a ∧ t'.start? = some a ∧ a ≤ e.low
  stop : ∃ z, t.stop? = some z ∧ t'.stop? = some (e.place z) ∧ e.high ≤ z

theorem Spans.startLine {t t' : Tree} (h : e.Spans t t') :
    Outline.lineOf e.target t'.start = Outline.lineOf e.source t.start := by
  obtain ⟨a, ha, ha', hle⟩ := h.start
  rw [Tree.start, Tree.start, ha, ha', Option.getD_some, ← lineOf_place (.inl hle),
    place_of_le hle]

theorem Spans.endLine {t t' : Tree} (h : e.Spans t t') :
    Outline.lineOf e.target t'.stop = Outline.lineOf e.source t.stop := by
  obtain ⟨z, hz, hz', hge⟩ := h.stop
  rw [Tree.stop, Tree.stop, hz, hz', Option.getD_some, Option.getD_some,
    lineOf_place (.inr hge)]

namespace Exchanged

variable {c c' : Tree} {front rear : List Tree}

/-- What stands before a tree around the piece stands before the piece. -/
theorem front_before (hc : e.Spans c c')
    (horder : Tree.InOrder (Tree.leavesOf (front ++ c :: rear))) :
    ∀ x ∈ Tree.leavesOf front, x.1 ≤ e.low ∧ x.2 ≤ e.low := by
  intro x hx
  rw [Tree.leavesOf_append] at horder
  obtain ⟨a, ha, -, hle⟩ := hc.start
  rw [Tree.start?_eq, Option.map_eq_some_iff] at ha
  obtain ⟨y, hy, rfl⟩ := ha
  have hy : y ∈ Tree.leavesOf (c :: rear) := List.mem_append_left _ (List.mem_of_head? hy)
  have hxy := (List.pairwise_append.mp horder.ascending).2.2 x hx y hy
  have hforward := horder.forward x (List.mem_append_left _ hx)
  omega

/-- What stands behind a tree around the piece stands behind the piece. -/
theorem rear_behind (hc : e.Spans c c')
    (horder : Tree.InOrder (Tree.leavesOf (front ++ c :: rear))) :
    ∀ x ∈ Tree.leavesOf rear, e.high ≤ x.1 ∧ e.high ≤ x.2 := by
  intro x hx
  rw [Tree.leavesOf_append, Tree.leavesOf] at horder
  obtain ⟨z, hz, -, hge⟩ := hc.stop
  rw [Tree.stop?_eq, Option.map_eq_some_iff] at hz
  obtain ⟨y, hy, rfl⟩ := hz
  have hrest := (List.pairwise_append.mp horder.ascending).2.1
  have hyx := (List.pairwise_append.mp hrest).2.2 y (List.mem_of_getLast? hy) x hx
  have hforward := horder.forward x (List.mem_append_right _ (List.mem_append_right _ hx))
  omega

/-- The parts that are not exchanged stand outside of the piece. -/
theorem apart {ps ps' : List Tree} (h : e.Exchanged c c' ps ps') (hc : e.Spans c c')
    (horder : Tree.InOrder (Tree.leavesOf ps)) :
    OneApart e.Alike (fun x y => x = c ∧ y = c') ps ps' := by
  obtain ⟨front, rear, rfl, rfl⟩ := h
  refine OneApart.append_left ?_ (.here ⟨rfl, rfl⟩ ?_)
  · rw [List.forall₂_map_right_iff]
    exact List.forall₂_same.mpr fun t ht =>
      ⟨.inl fun x hx => front_before hc horder x (Tree.mem_leavesOf ht hx), rfl⟩
  · rw [List.forall₂_map_right_iff]
    exact List.forall₂_same.mpr fun t ht =>
      ⟨.inr fun x hx => rear_behind hc horder x (Tree.mem_leavesOf ht hx), rfl⟩

/-- What holds of trees outside of the piece holds of all parts but the one exchanged. -/
theorem oneApart {ps ps' : List Tree} {R D : Tree → Tree → Prop} (h : e.Exchanged c c' ps ps')
    (hc : e.Spans c c') (horder : Tree.InOrder (Tree.leavesOf ps))
    (halike : ∀ x y, e.Alike x y → R x y) (hodd : D c c') : OneApart R D ps ps' := by
  refine (h.apart hc horder).imp halike ?_
  rintro _ _ ⟨rfl, rfl⟩
  exact hodd

/-- What holds of trees outside of the piece and of the exchanged trees holds of all. -/
theorem forall₂ {ps ps' : List Tree} {R : Tree → Tree → Prop} (h : e.Exchanged c c' ps ps')
    (hc : e.Spans c c') (horder : Tree.InOrder (Tree.leavesOf ps))
    (halike : ∀ x y, e.Alike x y → R x y) (hodd : R c c') : List.Forall₂ R ps ps' :=
  (h.oneApart hc horder halike hodd).forall₂ (fun _ _ => id) fun _ _ => id

/-- The phrases that the parts make start and end where their texts agree, too. -/
theorem spans {ps ps' : List Tree} (h : e.Exchanged c c' ps ps') (hc : e.Spans c c')
    (horder : Tree.InOrder (Tree.leavesOf ps)) (p : Phrase) :
    e.Spans (.node p ps) (.node p ps') := by
  obtain ⟨front, rear, rfl, rfl⟩ := h
  have hmoved : ∀ ts, Tree.leavesOf (ts.map e.move) =
      (Tree.leavesOf ts).map (Prod.map e.place e.place) := fun ts => by
    rw [← Tree.leavesOf_mapPlacesOf, Tree.mapPlacesOf_eq_map]
    rfl
  constructor
  · obtain ⟨a, ha, ha', hle⟩ := hc.start
    rw [Tree.start?_eq] at ha ha'
    show ∃ a, Tree.startOf? _ = _ ∧ Tree.startOf? _ = _ ∧ _
    rw [Tree.startOf?_eq, Tree.startOf?_eq, Tree.leavesOf_append, Tree.leavesOf_append, hmoved]
    cases hfront : Tree.leavesOf front with
    | nil =>
      refine ⟨a, ?_, ?_, hle⟩
      · rw [Tree.leavesOf, List.nil_append, List.head?_append, Option.map_or, ha, Option.some_or]
      · rw [Tree.leavesOf, List.map_nil, List.nil_append, List.head?_append, Option.map_or, ha',
          Option.some_or]
    | cons x rest =>
      have hx := (front_before hc horder x (hfront ▸ List.mem_cons_self)).1
      exact ⟨x.1, rfl, congrArg some (place_of_le hx), hx⟩
  · obtain ⟨z, hz, hz', hge⟩ := hc.stop
    rw [Tree.stop?_eq] at hz hz'
    show ∃ z, Tree.stopOf? _ = _ ∧ Tree.stopOf? _ = _ ∧ _
    rw [Tree.stopOf?_eq, Tree.stopOf?_eq, Tree.leavesOf_append, Tree.leavesOf_append, Tree.leavesOf,
      Tree.leavesOf, hmoved, hmoved, List.getLast?_append, List.getLast?_append,
      List.getLast?_append, List.getLast?_append, List.getLast?_map]
    cases hrear : (Tree.leavesOf rear).getLast? with
    | none =>
      refine ⟨z, ?_, ?_, hge⟩
      · rw [Option.none_or, Option.map_or, hz, Option.some_or]
      · rw [Option.map_none, Option.none_or, Option.map_or, hz', Option.some_or]
    | some x =>
      have hx := (rear_behind hc horder x (List.mem_of_getLast? hrear)).2
      exact ⟨x.2, rfl, rfl, hx⟩

end Exchanged

end Edit

end SourceShelf.Java
