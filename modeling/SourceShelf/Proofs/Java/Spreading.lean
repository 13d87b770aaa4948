import Mathlib.Algebra.Order.BigOperators.Group.List
import Mathlib.Algebra.Order.Ring.Nat
import Mathlib.Data.Finset.Card
import SourceShelf.Proofs.Java.Dotted

/-!
# Spreading words to the phrases they come behind

`State.spread` works through a list of phrases and puts a phrase on it again when a
word is new to it.  There are finitely many words, so the list gets empty
(`State.closed_spread`): what is found is closed under corners.  And what is found
is no more than that, since each step only follows a corner (`State.Bounded.spread`).

* `lacking`: how much can still be found; every step of the work either takes a
  phrase off the list for good, or lowers this.
* `Grown`: what the corners of one phrase do to what was found before.
* `predict_start`, `predict_closed`, `predict_least`: the prediction of a state is
  the least one that starts with its items and is closed under corners.
-/

namespace SourceShelf.Java

namespace State

/-- The words that have been found behind a phrase. -/
def behindIn (sets : Array TokenSet) (p : Phrase) : TokenSet := sets[p.ctorIdx]?.getD .empty

/-- True of a phrase that has been found. -/
def seenIn (seen : Array Bool) (p : Phrase) : Bool := seen[p.ctorIdx]?.getD false

/-- A corner of a phrase with the given words behind it adds these words. -/
def added (own : TokenSet) (c : Corner) : TokenSet :=
  if c.isOpen then c.follow.union own else c.follow

variable {own : TokenSet} {work : List Phrase} {sets : Array TokenSet} {seen : Array Bool}

theorem behindIn_set (hsize : sets.size = Phrase.count) (p q : Phrase) (s : TokenSet) :
    behindIn (sets.setIfInBounds p.ctorIdx s) q = if p = q then s else behindIn sets q := by
  have hp := p.ctorIdx_lt_count
  rw [behindIn, Array.getElem?_setIfInBounds]
  by_cases heq : p = q
  · subst heq
    simp [hsize, hp]
  · rw [if_neg fun h => heq (Phrase.ctorIdx_inj h), if_neg heq]
    rfl

theorem seenIn_set (hsize : seen.size = Phrase.count) (p q : Phrase) :
    seenIn (seen.setIfInBounds p.ctorIdx true) q = (decide (p = q) || seenIn seen q) := by
  have hp := p.ctorIdx_lt_count
  rw [seenIn, Array.getElem?_setIfInBounds]
  by_cases heq : p = q
  · subst heq
    simp [hsize, hp]
  · rw [if_neg fun h => heq (Phrase.ctorIdx_inj h), decide_eq_false heq]
    rfl

theorem contains_added {c : Corner} {t : Token} :
    (added own c).contains t = true ↔
      c.follow.contains t = true ∨ c.isOpen = true ∧ own.contains t = true := by
  unfold added
  split
  · rename_i hopen
    simp [hopen]
  · rename_i hclosed
    simp [hclosed]

/-- A corner that adds something new is put on the list. -/
theorem spreadTo_eq (c : Corner) :
    spreadTo own (work, sets, seen) c =
      if (behindIn sets c.phrase).union (added own c) = behindIn sets c.phrase ∧
        seenIn seen c.phrase = true then (work, sets, seen)
      else (c.phrase :: work,
        sets.setIfInBounds c.phrase.ctorIdx ((behindIn sets c.phrase).union (added own c)),
        seen.setIfInBounds c.phrase.ctorIdx true) := by
  unfold spreadTo
  simp only [Bool.and_eq_true, decide_eq_true_eq]
  rfl

/-! ## How much can still be found -/

open scoped Classical in
/-- The words that have not been found behind a phrase, and the phrase itself if it has
not been found. -/
noncomputable def lackingAt (sets : Array TokenSet) (seen : Array Bool) (p : Phrase) : Nat :=
  ((Finset.range (Token.count + 1)).filter fun n => ¬ (behindIn sets p).bits.testBit n).card +
    if seenIn seen p then 0 else 1

/-- How much can still be found. -/
noncomputable def lacking (sets : Array TokenSet) (seen : Array Bool) : Nat :=
  (Phrase.all.map (lackingAt sets seen)).sum

theorem lackingAt_le (sets : Array TokenSet) (seen : Array Bool) (p : Phrase) :
    lackingAt sets seen p ≤ Token.count + 2 := by
  unfold lackingAt
  have hwords := Finset.card_filter_le (Finset.range (Token.count + 1))
    fun n => ¬ (behindIn sets p).bits.testBit n
  rw [Finset.card_range] at hwords
  split <;> omega

theorem lacking_le (sets : Array TokenSet) (seen : Array Bool) :
    lacking sets seen ≤ Phrase.count * (Token.count + 2) := by
  have hsum := List.sum_le_card_nsmul (Phrase.all.map (lackingAt sets seen)) (Token.count + 2)
    (fun n hn => by
      obtain ⟨p, -, rfl⟩ := List.mem_map.mp hn
      exact lackingAt_le sets seen p)
  rwa [List.length_map, Phrase.length_all, nsmul_eq_mul, Nat.cast_id] at hsum

/-- What has been found so far: nothing that is no word, in arrays with a place for
every phrase. -/
structure Fit (sets : Array TokenSet) (seen : Array Bool) : Prop where
  size_sets : sets.size = Phrase.count
  size_seen : seen.size = Phrase.count
  proper : ∀ p, (behindIn sets p).Proper

/-- A set that grows lacks fewer words. -/
theorem lackingWords_union_subset (a b : TokenSet) :
    ((Finset.range (Token.count + 1)).filter fun n => ¬ (a.union b).bits.testBit n) ⊆
      (Finset.range (Token.count + 1)).filter fun n => ¬ a.bits.testBit n := by
  intro n hn
  rw [Finset.mem_filter, TokenSet.union, Nat.testBit_or] at hn
  exact Finset.mem_filter.mpr ⟨hn.1, fun hold => hn.2 (by rw [hold, Bool.true_or])⟩

/-- A set that grows by something has a word that it had not. -/
theorem exists_testBit_of_union_ne {a b : TokenSet} (h : a.union b ≠ a) :
    ∃ n, b.bits.testBit n = true ∧ a.bits.testBit n = false := by
  by_contra hnone
  push Not at hnone
  obtain ⟨a⟩ := a
  obtain ⟨b⟩ := b
  refine h (congrArg TokenSet.mk (Nat.eq_of_testBit_eq fun n => ?_))
  rw [Nat.testBit_or]
  cases hb : b.testBit n with
  | false => rw [Bool.or_false]
  | true =>
    have hold : a.testBit n = true := by simpa using hnone n hb
    rw [hold, Bool.or_true]

/-- Finding more leaves less to be found. -/
theorem Fit.lacking_lt (h : Fit sets seen) {p : Phrase} {more : TokenSet} (hmore : more.Proper)
    (hnew : ¬ ((behindIn sets p).union more = behindIn sets p ∧ seenIn seen p = true)) :
    lacking (sets.setIfInBounds p.ctorIdx ((behindIn sets p).union more))
      (seen.setIfInBounds p.ctorIdx true) < lacking sets seen := by
  refine List.sum_lt_sum _ _ (fun q _ => ?_) ⟨p, p.mem_all, ?_⟩
  · unfold lackingAt
    rw [behindIn_set h.size_sets, seenIn_set h.size_seen]
    by_cases heq : p = q
    · subst heq
      rw [if_pos rfl]
      exact Nat.add_le_add (Finset.card_le_card (lackingWords_union_subset _ _)) (by simp)
    · simp [heq]
  · unfold lackingAt
    rw [behindIn_set h.size_sets, seenIn_set h.size_seen, if_pos rfl]
    have hsub := lackingWords_union_subset (behindIn sets p) more
    by_cases hseen : seenIn seen p = true
    · -- then some word is new
      obtain ⟨n, hfound, hold⟩ := exists_testBit_of_union_ne fun hsame => hnew ⟨hsame, hseen⟩
      have hstrict := Finset.card_lt_card (Finset.ssubset_iff_of_subset hsub |>.mpr
        ⟨n, by
          rw [Finset.mem_filter, Finset.mem_range, hold]
          exact ⟨Nat.lt_succ_of_le (hmore n hfound), Bool.false_ne_true⟩, by
          rw [Finset.mem_filter, TokenSet.union, Nat.testBit_or, hfound]
          simp⟩)
      simpa [hseen] using hstrict
    · have hle := Finset.card_le_card hsub
      simp only [decide_true, Bool.true_or, if_true, hseen, Bool.false_eq_true, if_false]
      omega

/-! ## The corners of one phrase -/

/-- What was found before, and what has been found when some corners of a phrase with the
words `own` behind it were looked at. -/
structure Grown (own : TokenSet) (cs : List Corner) (before after :
    List Phrase × Array TokenSet × Array Bool) : Prop where
  fit : Fit after.2.1 after.2.2
  work : before.1 ⊆ after.1
  kept : ∀ p t, (behindIn before.2.1 p).contains t = true →
    (behindIn after.2.1 p).contains t = true
  seen : ∀ p, seenIn before.2.2 p = true → seenIn after.2.2 p = true
  same : ∀ p, p ∈ after.1 ∨
    behindIn after.2.1 p = behindIn before.2.1 p ∧ seenIn after.2.2 p = seenIn before.2.2 p
  corners : ∀ c ∈ cs, seenIn after.2.2 c.phrase = true ∧
    ∀ t, (added own c).contains t = true → (behindIn after.2.1 c.phrase).contains t = true
  fewer : after.1.length + lacking after.2.1 after.2.2 ≤
    before.1.length + lacking before.2.1 before.2.2

theorem Grown.nil (found : List Phrase × Array TokenSet × Array Bool) (h : Fit found.2.1 found.2.2)
    (own : TokenSet) : Grown own [] found found where
  fit := h
  work := List.Subset.refl _
  kept _ _ ht := ht
  seen _ hp := hp
  same _ := .inr ⟨rfl, rfl⟩
  corners _ hc := nomatch hc
  fewer := Nat.le_refl _

theorem Grown.trans {cs cs' : List Corner} {x y z : List Phrase × Array TokenSet × Array Bool}
    (h : Grown own cs x y) (h' : Grown own cs' y z) : Grown own (cs ++ cs') x z where
  fit := h'.fit
  work := List.Subset.trans h.work h'.work
  kept p t ht := h'.kept p t (h.kept p t ht)
  seen p hp := h'.seen p (h.seen p hp)
  same p := by
    rcases h'.same p with hmem | ⟨hsets, hseen⟩
    · exact .inl hmem
    · rcases h.same p with hmem | ⟨hsets', hseen'⟩
      · exact .inl (h'.work hmem)
      · exact .inr ⟨hsets.trans hsets', hseen.trans hseen'⟩
  corners c hc := by
    rcases List.mem_append.mp hc with hc | hc
    · obtain ⟨hseen, hwords⟩ := h.corners c hc
      exact ⟨h'.seen _ hseen, fun t ht => h'.kept _ t (hwords t ht)⟩
    · exact h'.corners c hc
  fewer := Nat.le_trans h'.fewer h.fewer

/-- One corner. -/
theorem grown_spreadTo (h : Fit sets seen) {c : Corner} (hc : (added own c).Proper) :
    Grown own [c] (work, sets, seen) (spreadTo own (work, sets, seen) c) := by
  rw [spreadTo_eq]
  split
  · rename_i hold
    refine { Grown.nil (work, sets, seen) h own with corners := fun c' hc' => ?_ }
    obtain rfl := List.mem_singleton.mp hc'
    refine ⟨hold.2, fun t ht => ?_⟩
    show (behindIn sets c'.phrase).contains t = true
    rw [← hold.1, TokenSet.contains_union, ht, Bool.or_true]
  · rename_i hnew
    exact {
      fit := {
        size_sets := Array.size_setIfInBounds.trans h.size_sets
        size_seen := Array.size_setIfInBounds.trans h.size_seen
        proper := fun p => by
          rw [behindIn_set h.size_sets]
          split
          · exact (h.proper _).union hc
          · exact h.proper p }
      work := List.subset_cons_self _ _
      kept := fun p t ht => by
        rw [behindIn_set h.size_sets]
        split
        · rename_i heq
          rw [TokenSet.contains_union, heq, ht, Bool.true_or]
        · exact ht
      seen := fun p hp => by
        rw [seenIn_set h.size_seen, hp, Bool.or_true]
      same := fun p => by
        by_cases heq : c.phrase = p
        · exact .inl (heq ▸ List.mem_cons_self)
        · refine .inr ⟨?_, ?_⟩
          · rw [behindIn_set h.size_sets, if_neg heq]
          · rw [seenIn_set h.size_seen, decide_eq_false heq, Bool.false_or]
      corners := fun c' hc' => by
        obtain rfl := List.mem_singleton.mp hc'
        refine ⟨?_, fun t ht => ?_⟩
        · rw [seenIn_set h.size_seen, decide_eq_true rfl, Bool.true_or]
        · rw [behindIn_set h.size_sets, if_pos rfl, TokenSet.contains_union, ht, Bool.or_true]
      fewer := by
        have hlt := h.lacking_lt hc hnew
        simp only [List.length_cons]
        omega }

theorem grown_spreadTo_all {cs : List Corner} (hcs : ∀ c ∈ cs, (added own c).Proper)
    {found : List Phrase × Array TokenSet × Array Bool} (h : Fit found.2.1 found.2.2) :
    Grown own cs found (cs.foldl (spreadTo own) found) := by
  induction cs generalizing found with
  | nil => exact .nil _ h own
  | cons c cs ih =>
    obtain ⟨work, sets, seen⟩ := found
    have hfirst : Grown own [c] (work, sets, seen) (spreadTo own (work, sets, seen) c) :=
      grown_spreadTo h (hcs c List.mem_cons_self)
    exact hfirst.trans (ih (fun c' hc' => hcs c' (List.mem_cons_of_mem c hc')) hfirst.fit)

/-! ## The whole work -/

/-- The corners of a phrase have been followed. -/
def Followed (sets : Array TokenSet) (seen : Array Bool) (p : Phrase) : Prop :=
  ∀ c ∈ forms.cornersOf p, seenIn seen c.phrase = true ∧
    ∀ t, (added (behindIn sets p) c).contains t = true →
      (behindIn sets c.phrase).contains t = true

/-- Every phrase that has been found is still to be worked on, or has been followed. -/
structure Working (work : List Phrase) (sets : Array TokenSet) (seen : Array Bool) : Prop where
  fit : Fit sets seen
  phrases : ∀ p, seenIn seen p = true → p ∈ work ∨ Followed sets seen p

/-- What is found when nothing is left to be worked on. -/
structure Closed (found : Array TokenSet × Array Bool) : Prop where
  fit : Fit found.1 found.2
  phrases : ∀ p, seenIn found.2 p = true → Followed found.1 found.2 p

theorem Working.closed (h : Working [] sets seen) : Closed (sets, seen) :=
  ⟨h.fit, fun p hp => (h.phrases p hp).resolve_left List.not_mem_nil⟩

theorem grown_cornersOf (work : List Phrase) (h : Fit sets seen) (p : Phrase) :
    Grown (behindIn sets p) (forms.cornersOf p).toList (work, sets, seen)
      ((forms.cornersOf p).toList.foldl (spreadTo (behindIn sets p)) (work, sets, seen)) := by
  refine grown_spreadTo_all (fun c hc => ?_) h
  unfold added
  have hproper := Forms.proper_corner (Array.mem_toList_iff.mp hc)
  split
  · exact hproper.union (h.proper p)
  · exact hproper

theorem Working.step {p : Phrase} (h : Working (p :: work) sets seen)
    {after : List Phrase × Array TokenSet × Array Bool}
    (hafter : (forms.cornersOf p).toList.foldl (spreadTo (behindIn sets p)) (work, sets, seen) =
      after) :
    Working after.1 after.2.1 after.2.2 ∧
      after.1.length + lacking after.2.1 after.2.2 ≤ work.length + lacking sets seen := by
  have hgrown := grown_cornersOf work h.fit p
  rw [hafter] at hgrown
  refine ⟨⟨hgrown.fit, fun q hq => ?_⟩, hgrown.fewer⟩
  rcases hgrown.same q with hmem | ⟨hsets, hseen⟩
  · exact .inl hmem
  by_cases hqp : q = p
  · subst hqp
    refine .inr fun c hc => ?_
    rw [hsets]
    exact hgrown.corners c (Array.mem_toList_iff.mpr hc)
  · rw [hseen] at hq
    rcases h.phrases q hq with hmem | hfollowed
    · exact .inl (hgrown.work ((List.mem_cons.mp hmem).resolve_left hqp))
    · refine .inr fun c hc => ?_
      obtain ⟨hold, hwords⟩ := hfollowed c hc
      rw [hsets]
      exact ⟨hgrown.seen _ hold, fun t ht => hgrown.kept _ t (hwords t ht)⟩

/-- With enough steps the list gets empty. -/
theorem Working.closed_spread (h : Working work sets seen) {n : Nat}
    (hn : work.length + lacking sets seen ≤ n) : Closed (spread n work sets seen) := by
  induction n generalizing work sets seen with
  | zero =>
    obtain rfl := List.length_eq_zero_iff.mp (by omega : work.length = 0)
    exact h.closed
  | succ n ih =>
    cases work with
    | nil => exact h.closed
    | cons p work =>
      rw [spread, ← Array.foldl_toList]
      rcases hafter : (forms.cornersOf p).toList.foldl (spreadTo (sets[p.ctorIdx]?.getD .empty))
        (work, sets, seen) with ⟨work', sets', seen'⟩
      obtain ⟨hworking, hfewer⟩ := h.step hafter
      rw [List.length_cons] at hn
      exact ih hworking (Nat.le_trans hfewer (by omega))

/-- What has been found stays. -/
theorem Fit.spread_kept (h : Fit sets seen) (n : Nat) (work : List Phrase) :
    (∀ p, seenIn seen p = true → seenIn (spread n work sets seen).2 p = true) ∧
      ∀ p t, (behindIn sets p).contains t = true →
        (behindIn (spread n work sets seen).1 p).contains t = true := by
  induction n generalizing work sets seen with
  | zero => exact ⟨fun _ hp => hp, fun _ _ ht => ht⟩
  | succ n ih =>
    cases work with
    | nil => exact ⟨fun _ hp => hp, fun _ _ ht => ht⟩
    | cons q work =>
      have hgrown := grown_cornersOf work h q
      rw [spread, ← Array.foldl_toList]
      change Grown _ _ _ (List.foldl (spreadTo (sets[q.ctorIdx]?.getD .empty)) _ _) at hgrown
      generalize List.foldl (spreadTo (sets[q.ctorIdx]?.getD .empty)) _ _ = after at hgrown ⊢
      obtain ⟨work', sets', seen'⟩ := after
      obtain ⟨hseen, hwords⟩ := ih hgrown.fit work'
      exact ⟨fun p hp => hseen p (hgrown.seen p hp), fun p t ht => hwords p t (hgrown.kept p t ht)⟩

theorem Fit.spread (h : Fit sets seen) (n : Nat) (work : List Phrase) :
    Fit (spread n work sets seen).1 (spread n work sets seen).2 := by
  induction n generalizing work sets seen with
  | zero => exact h
  | succ n ih =>
    cases work with
    | nil => exact h
    | cons q work =>
      have hgrown := grown_cornersOf work h q
      rw [State.spread, ← Array.foldl_toList]
      change Grown _ _ _ (List.foldl (spreadTo (sets[q.ctorIdx]?.getD .empty)) _ _) at hgrown
      generalize List.foldl (spreadTo (sets[q.ctorIdx]?.getD .empty)) _ _ = after at hgrown ⊢
      obtain ⟨work', sets', seen'⟩ := after
      exact ih hgrown.fit work'

/-! ## No more than that -/

section Bounded

variable (P : Phrase → Prop) (Q : Phrase → Token → Prop)

/-- Only phrases with `P` have been found, and behind them only words with `Q`. -/
structure Bounded (found : List Phrase × Array TokenSet × Array Bool) : Prop where
  size_sets : found.2.1.size = Phrase.count
  size_seen : found.2.2.size = Phrase.count
  work : ∀ p ∈ found.1, P p
  seen : ∀ p, seenIn found.2.2 p = true → P p
  words : ∀ p t, (behindIn found.2.1 p).contains t = true → Q p t

/-- Phrases and words that corners do not lead out of. -/
structure Closing : Prop where
  phrase : ∀ p, P p → ∀ c ∈ forms.cornersOf p, P c.phrase
  word : ∀ p, P p → ∀ c ∈ forms.cornersOf p, ∀ t, c.follow.contains t = true → Q c.phrase t
  isOpen : ∀ p, P p → ∀ c ∈ forms.cornersOf p, c.isOpen = true → ∀ t, Q p t → Q c.phrase t

end Bounded

variable {P : Phrase → Prop} {Q : Phrase → Token → Prop}

/-- One more phrase, with more words behind it. -/
theorem Bounded.add (h : Bounded P Q (work, sets, seen)) {p : Phrase} {more : TokenSet}
    (hp : P p) (hmore : ∀ t, more.contains t = true → Q p t) :
    Bounded P Q (p :: work, sets.setIfInBounds p.ctorIdx ((behindIn sets p).union more),
      seen.setIfInBounds p.ctorIdx true) where
  size_sets := Array.size_setIfInBounds.trans h.size_sets
  size_seen := Array.size_setIfInBounds.trans h.size_seen
  work q hq := by
    rcases List.mem_cons.mp hq with rfl | hq
    · exact hp
    · exact h.work q hq
  seen q hq := by
    rw [seenIn_set h.size_seen, Bool.or_eq_true, decide_eq_true_eq] at hq
    rcases hq with rfl | hq
    · exact hp
    · exact h.seen q hq
  words q t ht := by
    rw [behindIn_set h.size_sets] at ht
    split at ht
    · rename_i heq
      subst heq
      rw [TokenSet.contains_union, Bool.or_eq_true] at ht
      exact ht.elim (h.words p t) (hmore t)
    · exact h.words q t ht

theorem Bounded.spreadTo (hclosing : Closing P Q) {p : Phrase} (hp : P p)
    (hown : ∀ t, own.contains t = true → Q p t) {c : Corner} (hc : c ∈ forms.cornersOf p)
    {found : List Phrase × Array TokenSet × Array Bool} (h : Bounded P Q found) :
    Bounded P Q (State.spreadTo own found c) := by
  obtain ⟨work, sets, seen⟩ := found
  rw [spreadTo_eq]
  split
  · exact h
  · refine h.add (hclosing.phrase p hp c hc) fun t ht => ?_
    rcases contains_added.mp ht with ht | ⟨hopen, ht⟩
    · exact hclosing.word p hp c hc t ht
    · exact hclosing.isOpen p hp c hc hopen t (hown t ht)

theorem Bounded.spread (hclosing : Closing P Q) {n : Nat} (h : Bounded P Q (work, sets, seen)) :
    (∀ p, seenIn (spread n work sets seen).2 p = true → P p) ∧
      ∀ p t, (behindIn (spread n work sets seen).1 p).contains t = true → Q p t := by
  induction n generalizing work sets seen with
  | zero => exact ⟨h.seen, h.words⟩
  | succ n ih =>
    cases work with
    | nil => exact ⟨h.seen, h.words⟩
    | cons p work =>
      have hp := h.work p List.mem_cons_self
      have hround := List.foldlRecOn (forms.cornersOf p).toList
        (State.spreadTo (sets[p.ctorIdx]?.getD .empty)) (b := (work, sets, seen))
        (motive := Bounded P Q) { h with work := fun q hq => h.work q (List.mem_cons_of_mem p hq) }
        fun _ hfound c hc => hfound.spreadTo hclosing hp (h.words p) (Array.mem_toList_iff.mp hc)
      rw [State.spread, ← Array.foldl_toList]
      generalize List.foldl _ _ _ = found at hround ⊢
      obtain ⟨work', sets', seen'⟩ := found
      exact ih hround

/-! ## Predictions -/

/-- The words behind a phrase that an item goes on with, if the form behind the phrase
has the number `n`. -/
def atStart (i : Item) (n : Nat) : TokenSet :=
  if (forms.entry n).complete then (forms.entry n).first.union i.follow else (forms.entry n).first

theorem contains_atStart {i : Item} {n : Nat} {t : Token} :
    (atStart i n).contains t = true ↔ (forms.entry n).first.contains t = true ∨
      (forms.entry n).complete = true ∧ i.follow.contains t = true := by
  unfold atStart
  split
  · rename_i hcomplete
    simp [hcomplete]
  · rename_i hmore
    simp [hmore]

/-- What the items of a state go on with. -/
def goings (kernel : List Item) : List (Item × Symbol × Nat) :=
  kernel.flatMap fun i => (forms.entry i.form).moves.toList.map (i, ·)

theorem mem_goings {kernel : List Item} {i : Item} {m : Symbol × Nat} :
    (i, m) ∈ goings kernel ↔ i ∈ kernel ∧ m ∈ (forms.entry i.form).moves := by
  simp [goings]

/-- What is found at the start of a prediction. -/
def started (ms : List (Item × Symbol × Nat)) : List Phrase × Array TokenSet × Array Bool :=
  ms.foldl (fun found m => startAt m.1 found m.2)
    ([], Array.replicate Phrase.count .empty, Array.replicate Phrase.count false)

theorem started_goings (kernel : List Item) :
    kernel.foldl (fun found i => (forms.entry i.form).moves.foldl (startAt i) found)
      ([], Array.replicate Phrase.count .empty, Array.replicate Phrase.count false) =
        started (goings kernel) := by
  simp only [started, goings, List.foldl_flatMap, List.foldl_map, Array.foldl_toList]

/-- Exactly the phrases that some items go on with, and the words behind them there. -/
structure Started (ms : List (Item × Symbol × Nat))
    (found : List Phrase × Array TokenSet × Array Bool) : Prop where
  fit : Fit found.2.1 found.2.2
  length : found.1.length ≤ ms.length
  work : ∀ p, p ∈ found.1 ↔ seenIn found.2.2 p = true
  seen : ∀ p, seenIn found.2.2 p = true ↔ ∃ i n, (i, .phrase p, n) ∈ ms
  words : ∀ p t, (behindIn found.2.1 p).contains t = true ↔
    ∃ i n, (i, .phrase p, n) ∈ ms ∧ (atStart i n).contains t = true

theorem Started.empty : Started [] (started []) := by
  have hnone (p : Phrase) : behindIn (Array.replicate Phrase.count .empty) p = .empty := by
    simp [behindIn, p.ctorIdx_lt_count]
  have hunseen (p : Phrase) : seenIn (Array.replicate Phrase.count false) p = false := by
    simp [seenIn, p.ctorIdx_lt_count]
  exact {
    fit := {
      size_sets := Array.size_replicate
      size_seen := Array.size_replicate
      proper := fun p => by
        show (behindIn (Array.replicate Phrase.count .empty) p).Proper
        rw [hnone]
        exact TokenSet.proper_empty }
    length := Nat.le_refl 0
    work := fun p => by simp [started, hunseen]
    seen := fun p => by simp [started, hunseen]
    words := fun p t => by simp [started, hnone] }

section Start

variable {ms : List (Item × Symbol × Nat)} {work : List Phrase} {sets : Array TokenSet}
variable {seen : Array Bool} {i : Item} {n : Nat} {q : Phrase}

/-- A word starts nothing. -/
theorem Started.token (h : Started ms (work, sets, seen)) (t : Token) :
    Started (ms ++ [(i, .token t, n)]) (startAt i (work, sets, seen) (.token t, n)) where
  fit := h.fit
  length := by
    rw [List.length_append]
    exact Nat.le_add_right_of_le h.length
  work := h.work
  seen p := (h.seen p).trans (by simp)
  words p t := (h.words p t).trans (by simp)

/-- A phrase starts, and the words behind it join those that were behind it before. -/
theorem Started.phrase (h : Started ms (work, sets, seen)) (hm : (atStart i n).Proper) :
    Started (ms ++ [(i, .phrase q, n)]) (startAt i (work, sets, seen) (.phrase q, n)) := by
  have hfit := h.fit
  have hstep : startAt i (work, sets, seen) (.phrase q, n) =
      (q :: work, sets.setIfInBounds q.ctorIdx ((behindIn sets q).union (atStart i n)),
        seen.setIfInBounds q.ctorIdx true) := rfl
  rw [hstep]
  exact {
    fit := {
      size_sets := Array.size_setIfInBounds.trans hfit.size_sets
      size_seen := Array.size_setIfInBounds.trans hfit.size_seen
      proper := fun p => by
        rw [behindIn_set hfit.size_sets]
        split
        · exact (hfit.proper q).union hm
        · exact hfit.proper p }
    length := by
      rw [List.length_append]
      exact Nat.succ_le_succ h.length
    work := fun p => by
      rw [seenIn_set hfit.size_seen, Bool.or_eq_true, decide_eq_true_eq, List.mem_cons,
        ← h.work, eq_comm]
    seen := fun p => by
      rw [seenIn_set hfit.size_seen, Bool.or_eq_true, decide_eq_true_eq, h.seen p]
      simp only [List.mem_append, List.mem_singleton, Prod.mk.injEq, Symbol.phrase.injEq]
      constructor
      · rintro (rfl | ⟨j, k, hjk⟩)
        · exact ⟨i, n, .inr ⟨rfl, rfl, rfl⟩⟩
        · exact ⟨j, k, .inl hjk⟩
      · rintro ⟨j, k, hjk | ⟨-, rfl, -⟩⟩
        · exact .inr ⟨j, k, hjk⟩
        · exact .inl rfl
    words := fun p t => by
      rw [behindIn_set hfit.size_sets]
      have hold := h.words p t
      dsimp only at hold
      simp only [List.mem_append, List.mem_singleton, Prod.mk.injEq, Symbol.phrase.injEq]
      split
      · rename_i heq
        subst heq
        rw [TokenSet.contains_union, Bool.or_eq_true, hold]
        constructor
        · rintro (⟨j, k, hjk, ht⟩ | ht)
          · exact ⟨j, k, .inl hjk, ht⟩
          · exact ⟨i, n, .inr ⟨rfl, rfl, rfl⟩, ht⟩
        · rintro ⟨j, k, hjk | ⟨rfl, -, rfl⟩, ht⟩
          · exact .inl ⟨j, k, hjk, ht⟩
          · exact .inr ht
      · rename_i hne
        rw [hold]
        constructor
        · rintro ⟨j, k, hjk, ht⟩
          exact ⟨j, k, .inl hjk, ht⟩
        · rintro ⟨j, k, hjk | ⟨-, rfl, -⟩, ht⟩
          · exact ⟨j, k, hjk, ht⟩
          · exact absurd rfl hne }

theorem started_spec (h : ∀ m ∈ ms, (atStart m.1 m.2.2).Proper) : Started ms (started ms) := by
  induction ms using List.reverseRecOn with
  | nil => exact .empty
  | append_singleton ms m ih =>
    have hms := ih fun m' hm' => h m' (List.mem_append_left _ hm')
    have hm := h m (List.mem_append_right _ (List.mem_singleton_self m))
    obtain ⟨i, x, n⟩ := m
    have hlast : started (ms ++ [(i, x, n)]) = startAt i (started ms) (x, n) := by
      rw [started, List.foldl_append]
      rfl
    rw [hlast]
    cases x with
    | token t => exact hms.token t
    | phrase q => exact hms.phrase hm

end Start

section Predict

variable {kernel : List Item} {p : Phrase} {s : TokenSet} {t : Token}

theorem proper_atStart {i : Item} (hi : i.follow.Proper) (n : Nat) : (atStart i n).Proper := by
  unfold atStart
  split
  · exact (Forms.proper_first n).union hi
  · exact Forms.proper_first n

/-- What a prediction finds in the end. -/
def spreadOver (kernel : List Item) : Array TokenSet × Array Bool :=
  spread spreadBound (started (goings kernel)).1 (started (goings kernel)).2.1
    (started (goings kernel)).2.2

theorem mem_predict_iff :
    (p, s) ∈ predict kernel ↔
      seenIn (spreadOver kernel).2 p = true ∧ s = behindIn (spreadOver kernel).1 p := by
  rw [predict, started_goings, List.mem_filterMap]
  constructor
  · rintro ⟨q, -, hq⟩
    split at hq
    · rename_i hseen
      obtain ⟨rfl, rfl⟩ := Prod.mk.inj (Option.some.inj hq)
      exact ⟨hseen, rfl⟩
    · cases hq
  · rintro ⟨hseen, rfl⟩
    exact ⟨p, p.mem_all, if_pos hseen⟩

variable (hkernel : ∀ i ∈ kernel, i.follow.Proper)

include hkernel

theorem started_kernel : Started (goings kernel) (started (goings kernel)) :=
  started_spec fun m hm => proper_atStart (hkernel m.1 (mem_goings.mp hm).1) _

/-- The work comes to its end, if a state does not go on in more ways than there are in
a grammar. -/
theorem closed_spreadOver
    (hfew : (goings kernel).length + Phrase.count * (Token.count + 2) ≤ spreadBound) :
    Closed (spreadOver kernel) := by
  have hstarted := started_kernel hkernel
  have hworking : Working (started (goings kernel)).1 (started (goings kernel)).2.1
      (started (goings kernel)).2.2 :=
    ⟨hstarted.fit, fun p hp => .inl ((hstarted.work p).mpr hp)⟩
  refine hworking.closed_spread ?_
  have hlacking := lacking_le (started (goings kernel)).2.1 (started (goings kernel)).2.2
  have hlength := hstarted.length
  omega

/-- Nothing but words is predicted. -/
theorem proper_of_mem_predict (hp : (p, s) ∈ predict kernel) : s.Proper := by
  obtain ⟨-, rfl⟩ := mem_predict_iff.mp hp
  exact ((started_kernel hkernel).fit.spread spreadBound _).proper p

/-- A prediction holds what the items go on with. -/
theorem predict_start {i : Item} {n : Nat} (hi : i ∈ kernel)
    (hm : (.phrase p, n) ∈ (forms.entry i.form).moves) :
    ∃ s, (p, s) ∈ predict kernel ∧ ∀ t, (atStart i n).contains t = true → s.contains t = true := by
  have hstarted := started_kernel hkernel
  have hgoing : (i, .phrase p, n) ∈ goings kernel := mem_goings.mpr ⟨hi, hm⟩
  obtain ⟨hseen, hwords⟩ := hstarted.fit.spread_kept spreadBound (started (goings kernel)).1
  refine ⟨_, mem_predict_iff.mpr ⟨hseen p ((hstarted.seen p).mpr ⟨i, n, hgoing⟩), rfl⟩, ?_⟩
  exact fun t ht => hwords p t ((hstarted.words p t).mpr ⟨i, n, hgoing, ht⟩)

/-- What corners of a predicted phrase start with is predicted. -/
theorem predict_closed
    (hfew : (goings kernel).length + Phrase.count * (Token.count + 2) ≤ spreadBound)
    (hp : (p, s) ∈ predict kernel) {c : Corner} (hc : c ∈ forms.cornersOf p) :
    ∃ s', (c.phrase, s') ∈ predict kernel ∧
      ∀ t, (added s c).contains t = true → s'.contains t = true := by
  obtain ⟨hseen, rfl⟩ := mem_predict_iff.mp hp
  obtain ⟨hfound, hwords⟩ := (closed_spreadOver hkernel hfew).phrases p hseen c hc
  exact ⟨_, mem_predict_iff.mpr ⟨hfound, rfl⟩, hwords⟩

/-- A prediction holds no more than what the items go on with and what corners lead
to. -/
theorem predict_least {P : Phrase → Prop} {Q : Phrase → Token → Prop} (hclosing : Closing P Q)
    (hP : ∀ i ∈ kernel, ∀ q n, (.phrase q, n) ∈ (forms.entry i.form).moves → P q)
    (hQ : ∀ i ∈ kernel, ∀ q n, (.phrase q, n) ∈ (forms.entry i.form).moves →
      ∀ t, (atStart i n).contains t = true → Q q t)
    (hp : (p, s) ∈ predict kernel) : P p ∧ ∀ t, s.contains t = true → Q p t := by
  have hstarted := started_kernel hkernel
  have hseen : ∀ q, seenIn (started (goings kernel)).2.2 q = true → P q := by
    intro q hq
    obtain ⟨i, n, hgoing⟩ := (hstarted.seen q).mp hq
    obtain ⟨hi, hm⟩ := mem_goings.mp hgoing
    exact hP i hi q n hm
  have hbounded : Bounded P Q (started (goings kernel)) := {
    size_sets := hstarted.fit.size_sets
    size_seen := hstarted.fit.size_seen
    work := fun q hq => hseen q ((hstarted.work q).mp hq)
    seen := hseen
    words := fun q t ht => by
      obtain ⟨i, n, hgoing, ht⟩ := (hstarted.words q t).mp ht
      obtain ⟨hi, hm⟩ := mem_goings.mp hgoing
      exact hQ i hi q n hm t ht }
  obtain ⟨hphrases, hwords⟩ := Bounded.spread hclosing (n := spreadBound) hbounded
  obtain ⟨hfound, rfl⟩ := mem_predict_iff.mp hp
  exact ⟨hphrases p hfound, hwords p⟩

end Predict

end State

end SourceShelf.Java
