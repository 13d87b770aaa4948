import Mathlib.Data.Finset.Card
import Mathlib.Data.Nat.Find
import Mathlib.Logic.Function.Iterate
import SourceShelf.Proofs.Java.Endings

/-!
# The words that phrases start with

`Forms.firstSets` collects them in rounds, each of which looks at the phrases one
after another and uses what it has found so far.

`Phrase.Begins t n p` says that `p` can start with the word `t` through `n` phrases
at most.  What the rounds find is right (`Forms.begins_of_firstSets`), and there are
enough of them to find every word: a shortest way to a word comes through no phrase
twice (`Phrase.Begins.le_count`).
-/

namespace SourceShelf.Java

/-- A set without anything that is no word. -/
def TokenSet.Proper (s : TokenSet) : Prop := ∀ n, s.bits.testBit n = true → n ≤ Token.count

namespace TokenSet

theorem proper_empty : empty.Proper := fun n h => by simp [empty] at h

theorem proper_single (t : Token) : (single t).Proper := by
  intro n h
  rw [single, Nat.one_shiftLeft, Nat.testBit_two_pow, decide_eq_true_eq] at h
  subst h
  cases t <;> decide

theorem Proper.union {a b : TokenSet} (ha : a.Proper) (hb : b.Proper) : (a.union b).Proper := by
  intro n h
  rw [TokenSet.union, Nat.testBit_or, Bool.or_eq_true] at h
  exact h.elim (ha n) (hb n)

end TokenSet

/-- A phrase can start with a word, through so many phrases at most. -/
inductive Phrase.Begins (t : Token) : Nat → Phrase → Prop where
  | word {n : Nat} {p : Phrase} {a : Alternative} {rest : List Step} (ha : a ∈ p.rule)
      (hnext : (.token t, rest) ∈ Form.nextSteps a.steps) : Begins t (n + 1) p
  | phrase {n : Nat} {p q : Phrase} {a : Alternative} {rest : List Step} (ha : a ∈ p.rule)
      (hnext : (.phrase q, rest) ∈ Form.nextSteps a.steps) (hq : Begins t n q) : Begins t (n + 1) p

namespace Forms

variable {t : Token} {first : Array TokenSet}

theorem contains_firstOfSteps {steps : List Step} :
    (firstOfSteps first steps).contains t = true ↔
      ∃ m ∈ Form.nextSteps steps, (firstOf first m.1).contains t = true := by
  induction steps with
  | nil => simp [firstOfSteps, Form.nextSteps]
  | cons s steps ih =>
    rw [firstOfSteps, Form.nextSteps]
    split
    · rw [TokenSet.contains_union, Bool.or_eq_true, ih]
      simp
    · simp

/-- The words with which a phrase can start, as far as those of other phrases are
known. -/
def wordsOf (first : Array TokenSet) (p : Phrase) : TokenSet :=
  p.rule.foldl (fun s a => s.union (firstOfSteps first a.steps)) .empty

theorem contains_wordsOf {p : Phrase} :
    (wordsOf first p).contains t = true ↔
      ∃ a ∈ p.rule, (firstOfSteps first a.steps).contains t = true := by
  have hfold : ∀ (as : List Alternative) (s : TokenSet),
      (as.foldl (fun s a => s.union (firstOfSteps first a.steps)) s).contains t = true ↔
        s.contains t = true ∨ ∃ a ∈ as, (firstOfSteps first a.steps).contains t = true := by
    intro as
    induction as with
    | nil => simp
    | cons a as ih =>
      intro s
      rw [List.foldl_cons, ih, TokenSet.contains_union, Bool.or_eq_true]
      simp [or_assoc]
  rw [wordsOf, hfold]
  simp

/-- The step of a round that looks at one phrase. -/
def firstStep (first : Array TokenSet) (p : Phrase) : Array TokenSet :=
  first.setIfInBounds p.ctorIdx (wordsOf first p)

theorem firstRound_eq (first : Array TokenSet) :
    firstRound first = Phrase.all.foldl firstStep first := rfl

theorem firstOf_firstStep (hsize : first.size = Phrase.count) (p q : Phrase) :
    firstOf (firstStep first p) (.phrase q) =
      if p = q then wordsOf first p else firstOf first (.phrase q) := by
  have hp := p.ctorIdx_lt_count
  rw [firstOf, firstStep, Array.getElem?_setIfInBounds]
  by_cases heq : p = q
  · subst heq
    simp [hsize, hp]
  · have hne : p.ctorIdx ≠ q.ctorIdx := fun h => heq (Phrase.ctorIdx_inj h)
    rw [if_neg hne, if_neg heq]
    rfl

/-! ## What is found is right -/

/-- What is known so far is right. -/
structure FoundFirst (first : Array TokenSet) : Prop where
  size : first.size = Phrase.count
  begins : ∀ p t, (firstOf first (.phrase p)).contains t = true → ∃ n, p.Begins t n
  proper : ∀ p, (firstOf first (.phrase p)).Proper

theorem begins_of_wordsOf (h : FoundFirst first) {p : Phrase}
    (ht : (wordsOf first p).contains t = true) : ∃ n, p.Begins t n := by
  obtain ⟨a, ha, hwords⟩ := contains_wordsOf.mp ht
  obtain ⟨⟨x, rest⟩, hm, hfirst⟩ := contains_firstOfSteps.mp hwords
  cases x with
  | token s =>
    obtain rfl := TokenSet.eq_of_contains_single hfirst
    exact ⟨1, .word ha hm⟩
  | phrase q =>
    obtain ⟨n, hq⟩ := h.begins q t hfirst
    exact ⟨n + 1, .phrase ha hm hq⟩

theorem proper_firstOfSteps (h : ∀ p, (firstOf first (.phrase p)).Proper) (steps : List Step) :
    (firstOfSteps first steps).Proper := by
  have hsymbol (x : Symbol) : (firstOf first x).Proper := by
    cases x with
    | token t => exact TokenSet.proper_single t
    | phrase p => exact h p
  induction steps with
  | nil => exact TokenSet.proper_empty
  | cons s steps ih =>
    rw [firstOfSteps]
    split
    · exact (hsymbol _).union ih
    · exact hsymbol _

theorem proper_wordsOf (h : ∀ p, (firstOf first (.phrase p)).Proper) (p : Phrase) :
    (wordsOf first p).Proper :=
  List.foldlRecOn p.rule _ TokenSet.proper_empty fun _ hs a _ =>
    hs.union (proper_firstOfSteps h a.steps)

theorem FoundFirst.step (h : FoundFirst first) (p : Phrase) : FoundFirst (firstStep first p) where
  size := Array.size_setIfInBounds.trans h.size
  begins q t ht := by
    rw [firstOf_firstStep h.size] at ht
    split at ht
    · rename_i heq
      exact heq ▸ begins_of_wordsOf h ht
    · exact h.begins q t ht
  proper q := by
    rw [firstOf_firstStep h.size]
    split
    · exact proper_wordsOf h.proper p
    · exact h.proper q

theorem FoundFirst.round (h : FoundFirst first) : FoundFirst (firstRound first) :=
  List.foldlRecOn Phrase.all firstStep h fun _ hfound p _ => hfound.step p

theorem FoundFirst.rounds (h : FoundFirst first) (n : Nat) : FoundFirst (firstRounds n first) := by
  induction n generalizing first with
  | zero => exact h
  | succ n ih =>
    rw [firstRounds]
    split
    · exact h
    · exact ih h.round

theorem firstOf_replicate (p : Phrase) :
    firstOf (Array.replicate Phrase.count .empty) (.phrase p) = .empty := by
  simp [firstOf, p.ctorIdx_lt_count]

theorem foundFirst_empty : FoundFirst (Array.replicate Phrase.count .empty) where
  size := Array.size_replicate
  begins p t ht := by simp [firstOf_replicate] at ht
  proper p := by
    rw [firstOf_replicate]
    exact TokenSet.proper_empty

theorem foundFirst_firstSets : FoundFirst firstSets := foundFirst_empty.rounds Phrase.count

/-- A word that is among those of a phrase is one that it starts with. -/
theorem begins_of_firstSets {p : Phrase}
    (h : (firstOf firstSets (.phrase p)).contains t = true) : ∃ n, p.Begins t n :=
  foundFirst_firstSets.begins p t h

/-! ## What is right is found -/

/-- What is known so far is known again after a look at any phrase. -/
def Grows (first : Array TokenSet) : Prop :=
  first.size = Phrase.count ∧
    ∀ p t, (firstOf first (.phrase p)).contains t = true → (wordsOf first p).contains t = true

/-- What one array knows the other one knows too. -/
def Within (first more : Array TokenSet) : Prop :=
  ∀ p t, (firstOf first (.phrase p)).contains t = true →
    (firstOf more (.phrase p)).contains t = true

theorem Within.wordsOf {more : Array TokenSet} (h : Within first more) {p : Phrase}
    (ht : (wordsOf first p).contains t = true) : (wordsOf more p).contains t = true := by
  obtain ⟨a, ha, hwords⟩ := contains_wordsOf.mp ht
  obtain ⟨⟨x, rest⟩, hm, hfirst⟩ := contains_firstOfSteps.mp hwords
  refine contains_wordsOf.mpr ⟨a, ha, contains_firstOfSteps.mpr ⟨_, hm, ?_⟩⟩
  cases x with
  | token s => exact hfirst
  | phrase q => exact h q t hfirst

theorem Grows.step (h : Grows first) (p : Phrase) :
    Grows (firstStep first p) ∧ Within first (firstStep first p) := by
  have hwithin : Within first (firstStep first p) := by
    intro q t ht
    rw [firstOf_firstStep h.1]
    split
    · rename_i heq
      exact heq ▸ h.2 q t ht
    · exact ht
  refine ⟨⟨(Array.size_setIfInBounds).trans h.1, fun q t ht => hwithin.wordsOf ?_⟩, hwithin⟩
  rw [firstOf_firstStep h.1] at ht
  split at ht
  · rename_i heq
    exact heq ▸ ht
  · exact h.2 q t ht

theorem Grows.steps (h : Grows first) (ps : List Phrase) :
    Grows (ps.foldl firstStep first) ∧ Within first (ps.foldl firstStep first) := by
  induction ps generalizing first with
  | nil => exact ⟨h, fun _ _ ht => ht⟩
  | cons p ps ih =>
    obtain ⟨hstep, hwithin⟩ := h.step p
    obtain ⟨hsteps, hwithin'⟩ := ih hstep
    exact ⟨hsteps, fun q t ht => hwithin' q t (hwithin q t ht)⟩

theorem Grows.round (h : Grows first) :
    Grows (firstRound first) ∧ Within first (firstRound first) := by
  rw [firstRound_eq]
  exact h.steps Phrase.all

/-- A round finds what the words of all phrases were before it. -/
theorem Grows.mem_round (h : Grows first) {p : Phrase}
    (ht : (Forms.wordsOf first p).contains t = true) :
    (firstOf (firstRound first) (.phrase p)).contains t = true := by
  obtain ⟨before, behind, hall⟩ := List.append_of_mem p.mem_all
  rw [firstRound_eq, hall, List.foldl_append, List.foldl_cons]
  obtain ⟨hbefore, hwithin⟩ := h.steps before
  refine ((hbefore.step p).1.steps behind).2 p t ?_
  rw [firstOf_firstStep hbefore.1, if_pos rfl]
  exact hwithin.wordsOf ht

theorem grows_empty : Grows (Array.replicate Phrase.count .empty) :=
  ⟨Array.size_replicate, fun p t ht => by simp [firstOf_replicate] at ht⟩

/-- Rounds that stop early would find nothing more. -/
theorem Grows.mem_rounds (h : Grows first) {k n : Nat} (hkn : k ≤ n) {p : Phrase}
    (ht : (firstOf (firstRound^[k] first) (.phrase p)).contains t = true) :
    (firstOf (firstRounds n first) (.phrase p)).contains t = true := by
  induction n generalizing first k with
  | zero =>
    obtain rfl := Nat.le_zero.mp hkn
    exact ht
  | succ n ih =>
    obtain ⟨hround, hwithin⟩ := h.round
    rw [firstRounds]
    by_cases hsame : firstRound first = first
    · rw [Function.iterate_fixed hsame k] at ht
      rw [if_pos hsame]
      exact ht
    · rw [if_neg hsame]
      cases k with
      | zero => exact ih hround (Nat.zero_le n) (hwithin p t ht)
      | succ k => exact ih hround (Nat.le_of_succ_le_succ hkn) ht

/-- A word that a phrase starts with through few phrases is among its words. -/
theorem mem_firstSets {p : Phrase} {n : Nat} (h : p.Begins t n) (hn : n ≤ Phrase.count) :
    (firstOf firstSets (.phrase p)).contains t = true := by
  have hiterate : ∀ n, Grows (firstRound^[n] (Array.replicate Phrase.count .empty)) := by
    intro n
    induction n with
    | zero => exact grows_empty
    | succ n ih =>
      rw [Function.iterate_succ_apply']
      exact ih.round.1
  refine grows_empty.mem_rounds hn ?_
  clear hn
  induction h with
  | @word n p a rest ha hnext =>
    rw [Function.iterate_succ_apply']
    refine (hiterate n).mem_round (contains_wordsOf.mpr ⟨a, ha, ?_⟩)
    exact contains_firstOfSteps.mpr ⟨_, hnext, TokenSet.contains_single t⟩
  | @phrase n p q a rest ha hnext _ ih =>
    rw [Function.iterate_succ_apply']
    refine (hiterate n).mem_round (contains_wordsOf.mpr ⟨a, ha, ?_⟩)
    exact contains_firstOfSteps.mpr ⟨_, hnext, ih⟩

end Forms

/-! ## Few phrases are enough -/

theorem Phrase.Begins.succ {t : Token} {n : Nat} {p : Phrase} (h : p.Begins t n) :
    p.Begins t (n + 1) := by
  induction h with
  | word ha hnext => exact .word ha hnext
  | phrase ha hnext _ ih => exact .phrase ha hnext ih

theorem Phrase.Begins.mono {t : Token} {m n : Nat} {p : Phrase} (h : p.Begins t m) (hmn : m ≤ n) :
    p.Begins t n :=
  Nat.le_induction h (fun _ _ ih => ih.succ) n hmn

/-- On a shortest way to a word, every length of the way that is left belongs to a phrase
of its own. -/
theorem Phrase.Begins.exists_shortest {t : Token} {n : Nat} {p : Phrase} (h : p.Begins t n)
    (hleast : ∀ m, p.Begins t m → n ≤ m) :
    ∀ k < n, ∃ q : Phrase, q.Begins t (k + 1) ∧ ¬ q.Begins t k := by
  induction h with
  | @word n p a rest ha hnext =>
    have hone := hleast 1 (.word ha hnext)
    intro k hk
    obtain rfl : k = 0 := by omega
    obtain rfl : n = 0 := by omega
    exact ⟨p, .word ha hnext, fun h => absurd (hleast 0 h) (by omega)⟩
  | @phrase n p q a rest ha hnext hq ih =>
    intro k hk
    rcases Nat.lt_succ_iff_lt_or_eq.mp hk with hk | rfl
    · refine ih (fun m hm => ?_) k hk
      have := hleast (m + 1) (.phrase ha hnext hm)
      omega
    · exact ⟨p, .phrase ha hnext hq, fun h => absurd (hleast k h) (by omega)⟩

/-- A phrase starts with a word through no more phrases than there are. -/
theorem Phrase.Begins.le_count {t : Token} {n : Nat} {p : Phrase} (h : p.Begins t n) :
    p.Begins t Phrase.count := by
  classical
  have hexists : ∃ n, p.Begins t n := ⟨n, h⟩
  refine (Nat.find_spec hexists).mono ?_
  have hways := (Nat.find_spec hexists).exists_shortest fun m hm => Nat.find_min' hexists hm
  choose! f hf using hways
  have hinj : Set.InjOn f (Finset.range (Nat.find hexists)) := by
    intro j hj k hk hjk
    have hj := hf j (Finset.mem_range.mp hj)
    have hk := hf k (Finset.mem_range.mp hk)
    rw [hjk] at hj
    by_contra hne
    rcases Nat.lt_or_gt_of_ne hne with hlt | hlt
    · exact hk.2 (hj.1.mono hlt)
    · exact hj.2 (hk.1.mono hlt)
  have hcard := Finset.card_le_card_of_injOn f
    (fun k _ => List.mem_toFinset.mpr (f k).mem_all) hinj
  rw [Finset.card_range] at hcard
  exact Nat.le_trans hcard (Nat.le_trans (List.toFinset_card_le _) (Nat.le_of_eq Phrase.length_all))

/-- The words of a phrase are just those that it starts with. -/
theorem Forms.contains_firstSets {t : Token} {p : Phrase} :
    (firstOf firstSets (.phrase p)).contains t = true ↔ ∃ n, p.Begins t n :=
  ⟨begins_of_firstSets, fun ⟨_, h⟩ => mem_firstSets h.le_count (Nat.le_refl _)⟩

end SourceShelf.Java
