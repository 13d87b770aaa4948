import SourceShelf.Proofs.Java.ValidItems

/-!
# Which items a state has, by computation

A `Dot` names a place in an alternative by numbers, so that lists of them can be
written down and compared.  `Dot.behind` computes from the dots of a reader those
behind the next symbol; the phrases that may start on the way are found by following
corners (`reach`).

`DotsAt xs ds` says that the dots `ds` and what they start are just the valid forms of
a reader that has read `xs`.  It holds at the start of a text (`dotsAt_nil`) and goes on
with the computation (`DotsAt.behind`), so the items of any state come out of the grammar
without the tables of the reader.
-/

namespace SourceShelf.Java

/-- A place in an alternative of a phrase: so many steps lie in front of it, and so many
symbols of them have been read. -/
structure Dot where
  phrase : Phrase
  choice : Nat
  passed : Nat
  taken : Nat
deriving DecidableEq, Repr

namespace Dot

/-- The alternative in which the dot stands. -/
def alternative (d : Dot) : Alternative := d.phrase.rule[d.choice]?.getD default

/-- The steps behind the dot. -/
def rest (d : Dot) : List Step := d.alternative.steps.drop d.passed

/-- The number of the form with these steps left. -/
def number (d : Dot) : Nat := Forms.dot d.phrase d.alternative d.rest

/-- There is such an alternative. -/
def Fits (d : Dot) : Prop := d.choice < d.phrase.rule.length

/-- True when nothing more has to come. -/
def complete (d : Dot) : Bool := d.rest.all (·.optional)

/-- The symbols that may come next, each with how many steps lie in front then. -/
def upcoming : List Step → Nat → List (Symbol × Nat)
  | [], _ => []
  | s :: rest, j => (s.symbol, j + 1) :: if s.optional then upcoming rest (j + 1) else []

/-- The symbols that may come next, each with the dot behind it. -/
def goesOn (d : Dot) : List (Symbol × Dot) :=
  (upcoming d.rest d.passed).map fun m => (m.1, { d with passed := m.2, taken := d.taken + 1 })

/-- The dots at the start of a phrase. -/
def startsOf (p : Phrase) : List Dot :=
  (List.range p.rule.length).map fun i => { phrase := p, choice := i, passed := 0, taken := 0 }

variable {d d' : Dot} {p : Phrase} {x : Symbol} {n : Nat}

theorem Fits.mem (h : d.Fits) : d.alternative ∈ d.phrase.rule := by
  have hget : d.phrase.rule[d.choice]? = some d.phrase.rule[d.choice] :=
    List.getElem?_eq_getElem h
  rw [alternative, hget]
  exact List.getElem_mem h

theorem rest_suffix (d : Dot) : d.rest <:+ d.alternative.steps := List.drop_suffix _ _

theorem fits_of_mem_goesOn (h : d.Fits) (hd : (x, d') ∈ d.goesOn) : d'.Fits := by
  obtain ⟨m, -, heq⟩ := List.mem_map.mp hd
  obtain ⟨-, rfl⟩ := Prod.mk.inj heq
  exact h

theorem taken_of_mem_goesOn (hd : (x, d') ∈ d.goesOn) : d'.taken = d.taken + 1 := by
  obtain ⟨m, -, heq⟩ := List.mem_map.mp hd
  obtain ⟨-, rfl⟩ := Prod.mk.inj heq
  rfl

theorem fits_of_mem_startsOf (hd : d ∈ startsOf p) : d.Fits := by
  obtain ⟨i, hi, rfl⟩ := List.mem_map.mp hd
  exact List.mem_range.mp hi

theorem taken_of_mem_startsOf (hd : d ∈ startsOf p) : d.taken = 0 := by
  obtain ⟨i, -, rfl⟩ := List.mem_map.mp hd
  rfl

/-- The dots at the start of a phrase are its alternatives. -/
theorem mem_startsOf_iff : n ∈ forms.startsOf p ↔ ∃ d ∈ startsOf p, d.number = n := by
  rw [Forms.mem_startsOf]
  constructor
  · rintro ⟨a, ha, rfl⟩
    obtain ⟨i, hi, rfl⟩ := List.mem_iff_getElem.mp ha
    refine ⟨_, List.mem_map.mpr ⟨i, List.mem_range.mpr hi, rfl⟩, ?_⟩
    simp [number, rest, alternative, hi]
  · rintro ⟨d, hd, rfl⟩
    refine ⟨d.alternative, ?_, ?_⟩
    · obtain ⟨i, hi, rfl⟩ := List.mem_map.mp hd
      exact Fits.mem (d := { phrase := p, choice := i, passed := 0, taken := 0 })
        (List.mem_range.mp hi)
    · obtain ⟨i, -, rfl⟩ := List.mem_map.mp hd
      rfl

theorem mem_nextSteps_iff {steps rest : List Step} {j : Nat} :
    (x, rest) ∈ Form.nextSteps (steps.drop j) ↔
      ∃ l, (x, l) ∈ upcoming (steps.drop j) j ∧ rest = steps.drop l := by
  induction h : steps.drop j generalizing j with
  | nil => simp [Form.nextSteps, upcoming]
  | cons s more ih =>
    have hmore : steps.drop (j + 1) = more := by
      rw [← List.tail_drop, h, List.tail_cons]
    rw [Form.nextSteps, upcoming]
    have hrest := ih hmore
    by_cases hoptional : s.optional = true
    · simp only [hoptional, if_true, List.mem_cons, Prod.mk.injEq, hrest]
      constructor
      · rintro (⟨rfl, rfl⟩ | ⟨l, hl, rfl⟩)
        · exact ⟨j + 1, .inl ⟨rfl, rfl⟩, hmore.symm⟩
        · exact ⟨l, .inr hl, rfl⟩
      · rintro ⟨l, ⟨rfl, rfl⟩ | hl, rfl⟩
        · exact .inl ⟨rfl, hmore⟩
        · exact .inr ⟨l, hl, rfl⟩
    · simp only [hoptional, if_false, List.mem_singleton, Prod.mk.injEq, Bool.false_eq_true]
      constructor
      · rintro ⟨rfl, rfl⟩
        exact ⟨j + 1, ⟨rfl, rfl⟩, hmore.symm⟩
      · rintro ⟨l, ⟨rfl, rfl⟩, rfl⟩
        exact ⟨rfl, hmore⟩

/-- The dot moves as the form does. -/
theorem mem_moves_iff (h : d.Fits) :
    (x, n) ∈ (forms.entry d.number).moves ↔ ∃ d', (x, d') ∈ d.goesOn ∧ d'.number = n := by
  rw [number, Forms.mem_moves_dot h.mem d.rest_suffix, rest]
  constructor
  · rintro ⟨more, hmore, rfl⟩
    obtain ⟨l, hl, rfl⟩ := mem_nextSteps_iff.mp hmore
    exact ⟨_, List.mem_map.mpr ⟨(x, l), hl, rfl⟩, rfl⟩
  · rintro ⟨d', hd', rfl⟩
    obtain ⟨⟨y, l⟩, hl, heq⟩ := List.mem_map.mp hd'
    obtain ⟨rfl, rfl⟩ := Prod.mk.inj heq
    exact ⟨_, mem_nextSteps_iff.mpr ⟨l, hl, rfl⟩, rfl⟩

theorem complete_number (h : d.Fits) : (forms.entry d.number).complete = d.complete := by
  rw [number, Forms.complete_dot h.mem d.rest_suffix, complete]

theorem first_number (h : d.Fits) :
    (forms.entry d.number).first = Forms.firstOfSteps Forms.firstSets d.rest := by
  rw [number, Forms.first_dot h.mem d.rest_suffix]

end Dot

/-! ## Phrases that may start -/

/-- The phrase that a symbol is, if it is one. -/
def Symbol.phrase? : Symbol → Option Phrase
  | token _ => none
  | phrase p => some p

@[simp] theorem Symbol.phrase?_eq_some {x : Symbol} {p : Phrase} :
    x.phrase? = some p ↔ x = .phrase p := by
  cases x <;> simp [phrase?]

/-- The phrases that a phrase may start with. -/
def Phrase.leads (p : Phrase) : List Phrase :=
  p.rule.flatMap fun a => (Form.nextSteps a.steps).filterMap (·.1.phrase?)

theorem Phrase.mem_leads {p q : Phrase} :
    q ∈ p.leads ↔ ∃ d ∈ Dot.startsOf p, ∃ d', (.phrase q, d') ∈ d.goesOn := by
  simp only [leads, List.mem_flatMap, List.mem_filterMap, Symbol.phrase?_eq_some]
  constructor
  · rintro ⟨a, ha, ⟨x, rest⟩, hm, rfl⟩
    obtain ⟨i, hi, rfl⟩ := List.mem_iff_getElem.mp ha
    refine ⟨{ phrase := p, choice := i, passed := 0, taken := 0 },
      List.mem_map.mpr ⟨i, List.mem_range.mpr hi, rfl⟩, ?_⟩
    obtain ⟨l, hl, -⟩ := Dot.mem_nextSteps_iff (j := 0).mp hm
    refine ⟨_, List.mem_map.mpr ⟨(_, l), ?_, rfl⟩⟩
    simpa [Dot.rest, Dot.alternative, hi] using hl
  · rintro ⟨d, hd, d', hm⟩
    refine ⟨d.alternative, ?_, ?_⟩
    · have hfits := (Dot.fits_of_mem_startsOf hd).mem
      obtain ⟨i, -, rfl⟩ := List.mem_map.mp hd
      exact hfits
    · obtain ⟨⟨y, l⟩, hl, heq⟩ := List.mem_map.mp hm
      obtain ⟨rfl, -⟩ := Prod.mk.inj heq
      obtain ⟨i, -, rfl⟩ := List.mem_map.mp hd
      exact ⟨_, Dot.mem_nextSteps_iff (j := 0).mpr ⟨l, hl, rfl⟩, rfl⟩

/-- Follows corners from some phrases until nothing is left to look at.  What has been
found is kept as the bits of a number. -/
def reach : Nat → List Phrase → Nat → Option Nat
  | _, [], seen => some seen
  | 0, _ :: _, _ => none
  | fuel + 1, p :: work, seen =>
    if seen.testBit p.ctorIdx then reach fuel work seen
    else reach fuel (p.leads ++ work) (seen ||| 1 <<< p.ctorIdx)

theorem testBit_seen {seen : Nat} {p q : Phrase} :
    (seen ||| 1 <<< p.ctorIdx).testBit q.ctorIdx = true ↔
      seen.testBit q.ctorIdx = true ∨ q = p := by
  rw [Nat.testBit_or, Bool.or_eq_true, Nat.one_shiftLeft, Nat.testBit_two_pow, decide_eq_true_eq]
  exact or_congr_right ⟨fun h => Phrase.ctorIdx_inj h.symm, fun h => h ▸ rfl⟩

/-- Nothing but what corners lead to is found. -/
theorem forall_reach {P : Phrase → Prop} (hP : ∀ p, P p → ∀ q ∈ p.leads, P q) {fuel : Nat}
    {work : List Phrase} {seen found : Nat} (hwork : ∀ p ∈ work, P p)
    (hseen : ∀ p : Phrase, seen.testBit p.ctorIdx = true → P p)
    (h : reach fuel work seen = some found) (p : Phrase)
    (hp : found.testBit p.ctorIdx = true) : P p := by
  induction fuel generalizing work seen with
  | zero =>
    cases work with
    | nil =>
      obtain rfl := Option.some.inj h
      exact hseen p hp
    | cons q work => cases h
  | succ fuel ih =>
    cases work with
    | nil =>
      obtain rfl := Option.some.inj h
      exact hseen p hp
    | cons q work =>
      have hq := hwork q List.mem_cons_self
      have hrest : ∀ p ∈ work, P p := fun p hp => hwork p (List.mem_cons_of_mem q hp)
      rw [reach] at h
      split at h
      · exact ih hrest hseen h
      · refine ih (fun p hp => ?_) (fun p hp => ?_) h
        · exact (List.mem_append.mp hp).elim (hP q hq p) (hrest p)
        · rcases testBit_seen.mp hp with hp | rfl
          · exact hseen p hp
          · exact hq

/-- What is found is closed under corners, and holds what the search started from. -/
theorem closed_reach {fuel : Nat} {work : List Phrase} {seen found : Nat}
    (hseen : ∀ p : Phrase, seen.testBit p.ctorIdx = true → ∀ q ∈ p.leads,
      seen.testBit q.ctorIdx = true ∨ q ∈ work)
    (h : reach fuel work seen = some found) :
    (∀ p : Phrase, seen.testBit p.ctorIdx = true → found.testBit p.ctorIdx = true) ∧
      (∀ p ∈ work, found.testBit p.ctorIdx = true) ∧
      ∀ p : Phrase, found.testBit p.ctorIdx = true → ∀ q ∈ p.leads,
        found.testBit q.ctorIdx = true := by
  induction fuel generalizing work seen with
  | zero =>
    cases work with
    | nil =>
      obtain rfl := Option.some.inj h
      exact ⟨fun _ hp => hp, fun _ hp => absurd hp List.not_mem_nil,
        fun p hp q hq => (hseen p hp q hq).resolve_right List.not_mem_nil⟩
    | cons q work => cases h
  | succ fuel ih =>
    cases work with
    | nil =>
      obtain rfl := Option.some.inj h
      exact ⟨fun _ hp => hp, fun _ hp => absurd hp List.not_mem_nil,
        fun p hp q hq => (hseen p hp q hq).resolve_right List.not_mem_nil⟩
    | cons q work =>
      rw [reach] at h
      split at h
      · rename_i hold
        obtain ⟨hkept, hwork, hclosed⟩ := ih (fun p hp r hr => by
          rcases hseen p hp r hr with hr | hr
          · exact .inl hr
          · rcases List.mem_cons.mp hr with rfl | hr
            · exact .inl hold
            · exact .inr hr) h
        exact ⟨hkept, List.forall_mem_cons.mpr ⟨hkept q hold, hwork⟩, hclosed⟩
      · obtain ⟨hkept, hwork, hclosed⟩ := ih (fun p hp r hr => by
          rcases testBit_seen.mp hp with hp | rfl
          · rcases hseen p hp r hr with hr | hr
            · exact .inl (testBit_seen.mpr (.inl hr))
            · rcases List.mem_cons.mp hr with rfl | hr
              · exact .inl (testBit_seen.mpr (.inr rfl))
              · exact .inr (List.mem_append_right _ hr)
          · exact .inr (List.mem_append_left _ hr)) h
        refine ⟨fun p hp => hkept p (testBit_seen.mpr (.inl hp)), ?_, hclosed⟩
        exact List.forall_mem_cons.mpr ⟨hkept q (testBit_seen.mpr (.inr rfl)),
          fun p hp => hwork p (List.mem_append_right _ hp)⟩

/-- More steps than it takes to follow all corners of the grammar. -/
def reachBound : Nat := 4000

/-- Whether some steps can start with a word. -/
def Form.startsWith (t : Token) (steps : List Step) : Option Bool :=
  if (nextSteps steps).any (·.1 = .token t) then some true
  else (reach reachBound ((nextSteps steps).filterMap (·.1.phrase?)) 0).map fun found =>
    Phrase.all.any fun p => found.testBit p.ctorIdx &&
      p.rule.any fun a => (nextSteps a.steps).any (·.1 = .token t)

theorem Phrase.Begins.of_leads {t : Token} {p q : Phrase} {n : Nat} (hq : q ∈ p.leads)
    (h : q.Begins t n) : p.Begins t (n + 1) := by
  obtain ⟨a, ha, hm⟩ := List.mem_flatMap.mp hq
  obtain ⟨⟨x, rest⟩, hnext, hx⟩ := List.mem_filterMap.mp hm
  obtain rfl := Symbol.phrase?_eq_some.mp hx
  exact .phrase ha hnext h

/-- The words of some steps, and the phrases that have them. -/
theorem Form.contains_first_iff {t : Token} {steps : List Step} :
    (Forms.firstOfSteps Forms.firstSets steps).contains t = true ↔
      ∃ m ∈ nextSteps steps, m.1 = .token t ∨ ∃ p n, m.1 = .phrase p ∧ p.Begins t n := by
  rw [Forms.contains_firstOfSteps]
  refine exists_congr fun m => and_congr_right fun _ => ?_
  obtain ⟨x, rest⟩ := m
  cases x with
  | token s =>
    constructor
    · intro hs
      obtain rfl := TokenSet.eq_of_contains_single hs
      exact .inl rfl
    · rintro (hs | ⟨p, n, hp, -⟩)
      · obtain rfl := Symbol.token.inj hs
        exact TokenSet.contains_single _
      · cases hp
  | phrase p =>
    rw [Forms.contains_firstSets]
    constructor
    · rintro ⟨n, hn⟩
      exact .inr ⟨p, n, rfl, hn⟩
    · rintro (hp | ⟨q, n, hq, hn⟩)
      · cases hp
      · obtain rfl := Symbol.phrase.inj hq
        exact ⟨n, hn⟩

/-- What the search finds are the words of the steps. -/
theorem Form.contains_of_startsWith {t : Token} {steps : List Step} {b : Bool}
    (h : startsWith t steps = some b) :
    (Forms.firstOfSteps Forms.firstSets steps).contains t = b := by
  rw [startsWith] at h
  split at h
  · rename_i hany
    obtain rfl := Option.some.inj h
    obtain ⟨m, hm, ht⟩ := List.any_eq_true.mp hany
    exact contains_first_iff.mpr ⟨m, hm, .inl (of_decide_eq_true ht)⟩
  · rename_i hnone
    obtain ⟨found, hfound, rfl⟩ := Option.map_eq_some_iff.mp h
    have hwork : ∀ q, q ∈ (nextSteps steps).filterMap (·.1.phrase?) ↔
        ∃ m ∈ nextSteps steps, m.1 = .phrase q := by
      intro q
      simp only [List.mem_filterMap, Symbol.phrase?_eq_some]
    rw [Bool.eq_iff_iff, contains_first_iff, List.any_eq_true]
    constructor
    · rintro ⟨m, hm, ht | ⟨p, n, hp, hn⟩⟩
      · exact absurd (List.any_eq_true.mpr ⟨m, hm, decide_eq_true ht⟩) hnone
      -- the way to the word stays among the phrases that are found
      · obtain ⟨-, hstart, hclosed⟩ := closed_reach (fun q hq => by simp at hq) hfound
        have hpfound := hstart p ((hwork p).mpr ⟨m, hm, hp⟩)
        clear hp
        induction hn with
        | @word n p a rest ha hnext =>
          refine ⟨p, p.mem_all, Bool.and_eq_true_iff.mpr ⟨hpfound, ?_⟩⟩
          exact List.any_eq_true.mpr ⟨a, ha, List.any_eq_true.mpr ⟨_, hnext, decide_eq_true rfl⟩⟩
        | @phrase n p q a rest ha hnext _ ih =>
          refine ih (hclosed p hpfound q (List.mem_flatMap.mpr ⟨a, ha, ?_⟩))
          exact List.mem_filterMap.mpr ⟨_, hnext, rfl⟩
    · rintro ⟨p, -, hp⟩
      obtain ⟨hpfound, hrule⟩ := Bool.and_eq_true_iff.mp hp
      obtain ⟨a, ha, hnext⟩ := List.any_eq_true.mp hrule
      obtain ⟨⟨x, rest⟩, hnext, hx⟩ := List.any_eq_true.mp hnext
      obtain rfl : x = .token t := of_decide_eq_true hx
      refine forall_reach (P := fun p => (∃ n, p.Begins t n) → ∃ m ∈ nextSteps steps,
        m.1 = .token t ∨ ∃ p n, m.1 = .phrase p ∧ p.Begins t n)
        (fun p hp q hq ⟨n, hn⟩ => hp ⟨n + 1, hn.of_leads hq⟩) (fun p hp ⟨n, hn⟩ => ?_)
        (fun p hp => by simp at hp) hfound p hpfound ⟨1, .word ha hnext⟩
      obtain ⟨m, hm, hmp⟩ := (hwork p).mp hp
      exact ⟨m, hm, .inr ⟨p, n, hmp, hn⟩⟩

/-! ## Dots behind a symbol -/

namespace Dot

/-- A phrase may start at one of some dots. -/
inductive Started (ds : List Dot) : Phrase → Prop where
  | dot {d d' : Dot} {q : Phrase} (hd : d ∈ ds) (h : (.phrase q, d') ∈ d.goesOn) : Started ds q
  | corner {p q : Phrase} (h : Started ds p) (hq : q ∈ p.leads) : Started ds q

/-- The phrases that may start at some dots. -/
def started (ds : List Dot) : Option (List Phrase) :=
  (reach reachBound (ds.flatMap fun d => d.goesOn.filterMap (·.1.phrase?)) 0).map fun found =>
    Phrase.all.filter fun p => found.testBit p.ctorIdx

/-- The dots behind a symbol. -/
def behind (x : Symbol) (ds : List Dot) : Option (List Dot) :=
  (started ds).map fun ps => (ds ++ ps.flatMap startsOf).flatMap fun d =>
    d.goesOn.filterMap fun m => if m.1 = x then some m.2 else none

variable {ds ds' : List Dot} {x : Symbol} {d : Dot}

theorem mem_started {ps : List Phrase} (h : started ds = some ps) {p : Phrase} :
    p ∈ ps ↔ Started ds p := by
  obtain ⟨found, hfound, rfl⟩ := Option.map_eq_some_iff.mp h
  have hwork : ∀ q, q ∈ (ds.flatMap fun d => d.goesOn.filterMap (·.1.phrase?)) ↔
      ∃ d ∈ ds, ∃ d', (.phrase q, d') ∈ d.goesOn := by
    intro q
    simp [List.mem_flatMap, List.mem_filterMap]
  rw [List.mem_filter, and_iff_right p.mem_all]
  constructor
  · refine forall_reach (P := Started ds) (fun _ hp _ hq => hp.corner hq) (fun q hq => ?_)
      (fun q hq => by simp at hq) hfound p
    obtain ⟨d, hd, d', hm⟩ := (hwork q).mp hq
    exact .dot hd hm
  · obtain ⟨-, hstart, hclosed⟩ := closed_reach (fun q hq => by simp at hq) hfound
    intro hp
    induction hp with
    | dot hd hm => exact hstart _ ((hwork _).mpr ⟨_, hd, _, hm⟩)
    | corner _ hq ih => exact hclosed _ ih _ hq

theorem mem_behind (h : behind x ds = some ds') :
    d ∈ ds' ↔ ∃ d', (d' ∈ ds ∨ ∃ p, Started ds p ∧ d' ∈ startsOf p) ∧ (x, d) ∈ d'.goesOn := by
  obtain ⟨ps, hps, rfl⟩ := Option.map_eq_some_iff.mp h
  simp only [List.mem_flatMap, List.mem_append, List.mem_filterMap, mem_started hps]
  constructor
  · rintro ⟨d', hd', ⟨y, e⟩, hm, heq⟩
    split at heq
    · rename_i hy
      obtain rfl := Option.some.inj heq
      dsimp only at hy
      exact ⟨d', hd', hy ▸ hm⟩
    · cases heq
  · rintro ⟨d', hd', hm⟩
    exact ⟨d', hd', (x, d), hm, if_pos rfl⟩

end Dot

/-! ## What a reader has read -/

/-- Some dots, and the starts of the phrases that may start there, are the valid forms. -/
structure DotsAt (xs : List Symbol) (ds : List Dot) : Prop where
  fits : ∀ d ∈ ds, d.Fits
  valid : ∀ d ∈ ds, Valid xs d.number d.taken
  all : ∀ n k, Valid xs n k → (∃ d ∈ ds, d.number = n ∧ d.taken = k) ∨
    k = 0 ∧ ∃ p, Dot.Started ds p ∧ n ∈ forms.startsOf p

variable {xs : List Symbol} {ds ds' : List Dot} {x : Symbol}

/-- The starts of a phrase that may start are valid. -/
theorem DotsAt.valid_start (h : DotsAt xs ds) {p : Phrase} (hp : Dot.Started ds p) {n : Nat}
    (hn : n ∈ forms.startsOf p) : Valid xs n 0 := by
  induction hp generalizing n with
  | dot hd hm =>
    have hmoves := (Dot.mem_moves_iff (h.fits _ hd)).mpr ⟨_, hm, rfl⟩
    exact (h.valid _ hd).predict hmoves hn
  | corner _ hq ih =>
    obtain ⟨d, hd, d', hm⟩ := Phrase.mem_leads.mp hq
    have hvalid := ih (Dot.mem_startsOf_iff.mpr ⟨d, hd, rfl⟩)
    exact hvalid.predict ((Dot.mem_moves_iff (Dot.fits_of_mem_startsOf hd)).mpr ⟨_, hm, rfl⟩) hn

/-- At the start of a text. -/
theorem dotsAt_nil : DotsAt [] (Dot.startsOf .file) where
  fits d hd := Dot.fits_of_mem_startsOf hd
  valid d hd := by
    rw [Dot.taken_of_mem_startsOf hd]
    exact .start (Dot.mem_startsOf_iff.mpr ⟨d, hd, rfl⟩)
  all n k h := by
    generalize hxs : ([] : List Symbol) = xs at h
    induction h with
    | start hn =>
      obtain ⟨d, hd, rfl⟩ := Dot.mem_startsOf_iff.mp hn
      exact .inl ⟨d, hd, rfl, Dot.taken_of_mem_startsOf hd⟩
    | predict _ hm hstart ih =>
      refine .inr ⟨rfl, _, ?_, hstart⟩
      rcases ih hxs with ⟨d, hd, rfl, -⟩ | ⟨-, p, hp, hn⟩
      · obtain ⟨d', hd', -⟩ := (Dot.mem_moves_iff (Dot.fits_of_mem_startsOf hd)).mp hm
        exact .dot hd hd'
      · obtain ⟨d, hd, rfl⟩ := Dot.mem_startsOf_iff.mp hn
        obtain ⟨d', hd', -⟩ := (Dot.mem_moves_iff (Dot.fits_of_mem_startsOf hd)).mp hm
        exact hp.corner (Phrase.mem_leads.mpr ⟨d, hd, d', hd'⟩)
    | shift => cases hxs

/-- Behind one more symbol. -/
theorem DotsAt.behind (h : DotsAt xs ds) (hds : Dot.behind x ds = some ds') :
    DotsAt (x :: xs) ds' where
  fits d hd := by
    obtain ⟨d', hd', hm⟩ := (Dot.mem_behind hds).mp hd
    refine Dot.fits_of_mem_goesOn ?_ hm
    rcases hd' with hd' | ⟨p, -, hd'⟩
    · exact h.fits d' hd'
    · exact Dot.fits_of_mem_startsOf hd'
  valid d hd := by
    obtain ⟨d', hd', hm⟩ := (Dot.mem_behind hds).mp hd
    rw [Dot.taken_of_mem_goesOn hm]
    rcases hd' with hd' | ⟨p, hp, hd'⟩
    · exact (h.valid d' hd').shift ((Dot.mem_moves_iff (h.fits d' hd')).mpr ⟨d, hm, rfl⟩)
    · have hfits := Dot.fits_of_mem_startsOf hd'
      rw [Dot.taken_of_mem_startsOf hd']
      have hvalid := h.valid_start hp (Dot.mem_startsOf_iff.mpr ⟨d', hd', rfl⟩)
      exact hvalid.shift ((Dot.mem_moves_iff hfits).mpr ⟨d, hm, rfl⟩)
  all n k hvalid := by
    generalize hxs : x :: xs = ys at hvalid
    induction hvalid with
    | start => cases hxs
    | predict _ hm hstart ih =>
      refine .inr ⟨rfl, _, ?_, hstart⟩
      rcases ih hxs with ⟨d, hd, rfl, -⟩ | ⟨-, p, hp, hn⟩
      · have hfits : d.Fits := by
          obtain ⟨d', hd', hm⟩ := (Dot.mem_behind hds).mp hd
          refine Dot.fits_of_mem_goesOn ?_ hm
          rcases hd' with hd' | ⟨p, -, hd'⟩
          · exact h.fits d' hd'
          · exact Dot.fits_of_mem_startsOf hd'
        obtain ⟨d', hd', -⟩ := (Dot.mem_moves_iff hfits).mp hm
        exact .dot hd hd'
      · obtain ⟨d, hd, rfl⟩ := Dot.mem_startsOf_iff.mp hn
        obtain ⟨d', hd', -⟩ := (Dot.mem_moves_iff (Dot.fits_of_mem_startsOf hd)).mp hm
        exact hp.corner (Phrase.mem_leads.mpr ⟨d, hd, d', hd'⟩)
    | shift hold hm _ =>
      obtain ⟨rfl, rfl⟩ := List.cons.inj hxs
      refine .inl ?_
      rcases h.all _ _ hold with ⟨d, hd, rfl, rfl⟩ | ⟨rfl, p, hp, hn⟩
      · obtain ⟨d', hd', rfl⟩ := (Dot.mem_moves_iff (h.fits d hd)).mp hm
        exact ⟨d', (Dot.mem_behind hds).mpr ⟨d, .inl hd, hd'⟩, rfl, Dot.taken_of_mem_goesOn hd'⟩
      · obtain ⟨d, hd, rfl⟩ := Dot.mem_startsOf_iff.mp hn
        obtain ⟨d', hd', rfl⟩ := (Dot.mem_moves_iff (Dot.fits_of_mem_startsOf hd)).mp hm
        refine ⟨d', (Dot.mem_behind hds).mpr ⟨d, .inr ⟨p, hp, hd⟩, hd'⟩, rfl, ?_⟩
        rw [Dot.taken_of_mem_goesOn hd', Dot.taken_of_mem_startsOf hd]

end SourceShelf.Java
