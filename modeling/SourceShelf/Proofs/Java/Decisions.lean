import Mathlib
import SourceShelf.Proofs.Java.Kernels

/-!
# What a reader does at a word

From the valid forms of a state follows what a reader does in it.  If the next word goes
on and nothing ends there, it takes the word (`DotsAt.shift`); if one alternative ends
there and the word does not go on, it ends the phrase (`DotsAt.reduce`).  An empty
phrase ends at most before anything has been read (`DotsAt.complete_cases`).

Which words may come behind a phrase is found along the way on which it was started
(`Phrase.Starts.precedes`, `Phrase.Precedes.of_mayEnd`); that a word comes behind none
of some phrases is a computation again (`DotsAt.not_before`).

The words that a state allows are those at which something goes on or ends.  The text
of a string is among them only behind a quote (`not_contains_words`).
-/

namespace SourceShelf.Java

variable {xs : List Symbol} {n k : Nat} {t : Token} {ds ds' : List Dot} {d d' : Dot}
  {p q : Phrase} {x : Symbol}

/-! ## Ends of phrases -/

theorem Forms.ne_file_of_move {n n' : Nat} {p : Phrase}
    (hm : (.phrase p, n') ∈ (forms.entry n).moves) : p ≠ .file :=
  of_decide_eq_true (isProper_of_mem_moves hm)

/-- A file starts with the text, and nothing comes behind its program. -/
theorem Valid.of_file (h : Valid xs n k) (hfile : headOf n = .file) :
    (xs = [] ∧ k = 0) ∨ (forms.entry n).moves = #[] := by
  induction h with
  | start _ => exact .inl ⟨rfl, rfl⟩
  | predict _ hm hstart _ =>
    rw [Forms.head_of_mem_startsOf hstart] at hfile
    subst hfile
    exact absurd rfl (Forms.ne_file_of_move hm)
  | shift _ hm _ =>
    rw [Forms.headOf_move hm] at hfile
    exact .inr (Forms.move_of_file hm hfile).2

/-- Behind a file comes the end of the text. -/
theorem Before.of_file (h : Before t xs n k) (hfile : headOf n = .file) : t = .endOfFile := by
  induction h with
  | start _ ht => exact ht
  | first _ hm _ hstart =>
    rw [Forms.head_of_mem_startsOf hstart] at hfile
    subst hfile
    exact absurd rfl (Forms.ne_file_of_move hm)
  | «open» _ hm _ hstart _ =>
    rw [Forms.head_of_mem_startsOf hstart] at hfile
    subst hfile
    exact absurd rfl (Forms.ne_file_of_move hm)
  | shift _ hm ih =>
    rw [Forms.headOf_move hm] at hfile
    exact ih hfile

/-- A form that does not go on starts with no word. -/
theorem Forms.not_contains_first {n : Nat} (h : (forms.entry n).moves = #[]) (t : Token) :
    (forms.entry n).first.contains t = false := by
  rcases entry_cases n with hn | ⟨p, f, -, hn⟩
  · rw [hn]
    exact TokenSet.contains_empty t
  · rw [hn] at h ⊢
    have hsteps : Form.nextSteps f.steps = [] := by
      simpa [entryOf, Form.moves] using h
    rw [Bool.eq_false_iff]
    intro hwords
    obtain ⟨m, hm, -⟩ := contains_firstOfSteps.mp hwords
    rw [hsteps] at hm
    cases hm

/-- What goes on with a program is a file at the start of the text. -/
theorem Valid.of_program (h : Valid xs n k) {n' : Nat}
    (hm : (.phrase .program, n') ∈ (forms.entry n).moves) : xs = [] := by
  rcases h.of_file (Forms.file_of_move hm) with ⟨hxs, -⟩ | hmoves
  · exact hxs
  · rw [hmoves] at hm
    exact absurd hm (Array.not_mem_empty _)

/-- An alternative that ends before any of it has been read is that of an empty text. -/
theorem Before.of_complete_start (h : Before t xs n 0)
    (hcomplete : (forms.entry n).complete = true) :
    xs = [] ∧ t = .endOfFile := by
  have hprogram : ∀ {q : Phrase}, n ∈ forms.startsOf q → q = .program :=
    fun hstart => Forms.eq_program_of_complete hstart hcomplete
  cases h with
  | start hn ht => exact absurd (hprogram hn) (by decide)
  | first hvalid hm ht hstart =>
    obtain rfl := hprogram hstart
    have hmoves := (Forms.move_of_file hm (Forms.file_of_move hm)).2
    rw [Forms.not_contains_first hmoves] at ht
    cases ht
  | «open» hbefore hm _ hstart =>
    obtain rfl := hprogram hstart
    exact ⟨hbefore.valid.of_program hm, hbefore.of_file (Forms.file_of_move hm)⟩

/-- What ends at a word has been read, unless the text is empty. -/
theorem DotsAt.complete_cases (h : DotsAt xs ds) (hbefore : Before t xs n k)
    (hcomplete : (forms.entry n).complete = true) :
    (∃ d ∈ ds, d.number = n ∧ d.taken = k ∧ d.complete = true) ∨ xs = [] ∧ t = .endOfFile := by
  rcases h.all n k hbefore.valid with ⟨d, hd, rfl, rfl⟩ | ⟨rfl, -, -, -⟩
  · rw [Dot.complete_number (h.fits d hd)] at hcomplete
    exact .inl ⟨d, hd, rfl, rfl, hcomplete⟩
  · exact .inr (hbefore.of_complete_start hcomplete)

theorem mem_complete_stateOf {i : Item} :
    i ∈ (stateOf xs).complete ↔ i ∈ itemsOf xs ∧ (forms.entry i.form).complete = true := by
  rw [stateOf, State.complete_ofKernel, List.mem_filter]
  rfl

/-! ## Going on -/

/-- An item behind a symbol has read it. -/
theorem DotsAt.behind_eq_nil {x : Symbol} (h : DotsAt (x :: xs) []) :
    (stateOf xs).behind x = [] := by
  refine List.eq_nil_iff_forall_not_mem.mpr fun i hi => ?_
  have hvalid := (validAt_kernelOf (x :: xs) i hi).valid
  rcases h.all _ _ hvalid with ⟨d, hd, -⟩ | ⟨-, p, hp, -⟩
  · cases hd
  · induction hp with
    | dot hd => cases hd
    | corner _ _ ih => exact ih

/-- A valid form behind a symbol comes from an item that went on with it. -/
theorem Valid.behind_ne_nil {x : Symbol} (h : Valid (x :: xs) n k) :
    (stateOf xs).behind x ≠ [] := by
  generalize hys : x :: xs = ys at h
  induction h with
  | start => cases hys
  | predict _ _ _ ih => exact ih hys
  | shift hold hm _ =>
    obtain ⟨rfl, rfl⟩ := List.cons.inj hys
    obtain ⟨i, hi, rfl, rfl⟩ := hold.exists_mem
    obtain ⟨j, hj, -⟩ := exists_behind hi hm
    exact List.ne_nil_of_mem hj

theorem DotsAt.behind_ne_nil {x : Symbol} (h : DotsAt (x :: xs) ds) (hne : ds ≠ []) :
    (stateOf xs).behind x ≠ [] := by
  obtain ⟨d, hd⟩ := List.exists_mem_of_ne_nil ds hne
  exact (h.valid d hd).behind_ne_nil

/-! ## Decisions -/

/-- The end of a phrase at a dot. -/
def Dot.reduction (d : Dot) : Reduction :=
  State.reductionOfForm (Form.ofAlternative d.phrase d.alternative) d.taken

/-- How tightly the alternative binds. -/
def Dot.level (d : Dot) : Int := if d.taken = 0 then 0 else d.alternative.precedence

theorem State.actions_of_not_ending {s : State} (hgoes : s.behind (.token t) ≠ [])
    (hends : ∀ i ∈ s.complete, i.follow.contains t = false) : s.actions t = [.shift] := by
  have hending : s.ending t = [] :=
    List.eq_nil_iff_forall_not_mem.mpr fun i hi => by
      obtain ⟨hcomplete, hfollow⟩ := mem_complete_of_mem_ending hi
      rw [hends i hcomplete] at hfollow
      cases hfollow
  rw [actions, hending]
  simp [hgoes]

/-- The word is taken behind some symbols. -/
structure Taken (t : Token) (xs : List Symbol) : Prop where
  action : (stateOf xs).actions t = [.shift]
  behind : (stateOf xs).behind (.token t) ≠ []

/-- A reader takes a word that goes on, if nothing ends there. -/
theorem DotsAt.shift (h : DotsAt xs ds) (hnext : DotsAt (.token t :: xs) (d :: ds'))
    (hends : ∀ d ∈ ds, d.complete = true → ¬ Before t xs d.number d.taken)
    (hxs : xs ≠ [] ∨ t ≠ .endOfFile) : Taken t xs := by
  have hne := hnext.behind_ne_nil (List.cons_ne_nil d ds')
  refine ⟨State.actions_of_not_ending hne fun i hi => Bool.eq_false_iff.mpr fun hfollow => ?_, hne⟩
  obtain ⟨hitem, hcomplete⟩ := mem_complete_stateOf.mp hi
  have hbefore := (validAt_items hitem).before t hfollow
  rcases h.complete_cases hbefore hcomplete with ⟨e, he, hnumber, htaken, hend⟩ | ⟨hnil, heof⟩
  · exact hends e he hend (hnumber ▸ htaken ▸ hbefore)
  · exact hxs.elim (· hnil) (· heof)

/-- A reader ends the one phrase that ends at a word, if the word does not go on. -/
theorem DotsAt.reduce (h : DotsAt xs ds) (hends : ds.filter Dot.complete = [d])
    (hbefore : Before t xs d.number d.taken) (hnot : DotsAt (.token t :: xs) [])
    (hxs : xs ≠ [] ∨ t ≠ .endOfFile) :
    (stateOf xs).actions t = [if d.phrase = .file then .accept else .reduce d.reduction] := by
  have hd : d ∈ ds.filter Dot.complete := hends ▸ List.mem_singleton_self d
  obtain ⟨hmem, hcomplete⟩ := List.mem_filter.mp hd
  have hfits := h.fits d hmem
  have hform : ∀ i : Item, i.form = d.number → i.taken = d.taken →
      State.reductionOf i = d.reduction ∧
        (if i.taken = 0 then 0 else (forms.entry i.form).form.precedence) = d.level := by
    intro i hnumber htaken
    rw [State.reductionOf_eq, hnumber, htaken, Dot.number, Forms.entry_dot hfits.mem d.rest_suffix]
    exact ⟨rfl, rfl⟩
  have hactions := State.actions_of_ending (s := stateOf xs) (t := t) (r := d.reduction)
    (k := d.level) hnot.behind_eq_nil ?_ ?_
  · rw [hactions]
    rfl
  · obtain ⟨i, hi, hnumber, htaken, hfollow⟩ := hbefore.exists_mem
    refine ⟨i, mem_complete_stateOf.mpr ⟨hi, ?_⟩, hfollow⟩
    rw [hnumber, Dot.complete_number hfits, hcomplete]
  · intro i hi hfollow
    obtain ⟨hitem, hend⟩ := mem_complete_stateOf.mp hi
    have hi := (validAt_items hitem).before t hfollow
    rcases h.complete_cases hi hend with ⟨e, he, hnumber, htaken, hecomplete⟩ | ⟨hnil, heof⟩
    · have hed : e ∈ ds.filter Dot.complete := List.mem_filter.mpr ⟨he, hecomplete⟩
      rw [hends, List.mem_singleton] at hed
      subst hed
      exact hform i hnumber.symm htaken.symm
    · exact absurd heof (hxs.resolve_left (· hnil))

/-! ## Phrases that may start -/

/-- The phrase may start behind some symbols. -/
def Phrase.Starts (xs : List Symbol) (p : Phrase) : Prop :=
  ∀ d ∈ Dot.startsOf p, Valid xs d.number d.taken

theorem Phrase.starts_file : Phrase.file.Starts [] := by
  intro d hd
  rw [Dot.taken_of_mem_startsOf hd]
  exact .start (Dot.mem_startsOf_iff.mpr ⟨d, hd, rfl⟩)

theorem Dot.starts_of_goesOn (hfits : d.Fits) (h : Valid xs d.number d.taken)
    (hm : (.phrase q, d') ∈ d.goesOn) : q.Starts xs := by
  intro e he
  rw [Dot.taken_of_mem_startsOf he]
  exact h.predict ((Dot.mem_moves_iff hfits).mpr ⟨d', hm, rfl⟩)
    (Dot.mem_startsOf_iff.mpr ⟨e, he, rfl⟩)

theorem Phrase.Starts.of_leads (h : p.Starts xs) (hq : p.leads.contains q = true) :
    q.Starts xs := by
  obtain ⟨d, hd, d', hm⟩ := Phrase.mem_leads.mp (List.contains_iff_mem.mp hq)
  exact Dot.starts_of_goesOn (Dot.fits_of_mem_startsOf hd) (h d hd) hm

/-- Steps that start with a word on a way through some phrases. -/
def Form.startsAlong (t : Token) : List Phrase → List Step → Bool
  | [], steps => (nextSteps steps).any (·.1 = .token t)
  | p :: ps, steps => (nextSteps steps).any (·.1 = .phrase p) &&
      p.rule.any fun a => startsAlong t ps a.steps

theorem Form.begins_of_startsAlong {ps : List Phrase} {steps : List Step}
    (h : startsAlong t ps steps = true) :
    ∃ m ∈ nextSteps steps, m.1 = .token t ∨ ∃ p n, m.1 = .phrase p ∧ p.Begins t n := by
  induction ps generalizing steps with
  | nil =>
    obtain ⟨m, hm, ht⟩ := List.any_eq_true.mp h
    exact ⟨m, hm, .inl (of_decide_eq_true ht)⟩
  | cons p ps ih =>
    obtain ⟨hnext, hrule⟩ := Bool.and_eq_true_iff.mp h
    obtain ⟨m, hm, hp⟩ := List.any_eq_true.mp hnext
    obtain ⟨a, ha, hway⟩ := List.any_eq_true.mp hrule
    refine ⟨m, hm, .inr ⟨p, ?_⟩⟩
    obtain ⟨⟨x, rest⟩, hx, hx' | ⟨q, n, hx', hn⟩⟩ := ih hway
    · obtain rfl : x = .token t := hx'
      exact ⟨1, of_decide_eq_true hp, .word ha hx⟩
    · obtain rfl : x = .phrase q := hx'
      exact ⟨n + 1, of_decide_eq_true hp, .phrase ha hx hn⟩

theorem Form.contains_of_startsAlong {ps : List Phrase} {steps : List Step}
    (h : startsAlong t ps steps = true) :
    (Forms.firstOfSteps Forms.firstSets steps).contains t = true :=
  contains_first_iff.mpr (begins_of_startsAlong h)

/-! ## Words behind a phrase -/

/-- A word may come behind a phrase that starts here. -/
def Phrase.Precedes (t : Token) (xs : List Symbol) (p : Phrase) : Prop :=
  ∀ d ∈ Dot.startsOf p, Before t xs d.number d.taken

/-- A word that comes next behind a phrase. -/
theorem Dot.precedes_of_first (hfits : d.Fits) (h : Valid xs d.number d.taken) (d' : Dot)
    (hm : (.phrase q, d') ∈ d.goesOn) {ps : List Phrase}
    (ht : Form.startsAlong t ps d'.rest = true) : q.Precedes t xs := by
  intro e he
  rw [Dot.taken_of_mem_startsOf he]
  refine .first h ((Dot.mem_moves_iff hfits).mpr ⟨d', hm, rfl⟩) ?_
    (Dot.mem_startsOf_iff.mpr ⟨e, he, rfl⟩)
  rw [Dot.first_number (Dot.fits_of_mem_goesOn hfits hm)]
  exact Form.contains_of_startsAlong ht

theorem Phrase.Starts.precedes (h : p.Starts xs) (d d' : Dot) (hd : d ∈ Dot.startsOf p)
    (hm : (.phrase q, d') ∈ d.goesOn) (ps : List Phrase)
    (ht : Form.startsAlong t ps d'.rest = true) : q.Precedes t xs :=
  Dot.precedes_of_first (Dot.fits_of_mem_startsOf hd) (h d hd) d' hm ht

theorem Phrase.precedes_of_before (hfits : d.Fits) (h : Before t xs d.number d.taken)
    (hm : (.phrase q, d') ∈ d.goesOn) (hcomplete : d'.complete = true) : q.Precedes t xs := by
  intro e he
  rw [Dot.taken_of_mem_startsOf he]
  refine .open h ((Dot.mem_moves_iff hfits).mpr ⟨d', hm, rfl⟩) ?_
    (Dot.mem_startsOf_iff.mpr ⟨e, he, rfl⟩)
  rw [Dot.complete_number (Dot.fits_of_mem_goesOn hfits hm), hcomplete]

/-- Behind a file comes the end of the text. -/
theorem Phrase.precedes_file : Phrase.file.Precedes .endOfFile [] := by
  intro d hd
  rw [Dot.taken_of_mem_startsOf hd]
  exact .start (Dot.mem_startsOf_iff.mpr ⟨d, hd, rfl⟩) rfl

/-- What comes behind the phrase also comes behind it when some of it has been read. -/
theorem Before.goesOn (hfits : d.Fits) (h : Before t xs d.number d.taken)
    (hm : (x, d') ∈ d.goesOn) : Before t (x :: xs) d'.number d'.taken := by
  rw [Dot.taken_of_mem_goesOn hm]
  exact h.shift ((Dot.mem_moves_iff hfits).mpr ⟨d', hm, rfl⟩)

/-- The dots that come from one dot behind some symbols, the last of which comes first. -/
def Dot.along (d : Dot) : List Symbol → List Dot
  | [] => [d]
  | x :: ys => (d.along ys).flatMap fun e => e.goesOn.filterMap fun m =>
      if m.1 = x then some m.2 else none

theorem Before.along {ys : List Symbol} (hfits : d.Fits) (h : Before t xs d.number d.taken)
    (hm : d' ∈ d.along ys) : d'.Fits ∧ Before t (ys ++ xs) d'.number d'.taken := by
  induction ys generalizing d' with
  | nil =>
    obtain rfl := List.mem_singleton.mp hm
    exact ⟨hfits, h⟩
  | cons x ys ih =>
    obtain ⟨e, he, hm⟩ := List.mem_flatMap.mp hm
    obtain ⟨⟨y, e'⟩, hnext, heq⟩ := List.mem_filterMap.mp hm
    split at heq
    · rename_i hy
      obtain rfl := Option.some.inj heq
      obtain rfl : y = x := hy
      obtain ⟨hfits', hbefore⟩ := ih he
      exact ⟨Dot.fits_of_mem_goesOn hfits' hnext, hbefore.goesOn hfits' hnext⟩
    · cases heq

/-- A word that may come behind a phrase may come behind it when it has been read. -/
theorem Phrase.Precedes.along (h : p.Precedes t xs) {ys : List Symbol}
    (hm : d ∈ (Dot.startsOf p).flatMap (Dot.along · ys)) :
    d.Fits ∧ Before t (ys ++ xs) d.number d.taken := by
  obtain ⟨e, he, hm⟩ := List.mem_flatMap.mp hm
  exact (h e he).along (Dot.fits_of_mem_startsOf he) hm

/-- True when a phrase may end with another one, behind some symbols. -/
def Phrase.mayEnd (p : Phrase) (ys : List Symbol) (q : Phrase) : Bool :=
  ((Dot.startsOf p).flatMap (Dot.along · ys)).any fun d =>
    d.goesOn.any fun m => m.1 = .phrase q && m.2.complete

/-- A word that may come behind a phrase may come behind another one that ends it. -/
theorem Phrase.Precedes.of_mayEnd (h : p.Precedes t xs) (ys : List Symbol)
    (hq : p.mayEnd ys q = true) : q.Precedes t (ys ++ xs) := by
  obtain ⟨d, hd, hany⟩ := List.any_eq_true.mp hq
  obtain ⟨⟨x, d'⟩, hm, heq⟩ := List.any_eq_true.mp hany
  obtain ⟨hx, hcomplete⟩ := Bool.and_eq_true_iff.mp heq
  obtain rfl : x = .phrase q := of_decide_eq_true hx
  obtain ⟨hfits, hbefore⟩ := h.along hd
  exact precedes_of_before hfits hbefore hm hcomplete

theorem Dot.headOf_number (h : d.Fits) : headOf d.number = d.phrase :=
  Forms.headOf_dot h.mem d.rest_suffix

/-- Behind a program comes the end of the text. -/
theorem Before.of_program (h : Before t xs n k) (hprogram : headOf n = .program) :
    t = .endOfFile := by
  induction h with
  | start hn =>
    rw [Forms.head_of_mem_startsOf hn] at hprogram
    cases hprogram
  | first _ hm ht hstart =>
    rw [Forms.head_of_mem_startsOf hstart] at hprogram
    subst hprogram
    have hmoves := (Forms.move_of_file hm (Forms.file_of_move hm)).2
    rw [Forms.not_contains_first hmoves] at ht
    cases ht
  | «open» hbefore hm _ hstart =>
    rw [Forms.head_of_mem_startsOf hstart] at hprogram
    subst hprogram
    exact hbefore.of_file (Forms.file_of_move hm)
  | shift _ hm ih =>
    rw [Forms.headOf_move hm] at hprogram
    exact ih hprogram

/-- Checks that a word comes behind none of some phrases that start at some dots: it does
not come next behind any of them, and where one ends another one does. -/
def Dot.neverBefore (t : Token) (ds : List Dot) (phrases : List Phrase) : Option Bool :=
  (started ds).map fun ps =>
    (ds.all fun d => d.goesOn.all fun m => (m.1.phrase?).all fun q =>
      !phrases.contains q || Form.startsWith t m.2.rest = some false && !m.2.complete) &&
    ps.all fun p => (startsOf p).all fun d => d.goesOn.all fun m => (m.1.phrase?).all fun q =>
      !phrases.contains q || Form.startsWith t m.2.rest = some false &&
        (!m.2.complete || phrases.contains p)

/-- Such a word does not come next behind one of the phrases, and where the phrase ends a
form, that form starts another of the phrases. -/
theorem DotsAt.not_next {phrases : List Phrase} (h : DotsAt xs ds)
    (hnever : Dot.neverBefore t ds phrases = some true) {n n' k : Nat} (hvalid : Valid xs n k)
    (hm : (.phrase q, n') ∈ (forms.entry n).moves) (hq : q ∈ phrases) :
    (forms.entry n').first.contains t = false ∧
      ((forms.entry n').complete = true → k = 0 ∧ ∃ p ∈ phrases, n ∈ forms.startsOf p) := by
  obtain ⟨ps, hps, hcheck⟩ := Option.map_eq_some_iff.mp hnever
  obtain ⟨hdots, hstarts⟩ := Bool.and_eq_true_iff.mp hcheck
  have hcontains : phrases.contains q = true := List.contains_iff_mem.mpr hq
  rcases h.all _ _ hvalid with ⟨d, hd, rfl, rfl⟩ | ⟨rfl, p, hstarted, hn⟩
  · obtain ⟨d', hd', rfl⟩ := (Dot.mem_moves_iff (h.fits d hd)).mp hm
    have hone := List.all_eq_true.mp (List.all_eq_true.mp hdots d hd) _ hd'
    simp only [Symbol.phrase?, Option.all_some, hcontains, Bool.not_true, Bool.false_or,
      Bool.and_eq_true, decide_eq_true_eq, Bool.not_eq_true'] at hone
    have hfits := Dot.fits_of_mem_goesOn (h.fits d hd) hd'
    rw [Dot.first_number hfits, Dot.complete_number hfits, hone.2]
    exact ⟨Form.contains_of_startsWith hone.1, fun h => absurd h Bool.false_ne_true⟩
  · obtain ⟨d, hd, rfl⟩ := Dot.mem_startsOf_iff.mp hn
    have hdfits := Dot.fits_of_mem_startsOf hd
    obtain ⟨d', hd', rfl⟩ := (Dot.mem_moves_iff hdfits).mp hm
    have hone := List.all_eq_true.mp (List.all_eq_true.mp (List.all_eq_true.mp hstarts p
      ((Dot.mem_started hps).mpr hstarted)) d hd) _ hd'
    simp only [Symbol.phrase?, Option.all_some, hcontains, Bool.not_true, Bool.false_or,
      Bool.and_eq_true, decide_eq_true_eq, Bool.or_eq_true, Bool.not_eq_true'] at hone
    have hfits := Dot.fits_of_mem_goesOn hdfits hd'
    rw [Dot.first_number hfits, Dot.complete_number hfits]
    refine ⟨Form.contains_of_startsWith hone.1, fun hcomplete => ⟨rfl, p, ?_, hn⟩⟩
    exact List.contains_iff_mem.mp (hone.2.resolve_left (by simp [hcomplete]))

theorem DotsAt.not_before {phrases : List Phrase} (h : DotsAt xs ds) (hxs : xs ≠ [])
    (hnever : Dot.neverBefore t ds phrases = some true) (hp : p ∈ phrases)
    (hn : n ∈ forms.startsOf p) : ¬ Before t xs n 0 := by
  intro hbefore
  generalize hk : 0 = k at hbefore
  induction hbefore generalizing p with
  | start => exact hxs rfl
  | first hvalid hm ht hstart =>
    obtain rfl := (Forms.head_of_mem_startsOf hstart).symm.trans (Forms.head_of_mem_startsOf hn)
    rw [(h.not_next hnever hvalid hm hp).1] at ht
    cases ht
  | «open» hbefore hm hcomplete hstart ih =>
    obtain rfl := (Forms.head_of_mem_startsOf hstart).symm.trans (Forms.head_of_mem_startsOf hn)
    obtain ⟨hzero, p', hp', hn'⟩ := (h.not_next hnever hbefore.valid hm hp).2 hcomplete
    exact ih h hxs hp' hn' hzero.symm
  | shift => cases hk

/-- A word that comes behind none of some phrases does not end one that has just been
started. -/
theorem DotsAt.not_before_shift (phrases : List Phrase) (h : DotsAt xs ds) (hxs : xs ≠ [])
    (hnever : Dot.neverBefore t ds phrases = some true) (hds : ∀ d ∈ ds, d.taken ≠ 0)
    (hp : headOf n ∈ phrases) : ¬ Before t (x :: xs) n 1 := by
  intro hbefore
  cases hbefore with
  | shift hbefore hm =>
    rw [Forms.headOf_move hm] at hp
    rcases h.all _ _ hbefore.valid with ⟨d, hd, -, htaken⟩ | ⟨-, p, -, hn⟩
    · exact hds d hd htaken
    · rw [Forms.head_of_mem_startsOf hn] at hp
      exact h.not_before hxs hnever hp hn hbefore

/-! ## Words that a state allows -/

theorem contains_foldl_follow (l : List Item) (s : TokenSet) :
    (l.foldl (fun s i => s.union i.follow) s).contains t = true ↔
      s.contains t = true ∨ ∃ i ∈ l, i.follow.contains t = true := by
  induction l generalizing s with
  | nil => simp
  | cons i l ih =>
    rw [List.foldl_cons, ih, TokenSet.contains_union, Bool.or_eq_true]
    simp [or_assoc]

/-- The words that are collected from a table of moves. -/
theorem contains_foldl_moves (moves : Array (List Item)) (l : List Nat) (s : TokenSet) :
    (l.foldl (fun s n =>
      if (moves[n]?.getD []).isEmpty then s else s.union ⟨1 <<< n⟩) s).contains t = true ↔
      s.contains t = true ∨ t.ctorIdx ∈ l ∧ moves[t.ctorIdx]?.getD [] ≠ [] := by
  induction l generalizing s with
  | nil => simp
  | cons n l ih =>
    have hbit : TokenSet.contains ⟨1 <<< n⟩ t = true ↔ t.ctorIdx = n := by
      rw [TokenSet.contains, Nat.one_shiftLeft, Nat.testBit_two_pow, decide_eq_true_eq, eq_comm]
    rw [List.foldl_cons, ih, List.mem_cons]
    split
    · rename_i hempty
      rw [List.isEmpty_iff] at hempty
      constructor
      · exact Or.imp_right fun h => ⟨.inr h.1, h.2⟩
      · rintro (h | ⟨rfl | h, hne⟩)
        · exact .inl h
        · exact absurd hempty hne
        · exact .inr ⟨h, hne⟩
    · rename_i hne
      rw [List.isEmpty_iff] at hne
      rw [TokenSet.contains_union, Bool.or_eq_true, hbit]
      constructor
      · rintro ((h | rfl) | h)
        · exact .inl h
        · exact .inr ⟨.inl rfl, hne⟩
        · exact .inr ⟨.inr h.1, h.2⟩
      · rintro (h | ⟨h | h, hne⟩)
        · exact .inl (.inl h)
        · exact .inl (.inr h)
        · exact .inr ⟨h, hne⟩

theorem State.contains_words {kernel : List Item} :
    (ofKernel kernel).words.contains t = true ↔
      (∃ i ∈ (ofKernel kernel).complete, i.follow.contains t = true) ∨
        t.ctorIdx < Token.count ∧ (ofKernel kernel).behind (.token t) ≠ [] := by
  show TokenSet.contains (List.foldl _ (List.foldl _ _ _) _) t = true ↔ _
  rw [contains_foldl_moves, contains_foldl_follow, List.mem_range, TokenSet.contains_empty]
  simp only [Bool.false_eq_true, false_or]
  rfl

/-- A word at which a reader does something is allowed. -/
theorem contains_words_of_actions (ht : t.ctorIdx < Token.count)
    (h : (stateOf xs).actions t ≠ []) : (stateOf xs).words.contains t = true := by
  refine State.contains_words.mpr ?_
  by_cases hbehind : (stateOf xs).behind (.token t) = []
  · by_cases hending : (stateOf xs).ending t = []
    · refine absurd ?_ h
      rw [State.actions, hending]
      simp [hbehind]
    · obtain ⟨i, hi⟩ := List.exists_mem_of_ne_nil _ hending
      exact .inl ⟨i, State.mem_complete_of_mem_ending hi⟩
  · exact .inr ⟨ht, hbehind⟩

/-! ## The text of strings -/

/-- The words that only stand in strings, and are not told by their first character. -/
def Token.isStringText (t : Token) : Bool :=
  t = .fragment || t = .blockFragment || t = .blockEscape

/-- The phrases that may start with such a word. -/
def Phrase.isStringText (p : Phrase) : Bool := p = .lineStringParts || p = .blockStringParts

/-- The words that start a string. -/
def Symbol.isQuote (x : Symbol) : Bool := x = .token .quote || x = .token .tripleQuote

/-- True of steps that go on with the text of a string. -/
def Form.goesOnWithText (steps : List Step) : Bool :=
  (nextSteps steps).any fun m => (m.1.phrase?).any Phrase.isStringText

/-- The text of a string starts behind a quote. -/
private theorem rule_text :
    ∀ p ∈ Phrase.all, ∀ a ∈ p.rule,
      (Form.goesOnWithText a.steps = true → p.isStringText = true) ∧
      (∀ j ∈ List.range (a.steps.length + 1), ∀ m ∈ Form.nextSteps (a.steps.drop j),
        Form.goesOnWithText m.2 = true → p.isStringText = true ∨ m.1.isQuote = true) ∧
      ∀ s ∈ a.steps, ∀ t ∈ [Token.fragment, .blockFragment, .blockEscape],
        s.symbol = .token t → p.isStringText = true := by
  decide +kernel

theorem Phrase.isStringText_of_start {p : Phrase} {a : Alternative} (ha : a ∈ p.rule)
    (h : Form.goesOnWithText a.steps = true) : p.isStringText = true :=
  (rule_text p p.mem_all a ha).1 h

theorem Symbol.isQuote_of_text {p : Phrase} {a : Alternative} (ha : a ∈ p.rule) {rest : List Step}
    (hrest : rest <:+ a.steps) {x : Symbol} {rest' : List Step}
    (hm : (x, rest') ∈ Form.nextSteps rest) (h : Form.goesOnWithText rest' = true) :
    p.isStringText = true ∨ x.isQuote = true := by
  have hdrop := List.suffix_iff_eq_drop.mp hrest
  rw [hdrop] at hm
  exact (rule_text p p.mem_all a ha).2.1 _
    (List.mem_range.mpr (Nat.lt_succ_of_le (Nat.sub_le _ _))) _ hm h

theorem Phrase.isStringText_of_word {p : Phrase} {a : Alternative} (ha : a ∈ p.rule) {s : Step}
    (hs : s ∈ a.steps) (ht : t.isStringText = true) (h : s.symbol = .token t) :
    p.isStringText = true := by
  refine (rule_text p p.mem_all a ha).2.2 s hs t ?_ h
  simpa [Token.isStringText, or_assoc] using ht

theorem Form.goesOnWithText_of_mem {steps rest : List Step} {p : Phrase}
    (hm : (.phrase p, rest) ∈ nextSteps steps) (hp : p.isStringText = true) :
    goesOnWithText steps = true :=
  List.any_eq_true.mpr ⟨_, hm, hp⟩

theorem Phrase.Begins.isStringText {p : Phrase} {n : Nat} (h : p.Begins t n)
    (ht : t.isStringText = true) : p.isStringText = true := by
  induction h with
  | word ha hnext =>
    obtain ⟨⟨s, hs, hsymbol⟩, -⟩ := Form.mem_of_mem_nextSteps hnext
    exact Phrase.isStringText_of_word ha hs ht hsymbol
  | phrase ha hnext _ ih =>
    exact Phrase.isStringText_of_start ha (Form.goesOnWithText_of_mem hnext ih)

/-- Steps that start with the text of a string are in such a text, or go on with one. -/
theorem Form.goesOnWithText_of_first {p : Phrase} {a : Alternative} (ha : a ∈ p.rule)
    {rest : List Step} (hrest : rest <:+ a.steps) (ht : t.isStringText = true)
    (h : (Forms.firstOfSteps Forms.firstSets rest).contains t = true) :
    p.isStringText = true ∨ goesOnWithText rest = true := by
  obtain ⟨⟨x, rest'⟩, hm, hfirst⟩ := Forms.contains_firstOfSteps.mp h
  cases x with
  | token s =>
    obtain rfl := TokenSet.eq_of_contains_single hfirst
    obtain ⟨⟨s, hs, hsymbol⟩, -⟩ := mem_of_mem_nextSteps hm
    exact .inl (Phrase.isStringText_of_word ha (hrest.subset hs) ht hsymbol)
  | phrase q =>
    obtain ⟨n, hn⟩ := Forms.begins_of_firstSets hfirst
    exact .inr (goesOnWithText_of_mem hm (hn.isStringText ht))

/-- True of a form in the text of a string, and of one that goes on with such a text. -/
def textAhead (n : Nat) : Bool :=
  (headOf n).isStringText || Form.goesOnWithText (forms.entry n).form.steps

theorem textAhead_dot {p : Phrase} {a : Alternative} {rest : List Step} (ha : a ∈ p.rule)
    (hrest : rest <:+ a.steps) :
    textAhead (Forms.dot p a rest) = true ↔
      p.isStringText = true ∨ Form.goesOnWithText rest = true := by
  rw [textAhead, Forms.headOf_dot ha hrest, Forms.entry_dot ha hrest, Bool.or_eq_true]
  rfl

theorem textAhead_start {p : Phrase} (hn : n ∈ forms.startsOf p) (h : textAhead n = true) :
    p.isStringText = true := by
  obtain ⟨a, ha, rfl⟩ := Forms.mem_startsOf.mp hn
  exact ((textAhead_dot ha (List.suffix_refl _)).mp h).elim id (Phrase.isStringText_of_start ha)

/-- The text of a string is read behind a quote. -/
theorem Valid.exists_quote (h : Valid xs n k) (htext : textAhead n = true) :
    ∃ x ∈ xs, x.isQuote = true := by
  induction h with
  | start hn => exact absurd (textAhead_start hn htext) (by decide)
  | predict h hm hstart ih =>
    have hq := textAhead_start hstart htext
    obtain ⟨p, a, ha, j, -, -, rfl⟩ := h.exists_dot
    have hrest := List.drop_suffix j a.steps
    obtain ⟨rest, hnext, -⟩ := (Forms.mem_moves_dot ha hrest).mp hm
    exact ih ((textAhead_dot ha hrest).mpr (.inr (Form.goesOnWithText_of_mem hnext hq)))
  | @shift xs n n' k x h hm ih =>
    obtain ⟨p, a, ha, j, -, -, rfl⟩ := h.exists_dot
    have hrest := List.drop_suffix j a.steps
    obtain ⟨rest, hnext, rfl⟩ := (Forms.mem_moves_dot ha hrest).mp hm
    have hold : p.isStringText = true → ∃ y ∈ x :: xs, y.isQuote = true := fun hp => by
      obtain ⟨y, hy, hquote⟩ := ih ((textAhead_dot ha hrest).mpr (.inl hp))
      exact ⟨y, List.mem_cons_of_mem x hy, hquote⟩
    rcases (textAhead_dot ha (Forms.suffix_of_mem_nextSteps hrest hnext)).mp htext with hp | hgoes
    · exact hold hp
    · rcases Symbol.isQuote_of_text ha hrest hnext hgoes with hp | hquote
      · exact hold hp
      · exact ⟨x, List.mem_cons_self, hquote⟩

theorem Valid.exists_quote_of_first (h : Valid xs n k) (ht : t.isStringText = true)
    (hfirst : (forms.entry n).first.contains t = true) : ∃ x ∈ xs, x.isQuote = true := by
  refine h.exists_quote ?_
  obtain ⟨p, a, ha, j, -, -, rfl⟩ := h.exists_dot
  have hrest := List.drop_suffix j a.steps
  rw [Forms.first_dot ha hrest] at hfirst
  exact (textAhead_dot ha hrest).mpr (Form.goesOnWithText_of_first ha hrest ht hfirst)

theorem Before.exists_quote (h : Before t xs n k) (ht : t.isStringText = true) :
    ∃ x ∈ xs, x.isQuote = true := by
  induction h with
  | start _ heof =>
    subst heof
    exact absurd ht (by decide)
  | first h hm hfirst _ =>
    obtain ⟨x, hx, hquote⟩ := (h.shift hm).exists_quote_of_first ht hfirst
    rcases List.mem_cons.mp hx with rfl | hx
    · exact absurd hquote (by simp [Symbol.isQuote])
    · exact ⟨x, hx, hquote⟩
  | «open» _ _ _ _ ih => exact ih
  | shift _ _ ih =>
    obtain ⟨x, hx, hquote⟩ := ih
    exact ⟨x, List.mem_cons_of_mem _ hx, hquote⟩

/-- A reader that has read no quote allows no text of a string. -/
theorem not_contains_words (hxs : ∀ x ∈ xs, x.isQuote = false) (ht : t.isStringText = true) :
    (stateOf xs).words.contains t = false := by
  have hno : ¬ ∃ x ∈ xs, x.isQuote = true := fun ⟨x, hx, hquote⟩ => by
    rw [hxs x hx] at hquote
    cases hquote
  rw [Bool.eq_false_iff]
  intro hwords
  rcases State.contains_words.mp hwords with ⟨i, hi, hfollow⟩ | ⟨-, hbehind⟩
  · have hitem := (mem_complete_stateOf.mp hi).1
    exact hno (((validAt_items hitem).before t hfollow).exists_quote ht)
  · obtain ⟨i, hi⟩ := List.exists_mem_of_ne_nil _ hbehind
    obtain ⟨j, hj, -, hm⟩ := State.mem_behind hi
    have hvalid : Valid xs j.form j.taken := (validAt_items hj).valid
    refine hno (hvalid.exists_quote_of_first ht ?_)
    obtain ⟨p, a, ha, l, -, -, hdot⟩ := hvalid.exists_dot
    have hrest := List.drop_suffix l a.steps
    rw [hdot] at hm ⊢
    obtain ⟨rest, hnext, -⟩ := (Forms.mem_moves_dot ha hrest).mp hm
    rw [Forms.first_dot ha hrest]
    exact Forms.contains_firstOfSteps.mpr ⟨_, hnext, TokenSet.contains_single t⟩

end SourceShelf.Java
