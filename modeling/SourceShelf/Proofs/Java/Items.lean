import SourceShelf.Proofs.Java.Derivation
import SourceShelf.Proofs.Java.States

/-!
# Where items come from

An item of a state is a partly read alternative.  `Forms.Path` follows the
numbers of the forms from one to the next, and `Forms.takes_of_path` turns a
path from the start of an alternative to its end into the symbols that the
alternative takes.

`Automaton.Sound` says how the states of an automaton hang together: each but
the first two was made behind another one, and the links that are stored are
right.  `Automaton.Sound.goto` keeps it.  From it follow the two facts that a
reader needs: an item that has read something was put behind the symbol that it
read last (`Automaton.Sound.step_back`), and one that has read nothing is the
start of a phrase (`Automaton.Sound.start_of_taken`).
-/

namespace SourceShelf.Java

/-! ## The symbols of rules -/

namespace Symbol

/-- True of the symbols that rules are made of: no rule speaks of the end of the
text, of comments, of words as they are shown, or of a file. -/
def isProper : Symbol → Bool
  | token t => t ≠ .endOfFile && t ≠ .typeIdentifier && !t.isComment
  | phrase p => p ≠ .file

theorem eq_of_index {x y : Symbol} (h : x.index = y.index) (hx : x.isProper = true) : x = y := by
  have hwords : ∀ t : Token, t ≠ .typeIdentifier → t.ctorIdx < Token.count := by
    intro t ht
    cases t <;> first | contradiction | decide
  have hphrases : ∀ t : Token, ∀ p : Phrase, t.ctorIdx = Token.count + p.ctorIdx →
      t = .typeIdentifier ∧ p = .file := by
    intro t p htp
    have hle : t.ctorIdx ≤ Token.count := by
      cases t <;> decide
    have hzero : p.ctorIdx = Phrase.file.ctorIdx := by
      show p.ctorIdx = 0
      omega
    refine ⟨?_, Phrase.ctorIdx_inj hzero⟩
    by_contra ht
    have := hwords t ht
    omega
  match x, y, h, hx with
  | .token s, .token t, h, _ =>
    have hst : Token.ofNat s.ctorIdx = Token.ofNat t.ctorIdx := congrArg Token.ofNat h
    rw [Token.ofNat_ctorIdx, Token.ofNat_ctorIdx] at hst
    rw [hst]
  | .phrase p, .phrase q, h, _ =>
    rw [Phrase.ctorIdx_inj (Nat.add_left_cancel h)]
  | .token t, .phrase p, h, hx =>
    obtain ⟨rfl, -⟩ := hphrases t p h
    cases hx
  | .phrase p, .token t, h, hx =>
    obtain ⟨-, rfl⟩ := hphrases t p h.symm
    cases hx

end Symbol

/-- Every step of a rule has a proper symbol. -/
private theorem rule_isProper :
    ∀ p ∈ Phrase.all, ∀ a ∈ p.rule, ∀ s ∈ a.steps, s.symbol.isProper = true := by
  decide +kernel

theorem Phrase.isProper_of_mem_rule {p : Phrase} {a : Alternative} {s : Step} (ha : a ∈ p.rule)
    (hs : s ∈ a.steps) : s.symbol.isProper = true :=
  rule_isProper p p.mem_all a ha s hs

/-! ## Forms -/

namespace Form

@[simp] theorem steps_withSteps (f : Form) (steps : List Step) :
    (f.withSteps steps).steps = steps := rfl

@[simp] theorem head_withSteps (f : Form) (steps : List Step) :
    (f.withSteps steps).head = f.head := rfl

@[simp] theorem shown_withSteps (f : Form) (steps : List Step) :
    (f.withSteps steps).shown = f.shown := rfl

/-- The forms of a phrase are its alternatives with some steps left out. -/
theorem exists_of_mem_ofPhrase {f : Form} {p : Phrase} (h : f ∈ Forms.ofPhrase p) :
    ∃ a ∈ p.rule, ∃ steps, steps <:+ a.steps ∧ f = (ofAlternative p a).withSteps steps := by
  rw [Forms.ofPhrase, List.mem_eraseDups, List.mem_flatMap] at h
  obtain ⟨f₀, hstart, hf⟩ := h
  obtain ⟨a, ha, rfl⟩ := List.mem_map.mp hstart
  refine ⟨a, ha, ?_⟩
  have hgo : ∀ steps, f ∈ suffixes.go (ofAlternative p a) steps →
      ∃ rest, rest <:+ steps ∧ f = (ofAlternative p a).withSteps rest := by
    intro steps
    induction steps with
    | nil =>
      intro hf
      exact ⟨[], List.suffix_refl _, List.mem_singleton.mp hf⟩
    | cons s steps ih =>
      intro hf
      rcases List.mem_cons.mp hf with rfl | hf
      · exact ⟨s :: steps, List.suffix_refl _, rfl⟩
      · obtain ⟨rest, hrest, heq⟩ := ih hf
        exact ⟨rest, hrest.trans (List.suffix_cons s steps), heq⟩
  exact hgo _ hf

theorem mem_ofPhrase {p : Phrase} {a : Alternative} {steps : List Step} (ha : a ∈ p.rule)
    (hsteps : steps <:+ a.steps) :
    (ofAlternative p a).withSteps steps ∈ Forms.ofPhrase p := by
  rw [Forms.ofPhrase, List.mem_eraseDups, List.mem_flatMap]
  refine ⟨ofAlternative p a, List.mem_map_of_mem ha, ?_⟩
  have hgo : ∀ all : List Step, steps <:+ all →
      (ofAlternative p a).withSteps steps ∈ suffixes.go (ofAlternative p a) all := by
    intro all
    induction all with
    | nil =>
      intro h
      rw [List.suffix_nil.mp h]
      exact List.mem_singleton_self _
    | cons s all ih =>
      intro h
      rcases List.suffix_cons_iff.mp h with rfl | h
      · exact List.mem_cons_self
      · exact List.mem_cons_of_mem _ (ih h)
  exact hgo _ hsteps

/-- A symbol that can be next is that of a step, and some later steps are behind it. -/
theorem mem_of_mem_nextSteps {m : Symbol × List Step} {steps : List Step}
    (h : m ∈ nextSteps steps) : (∃ s ∈ steps, s.symbol = m.1) ∧ m.2 <:+ steps := by
  induction steps with
  | nil => cases h
  | cons s steps ih =>
    rcases List.mem_cons.mp h with rfl | h
    · exact ⟨⟨s, List.mem_cons_self, rfl⟩, List.suffix_cons s steps⟩
    · split at h
      · obtain ⟨⟨s', hs', heq⟩, hsuffix⟩ := ih h
        exact ⟨⟨s', List.mem_cons_of_mem s hs', heq⟩, hsuffix.trans (List.suffix_cons s steps)⟩
      · cases h

/-- What is behind a symbol in a form of a phrase is a form of that phrase. -/
theorem mem_ofPhrase_of_mem_moves {f : Form} {p : Phrase} {m : Symbol × Form}
    (hf : f ∈ Forms.ofPhrase p) (hm : m ∈ f.moves) : m.2 ∈ Forms.ofPhrase p := by
  obtain ⟨a, ha, steps, hsteps, rfl⟩ := exists_of_mem_ofPhrase hf
  obtain ⟨m', hm', rfl⟩ := List.mem_map.mp hm
  exact mem_ofPhrase ha ((mem_of_mem_nextSteps hm').2.trans hsteps)

end Form

/-- The phrase that a form belongs to. -/
def FormEntry.head (e : FormEntry) : Phrase := e.form.head

-- said of any entry, so that nothing looks into the list of all forms
theorem FormEntry.head_eq (e : FormEntry) : e.head = e.form.head := rfl

@[simp] theorem Forms.head_entryOf (p : Phrase) (f : Form) : (entryOf p f).head = f.head := rfl

/-- The phrase that the form under a number belongs to. -/
def headOf (n : Nat) : Phrase := (forms.entry n).head

namespace Forms

/-- What stands under a number: nothing, or a form of a phrase. -/
theorem entry_cases (n : Nat) :
    forms.entry n = default ∨ ∃ p, ∃ f ∈ ofPhrase p, forms.entry n = entryOf p f := by
  rw [entry, entries_eq, List.getElem?_toArray]
  cases h : (Phrase.all.flatMap fun p => (ofPhrase p).map (entryOf p))[n]? with
  | none => exact .inl rfl
  | some e =>
    obtain ⟨p, -, hp⟩ := List.mem_flatMap.mp (List.mem_of_getElem? h)
    obtain ⟨f, hf, rfl⟩ := List.mem_map.mp hp
    exact .inr ⟨p, f, hf, rfl⟩

/-- Forms go on with proper symbols. -/
theorem isProper_of_mem_moves {n : Nat} {m : Symbol × Nat} (h : m ∈ (forms.entry n).moves) :
    m.1.isProper = true := by
  rcases entry_cases n with hn | ⟨p, f, hf, hn⟩
  · rw [hn] at h
    exact absurd h (Array.not_mem_empty m)
  · rw [hn, entryOf, List.mem_toArray, List.mem_map] at h
    obtain ⟨m', hm', rfl⟩ := h
    obtain ⟨s, hs, hsymbol⟩ := Form.mem_moves hm'
    obtain ⟨a, ha, steps, hsteps, rfl⟩ := Form.exists_of_mem_ofPhrase hf
    have hmem : s ∈ a.steps := hsteps.subset hs
    show m'.1.isProper = true
    rw [← hsymbol]
    exact Phrase.isProper_of_mem_rule ha hmem

/-- From one form to another, reading some symbols. -/
inductive Path : Nat → List Symbol → Nat → Prop where
  | nil (n : Nat) : Path n [] n
  | cons {n k : Nat} {m : Symbol × Nat} {xs : List Symbol} (hm : m ∈ (forms.entry n).moves)
      (hpath : Path m.2 xs k) : Path n (m.1 :: xs) k

/-- A path to the end of an alternative reads symbols that the alternative takes,
and keeps to its phrase. -/
theorem takes_of_path {p : Phrase} {f : Form} {xs : List Symbol} {n k : Nat}
    (hf : f ∈ ofPhrase p) (hn : n = number p f) (hpath : Path n xs k)
    (hk : (forms.entry k).complete = true) :
    takes f.steps xs ∧ headOf k = f.head ∧
      (forms.entry k).form.shown = f.shown := by
  induction hpath generalizing f with
  | nil n =>
    subst hn
    rw [headOf]
    rw [entry_number hf] at hk ⊢
    exact ⟨hk, rfl, rfl⟩
  | @cons n k m xs hm hpath ih =>
    obtain ⟨x, n'⟩ := m
    subst hn
    rw [entry_number hf, entryOf, List.mem_toArray, List.mem_map] at hm
    obtain ⟨⟨y, g⟩, hg, heq⟩ := hm
    obtain ⟨rfl, hn'⟩ := Prod.mk.inj heq
    obtain ⟨htakes, hhead, hshown⟩ := ih (Form.mem_ofPhrase_of_mem_moves hf hg) hn'.symm hk
    obtain ⟨⟨z, rest⟩, hrest, heq⟩ := List.mem_map.mp hg
    obtain ⟨rfl, rfl⟩ := Prod.mk.inj heq
    rw [Form.steps_withSteps] at htakes
    rw [Form.head_withSteps] at hhead
    rw [Form.shown_withSteps] at hshown
    exact ⟨⟨rest, hrest, htakes⟩, hhead, hshown⟩

end Forms

/-! ## The items behind a symbol -/

namespace Item

theorem mem_insert {i a : Item} {l : List Item} (h : i ∈ a.insert l) :
    i = a ∨ i ∈ l ∨ ∃ j ∈ l, a.form = j.form ∧ a.taken = j.taken ∧
      i = { j with follow := j.follow.union a.follow } := by
  induction l with
  | nil => exact .inl (List.mem_singleton.mp h)
  | cons j l ih =>
    rw [insert] at h
    split at h
    · rename_i hsame
      rcases List.mem_cons.mp h with rfl | h
      · exact .inr (.inr ⟨j, List.mem_cons_self, hsame.1, hsame.2, rfl⟩)
      · exact .inr (.inl (List.mem_cons_of_mem j h))
    · split at h
      · rcases List.mem_cons.mp h with rfl | h
        · exact .inl rfl
        · exact .inr (.inl h)
      · rcases List.mem_cons.mp h with rfl | h
        · exact .inr (.inl List.mem_cons_self)
        · rcases ih h with rfl | h | ⟨k, hk, hsame⟩
          · exact .inl rfl
          · exact .inr (.inl (List.mem_cons_of_mem j h))
          · exact .inr (.inr ⟨k, List.mem_cons_of_mem j hk, hsame⟩)

/-- What holds of all items of a list holds of those that are left when alike ones
are joined. -/
theorem forall_foldl_insert {P : Item → Prop}
    (hjoin : ∀ i j : Item, i.form = j.form → i.taken = j.taken → P i → P j →
      P { j with follow := j.follow.union i.follow })
    {l found : List Item} (hl : ∀ i ∈ l, P i) (hfound : ∀ i ∈ found, P i) :
    ∀ i ∈ l.foldl (fun found i => i.insert found) found, P i := by
  induction l generalizing found with
  | nil => exact hfound
  | cons a l ih =>
    rw [List.foldl_cons]
    refine ih (fun i hi => hl i (List.mem_cons_of_mem a hi)) ?_
    intro i hi
    have ha := hl a List.mem_cons_self
    rcases mem_insert hi with rfl | hi | ⟨j, hj, hform, htaken, rfl⟩
    · exact ha
    · exact hfound i hi
    · exact hjoin a j hform htaken ha (hfound j hj)

/-- At the end of a file comes the end of the text and nothing else. -/
def EndsText (i : Item) : Prop :=
  headOf i.form = .file → ∀ t, i.follow.contains t = true → t = .endOfFile

end Item

namespace State

/-- An item behind a symbol was put there by one that went on with the symbol. -/
theorem mem_behind {kernel : List Item} {x : Symbol} {i : Item}
    (h : i ∈ (ofKernel kernel).behind x) :
    ∃ j ∈ items kernel, i.taken = j.taken + 1 ∧ (x, i.form) ∈ (forms.entry j.form).moves := by
  rw [behind_ofKernel] at h
  refine Item.forall_foldl_insert (P := fun i => ∃ j ∈ items kernel, i.taken = j.taken + 1 ∧
    (x, i.form) ∈ (forms.entry j.form).moves) ?_ ?_ ?_ i h
  · intro i j _ _ _ hj
    exact hj
  · intro i hi
    obtain ⟨j, hj, hi⟩ := List.mem_flatMap.mp hi
    obtain ⟨m, hm, rfl⟩ := List.mem_map.mp hi
    obtain ⟨hmem, hindex⟩ := List.mem_filter.mp hm
    have hmem : m ∈ (forms.entry j.form).moves := Array.mem_toList_iff.mp hmem
    have hx : m.1 = x :=
      Symbol.eq_of_index (by simpa using hindex) (Forms.isProper_of_mem_moves hmem)
    exact ⟨j, hj, rfl, by rw [← hx]; exact hmem⟩
  · intro i hi
    cases hi

/-! ## Predictions -/

/-- A phrase that another one may start with is no file. -/
theorem corner_ne_file {p : Phrase} {c : Corner} (h : c ∈ forms.cornersOf p) :
    c.phrase ≠ .file := by
  have hcorner : ∃ n, ∃ m ∈ (forms.entry n).moves, m.1 = .phrase c.phrase := by
    rw [Forms.cornersOf] at h
    cases hall : forms.corners[p.ctorIdx]? with
    | none =>
      rw [hall] at h
      exact absurd h (Array.not_mem_empty c)
    | some all =>
      rw [hall, Option.getD_some] at h
      have hmem : all ∈ forms.corners := Array.mem_of_getElem? hall
      rw [forms, Forms.build] at hmem
      obtain ⟨starts, -, rfl⟩ := List.mem_map.mp (List.mem_toArray.mp hmem)
      obtain ⟨n, -, hn⟩ := Array.mem_flatMap.mp h
      obtain ⟨m, hm, hc⟩ := Array.mem_filterMap.mp hn
      refine ⟨n, m, hm, ?_⟩
      split at hc
      · cases hc
      · rename_i q hq
        rw [← Option.some.inj hc, hq]
  obtain ⟨n, m, hm, hphrase⟩ := hcorner
  have hproper := Forms.isProper_of_mem_moves hm
  rw [hphrase] at hproper
  simpa [Symbol.isProper] using hproper

/-- True while no file has been predicted. -/
private def NoFile (seen : Array Bool) : Prop := seen[Phrase.file.ctorIdx]?.getD false = false

private theorem NoFile.set {seen : Array Bool} (h : NoFile seen) {p : Phrase} (hp : p ≠ .file) :
    NoFile (seen.setIfInBounds p.ctorIdx true) := by
  have hne : p.ctorIdx ≠ Phrase.file.ctorIdx := fun he => hp (Phrase.ctorIdx_inj he)
  unfold NoFile at h ⊢
  rwa [Array.getElem?_setIfInBounds_ne hne]

private theorem noFile_spread (n : Nat) (work : List Phrase) (sets : Array TokenSet)
    {seen : Array Bool} (h : NoFile seen) : NoFile (spread n work sets seen).2 := by
  induction n generalizing work sets seen with
  | zero => exact h
  | succ n ih =>
    cases work with
    | nil => simpa [spread] using h
    | cons q work =>
      have hround := List.foldlRecOn (forms.cornersOf q).toList
        (spreadTo (sets[q.ctorIdx]?.getD .empty)) (b := (work, sets, seen))
        (motive := fun found => NoFile found.2.2) h
        (fun found hfound c hc => by
          obtain ⟨work, sets, seen⟩ := found
          rw [spreadTo]
          generalize (if c.isOpen then c.follow.union _ else c.follow) = more
          split
          · exact hfound
          · exact hfound.set (corner_ne_file (Array.mem_toList_iff.mp hc)))
      rw [spread, ← Array.foldl_toList]
      generalize List.foldl _ _ _ = found at hround ⊢
      obtain ⟨work', sets', seen'⟩ := found
      exact ih work' sets' hround

private theorem noFile_startAt (i : Item) {found : List Phrase × Array TokenSet × Array Bool}
    (h : NoFile found.2.2) : NoFile ((forms.entry i.form).moves.foldl (startAt i) found).2.2 := by
  rw [← Array.foldl_toList]
  have hmoves : ∀ m ∈ (forms.entry i.form).moves.toList, m.1.isProper = true :=
    fun m hm => Forms.isProper_of_mem_moves (Array.mem_toList_iff.mp hm)
  generalize (forms.entry i.form).moves.toList = moves at hmoves ⊢
  induction moves generalizing found with
  | nil => exact h
  | cons m moves ih =>
    refine ih ?_ fun m hm => hmoves m (List.mem_cons_of_mem _ hm)
    have hproper := hmoves m List.mem_cons_self
    obtain ⟨x, n⟩ := m
    obtain ⟨work, sets, seen⟩ := found
    cases x with
    | token t => exact h
    | phrase q => exact h.set (by simpa [Symbol.isProper] using hproper)

private theorem noFile_foldl (kernel : List Item)
    {found : List Phrase × Array TokenSet × Array Bool} (h : NoFile found.2.2) :
    NoFile (kernel.foldl
      (fun found i => (forms.entry i.form).moves.foldl (startAt i) found) found).2.2 := by
  induction kernel generalizing found with
  | nil => exact h
  | cons i kernel ih =>
    rw [List.foldl_cons]
    exact ih (noFile_startAt i h)

/-- No file starts inside a text. -/
theorem ne_file_of_mem_predict {kernel : List Item} {p : Phrase} {follow : TokenSet}
    (h : (p, follow) ∈ predict kernel) : p ≠ .file := by
  rw [predict] at h
  have hempty : NoFile (([] : List Phrase), Array.replicate Phrase.count TokenSet.empty,
      Array.replicate Phrase.count false).2.2 := by
    unfold NoFile
    simp [Phrase.ctorIdx_lt_count]
  have hstart := noFile_foldl kernel hempty
  generalize List.foldl _ _ _ = start at hstart h
  obtain ⟨q, -, hq⟩ := List.mem_filterMap.mp h
  split at hq
  · rename_i hseen
    cases hq
    rintro rfl
    have hnone : NoFile _ := noFile_spread spreadBound start.1 start.2.1 hstart
    exact absurd (hseen.symm.trans hnone) Bool.noConfusion
  · cases hq

/-- The items of a prediction are starts of phrases other than a file. -/
theorem start_of_mem_predicted {kernel : List Item} {i : Item} (h : i ∈ predicted kernel) :
    i.taken = 0 ∧ ∃ p, p ≠ .file ∧ i.form ∈ forms.startsOf p := by
  obtain ⟨⟨p, follow⟩, hp, hi⟩ := List.mem_flatMap.mp h
  obtain ⟨f, hf, rfl⟩ := List.mem_map.mp hi
  exact ⟨rfl, p, ne_file_of_mem_predict hp, Array.mem_toList_iff.mp hf⟩

end State

/-- The phrase of a form under the number of a start. -/
theorem Forms.head_of_mem_startsOf {p : Phrase} {n : Nat} (h : n ∈ forms.startsOf p) :
    headOf n = p := by
  obtain ⟨f, hf, -, he⟩ := entry_of_mem_startsOf h
  obtain ⟨a, -, rfl⟩ := List.mem_map.mp hf
  rw [headOf, he, Forms.head_entryOf]
  rfl

/-! ## Automata -/

namespace Automaton

/-- The second automaton has the states of the first and perhaps more. -/
structure Extends (a b : Automaton) : Prop where
  size : a.states.size ≤ b.states.size
  state : ∀ n < a.states.size, b.state n = a.state n

instance : LE Automaton := ⟨Extends⟩

theorem le_rfl {a : Automaton} : a ≤ a := ⟨Nat.le_refl _, fun _ _ => rfl⟩

theorem le_trans {a b c : Automaton} (hab : a ≤ b) (hbc : b ≤ c) : a ≤ c where
  size := Nat.le_trans hab.size hbc.size
  state n hn := (hbc.state n (Nat.lt_of_lt_of_le hn hab.size)).trans (hab.state n hn)

/-- The second state was made behind the first one. -/
structure LeadsTo (a : Automaton) (n : Nat) (x : Symbol) (m : Nat) : Prop where
  two_le : 2 ≤ m
  lt_size : m < a.states.size
  kernel : (a.state m).kernel = (a.state n).behind x
  ne_nil : (a.state n).behind x ≠ []

/-- The states of an automaton hang together. -/
structure Sound (a : Automaton) : Prop where
  size : 2 ≤ a.states.size
  lost : a.state 0 = { kernel := [], complete := [], moves := #[], words := .empty }
  start : a.state 1 = State.ofKernel startKernel
  made : ∀ m, 2 ≤ m → m < a.states.size → ∃ n < m, ∃ x,
    a.state m = State.ofKernel ((a.state n).behind x) ∧ (a.state n).behind x ≠ []
  links : ∀ n x m, ((a.links[n]?).bind (·[x.index]?)).join = some m → a.LeadsTo n x m

/-- Only a state of an automaton leads anywhere, and not the state of a reader
that has lost its way. -/
theorem Sound.of_behind {a : Automaton} (h : a.Sound) {n : Nat} {x : Symbol}
    (hne : (a.state n).behind x ≠ []) : 1 ≤ n ∧ n < a.states.size := by
  constructor
  · rcases Nat.eq_zero_or_pos n with rfl | hn
    · rw [h.lost] at hne
      exact absurd rfl hne
    · exact hn
  · by_contra hn
    have hdefault : a.state n = default := by
      rw [state, Array.getElem?_eq_none (Nat.le_of_not_lt hn)]
      rfl
    rw [hdefault] at hne
    exact hne rfl

theorem LeadsTo.mono {a b : Automaton} {n m : Nat} {x : Symbol} (ha : a.Sound)
    (h : a.LeadsTo n x m) (hab : a ≤ b) : b.LeadsTo n x m := by
  have hn := (ha.of_behind h.ne_nil).2
  exact {
    two_le := h.two_le
    lt_size := Nat.lt_of_lt_of_le h.lt_size hab.size
    kernel := by
      rw [hab.state m h.lt_size, hab.state n hn]
      exact h.kernel
    ne_nil := by
      rw [hab.state n hn]
      exact h.ne_nil }

/-- What leads where is a matter of the states alone. -/
theorem LeadsTo.of_states {a b : Automaton} {n m : Nat} {x : Symbol} (h : a.LeadsTo n x m)
    (hstates : b.states = a.states) : b.LeadsTo n x m := by
  have hstate : b.state = a.state := funext fun k => by rw [state, state, hstates]
  exact ⟨h.two_le, hstates ▸ h.lt_size, hstate ▸ h.kernel, hstate ▸ h.ne_nil⟩

/-- Every state but that of a lost reader is made from its items. -/
theorem Sound.eq_ofKernel {a : Automaton} (h : a.Sound) {n : Nat} (hpos : 1 ≤ n)
    (hn : n < a.states.size) : a.state n = State.ofKernel (a.state n).kernel := by
  rcases Nat.eq_or_lt_of_le hpos with rfl | htwo
  · rw [h.start, State.kernel_ofKernel]
  · obtain ⟨k, -, x, hstate, -⟩ := h.made n htwo hn
    rw [hstate, State.kernel_ofKernel]

/-- The items of a state. -/
def items (a : Automaton) (n : Nat) : List Item := State.items (a.state n).kernel

/-- An item behind a symbol was put there by one that went on with it. -/
theorem Sound.mem_behind {a : Automaton} (h : a.Sound) {n : Nat} {x : Symbol} {i : Item}
    (hi : i ∈ (a.state n).behind x) :
    ∃ j ∈ a.items n, i.taken = j.taken + 1 ∧ (x, i.form) ∈ (forms.entry j.form).moves := by
  obtain ⟨hpos, hn⟩ := h.of_behind (List.ne_nil_of_mem hi)
  rw [h.eq_ofKernel hpos hn] at hi
  exact State.mem_behind hi

/-- An item that has read something was put behind the symbol it read last. -/
theorem Sound.step_back {a : Automaton} (h : a.Sound) {n m : Nat} {x : Symbol} {i : Item}
    (hlink : a.LeadsTo n x m) (hi : i ∈ a.items m) (htaken : 0 < i.taken) :
    ∃ j ∈ a.items n, i.taken = j.taken + 1 ∧ (x, i.form) ∈ (forms.entry j.form).moves := by
  rcases List.mem_append.mp hi with hi | hi
  · rw [hlink.kernel] at hi
    exact h.mem_behind hi
  · have := (State.start_of_mem_predicted hi).1
    omega

/-- The items of the later states have read something. -/
theorem Sound.taken_pos {a : Automaton} (h : a.Sound) {m : Nat} (htwo : 2 ≤ m)
    (hm : m < a.states.size) {i : Item} (hi : i ∈ (a.state m).kernel) : 0 < i.taken := by
  obtain ⟨n, -, x, hstate, -⟩ := h.made m htwo hm
  rw [hstate] at hi
  obtain ⟨j, -, htaken, -⟩ := h.mem_behind hi
  omega

/-- An item that has read something is in a state behind another one. -/
theorem Sound.two_le_of_taken {a : Automaton} (h : a.Sound) {n : Nat} {i : Item}
    (hi : i ∈ a.items n) (htaken : 0 < i.taken) : 2 ≤ n := by
  rcases List.mem_append.mp hi with hi | hi
  · match n, hi with
    | 0, hi =>
      rw [h.lost] at hi
      cases hi
    | 1, hi =>
      rw [h.start, State.kernel_ofKernel, startKernel] at hi
      obtain ⟨f, -, rfl⟩ := List.mem_map.mp hi
      cases htaken
    | n + 2, _ => exact Nat.le_add_left 2 n
  · have := (State.start_of_mem_predicted hi).1
    omega

/-- An item that has read nothing is the start of a phrase, and of a file only at
the start of a text. -/
theorem Sound.start_of_taken {a : Automaton} (h : a.Sound) {n : Nat} {i : Item}
    (hi : i ∈ a.items n) (htaken : i.taken = 0) :
    ∃ p, i.form ∈ forms.startsOf p ∧ (p = .file → n = 1) := by
  rcases List.mem_append.mp hi with hi | hi
  · by_cases hn : n < a.states.size
    · match n, hn, hi with
      | 0, _, hi =>
        rw [h.lost] at hi
        cases hi
      | 1, _, hi =>
        rw [h.start, State.kernel_ofKernel, startKernel] at hi
        obtain ⟨f, hf, rfl⟩ := List.mem_map.mp hi
        exact ⟨.file, Array.mem_toList_iff.mp hf, fun _ => rfl⟩
      | n + 2, hn, hi =>
        have := h.taken_pos (Nat.le_add_left 2 n) hn hi
        omega
    · rw [state, Array.getElem?_eq_none (Nat.le_of_not_lt hn)] at hi
      cases hi
  · obtain ⟨-, p, hp, hform⟩ := State.start_of_mem_predicted hi
    exact ⟨p, hform, fun hfile => absurd hfile hp⟩

/-! ## New states -/

/-- The two states that an automaton has at first. -/
theorem sound_initial : initial.Sound where
  size := Nat.le_refl 2
  lost := rfl
  start := rfl
  made m htwo hm := absurd hm (Nat.not_lt.mpr htwo)
  links n x m h := by
    have hnone : ∀ y : Option (Array (Option Nat)),
        (∀ row ∈ y, row = Array.replicate Symbol.count none) →
        (y.bind (·[x.index]?)).join = none := by
      intro y hy
      cases y with
      | none => rfl
      | some row =>
        rw [hy row rfl, Option.bind_some, Array.getElem?_replicate]
        split <;> rfl
    rw [hnone _ fun row hrow => ?_] at h
    · cases h
    · have hmem : row ∈ initial.links := Array.mem_of_getElem? hrow
      exact (Array.mem_replicate.mp hmem).2

/-- An automaton with one more state, which leads nowhere yet. -/
def addState (a : Automaton) (kernel : List Item) : Automaton where
  states := a.states.push (State.ofKernel kernel)
  links := a.links.push (Array.replicate Symbol.count none)

theorem le_addState (a : Automaton) (kernel : List Item) : a ≤ a.addState kernel := by
  refine ⟨by simp [addState], fun k hk => ?_⟩
  rw [addState, state, Array.getElem?_push_lt hk, state, Array.getElem?_eq_getElem hk]

theorem state_addState (a : Automaton) (kernel : List Item) :
    (a.addState kernel).state a.states.size = State.ofKernel kernel := by
  simp [state, addState]

theorem size_addState (a : Automaton) (kernel : List Item) :
    (a.addState kernel).states.size = a.states.size + 1 := by
  simp [addState]

theorem links_addState {a : Automaton} {kernel : List Item} {k m : Nat} {y : Symbol}
    (h : (((a.addState kernel).links[k]?).bind (·[y.index]?)).join = some m) :
    ((a.links[k]?).bind (·[y.index]?)).join = some m := by
  rw [addState, Array.getElem?_push] at h
  split at h
  · rw [Option.bind_some, Array.getElem?_replicate] at h
    split at h <;> cases h
  · exact h

/-- The items behind a symbol are made a state. -/
theorem Sound.addState {a : Automaton} (h : a.Sound) {n : Nat} {x : Symbol}
    (hne : (a.state n).behind x ≠ []) :
    (a.addState ((a.state n).behind x)).Sound ∧
      (a.addState ((a.state n).behind x)).LeadsTo n x a.states.size := by
  have hle := a.le_addState ((a.state n).behind x)
  have hnew := a.state_addState ((a.state n).behind x)
  have hsize := a.size_addState ((a.state n).behind x)
  have hn := (h.of_behind hne).2
  have hbn : (a.addState ((a.state n).behind x)).state n = a.state n := hle.state n hn
  constructor
  · exact {
      size := Nat.le_trans h.size hle.size
      lost := (hle.state 0 (Nat.lt_of_lt_of_le Nat.two_pos h.size)).trans h.lost
      start := (hle.state 1 (Nat.lt_of_lt_of_le Nat.one_lt_two h.size)).trans h.start
      made := by
        intro m htwo hm
        rcases Nat.lt_or_eq_of_le (Nat.le_of_lt_succ (hsize ▸ hm)) with hm | rfl
        · obtain ⟨k, hk, y, hstate, hy⟩ := h.made m htwo hm
          have hbk := hle.state k (Nat.lt_trans hk hm)
          exact ⟨k, hk, y, by rw [hle.state m hm, hbk, hstate], by rwa [hbk]⟩
        · exact ⟨n, hn, x, by rw [hnew, hbn], by rwa [hbn]⟩
      links := fun k y m hm => (h.links k y m (links_addState hm)).mono h hle }
  · refine ⟨h.size, hsize ▸ Nat.lt_succ_self _, ?_, by rwa [hbn]⟩
    rw [hnew, hbn, State.kernel_ofKernel]

/-- The items of a state, as those behind a symbol, have a number of their own, old
or new. -/
theorem Sound.intern {a : Automaton} (h : a.Sound) {n : Nat} {x : Symbol}
    (hne : (a.state n).behind x ≠ []) :
    (a.intern ((a.state n).behind x)).1.Sound ∧ a ≤ (a.intern ((a.state n).behind x)).1 ∧
      (a.intern ((a.state n).behind x)).1.LeadsTo n x (a.intern ((a.state n).behind x)).2 := by
  unfold Automaton.intern
  split
  · rename_i m hm
    obtain ⟨hlt, hkernel, -⟩ := Array.findIdx?_eq_some_iff_getElem.mp hm
    have hstate : a.state m = a.states[m] := by
      rw [state, Array.getElem?_eq_getElem hlt]
      rfl
    have hkernel : (a.state m).kernel = (a.state n).behind x := by
      rw [hstate]
      simpa using hkernel
    -- the items of the first two states have read nothing, and there are some here
    obtain ⟨i, hi⟩ := List.exists_mem_of_ne_nil _ hne
    obtain ⟨j, -, htaken, -⟩ := h.mem_behind hi
    have him : i ∈ a.items m := List.mem_append_left _ (hkernel ▸ hi)
    exact ⟨h, le_rfl, h.two_le_of_taken him (by omega), hlt, hkernel, hne⟩
  · obtain ⟨hsound, hleads⟩ := h.addState hne
    exact ⟨hsound, a.le_addState _, hleads⟩

/-- A way from a state to the one behind it is kept. -/
theorem Sound.link {a : Automaton} (h : a.Sound) {n m : Nat} {x : Symbol}
    (hleads : a.LeadsTo n x m) :
    Sound { a with links := a.links.modify n (·.setIfInBounds x.index (some m)) } where
  size := h.size
  lost := h.lost
  start := h.start
  made := h.made
  links k y l hl := by
    refine LeadsTo.of_states (a := a) ?_ rfl
    dsimp only at hl
    rw [Array.getElem?_modify] at hl
    split at hl
    · rename_i hk
      subst hk
      cases hrow : a.links[n]? with
      | none =>
        rw [hrow] at hl
        cases hl
      | some row =>
        rw [hrow, Option.map_some, Option.bind_some, Array.getElem?_setIfInBounds] at hl
        split at hl
        · rename_i hindex
          split at hl
          · obtain rfl := Option.some.inj hl
            have hbehind : (a.state n).behind y = (a.state n).behind x := by
              rw [State.behind, State.behind, hindex]
            exact ⟨hleads.two_le, hleads.lt_size, hleads.kernel.trans hbehind.symm,
              hbehind ▸ hleads.ne_nil⟩
          · cases hl
        · refine h.links n y l ?_
          rw [hrow, Option.bind_some]
          exact hl
    · exact h.links k y l hl

/-- Going on with a symbol leads to the state behind it. -/
theorem Sound.goto {a : Automaton} (h : a.Sound) (n : Nat) (x : Symbol) :
    (a.goto n x).1.Sound ∧ a ≤ (a.goto n x).1 ∧
      ∀ m, (a.goto n x).2 = some m → (a.goto n x).1.LeadsTo n x m := by
  unfold Automaton.goto
  split
  · rename_i m hm
    exact ⟨h, le_rfl, fun k hk => Option.some.inj hk ▸ h.links n x m hm⟩
  · split
    · exact ⟨h, le_rfl, fun _ hk => nomatch hk⟩
    · rename_i hne
      obtain ⟨hsound, hle, hleads⟩ := h.intern hne
      refine ⟨hsound.link hleads, ⟨hle.size, hle.state⟩, fun k hk => ?_⟩
      obtain rfl := Option.some.inj hk
      exact hleads.of_states rfl

end Automaton

end SourceShelf.Java
