import SourceShelf.Proofs.Java.Items

/-!
# Where phrases end

What a state does when an item comes to its end.  `State.reduce_mem_actions` and
`State.accept_mem_actions` name the item behind an action.

A file is special.  It consists of one program, so behind the program there is
nothing left to read (`Forms.move_of_file`); a state in which a file ends has no
other items, it lies behind the start of the text, and it does nothing but accept
(`Automaton.Sound.actions_of_accept`), at the end of the text
(`Automaton.Sound.endsText`).
-/

namespace SourceShelf.Java

namespace Forms

/-- The form behind a symbol. -/
theorem exists_of_move {n k : Nat} {x : Symbol} (h : (x, k) ∈ (forms.entry n).moves) :
    ∃ p, ∃ f ∈ ofPhrase p, ∃ g ∈ ofPhrase p, forms.entry n = entryOf p f ∧
      forms.entry k = entryOf p g ∧ (x, g) ∈ f.moves := by
  rcases entry_cases n with hn | ⟨p, f, hf, hn⟩
  · rw [hn] at h
    exact absurd h (Array.not_mem_empty _)
  · rw [hn, entryOf, List.mem_toArray, List.mem_map] at h
    obtain ⟨⟨y, g⟩, hm, heq⟩ := h
    obtain ⟨rfl, rfl⟩ := Prod.mk.inj heq
    have hg := Form.mem_ofPhrase_of_mem_moves hf hm
    exact ⟨p, f, hf, g, hg, hn, entry_number hg, hm⟩

/-- Going on stays in the phrase. -/
theorem headOf_move {n k : Nat} {x : Symbol} (h : (x, k) ∈ (forms.entry n).moves) :
    headOf k = headOf n := by
  obtain ⟨p, f, hf, g, hg, hn, hk, hm⟩ := exists_of_move h
  obtain ⟨m, -, heq⟩ := List.mem_map.mp hm
  obtain ⟨-, rfl⟩ := Prod.mk.inj heq
  rw [headOf, headOf, hn, hk]
  rfl

/-- The rule of a phrase that goes on with a symbol has a step with it. -/
theorem exists_step_of_move {n k : Nat} {x : Symbol} (h : (x, k) ∈ (forms.entry n).moves) :
    ∃ alt ∈ (headOf n).rule, ∃ s ∈ alt.steps, s.symbol = x := by
  obtain ⟨p, f, hf, g, hg, hn, hk, hm⟩ := exists_of_move h
  obtain ⟨s, hs, hsymbol⟩ := Form.mem_moves hm
  obtain ⟨alt, halt, steps, hsteps, rfl⟩ := Form.exists_of_mem_ofPhrase hf
  rw [headOf, hn]
  exact ⟨alt, halt, s, hsteps.subset hs, hsymbol⟩

/-- A file goes on with its program, and behind that with nothing. -/
theorem move_of_file {n k : Nat} {x : Symbol} (h : (x, k) ∈ (forms.entry n).moves)
    (hfile : headOf n = .file) : x = .phrase .program ∧ (forms.entry k).moves = #[] := by
  obtain ⟨p, f, hf, g, hg, hn, hk, hm⟩ := exists_of_move h
  obtain ⟨alt, halt, steps, hsteps, rfl⟩ := Form.exists_of_mem_ofPhrase hf
  obtain rfl : p = .file := by
    rw [headOf, hn] at hfile
    exact hfile
  obtain rfl := List.mem_singleton.mp halt
  obtain ⟨⟨y, rest⟩, hstep, heq⟩ := List.mem_map.mp hm
  obtain ⟨rfl, rfl⟩ := Prod.mk.inj heq
  rcases List.suffix_cons_iff.mp hsteps with rfl | hsteps
  · obtain ⟨rfl, rfl⟩ := Prod.mk.inj (List.mem_singleton.mp hstep)
    rw [hk]
    exact ⟨rfl, rfl⟩
  · rw [List.suffix_nil.mp hsteps] at hstep
    cases hstep

/-- Only a file goes on with a program. -/
theorem file_of_move {n k : Nat} (h : (.phrase .program, k) ∈ (forms.entry n).moves) :
    headOf n = .file := by
  obtain ⟨alt, halt, s, hs, hsymbol⟩ := exists_step_of_move h
  exact eq_file_of_program halt hs hsymbol

end Forms

namespace TokenSet

theorem eq_of_contains_single {s t : Token} (h : (single s).contains t = true) : t = s := by
  have hbit : (1 <<< s.ctorIdx).testBit t.ctorIdx = true := h
  rw [Nat.one_shiftLeft, Nat.testBit_two_pow] at hbit
  have hindex : s.ctorIdx = t.ctorIdx := by simpa using hbit
  have hst : Token.ofNat t.ctorIdx = Token.ofNat s.ctorIdx := by rw [hindex]
  rwa [Token.ofNat_ctorIdx, Token.ofNat_ctorIdx] at hst

end TokenSet

/-! ## Actions -/

namespace State

theorem mem_complete_of_mem_ending {s : State} {t : Token} {i : Item} (h : i ∈ s.ending t) :
    i ∈ s.complete ∧ i.follow.contains t = true := by
  unfold ending at h
  dsimp only at h
  split at h
  · cases h
  · exact List.mem_filter.mp (List.mem_of_mem_filter h)

/-- What a state does at a word where items end. -/
def endings (s : State) (t : Token) : List Action :=
  ((s.ending t).map reductionOf).eraseDups.map fun r =>
    if r.head = .file then .accept else .reduce r

/-- The end of a phrase, at the end of a form. -/
def reductionOfForm (f : Form) (taken : Nat) : Reduction :=
  { head := f.head, taken, preference := f.preference, shown := f.shown }

-- said of any form, so that nothing looks into the list of all forms
theorem reductionOf_eq (i : Item) :
    reductionOf i = reductionOfForm (forms.entry i.form).form i.taken := by
  rw [reductionOf.eq_1]
  rfl

@[simp] theorem head_reductionOfForm (f : Form) (taken : Nat) :
    (reductionOfForm f taken).head = f.head := rfl

@[simp] theorem taken_reductionOfForm (f : Form) (taken : Nat) :
    (reductionOfForm f taken).taken = taken := rfl

@[simp] theorem shown_reductionOfForm (f : Form) (taken : Nat) :
    (reductionOfForm f taken).shown = f.shown := rfl

theorem reductionOf_head (i : Item) : (reductionOf i).head = headOf i.form := by
  rw [reductionOf_eq, head_reductionOfForm, headOf, FormEntry.head_eq]

/-- A state goes on, or it ends items and perhaps goes on as well. -/
theorem actions_cases (s : State) (t : Token) :
    s.actions t = [.shift] ∨ s.actions t = s.endings t ∨ s.actions t = s.endings t ++ [.shift] := by
  have hendings : ((s.ending t).map reductionOf).eraseDups.map (fun r =>
      if r.head = .file then .accept else .reduce r) = s.endings t := rfl
  unfold actions
  simp only [hendings]
  generalize s.endings t = reduces
  generalize s.ending t = ends
  split
  · exact .inr (.inl rfl)
  · split
    · exact .inl rfl
    · split
      · exact .inl rfl
      · exact .inr (.inl rfl)
      · exact .inr (.inr rfl)
      · split
        · exact .inr (.inl rfl)
        · split
          · exact .inl rfl
          · exact .inr (.inr rfl)

theorem mem_endings {s : State} {t : Token} {a : Action} (h : a ∈ s.endings t) :
    ∃ i ∈ s.complete, i.follow.contains t = true ∧
      a = if (reductionOf i).head = .file then .accept else .reduce (reductionOf i) := by
  obtain ⟨r, hr, rfl⟩ := List.mem_map.mp h
  obtain ⟨i, hi, rfl⟩ := List.mem_map.mp (List.mem_eraseDups.mp hr)
  obtain ⟨hcomplete, hfollow⟩ := mem_complete_of_mem_ending hi
  exact ⟨i, hcomplete, hfollow, rfl⟩

theorem mem_endings_of_mem_actions {s : State} {t : Token} {a : Action} (h : a ∈ s.actions t)
    (hshift : a ≠ .shift) : a ∈ s.endings t := by
  rcases actions_cases s t with hactions | hactions | hactions
  · rw [hactions] at h
    exact absurd (List.mem_singleton.mp h) hshift
  · rwa [hactions] at h
  · rw [hactions] at h
    rcases List.mem_append.mp h with h | h
    · exact h
    · exact absurd (List.mem_singleton.mp h) hshift

/-- The end of a phrase is that of an item. -/
structure Ends (r : Reduction) (i : Item) : Prop where
  head : r.head = headOf i.form
  taken : r.taken = i.taken
  shown : r.shown = (forms.entry i.form).form.shown

theorem ends_reductionOf (i : Item) : Ends (reductionOf i) i where
  head := reductionOf_head i
  taken := by rw [reductionOf_eq, taken_reductionOfForm]
  shown := by rw [reductionOf_eq, shown_reductionOfForm]

/-- Where a phrase is ended, there is an item at its end. -/
theorem reduce_mem_actions {s : State} {t : Token} {r : Reduction}
    (h : .reduce r ∈ s.actions t) : ∃ i ∈ s.complete, Ends r i := by
  obtain ⟨i, hi, -, hr⟩ := mem_endings (mem_endings_of_mem_actions h Action.noConfusion)
  refine ⟨i, hi, ?_⟩
  by_cases hfile : (reductionOf i).head = .file
  · rw [if_pos hfile] at hr
    cases hr
  · rw [if_neg hfile] at hr
    obtain rfl := Action.reduce.inj hr
    exact ends_reductionOf i

/-- Where the text is accepted, there is an item at the end of a file. -/
theorem accept_mem_actions {s : State} {t : Token} (h : .accept ∈ s.actions t) :
    ∃ i ∈ s.complete, headOf i.form = .file ∧ i.follow.contains t = true := by
  obtain ⟨i, hi, hfollow, hr⟩ := mem_endings (mem_endings_of_mem_actions h Action.noConfusion)
  refine ⟨i, hi, ?_, hfollow⟩
  by_contra hfile
  rw [reductionOf_head] at hr
  rw [if_neg hfile] at hr
  cases hr

/-- Where all items that end are at the end of a file, nothing comes before accepting. -/
theorem actions_eq_accept_cons {s : State} {t : Token}
    (hfile : ∀ i ∈ s.complete, headOf i.form = .file)
    (h : .accept ∈ s.actions t) : ∃ rest, s.actions t = .accept :: rest := by
  have hends : .accept ∈ s.endings t := mem_endings_of_mem_actions h Action.noConfusion
  have hfirst : ∃ rest, s.endings t = .accept :: rest := by
    cases hactions : s.endings t with
    | nil =>
      rw [hactions] at hends
      cases hends
    | cons a rest =>
      obtain ⟨i, hi, -, ha⟩ := mem_endings (hactions ▸ List.mem_cons_self : a ∈ s.endings t)
      rw [reductionOf_head, if_pos (hfile i hi)] at ha
      exact ⟨rest, by rw [ha]⟩
  obtain ⟨rest, hrest⟩ := hfirst
  rcases actions_cases s t with hactions | hactions | hactions
  · rw [hactions] at h
    cases List.mem_singleton.mp h
  · exact ⟨rest, hactions.trans hrest⟩
  · exact ⟨rest ++ [.shift], by rw [hactions, hrest, List.cons_append]⟩

end State

/-! ## Items at their end -/

namespace Automaton

variable {a : Automaton}

/-- An item at its end is one of the items of its state. -/
theorem Sound.mem_complete (h : a.Sound) {n : Nat} {i : Item} (hi : i ∈ (a.state n).complete) :
    1 ≤ n ∧ n < a.states.size ∧ i ∈ a.items n ∧ (forms.entry i.form).complete = true := by
  have hn : n < a.states.size := by
    by_contra hn
    rw [state, Array.getElem?_eq_none (Nat.le_of_not_lt hn)] at hi
    cases hi
  have hpos : 1 ≤ n := by
    rcases Nat.eq_zero_or_pos n with rfl | hpos
    · rw [h.lost] at hi
      cases hi
    · exact hpos
  rw [h.eq_ofKernel hpos hn, State.complete_ofKernel] at hi
  obtain ⟨hmem, hcomplete⟩ := List.mem_filter.mp hi
  exact ⟨hpos, hn, hmem, hcomplete⟩

/-- An item at the end of an alternative that was read from its start has read
symbols that the alternative takes. -/
theorem Sound.takes_of_path (h : a.Sound) {n k : Nat} {j : Item} {xs : List Symbol}
    (hj : j ∈ a.items n) (htaken : j.taken = 0) (hpath : Forms.Path j.form xs k)
    (hk : (forms.entry k).complete = true) :
    ∃ alt ∈ (headOf k).rule, takes alt.steps xs ∧
      (forms.entry k).form.shown = alt.shown := by
  obtain ⟨p, hstart, -⟩ := h.start_of_taken hj htaken
  obtain ⟨f, hf, hn, -⟩ := Forms.entry_of_mem_startsOf hstart
  obtain ⟨alt, halt, rfl⟩ := List.mem_map.mp hf
  obtain ⟨htakes, hhead, hshown⟩ :=
    Forms.takes_of_path (Form.mem_ofPhrase_of_mem_starts hf) hn hpath hk
  refine ⟨alt, ?_, htakes, hshown⟩
  rw [hhead]
  exact halt

/-- Every item of a file has the end of the text behind it and nothing else. -/
theorem Sound.endsText (h : a.Sound) (n : Nat) (i : Item) (hi : i ∈ a.items n) : i.EndsText := by
  induction n using Nat.strongRecOn generalizing i with
  | _ n ih =>
    rcases List.mem_append.mp hi with hi | hi
    · by_cases hn : n < a.states.size
      · match n, hn, hi, ih with
        | 0, _, hi, _ =>
          rw [h.lost] at hi
          cases hi
        | 1, _, hi, _ =>
          rw [h.start, State.kernel_ofKernel, startKernel] at hi
          obtain ⟨f, -, rfl⟩ := List.mem_map.mp hi
          exact fun _ t ht => TokenSet.eq_of_contains_single ht
        | m + 2, hn, hi, ih =>
          obtain ⟨k, hk, x, hstate, hne⟩ := h.made (m + 2) (Nat.le_add_left 2 m) hn
          obtain ⟨hpos, hlt⟩ := h.of_behind hne
          rw [hstate, State.kernel_ofKernel, h.eq_ofKernel hpos hlt, State.behind_ofKernel] at hi
          refine Item.forall_foldl_insert (P := Item.EndsText) ?_ ?_ ?_ i hi
          · intro i j hform _ hi hj hhead t ht
            rw [TokenSet.contains_union, Bool.or_eq_true] at ht
            rcases ht with ht | ht
            · exact hj hhead t ht
            · exact hi (hform ▸ hhead) t ht
          · intro i hi
            obtain ⟨j, hj, hi⟩ := List.mem_flatMap.mp hi
            obtain ⟨⟨y, l⟩, hm, rfl⟩ := List.mem_map.mp hi
            have hmove := Array.mem_toList_iff.mp (List.mem_of_mem_filter hm)
            intro hhead t ht
            exact ih k hk j hj ((Forms.headOf_move hmove).symm.trans hhead) t ht
          · intro i hi
            cases hi
      · rw [state, Array.getElem?_eq_none (Nat.le_of_not_lt hn)] at hi
        cases hi
    · obtain ⟨-, p, hp, hstart⟩ := State.start_of_mem_predicted hi
      intro hhead
      exact absurd ((Forms.head_of_mem_startsOf hstart).symm.trans hhead) hp

/-! ## The end of a file -/

/-- What an item of a file that has something read was read behind: a program, at the
start of a text. -/
theorem Sound.step_back_file (h : a.Sound) {n : Nat} {x : Symbol} {j : Item} {k : Nat}
    (hj : j ∈ a.items n) (hmove : (x, k) ∈ (forms.entry j.form).moves)
    (hfile : headOf j.form = .file) :
    x = .phrase .program ∧ j.taken = 0 ∧ n = 1 := by
  have htaken : j.taken = 0 := by
    -- an item that has read something has read the program, and can read no more
    by_contra hne
    rcases List.mem_append.mp hj with hkernel | hpredicted
    · have htwo : 2 ≤ n ∧ n < a.states.size := by
        match n, hkernel with
        | 0, hkernel =>
          rw [h.lost] at hkernel
          cases hkernel
        | 1, hkernel =>
          rw [h.start, State.kernel_ofKernel, startKernel] at hkernel
          obtain ⟨f, -, rfl⟩ := List.mem_map.mp hkernel
          exact absurd rfl hne
        | n + 2, hkernel =>
          refine ⟨Nat.le_add_left 2 n, ?_⟩
          by_contra hn
          rw [state, Array.getElem?_eq_none (Nat.le_of_not_lt hn)] at hkernel
          cases hkernel
      obtain ⟨m, -, y, hstate, -⟩ := h.made n htwo.1 htwo.2
      rw [hstate, State.kernel_ofKernel] at hkernel
      obtain ⟨i, -, -, hi⟩ := h.mem_behind hkernel
      have hempty := (Forms.move_of_file hi ((Forms.headOf_move hi).symm.trans hfile)).2
      rw [hempty] at hmove
      exact absurd hmove (Array.not_mem_empty _)
    · exact hne (State.start_of_mem_predicted hpredicted).1
  obtain ⟨p, hstart, hp⟩ := h.start_of_taken hj htaken
  exact ⟨(Forms.move_of_file hmove hfile).1, htaken,
    hp ((Forms.head_of_mem_startsOf hstart).symm.trans hfile)⟩

/-- An item at the end of a file has read something. -/
theorem Sound.taken_pos_of_file (h : a.Sound) {n : Nat} {i : Item} (hi : i ∈ a.items n)
    (hcomplete : (forms.entry i.form).complete = true)
    (hfile : headOf i.form = .file) : 0 < i.taken := by
  rcases Nat.eq_zero_or_pos i.taken with htaken | htaken
  · obtain ⟨p, hstart, -⟩ := h.start_of_taken hi htaken
    have hprogram := Forms.eq_program_of_complete hstart hcomplete
    have hhead := (Forms.head_of_mem_startsOf hstart).symm.trans hfile
    rw [hprogram] at hhead
    cases hhead
  · exact htaken

/-- A state that accepts the text does nothing else, and only at the end of the text. -/
theorem Sound.actions_of_accept (h : a.Sound) {n : Nat} {t : Token}
    (haccept : .accept ∈ (a.state n).actions t) :
    t = .endOfFile ∧ (∃ rest, (a.state n).actions t = .accept :: rest) ∧
      ∃ i ∈ a.items n, (forms.entry i.form).complete = true ∧
        headOf i.form = .file := by
  obtain ⟨i, hi, hfile, hfollow⟩ := State.accept_mem_actions haccept
  obtain ⟨hpos, hn, hitem, hcomplete⟩ := h.mem_complete hi
  have htaken := h.taken_pos_of_file hitem hcomplete hfile
  refine ⟨h.endsText n i hitem hfile t hfollow, ?_, i, hitem, hcomplete, hfile⟩
  refine State.actions_eq_accept_cons ?_ haccept
  -- the state was made behind the program, which only a file goes on with
  have hkernel : i ∈ (a.state n).kernel := by
    rcases List.mem_append.mp hitem with hkernel | hpredicted
    · exact hkernel
    · have := (State.start_of_mem_predicted hpredicted).1
      omega
  have htwo : 2 ≤ n := by
    rcases Nat.eq_or_lt_of_le hpos with rfl | htwo
    · rw [h.start, State.kernel_ofKernel, startKernel] at hkernel
      obtain ⟨f, -, rfl⟩ := List.mem_map.mp hkernel
      cases htaken
    · exact htwo
  obtain ⟨m, -, x, hstate, -⟩ := h.made n htwo hn
  have hbehind : ∀ k ∈ (a.state n).kernel, headOf k.form = .file ∧
      (forms.entry k.form).moves = #[] := by
    intro k hk
    rw [hstate, State.kernel_ofKernel] at hkernel hk
    obtain ⟨j, hj, -, hmove⟩ := h.mem_behind hkernel
    obtain ⟨rfl, -⟩ :=
      h.step_back_file hj hmove ((Forms.headOf_move hmove).symm.trans hfile)
    obtain ⟨j', hj', -, hmove'⟩ := h.mem_behind hk
    have hfile' : headOf j'.form = .file := Forms.file_of_move hmove'
    exact ⟨(Forms.headOf_move hmove').trans hfile', (Forms.move_of_file hmove' hfile').2⟩
  intro k hk
  obtain ⟨-, -, hkitem, -⟩ := h.mem_complete hk
  have hnone : State.predicted (a.state n).kernel = [] := by
    rw [State.predicted, State.predict_of_moves_empty fun k hk => (hbehind k hk).2]
    rfl
  rcases List.mem_append.mp hkitem with hk | hk
  · exact (hbehind k hk).1
  · rw [hnone] at hk
    cases hk

end Automaton

end SourceShelf.Java
