import SourceShelf.Java.SyntaxTree
import SourceShelf.Proofs.Java.Reading

/-!
# A text without faults follows the grammar

A stack is taken over a word (`Reader.after_advance`), the stacks are compared
(`Reader.after_condense`), and so on in rounds.  None of it leaves what is sound, so
the tree that is found is a faulty one or a program that follows the grammar
(`Reader.read_follows`), and a text in which no fault is found is such a program
(`SyntaxTree.isFile`).
-/

namespace SourceShelf.Java

namespace Reader

variable {a : Automaton} {r : Reader} {v : Nat}

/-! ## Over the next word -/

/-- The part of a word that was found. -/
theorem ofLexeme_of_word {l : Lexeme} {w : Token} (hword : l.word = some w)
    (hend : w ≠ .endOfFile) (extra : Bool) :
    (Part.ofLexeme l extra).extra = extra ∧ (Part.ofLexeme l extra).kind = .symbol (.token w) ∧
      (Part.ofLexeme l extra).trees = [.leaf w l.start.place.chars l.stop.place.chars] := by
  unfold Part.ofLexeme
  rw [hword]
  dsimp only
  split
  · rename_i heq
    exact absurd (Option.some.inj heq) hend
  · rename_i heq
    obtain rfl := Option.some.inj heq
    exact ⟨rfl, rfl, rfl⟩
  · rename_i heq
    cases heq

/-- A word is put on a stack in a state that leads on with it. -/
theorem after_shift {lookahead : Lexeme} {w : Token} {next : Nat} (h : Good a r)
    (hsolid : lookahead.Solid) (hword : lookahead.word = some w)
    (hleads : r.automaton.LeadsTo (r.headAt v).node.mark.state (.token w) next) :
    After (push v (some (Part.ofLexeme lookahead false)) next) r fun _ r' => Good a r' := by
  have hproper := hleads.isProper h.sound.automaton
  have hend : w ≠ .endOfFile := by
    rintro rfl
    simp [Symbol.isProper] at hproper
  obtain ⟨hextra, hkind, htrees⟩ := ofLexeme_of_word hword hend false
  refine (after_push h (.symbol hleads hextra hkind ?_)).mono fun _ _ h' => h'.1
  rw [htrees]
  exact .word (hsolid.lt_of_word hword hend)

/-- A comment is put on a stack, in the state it is in. -/
theorem after_comment {lookahead : Lexeme} (h : Good a r) (hsolid : lookahead.Solid)
    (hcomment : lookahead.word.any Token.isComment = true) :
    After (push v (some (Part.ofLexeme lookahead true)) (r.headAt v).state) r
      fun _ r' => Good a r' := by
  obtain ⟨w, hword, hw⟩ : ∃ w, lookahead.word = some w ∧ w.isComment = true := by
    cases hword : lookahead.word with
    | none =>
      rw [hword] at hcomment
      cases hcomment
    | some w =>
      rw [hword] at hcomment
      exact ⟨w, rfl, hcomment⟩
  have hend : w ≠ .endOfFile := by
    rintro rfl
    cases hw
  obtain ⟨hextra, hkind, htrees⟩ := ofLexeme_of_word hword hend true
  exact (after_push h (.extra rfl hextra (.comment hw (hsolid.lt_of_word hword hend) hkind
    htrees))).mono fun _ _ h' => h'.1

/-- What lies on a stack with the end of the text on top, where a file is at its
end. -/
theorem Sound.slices_accept (h : r.Sound) {head : Head} (hhead : r.headAt v = head) {i : Item}
    (hi : i ∈ r.automaton.items head.state) (hcomplete : (forms.entry i.form).complete = true)
    (hfile : headOf i.form = .file) {lookahead : Lexeme} (hword : lookahead.word = some .endOfFile)
    (id : Nat) :
    Node.SlicesHold r.automaton IsWhole
      (Node.push id 0 (some (Part.ofLexeme lookahead true)) (r.headAt v).node).popAll := by
  have heof : (Part.ofLexeme lookahead true).extra = true ∧
      (Part.ofLexeme lookahead true).IsExtra := by
    refine ⟨?_, .ending ?_ ?_⟩ <;> simp [Part.ofLexeme, hword]
  subst hhead
  intro s hs
  obtain ⟨hsound, hparts⟩ := (h.headAt v).popAll_accept h.automaton hi hcomplete hfile heof.1
    heof.2 s hs
  refine ⟨hsound, fun parts hmem => ?_⟩
  rcases hparts parts hmem with hextra | htext | htext
  · exact .inl hextra
  · exact .inr (.inl (htext.mono fun _ => .inl))
  · exact .inr (.inl (htext.mono fun _ => .inr))

/-- The actions of a word are taken one after another, in the state a stack is in before
the first.  A state that accepts the text has nothing to do before it. -/
theorem after_actions_taken {head : Head} {lookahead : Lexeme} {acts : List Action}
    (h : Good a r) (hhead : r.headAt v = head) (hsolid : lookahead.Solid)
    (hacts : (∃ w, lookahead.word = some w ∧
      acts = (r.automaton.state head.state).actions w) ∨ acts = [])
    (taken : Option Unit × Option Nat × Bool) :
    After (forIn acts taken fun act taken => match act with
      | .shift => do
        if let some w := lookahead.word then
          if let some next ← goto head.state (.token w) then
            push v (some (Part.ofLexeme lookahead false)) next
        pure (.done (some (), taken.2))
      | .accept => do
        accept v lookahead
        pure (.done (some (), taken.2))
      | .reduce red => do
        if let some w ← reduce v red then pure (.yield (none, some w, true))
        else pure (.yield (none, taken.2.1, true))) r fun _ r' => Good a r' := by
  suffices hall : After _ r fun _ r' => Good r.automaton r' from
    hall.mono fun _ _ h' => h'.trans h.le
  obtain ⟨w, hword, rfl⟩ | rfl := hacts
  · by_cases haccept : Action.accept ∈ (r.automaton.state head.state).actions w
    · obtain ⟨rfl, ⟨rest, hrest⟩, i, hi, hcomplete, hfile⟩ :=
        h.sound.automaton.actions_of_accept haccept
      rw [hrest, List.forIn_cons]
      refine after_bind ((after_accept h.sound.good hword fun id _ => ?_).bind fun _ _ h' => h')
      exact h.sound.slices_accept hhead hi hcomplete hfile hword id
    · refine after_forIn_left (fun _ r' => Good r.automaton r' ∧ r'.headAt v = head)
        ⟨h.sound.good, hhead⟩ (fun _ _ h' => h'.1) ?_
      rintro act hact taken r₁ ⟨hgood₁, hself₁⟩
      cases act with
      | accept => exact absurd hact haccept
      | shift =>
        rw [hword]
        refine (after_goto hgood₁).bind ?_
        rintro next r₂ ⟨hgood₂, -, hheads₂, hleads⟩
        have hself₂ : r₂.headAt v = head := by rw [← hself₁, headAt, headAt, hheads₂]
        cases next with
        | none => exact hgood₂
        | some next =>
          refine (after_shift hgood₂ hsolid hword ?_).bind fun _ _ h' => h'
          rw [hself₂]
          exact hleads next rfl
      | reduce red =>
        obtain ⟨i, hi, hends⟩ := State.reduce_mem_actions hact
        have hi₁ : i ∈ (r₁.automaton.state (r₁.headAt v).node.mark.state).complete := by
          rw [hself₁]
          exact hgood₁.mem_complete h.sound.automaton hi
        refine (after_reduce hgood₁.sound hends hi₁).bind ?_
        rintro made r₂ ⟨hgood₂, -, hself₂⟩
        split <;> exact ⟨hgood₂.trans hgood₁.le, hself₂.trans hself₁⟩
  · exact h.sound.good

/-- A stack is taken over the next word. -/
theorem after_advance (h : Good a r) : After (advance v) r fun _ r' => Good a r' := by
  unfold advance
  refine after_bind (after_head (after_get ?_))
  extract_lets -underBinder automaton words lookahead
  have hsolid : lookahead.Solid := Lexer.next_solid _ _
  clear_value lookahead
  split
  · rename_i hcomment
    exact (after_comment h hsolid hcomment).bind fun _ _ h' => after_pure h'
  · refine (after_forIn_range (fun s r' => Good a r' ∧ s.2.Solid) ⟨h, hsolid⟩ ?_).bind ?_
    · rintro turn ⟨done, lookahead⟩ r₁ ⟨hgood₁, hsolid₁⟩
      refine after_bind (after_head ?_)
      dsimp only at hsolid₁
      generalize hhead : r₁.headAt v = head
      extract_lets -underBinder word turned
      have hturned : ∀ acts, (∃ w, word = some w ∧
          acts = (r₁.automaton.state head.state).actions w) ∨ acts = [] →
          After (turned acts) r₁ fun s r' => Good a r' ∧ s.value.2.Solid := by
        intro acts hacts
        refine (after_actions_taken hgood₁ hhead hsolid₁ hacts _).bind ?_
        rintro ⟨ended, last, reduced⟩ r₂ hgood₂
        dsimp only
        split
        · exact ⟨hgood₂, hsolid₁⟩
        · split
          · exact (after_replaceHead hgood₂).bind fun _ _ h' => ⟨h', hsolid₁⟩
          · split
            · exact (after_setStatus hgood₂).bind fun _ _ h' => ⟨h', hsolid₁⟩
            · refine after_bind (after_actions ?_)
              split
              · -- a keyword that leads nowhere is read again, as a name
                rename_i hkeyword
                simp only [Bool.and_eq_true, and_assoc] at hkeyword
                exact ⟨hgood₂, hsolid₁.of_keyword hkeyword.1 rfl rfl⟩
              · split
                · exact (after_recover hgood₂).bind fun _ _ h' => ⟨h', hsolid₁⟩
                · exact (after_setStatus hgood₂).bind fun _ _ h' => ⟨h', hsolid₁⟩
      clear_value word turned
      split
      · exact after_bind (after_actions (hturned _ (.inl ⟨_, rfl, rfl⟩)))
      · exact hturned [] (.inr rfl)
    · rintro ⟨done, lookahead⟩ r₁ ⟨hgood₁, -⟩
      dsimp only
      split <;> exact hgood₁

/-! ## Rounds -/

/-- Only the first stacks are kept. -/
theorem Good.firstHeads (h : Good a r) (n : Nat) :
    Good a { r with heads := r.heads.extract 0 n } := by
  refine ⟨⟨h.sound.automaton, ?_, h.sound.finished⟩, h.le⟩
  intro head hhead
  obtain ⟨i, hi, rfl⟩ := Array.mem_iff_getElem.mp hhead
  rw [Array.getElem_extract]
  exact h.sound.heads _ (Array.getElem_mem _)

/-- Two stacks change places. -/
theorem after_swap {β : Type} {i j : Nat} {m : Step β} {Q : β → Reader → Prop} (h : Good a r)
    (hm : ∀ r', Good a r' → After m r' Q) :
    After (do
      modifyHead i fun _ => r.headAt j
      modifyHead j fun _ => r.headAt i
      m) r Q := by
  have hi := h.sound.headAt i
  refine (after_modifyHead h (h.sound.headAt j)).bind ?_
  rintro - r₁ ⟨hgood₁, hautomaton₁, -⟩
  rw [← hautomaton₁] at hi
  exact (after_modifyHead hgood₁ hi).bind fun _ r₂ hgood₂ => hm r₂ hgood₂.1

/-- Stacks are dropped and joined, and the best one is mended. -/
theorem after_condense (h : Good a r) : After condense r fun _ r' => Good a r' := by
  unfold condense
  refine (after_forIn_range (fun _ r' => Good a r') h ?_).bind ?_
  · rintro turn ⟨least, i⟩ r₁ hgood₁
    refine after_bind (after_headCount ?_)
    split
    · exact hgood₁
    · refine after_bind (after_head ?_)
      split
      · exact (after_removeHead hgood₁).bind fun _ _ h' => h'.1
      · extract_lets -underBinder rank compared
        have hcompared : ∀ least, After (compared () least) r₁
            fun s r' => Good a r' := by
          intro least
          dsimp only [compared]
          refine (after_forIn_range (fun _ r' => Good a r') hgood₁ ?_).bind ?_
          · rintro turn ⟨i, j, stay⟩ r₂ hgood₂
            dsimp only
            split
            · exact hgood₂
            · refine after_bind (after_head (after_bind (after_head ?_)))
              have hmerge : ∀ yes no : ForInStep (Nat × Nat × Bool), After (do
                  if ← merge j i then pure yes else pure no) r₂ fun _ r' => Good a r' := by
                intro yes no
                refine (after_merge hgood₂).bind ?_
                rintro merged r₃ ⟨hgood₃, -⟩
                split <;> exact hgood₃
              split
              · exact (after_removeHead hgood₂).bind fun _ _ h' => h'.1
              · exact hmerge _ _
              · exact hmerge _ _
              · refine (after_merge hgood₂).bind ?_
                rintro merged r₃ ⟨hgood₃, -⟩
                split
                · exact hgood₃
                · refine after_bind (after_head (after_bind (after_head ?_)))
                  exact after_swap hgood₃ fun _ h' => h'
              · exact (after_removeHead hgood₂).bind fun _ _ h' => h'.1
          · rintro ⟨i, j, stay⟩ r₂ hgood₂
            dsimp only
            split <;> exact hgood₂
        clear_value compared
        split <;> exact hcompared _
  · rintro ⟨least, i⟩ r₁ hgood₁
    refine after_bind (after_modify ?_)
    refine after_bind (after_headCount ?_)
    refine (after_forIn_range (fun _ r' => Good a r') (hgood₁.firstHeads maxHeads) ?_).bind
      fun _ _ h' => h'
    rintro turn ⟨least, running, v⟩ r₂ hgood₂
    refine after_bind (after_head ?_)
    dsimp only
    split
    · refine after_get ?_
      split
      · refine (after_setStatus hgood₂).bind fun _ r₃ hgood₃ => ?_
        exact (after_mend hgood₃).bind fun _ _ h' => h'
      · exact (after_removeHead hgood₂).bind fun _ _ h' => h'.1
    · exact hgood₂

/-- Every stack goes on. -/
theorem after_round {last fuel : Nat} (h : Good a r) :
    After (round last fuel) r fun _ r' => Good a r' := by
  unfold round
  refine (after_forIn_range (fun _ r' => Good a r') h ?_).bind fun _ _ h' => h'
  intro v last r₁ hgood₁
  refine after_bind (after_headCount ?_)
  split
  · exact hgood₁
  · refine (after_forIn_range (fun _ r' => Good a r') hgood₁ ?_).bind fun _ _ h' => h'
    intro turn last r₂ hgood₂
    refine after_bind (after_head ?_)
    split
    · exact hgood₂
    · refine (after_advance hgood₂).bind fun _ r₃ hgood₃ => ?_
      refine after_bind (after_head ?_)
      dsimp only
      split <;> exact hgood₃

theorem after_rounds {fuel last width : Nat} (h : Good a r) :
    After (rounds fuel last width) r fun _ r' => Good a r' := by
  induction fuel generalizing last r with
  | zero => exact h
  | succ fuel ih =>
    unfold rounds
    refine (after_round h).bind fun last r₁ hgood₁ => ?_
    refine after_bind (after_headCount ?_)
    refine (after_condense hgood₁).bind fun least r₂ hgood₂ => ?_
    split
    · exact hgood₂
    · refine after_get ?_
      split
      · split
        · exact hgood₂
        · exact ih hgood₂
      · exact ih hgood₂

end Reader

/-- What a reader finds is a faulty tree, or a program that follows the grammar. -/
theorem Reader.read_follows {text : String} {t : Tree} (h : Reader.read text = some t) :
    t.isFaulty = true ∨ ∃ parts, t = .node .program parts ∧ IsFile parts := by
  unfold Reader.read at h
  have hstart : Reader.Sound
      { automaton := Automaton.initial
        heads := #[{ node := Node.base (Cursor.ofString text) }] } := by
    refine ⟨Automaton.sound_initial, fun head hhead => ?_, fun p hp => by cases hp⟩
    obtain rfl := by simpa using hhead
    exact Node.Sound.base _
  have hend : After (rounds (4 * text.length + 64) 0 (4 * text.length + 64)) _ _ :=
    after_rounds hstart.good
  obtain ⟨p, hp, ht⟩ := Option.bind_eq_some_iff.mp h
  obtain ⟨u, hu, hfinished⟩ := hend.sound.finished p hp
  rw [hu] at ht
  obtain rfl := Option.some.inj ht
  exact hfinished

/-- The parts of a text: one fault, those of a program, or a single tree. -/
theorem SyntaxTree.parts_ofText (text : String) :
    (SyntaxTree.ofText text).parts = (SyntaxTree.fault text).parts ∨
      ∃ t, Reader.read text = some t ∧
        (t = .node .program (SyntaxTree.ofText text).parts ∨
          (∀ inner, t ≠ .node .program inner) ∧ (SyntaxTree.ofText text).parts = [t]) := by
  unfold SyntaxTree.ofText
  cases Reader.read text with
  | none => exact .inl rfl
  | some t =>
    dsimp only
    split
    · rename_i parts
      split
      · exact .inr ⟨_, rfl, .inl rfl⟩
      · exact .inl rfl
    · rename_i hprogram
      split
      · exact .inr ⟨_, rfl, .inr ⟨hprogram, rfl⟩⟩
      · exact .inl rfl

/-- The parts of a text without faults are those of a program that follows the
grammar. -/
theorem SyntaxTree.isFile {text : String} (h : (SyntaxTree.ofText text).firstFault? = none) :
    Reader.IsFile (SyntaxTree.ofText text).parts := by
  have hsound : Tree.anyFaulty (SyntaxTree.ofText text).parts = false :=
    Tree.anyFaulty_of_firstFaultOf? _ h
  rcases SyntaxTree.parts_ofText text with hfault | ⟨t, hread, hprogram | ⟨hother, hparts⟩⟩
  · rw [hfault] at hsound
    cases hsound
  · rcases Reader.read_follows hread with hfaulty | ⟨parts, ht, hfile⟩
    · rw [hprogram] at hfaulty
      rw [show Tree.anyFaulty _ = true from hfaulty] at hsound
      cases hsound
    · rw [hprogram] at ht
      injection ht with _ hparts
      exact hparts ▸ hfile
  · rcases Reader.read_follows hread with hfaulty | ⟨parts, ht, -⟩
    · rw [hparts, Tree.anyFaulty_cons, hfaulty] at hsound
      cases hsound
    · exact absurd ht (hother parts)

/-- Every phrase of a file follows the grammar. -/
theorem Reader.IsFile.derived {parts : List Tree} (h : Reader.IsFile parts) :
    Tree.EveryOf Phrase.Derived parts := by
  obtain ⟨before, inner, behind, rfl, hinner, hbefore, hbehind⟩ := h
  have hbetween : ∀ t, Between [t] → t.Every Phrase.Derived := by
    intro t ht
    cases ht with
    | comment _ _ => trivial
    | fault _ => trivial
  rw [Tree.everyOf_iff]
  intro t ht
  rcases List.mem_append.mp ht with ht | ht
  · rcases List.mem_append.mp ht with ht | ht
    · exact hbetween t (hbefore t ht)
    · have hevery := Reads.every hinner
      exact Tree.everyOf_iff.mp hevery.1.2 t ht
  · exact hbetween t (hbehind t ht)

end SourceShelf.Java
