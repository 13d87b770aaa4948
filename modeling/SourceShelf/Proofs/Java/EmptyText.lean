import SourceShelf.Java.Outline
import SourceShelf.Proofs.Java.States

/-!
# Reading an empty text

A text without a character is a program without statements: `parse_empty`.

The grammar part says what a reader may do before it has read anything.  At the
end of the text it can only end a program of no parts
(`State.actions_start`), and behind a program it can only accept
(`Automaton.goto_program`).  The other part runs the reader with these two
facts and no others, so it does not depend on the rest of the grammar.
-/

namespace SourceShelf.Java

namespace Symbol

theorem eq_endOfFile_of_index {x : Symbol} (h : x.index = (token .endOfFile).index) :
    x = token .endOfFile := by
  cases x with
  | token t => cases t <;> first | rfl | exact absurd h (by decide)
  | phrase p =>
    have hcount : (token .endOfFile).index < Token.count := by decide
    rw [← h, index] at hcount
    omega

theorem eq_program_of_index {x : Symbol} (h : x.index = (phrase .program).index) :
    x = phrase .program := by
  cases x with
  | token t => cases t <;> exact absurd h (by decide)
  | phrase p =>
    simp only [index, Nat.add_left_cancel_iff] at h
    rw [Phrase.ctorIdx_inj h]

end Symbol

/-! ## What a file is -/

namespace Form

/-- The one way to write a file: a program. -/
def file : Form := ofAlternative .file { steps := [{ symbol := .phrase .program }] }

/-- A file whose program has been read. -/
def fileRead : Form := file.withSteps []

/-- The one way to write a program: statements, or nothing. -/
def program : Form :=
  ofAlternative .program { steps := [{ symbol := .phrase .topLevelStatements, optional := true }] }

theorem starts_file : starts .file = [file] := rfl

theorem starts_program : starts .program = [program] := rfl

theorem ofPhrase_file : Forms.ofPhrase .file = [file, fileRead] := by
  decide

end Form

namespace Forms

theorem startsOf_file : forms.startsOf .file = #[number .file Form.file] := by
  rw [startsOf_eq, Form.starts_file]
  rfl

theorem startsOf_program : forms.startsOf .program = #[number .program Form.program] := by
  rw [startsOf_eq, Form.starts_program]
  rfl

theorem entry_file : forms.entry (number .file Form.file) = entryOf .file Form.file :=
  entry_number (by simp [Form.ofPhrase_file])

theorem entry_fileRead : forms.entry (number .file Form.fileRead) = entryOf .file Form.fileRead :=
  entry_number (by simp [Form.ofPhrase_file])

theorem entry_program :
    forms.entry (number .program Form.program) = entryOf .program Form.program :=
  entry_number (Form.mem_ofPhrase_of_mem_starts (by simp [Form.starts_program]))

theorem moves_file :
    (forms.entry (number .file Form.file)).moves =
      #[(.phrase .program, number .file Form.fileRead)] := by
  rw [entry_file]
  rfl

theorem moves_fileRead : (forms.entry (number .file Form.fileRead)).moves = #[] := by
  rw [entry_fileRead]
  rfl

end Forms

/-! ## The first two states -/

namespace State

/-- All items that end at a word make the same: that is what the reader does. -/
theorem actions_of_ending {s : State} {t : Token} {r : Reduction} {k : Int}
    (hbehind : s.behind (.token t) = [])
    (hsome : ∃ i ∈ s.complete, i.follow.contains t = true)
    (hall : ∀ i ∈ s.complete, i.follow.contains t = true → reductionOf i = r ∧
      (if i.taken = 0 then 0 else (forms.entry i.form).form.precedence) = k) :
    s.actions t = [if r.head = .file then .accept else .reduce r] := by
  have hending : s.ending t = s.complete.filter fun i => i.follow.contains t := by
    rw [ending]
    generalize hl : s.complete.filter (fun i => i.follow.contains t) = l
    have hlevel : ∀ i ∈ l,
        (if i.taken = 0 then 0 else (forms.entry i.form).form.precedence) = k := by
      intro i hi
      rw [← hl, List.mem_filter] at hi
      exact (hall i hi.1 hi.2).2
    have hmap : l.map (fun i => if i.taken = 0 then 0 else (forms.entry i.form).form.precedence) =
        List.replicate l.length k :=
      List.eq_replicate_iff.mpr ⟨by simp, by simpa using hlevel⟩
    dsimp only
    rw [hmap]
    cases l with
    | nil => rfl
    | cons i l =>
      have hmax : ∀ n, (List.replicate n k).foldl max k = k := by
        intro n
        induction n with
        | zero => rfl
        | succ n ih => rw [List.replicate_succ, List.foldl_cons, Int.max_self, ih]
      simp only [List.length_cons, List.replicate_succ, hmax]
      exact List.filter_eq_self.mpr fun i hi => by simpa using hlevel i hi
  have hmap : (s.ending t).map reductionOf = List.replicate (s.ending t).length r := by
    refine List.eq_replicate_iff.mpr ⟨by simp, fun r' hr' => ?_⟩
    obtain ⟨i, hi, rfl⟩ := List.mem_map.mp hr'
    rw [hending, List.mem_filter] at hi
    exact (hall i hi.1 hi.2).1
  have hlength : (s.ending t).length ≠ 0 := by
    obtain ⟨i, hi, ht⟩ := hsome
    have hmem : i ∈ s.ending t := by
      rw [hending]
      exact List.mem_filter.mpr ⟨hi, ht⟩
    exact Nat.pos_iff_ne_zero.mp (List.length_pos_of_mem hmem)
  obtain ⟨n, hn⟩ := Nat.exists_eq_succ_of_ne_zero hlength
  have hdups : ((s.ending t).map reductionOf).eraseDups = [r] := by
    rw [hmap, hn, List.replicate_succ, List.eraseDups_cons]
    simp
  rw [actions]
  simp [hbehind, hdups]

/-- What a program of no parts makes. -/
def emptyProgram : Reduction := { head := .program, taken := 0, preference := 0, shown := [] }

theorem startKernel_eq :
    Automaton.startKernel =
      [{ form := Forms.number .file Form.file, taken := 0, follow := .single .endOfFile }] := by
  rw [Automaton.startKernel, Forms.startsOf_file]
  rfl

/-- Every item of the first state starts a phrase. -/
theorem mem_items_startKernel {i : Item} (h : i ∈ items Automaton.startKernel) :
    ∃ p, i.form ∈ forms.startsOf p ∧ i.taken = 0 := by
  rcases List.mem_append.mp h with h | h
  · rw [startKernel_eq, List.mem_singleton] at h
    subst h
    exact ⟨.file, by simp [Forms.startsOf_file], rfl⟩
  · exact mem_predicted h

/-- Before anything has been read, the only thing to do at the end of the text
is to end an empty program. -/
theorem actions_start :
    (ofKernel Automaton.startKernel).actions .endOfFile = [.reduce emptyProgram] := by
  refine actions_of_ending (r := emptyProgram) (k := 0) ?_ ?_ ?_
  · rw [behind_ofKernel]
    have hnone : (items Automaton.startKernel).flatMap (Item.behind (.token .endOfFile)) = [] := by
      refine List.flatMap_eq_nil_iff.mpr fun i hi => ?_
      obtain ⟨p, hp, -⟩ := mem_items_startKernel hi
      rw [Item.behind, List.map_eq_nil_iff, List.filter_eq_nil_iff]
      intro m hm hindex
      exact (Forms.moves_symbol hp (by simpa using hm)).1
        (Symbol.eq_endOfFile_of_index (by simpa using hindex))
    rw [hnone]
    rfl
  · obtain ⟨follow, hfollow, ht⟩ := mem_predict (t := .endOfFile)
      (i := { form := Forms.number .file Form.file, taken := 0, follow := .single .endOfFile })
      Forms.moves_file (by rw [Forms.entry_fileRead]; rfl) (by simp)
    refine ⟨{ form := Forms.number .program Form.program, taken := 0, follow }, ?_, ht⟩
    rw [complete_ofKernel, List.mem_filter]
    refine ⟨List.mem_append_right _ (List.mem_flatMap.mpr ⟨(.program, follow), ?_, ?_⟩), ?_⟩
    · rw [startKernel_eq]
      exact hfollow
    · simp [Forms.startsOf_program]
    · dsimp only
      rw [Forms.entry_program]
      rfl
  · intro i hi _
    rw [complete_ofKernel, List.mem_filter] at hi
    obtain ⟨p, hp, htaken⟩ := mem_items_startKernel hi.1
    obtain rfl := Forms.eq_program_of_complete hp hi.2
    have hform : i.form = Forms.number .program Form.program := by
      simpa [Forms.startsOf_program] using hp
    refine ⟨?_, by rw [if_pos htaken]⟩
    rw [reductionOf, hform, Forms.entry_program, htaken]
    rfl

/-- Behind the program, only the end of the file is left to come. -/
theorem behind_program :
    ∃ follow : TokenSet, follow.contains .endOfFile = true ∧
      (ofKernel Automaton.startKernel).behind (.phrase .program) =
        [{ form := Forms.number .file Form.fileRead, taken := 1, follow }] := by
  have hfirst : Item.behind (.phrase .program)
      { form := Forms.number .file Form.file, taken := 0, follow := .single .endOfFile } =
        [{ form := Forms.number .file Form.fileRead, taken := 1,
           follow := .single .endOfFile }] := by
    simp [Item.behind, Forms.moves_file]
  have hrest : ∀ j ∈ (predicted Automaton.startKernel).flatMap (Item.behind (.phrase .program)),
      j.form = Forms.number .file Form.fileRead ∧ j.taken = 1 := by
    intro j hj
    obtain ⟨i, hi, hj⟩ := List.mem_flatMap.mp hj
    obtain ⟨p, hp, htaken⟩ := mem_predicted hi
    obtain ⟨m, hm, rfl⟩ := List.mem_map.mp hj
    obtain ⟨hm, hindex⟩ := List.mem_filter.mp hm
    obtain rfl := (Forms.moves_symbol hp (by simpa using hm)).2
      (Symbol.eq_program_of_index (by simpa using hindex))
    rw [Forms.startsOf_file, List.mem_toArray, List.mem_singleton] at hp
    rw [hp, Forms.moves_file, List.mem_singleton] at hm
    subst hm
    exact ⟨rfl, by rw [htaken]⟩
  obtain ⟨follow, hfold, hfollow⟩ := Item.foldl_insert
    (j := { form := Forms.number .file Form.fileRead, taken := 1, follow := .single .endOfFile })
    hrest
  refine ⟨follow, hfollow _ (by simp), ?_⟩
  rw [behind_ofKernel, items, List.flatMap_append, List.foldl_append]
  conv_lhs => rw [startKernel_eq]
  rw [List.flatMap_singleton, hfirst, ← startKernel_eq, ← hfold]
  rfl

/-- Behind the program a reader is done. -/
theorem actions_fileRead {i : Item} (hform : i.form = Forms.number .file Form.fileRead)
    (htaken : i.taken = 1) (h : i.follow.contains .endOfFile = true) :
    (ofKernel [i]).actions .endOfFile = [.accept] := by
  have hmoves : (forms.entry i.form).moves = #[] := by
    rw [hform, Forms.moves_fileRead]
  have hitems : items [i] = [i] := by
    rw [items, predicted, predict_of_moves_empty (by simpa using hmoves), List.flatMap_nil,
        List.append_nil]
  have hcomplete : (ofKernel [i]).complete = [i] := by
    rw [complete_ofKernel, hitems, List.filter_cons_of_pos, List.filter_nil]
    rw [hform, Forms.entry_fileRead]
    rfl
  refine actions_of_ending (r := { head := .file, taken := 1, preference := 0, shown := [] })
    (k := 0) ?_ ⟨i, by simp [hcomplete], h⟩ ?_
  · rw [behind_ofKernel, hitems, List.flatMap_singleton, Item.behind, hmoves]
    rfl
  · intro j hj _
    rw [hcomplete, List.mem_singleton] at hj
    subst hj
    rw [reductionOf, hform, Forms.entry_fileRead, htaken]
    exact ⟨rfl, rfl⟩

end State

namespace Automaton

/-- A way that was never taken leads to a state of its own, if there is none
with its items yet. -/
theorem goto_of_new {a : Automaton} {n : Nat} {x : Symbol} {i : Item} {kernel : List Item}
    (hlink : (a.links[n]?.bind (·[x.index]?)).join = none)
    (hbehind : (a.state n).behind x = i :: kernel)
    (hnew : ∀ s ∈ a.states, s.kernel ≠ i :: kernel) :
    ∃ a', a.goto n x = (a', some a.states.size) ∧
      a'.state a.states.size = State.ofKernel (i :: kernel) := by
  have hintern : a.intern (i :: kernel) =
      ({ states := a.states.push (State.ofKernel (i :: kernel))
         links := a.links.push (Array.replicate Symbol.count none) }, a.states.size) := by
    rw [intern, Array.findIdx?_eq_none_iff.mpr fun s hs => by simpa using hnew s hs]
  have hgoto : a.goto n x =
      ({ states := a.states.push (State.ofKernel (i :: kernel))
         links := (a.links.push (Array.replicate Symbol.count none)).modify n
           (·.setIfInBounds x.index (some a.states.size)) }, some a.states.size) := by
    rw [goto, hlink]
    simp only [hbehind, hintern]
  exact ⟨_, hgoto, by simp [state]⟩

theorem state_initial : initial.state 1 = State.ofKernel startKernel := rfl

/-- Behind the program the reader comes to a new state, in which it is done. -/
theorem goto_program :
    ∃ a, initial.goto 1 (.phrase .program) = (a, some 2) ∧
      (a.state 2).actions .endOfFile = [.accept] := by
  obtain ⟨follow, hfollow, hbehind⟩ := State.behind_program
  have hnew : ∀ s ∈ initial.states,
      s.kernel ≠ [{ form := Forms.number .file Form.fileRead, taken := 1, follow }] := by
    intro s hs
    have hs : s.kernel = [] ∨ s.kernel = startKernel := by
      simp only [initial, List.mem_toArray, List.mem_cons, List.not_mem_nil, or_false] at hs
      rcases hs with rfl | rfl
      · exact Or.inl rfl
      · exact Or.inr (State.kernel_ofKernel _)
    rcases hs with hs | hs
    · simp [hs]
    · simp [hs, State.startKernel_eq]
  obtain ⟨a, hgoto, hstate⟩ := goto_of_new (a := initial) (n := 1) (x := .phrase .program)
    (by simp [initial, Symbol.index_lt_count]) (by rw [state_initial, hbehind]) hnew
  have hsize : initial.states.size = 2 := rfl
  rw [hsize] at hgoto hstate
  refine ⟨a, hgoto, ?_⟩
  rw [hstate]
  exact State.actions_fileRead rfl rfl hfollow

end Automaton

/-! ## The run -/

namespace EmptyText

/-- The only place of the text. -/
def cursor : Cursor := ⟨Place.origin, []⟩

/-- The end of the text. -/
def endOfFile : Lexeme := { word := some .endOfFile, start := cursor, stop := cursor }

/-- The program of no parts. -/
def program : Part := Part.join (.symbol (.phrase .program)) [] 0 cursor []

/-- The stack with the program on it. -/
def withProgram : Node := (Node.base cursor).push 1 2 (some program)

/-- The stack with the end of the text on top. -/
def withEnd : Node := withProgram.push 2 Head.lost (some (Part.ofLexeme endOfFile true))

/-- The reader before its first step. -/
def start (a : Automaton) : Reader := { automaton := a, heads := #[{ node := Node.base cursor }] }

/-- The reader when its only stack has been taken as a reading. -/
def halted (a : Automaton) (whole : Part) : Reader where
  automaton := a
  heads := #[{ node := withEnd, status := .halted }]
  fresh := 3
  finished := some whole
  accepted := 1

theorem next_eq (set : TokenSet) : Lexer.next set cursor = endOfFile := by
  have hinside : Lexer.insideString set cursor.rest = none := by
    unfold Lexer.insideString
    split <;> rfl
  rw [Lexer.next, hinside]
  rfl

open Reader

variable {a a' : Automaton} {whole : Part}

theorem run_reduce (h : a.goto 1 (.phrase .program) = (a', some 2)) :
    (reduce 0 State.emptyProgram).run (start a) =
      pure (some 1, { automaton := a', fresh := 2,
                      heads := #[{ node := Node.base cursor }, { node := withProgram }] }) := by
  have hpop : (Node.base cursor).pop 0 = [(Node.base cursor, [[]])] := rfl
  have hstate : (Node.base cursor).mark.state = 1 := rfl
  have hsplit : splitExtras [] = ([], []) := rfl
  simp [start, reduce, headCount, head, goto, addHead, push, modifyHead, mergeBefore,
    State.emptyProgram, hpop, hstate, h, hsplit]
  rfl

theorem run_replaceHead :
    (replaceHead 1 0).run { automaton := a, fresh := 2,
                            heads := #[{ node := Node.base cursor }, { node := withProgram }] } =
      pure ((), { automaton := a, heads := #[{ node := withProgram }], fresh := 2 }) := by
  simp [replaceHead, head, modifyHead, removeHead]

theorem run_accept :
    ∃ whole, whole.trees = [.node .program []] ∧
      (accept 0 endOfFile).run { automaton := a, heads := #[{ node := withProgram }], fresh := 2 } =
        pure ((), halted a whole) := by
  have hpush : withProgram.push 2 Head.lost (some (Part.ofLexeme endOfFile true)) = withEnd := rfl
  have hpop : withEnd.popAll =
      [(Node.base cursor, [[program, Part.ofLexeme endOfFile true]])] := rfl
  have hextra : [Part.ofLexeme endOfFile true, program].takeWhile (·.extra) =
      [Part.ofLexeme endOfFile true] := rfl
  have hkind : program.kind = .symbol (.phrase .program) := rfl
  refine ⟨{ program with trees := [.node .program []], cost := 0, preference := 0 }, rfl, ?_⟩
  simp [accept, head, push, modifyHead, hpush, hpop, hextra, hkind]
  rfl

/-- The one step of the reader: it ends the program, and then accepts. -/
theorem run_advance (hstart : (a.state 1).actions .endOfFile = [.reduce State.emptyProgram])
    (hgoto : a.goto 1 (.phrase .program) = (a', some 2))
    (hdone : (a'.state 2).actions .endOfFile = [.accept]) :
    ∃ whole, whole.trees = [.node .program []] ∧
      (advance 0).run (start a) = pure ((), halted a' whole) := by
  obtain ⟨whole, htrees, haccept⟩ := run_accept (a := a')
  refine ⟨whole, htrees, ?_⟩
  have hheads : (start a).heads = #[{ node := Node.base cursor }] := rfl
  have hautomaton : (start a).automaton = a := rfl
  have hword : endOfFile.word = some .endOfFile := rfl
  have hcomment : Token.isComment .endOfFile = false := rfl
  have hsize : (Node.base cursor).mark.size = 0 := rfl
  have hcursor : (Node.base cursor).mark.cursor = cursor := rfl
  have hfirst : (Node.base cursor).mark.state = 1 := rfl
  have hsecond : withProgram.mark.state = 2 := rfl
  -- two turns of the loop are taken, of many that it may take
  have hturns : List.range' 0 1024 = 0 :: 1 :: List.range' 2 1022 := rfl
  simp [advance, head, actions, next_eq, hheads, hautomaton, hword, hcomment, hsize, hcursor,
    hfirst, hsecond, Head.state, hturns, hstart, run_reduce hgoto, run_replaceHead, hdone, haccept]

theorem run_round (h : (advance 0).run (start a) = pure ((), halted a' whole)) :
    (Reader.round 0 64).run (start a) = pure (0, halted a' whole) := by
  have hturns : List.range' 0 64 = 0 :: 1 :: List.range' 2 62 := rfl
  have hbefore : (start a).heads = #[{ node := Node.base cursor }] := rfl
  have hafter : (halted a' whole).heads = #[{ node := withEnd, status := .halted }] := rfl
  have hplace : withEnd.mark.cursor.place.bytes = 0 := rfl
  simp [Reader.round, headCount, head, hturns, h, hbefore, hafter, Head.isActive, Head.place,
    hplace]

theorem run_condense :
    condense.run (halted a whole) = pure (none, { halted a whole with heads := #[] }) := by
  have hturns : List.range' 0 200 = 0 :: 1 :: List.range' 2 198 := rfl
  have hheads : (halted a whole).heads = #[{ node := withEnd, status := .halted }] := rfl
  simp [condense, headCount, head, hturns, hheads, Head.isHalted, removeHead]

theorem run_rounds (fuel : Nat) (h : (advance 0).run (start a) = pure ((), halted a' whole)) :
    (rounds (fuel + 1) 0 64).run (start a) =
      pure ((), { halted a' whole with heads := #[] }) := by
  have hfinished : (halted a' whole).finished = some whole := rfl
  have hheads : (halted a' whole).heads = #[{ node := withEnd, status := .halted }] := rfl
  rw [rounds]
  simp [run_round h, headCount, hheads, run_condense, hfinished]

/-- The best reading of a text without a character is a program of no parts. -/
theorem read_eq : Reader.read "" = some (.node .program []) := by
  obtain ⟨a, hgoto, hdone⟩ := Automaton.goto_program
  have hstart : (Automaton.initial.state 1).actions .endOfFile = [.reduce State.emptyProgram] := by
    rw [Automaton.state_initial, State.actions_start]
  obtain ⟨whole, htrees, hadvance⟩ := run_advance hstart hgoto hdone
  have hrounds := run_rounds 63 hadvance
  have hcursor : Cursor.ofString "" = cursor := by simp [Cursor.ofString, cursor]
  rw [start] at hrounds
  rw [Reader.read]
  simp only [hcursor, String.length_empty, Nat.mul_zero, Nat.zero_add, hrounds]
  change (some whole).bind (·.trees.head?) = _
  simp [htrees]

end EmptyText

/-- A text without a character is a unit that declares nothing. -/
theorem parse_empty (path : Option String) (locals : Bool) :
    parse "" path locals = .ok { path := path } := by
  have hparts : (SyntaxTree.ofText "").parts = [] := by
    rw [SyntaxTree.ofText, EmptyText.read_eq]
    simp [Tree.leavesOf, Java.laidOut]
  rw [parse, SyntaxTree.read, SyntaxTree.firstFault?, hparts]
  rfl

end SourceShelf.Java
