import Mathlib
import SourceShelf.Proofs.Java.SingleStack

/-!
# Words outside strings

Outside strings only one word may stand at a place, `onlyWord?`; where it is allowed, it
is the one that is found (`Lexer.next_of_onlyWord?`).  A comment is found wherever it stands
(`Lexer.next_of_comment?`).  A reader with one stack that has read no quote takes a text word
by word so (`Reader.ReadsTo.take`, `Reader.ReadsTo.put`), up to its end
(`Reader.ReadsTo.finish`).
-/

namespace SourceShelf.Java

namespace Lexer

variable {set : TokenSet} {cs : List Char} {c : Cursor} {t : Token} {n : Nat}

/-- A word that is longer than all others is the longest one. -/
theorem longest_of_forall {found : List (Token × Nat)} {w : Token × Nat} (hw : w ∈ found)
    (hpos : 0 < w.2) (h : ∀ x ∈ found, x = w ∨ x.2 < w.2) : longest found = some w := by
  -- the step that picks the longest word, by what it does with none and with one
  have hfold (step : Option (Token × Nat) → Token × Nat → Option (Token × Nat))
      (hnone : ∀ x, step none x = if x.2 = 0 then none else some x)
      (hsome : ∀ b x, step (some b) x = if b.2 < x.2 then some x else some b) :
      ∀ (l : List (Token × Nat)) (best : Option (Token × Nat)),
        (∀ x ∈ l, x = w ∨ x.2 < w.2) → (∀ b, best = some b → b = w ∨ b.2 < w.2) →
        (w ∈ l ∨ best = some w) → l.foldl step best = some w := by
    intro l
    induction l with
    | nil => exact fun best _ _ hin => hin.resolve_left List.not_mem_nil
    | cons x l ih =>
      intro best hl hbest hin
      obtain ⟨hx, hl⟩ := List.forall_mem_cons.mp hl
      rw [List.foldl_cons]
      refine ih _ hl ?_ ?_
      · intro b hb
        cases best with
        | none =>
          rw [hnone] at hb
          split at hb
          · cases hb
          · exact Option.some.inj hb ▸ hx
        | some b' =>
          rw [hsome] at hb
          split at hb
          · exact Option.some.inj hb ▸ hx
          · exact hbest b hb
      · rcases hin with hmem | rfl
        · rcases List.mem_cons.mp hmem with rfl | hmem
          · -- the word itself takes the place of any other one
            right
            cases best with
            | none => rw [hnone, if_neg (Nat.ne_of_gt hpos)]
            | some b =>
              rw [hsome]
              split
              · rfl
              · exact congrArg some ((hbest b rfl).resolve_right ‹_›)
          · exact .inl hmem
        · right
          rw [hsome, if_neg]
          rcases hx with rfl | hlt <;> omega
  exact hfold _ (fun _ => rfl) (fun _ _ => rfl) found none h (fun b hb => by cases hb) (.inl hw)

theorem longest_of_filter {found : List (Token × Nat)} {w : Token × Nat}
    (h : found.filter (0 < ·.2) = [w]) : longest found = some w := by
  obtain ⟨hw, hpos⟩ := List.mem_filter.mp (h ▸ List.mem_singleton_self w :
    w ∈ found.filter (0 < ·.2))
  have hpos := of_decide_eq_true hpos
  refine longest_of_forall hw hpos fun x hx => ?_
  rcases Nat.eq_zero_or_pos x.2 with hzero | hlong
  · exact .inr (hzero ▸ hpos)
  · have hmem : x ∈ found.filter (0 < ·.2) := List.mem_filter.mpr ⟨hx, decide_eq_true hlong⟩
    rw [h] at hmem
    exact .inl (List.mem_singleton.mp hmem)

/-- The words at the start of the characters, outside strings. -/
def wordsAt (cs : List Char) : List (Token × Nat) :=
  (classes .empty cs ++ signsAt cs).filter (0 < ·.2)

/-- The word at the start of the characters, if there is just one, and its length. -/
def onlyWord? (cs : List Char) : Option (Token × Nat) :=
  match wordsAt cs with
  | [(t, n)] => some (if t = .identifier then (keyword? (cs.take n)).getD .identifier else t, n)
  | _ => none

/-- The set has no word that only stands in strings. -/
def Plain (set : TokenSet) : Prop := ∀ t : Token, t.isStringText = true → set.contains t = false

theorem classes_of_plain (h : Plain set) : classes set cs = classes .empty cs := by
  unfold classes
  rw [h .blockFragment rfl, TokenSet.contains_empty]

theorem insideString_of_plain (h : Plain set) : insideString set cs = none := by
  unfold insideString
  rw [h .fragment rfl, h .blockEscape rfl]
  rfl

theorem mem_keywords_of_keyword? {k : Token} (h : keyword? cs = some k) : k ∈ Token.keywords := by
  obtain ⟨w, hw, rfl⟩ := Option.map_eq_some_iff.mp h
  obtain ⟨k, hk, hspelling⟩ := List.mem_filterMap.mp (List.mem_of_find?_eq_some hw)
  obtain ⟨s, -, rfl⟩ := Option.map_eq_some_iff.mp hspelling
  exact hk

/-- A word that alone stands at a place is found if it is allowed. -/
theorem next_of_onlyWord? (h : Plain set) (hword : onlyWord? (skipBlanks c).rest = some (t, n))
    (ht : set.contains t = true) :
    (next set c).word = some t ∧ (next set c).start = skipBlanks c ∧
      (next set c).stop = (skipBlanks c).advance n := by
  generalize hcs : (skipBlanks c).rest = cs at hword
  unfold onlyWord? at hword
  split at hword
  · rename_i s m hwords
    obtain ⟨hts, rfl⟩ := Prod.mk.inj (Option.some.inj hword)
    have hallowed : allowed set cs = some (s, m) := by
      refine longest_of_filter ?_
      rw [List.filter_filter, List.filter_congr fun w _ => Bool.and_comm _ _,
        ← List.filter_filter, classes_of_plain h]
      show List.filter _ (wordsAt cs) = _
      rw [hwords, List.filter_cons_of_pos, List.filter_nil]
      dsimp only
      split
      · rename_i hs
        rw [if_pos hs] at hts
        rw [allowsIdentifier, Bool.or_eq_true, List.any_eq_true]
        cases hkeyword : keyword? (cs.take m) with
        | none =>
          obtain rfl : .identifier = t := by rwa [hkeyword] at hts
          exact .inl ht
        | some k =>
          obtain rfl : k = t := by rwa [hkeyword] at hts
          exact .inr ⟨k, mem_keywords_of_keyword? hkeyword, ht⟩
      · rename_i hs
        rw [if_neg hs] at hts
        rw [hts, ht, Bool.or_true]
    have hend : (skipBlanks c).atEnd = false := by
      cases cs with
      | nil =>
        have hnone : wordsAt [] = [] := by decide
        rw [hnone] at hwords
        cases hwords
      | cons x xs => rw [Cursor.atEnd, hcs, List.isEmpty_cons]
    have hnext : next set c = lexeme set (skipBlanks c) (s, m) := by
      rw [next, insideString_of_plain h]
      simp only [hend, hcs, hallowed, Bool.false_eq_true, if_false]
    rw [hnext, lexeme, hcs]
    dsimp only
    split
    · rename_i hs
      rw [if_pos hs] at hts
      cases hkeyword : keyword? (cs.take m) with
      | none =>
        rw [hkeyword] at hts
        exact ⟨congrArg some hts, rfl, rfl⟩
      | some k =>
        rw [hkeyword] at hts
        obtain rfl : k = t := hts
        simp [ht]
    · rename_i hs
      rw [if_neg hs] at hts
      exact ⟨congrArg some hts, rfl, rfl⟩
  · cases hword

/-- The length of the block comment at the start of the characters, if it is the longest word. -/
def comment? (cs : List Char) : Option Nat :=
  let n := blockCommentLength cs
  if 0 < n && (classes .empty cs ++ signsAt cs).all fun w => w = (.blockComment, n) || w.2 < n then
    some n
  else none

/-- A comment is found in every state. -/
theorem next_of_comment? (h : Plain set) (hcomment : comment? (skipBlanks c).rest = some n) :
    (next set c).word = some .blockComment ∧ (next set c).start = skipBlanks c ∧
      (next set c).stop = (skipBlanks c).advance n := by
  generalize hcs : (skipBlanks c).rest = cs at hcomment
  unfold comment? at hcomment
  dsimp only at hcomment
  split at hcomment
  next hboth =>
    obtain rfl := Option.some.inj hcomment
    obtain ⟨hpos, hall⟩ := Bool.and_eq_true_iff.mp hboth
    have hpos := of_decide_eq_true hpos
    have hallowed : allowed set cs = some (.blockComment, blockCommentLength cs) := by
      refine longest_of_forall (List.mem_filter.mpr ⟨?_, rfl⟩) hpos fun x hx => ?_
      · simp [classes]
      · have hx := (List.mem_filter.mp hx).1
        rw [classes_of_plain h] at hx
        simpa using List.all_eq_true.mp hall x hx
    have hend : (skipBlanks c).atEnd = false := by
      cases cs with
      | nil => exact absurd hpos (by decide)
      | cons x xs => rw [Cursor.atEnd, hcs, List.isEmpty_cons]
    have hnext : next set c =
        lexeme set (skipBlanks c) (.blockComment, blockCommentLength cs) := by
      rw [next, insideString_of_plain h]
      simp only [hend, hcs, hallowed, Bool.false_eq_true, if_false]
    rw [hnext]
    exact ⟨rfl, rfl, rfl⟩
  next => cases hcomment

/-- Behind the last word comes the end of the text. -/
theorem next_of_atEnd (h : Plain set) (hend : (skipBlanks c).atEnd = true) :
    (next set c).word = some .endOfFile := by
  rw [next, insideString_of_plain h]
  simp only [hend, if_true]

end Lexer

namespace Reader

variable {es es' : List Entry} {trees : List Tree} {c : Cursor} {t : Token} {k n : Nat}

/-- One word alone stands behind a place, from `start` up to `stop`. -/
structure Stands (c : Cursor) (t : Token) (start stop : Cursor) : Prop where
  blanks : Lexer.skipBlanks c = start
  word : ∃ size, Lexer.onlyWord? start.rest = some (t, size) ∧ start.advance size = stop
  noComment : t.isComment = false
  noEnd : t ≠ .endOfFile ∧ t.ctorIdx < Token.count
  after : c.place.bytes < stop.place.bytes

theorem plain_words (hes : ∀ e ∈ es, e.symbol.isQuote = false) :
    Lexer.Plain (stateOf (symbolsOf es)).words := fun _ ht =>
  not_contains_words (fun x hx => by
    obtain ⟨e, he, rfl⟩ := List.mem_map.mp hx
    exact hes e he) ht

/-- A word at which phrases end, or which is taken, is allowed. -/
theorem Turns.contains_words (h : Turns t k es es') (ht : t.ctorIdx < Token.count)
    (htaken : Taken t (symbolsOf es')) : (stateOf (symbolsOf es)).words.contains t = true := by
  refine contains_words_of_actions ht ?_
  cases h with
  | nil =>
    rw [htaken.action]
    exact List.cons_ne_nil _ _
  | cons hturn _ =>
    obtain ⟨-, -, haction, -⟩ := hturn
    rw [haction]
    exact List.cons_ne_nil _ _

/-- The next word is taken, after the phrases that end at it. -/
theorem ReadsTo.take {start stop : Cursor} (h : Stands c t start stop)
    (hes : ∀ e ∈ es, e.symbol.isQuote = false) (hturns : Turns t k es es') (hk : k < 1024)
    (htaken : Taken t (symbolsOf es'))
    (hrest : ReadsTo trees n
      (⟨.token t, [.leaf t start.place.chars stop.place.chars], []⟩ :: es') stop) :
    ReadsTo trees (n + 1) es c := by
  obtain ⟨rfl, ⟨size, hword, rfl⟩, hcomment, hend, hon⟩ := h
  obtain ⟨hfound, hstart, hstop⟩ :=
    Lexer.next_of_onlyWord? (plain_words hes) hword (hturns.contains_words hend.2 htaken)
  rw [← hstop, ← hstart] at hrest
  rw [← hstop] at hon
  exact .shift hfound hcomment hend.1 hon hturns hk htaken.action htaken.behind hrest

/-- A comment is put behind what was read. -/
theorem ReadsTo.put {e : Entry} {start : Cursor} (hblanks : Lexer.skipBlanks c = start)
    {size : Nat} (hcomment : Lexer.comment? start.rest = some size)
    (hon : c.place.bytes < (start.advance size).place.bytes)
    (hes : ∀ e' ∈ e :: es, e'.symbol.isQuote = false)
    (hrest : ReadsTo trees n ({ e with comments := e.comments ++
      [.leaf .blockComment start.place.chars (start.advance size).place.chars] } :: es)
      (start.advance size)) : ReadsTo trees (n + 1) (e :: es) c := by
  subst hblanks
  obtain ⟨hfound, hstart, hstop⟩ := Lexer.next_of_comment? (plain_words hes) hcomment
  rw [← hstop, ← hstart] at hrest
  rw [← hstop] at hon
  exact .comment hfound rfl hon hrest

/-- The end of the text is reached, and what is left ends there. -/
theorem ReadsTo.finish (hes : ∀ e ∈ es, e.symbol.isQuote = false)
    (hend : (Lexer.skipBlanks c).atEnd = true)
    (hturns : Turns .endOfFile k es [⟨.phrase .program, [.node .program trees], []⟩])
    (hk : k < 1024)
    (haction : (stateOf [.phrase .program]).actions .endOfFile = [.accept]) :
    ReadsTo trees 0 es c :=
  .accept (Lexer.next_of_atEnd (plain_words hes) hend) hturns hk haction

end Reader

end SourceShelf.Java
