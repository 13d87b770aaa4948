import SourceShelf.Java.Lexer

/-!
# Words have a length

What `Lexer.next` finds is a word of at least one character, the end of the text,
or junk.  Only a word can be spelled like a keyword.
-/

namespace SourceShelf.Java

/-- A word of at least one character, the end of the text, or junk. -/
def Lexeme.Solid (l : Lexeme) : Prop :=
  l.start.place.chars < l.stop.place.chars ∨
    (l.word = none ∨ l.word = some .endOfFile) ∧ l.keyword = false

theorem Lexeme.Solid.lt_of_word {l : Lexeme} {w : Token} (h : l.Solid) (hword : l.word = some w)
    (hend : w ≠ .endOfFile) : l.start.place.chars < l.stop.place.chars := by
  rcases h with hlt | ⟨hnone | heof, -⟩
  · exact hlt
  · rw [hword] at hnone
    cases hnone
  · rw [hword] at heof
    exact absurd (Option.some.inj heof) hend

/-- A keyword is a word of at least one character, whichever word it is read as. -/
theorem Lexeme.Solid.of_keyword {l l' : Lexeme} (h : l.Solid) (hkeyword : l.keyword = true)
    (hstart : l'.start = l.start) (hstop : l'.stop = l.stop) : l'.Solid := by
  left
  rw [hstart, hstop]
  exact h.resolve_right fun hno => Bool.noConfusion (hno.2.symm.trans hkeyword)

theorem Cursor.chars_lt_advance {c : Cursor} {n : Nat} (hn : 0 < n) (hrest : c.rest ≠ []) :
    c.place.chars < (c.advance n).place.chars := by
  have hpos : 0 < c.rest.length := List.length_pos_iff.mpr hrest
  rw [Cursor.advance_eq]
  show _ < (c.place.after (c.rest.take n)).chars
  rw [Place.chars_after, List.length_take]
  omega

namespace Lexer

theorem longest_pos {found : List (Token × Nat)} {w : Token × Nat} (h : longest found = some w) :
    0 < w.2 := by
  have hfold : ∀ b ∈ longest found, 0 < b.2 := by
    refine List.foldlRecOn (motive := fun best : Option (Token × Nat) => ∀ b ∈ best, 0 < b.2)
      found _ ?_ ?_
    · exact fun _ hb => nomatch hb
    · intro best hbest w _ b hb
      split at hb
      · split at hb
        · cases hb
        · obtain rfl := Option.some.inj hb
          omega
      · have hb' := hbest _ rfl
        split at hb
        · obtain rfl := Option.some.inj hb
          omega
        · obtain rfl := Option.some.inj hb
          exact hb'
  exact hfold w h

theorem insideString_pos {set : TokenSet} {cs : List Char} {w : Token × Nat}
    (h : insideString set cs = some w) : 0 < w.2 ∧ cs ≠ [] := by
  unfold insideString at h
  split at h
  · split at h
    · obtain rfl := Option.some.inj h
      exact ⟨Nat.two_pos, List.cons_ne_nil _ _⟩
    · split at h
      · split at h
        · obtain rfl := Option.some.inj h
          exact ⟨Nat.two_pos, List.cons_ne_nil _ _⟩
        · cases h
      · rename_i n hn
        split at h
        · obtain rfl := Option.some.inj h
          exact ⟨Nat.two_pos, List.cons_ne_nil _ _⟩
        · obtain rfl := Option.some.inj h
          exact ⟨Nat.pos_of_ne_zero hn, List.cons_ne_nil _ _⟩
    · split at h
      · rename_i hplain
        obtain ⟨-, hplain⟩ := Bool.and_eq_true_iff.mp hplain
        obtain rfl := Option.some.inj h
        refine ⟨?_, List.cons_ne_nil _ _⟩
        show 0 < (List.takeWhile isPlain (_ :: _)).length
        rw [List.takeWhile_cons_of_pos hplain]
        exact Nat.succ_pos _
      · cases h
    · cases h
  · cases h

theorem lexeme_solid (set : TokenSet) {start : Cursor} {w : Token × Nat} (hw : 0 < w.2)
    (hrest : start.rest ≠ []) : (lexeme set start w).Solid := by
  left
  have hlt := Cursor.chars_lt_advance hw hrest
  unfold lexeme
  dsimp only
  split
  · split <;> exact hlt
  · exact hlt

/-- What comes next is a word of at least one character, the end of the text, or
junk. -/
theorem next_solid (set : TokenSet) (c : Cursor) : (next set c).Solid := by
  unfold next
  split
  · rename_i w hw
    obtain ⟨hpos, hrest⟩ := insideString_pos hw
    exact lexeme_solid set hpos hrest
  · dsimp only
    split
    · exact .inr ⟨.inr rfl, rfl⟩
    · rename_i hend
      have hrest : (skipBlanks c).rest ≠ [] := by
        intro hnil
        exact hend (List.isEmpty_iff.mpr hnil)
      split
      · rename_i w hw
        exact lexeme_solid set (longest_pos hw) hrest
      · split
        · rename_i w hw
          exact lexeme_solid set (longest_pos hw) hrest
        · exact .inr ⟨.inl rfl, rfl⟩

end Lexer

end SourceShelf.Java
