import Mathlib
import SourceShelf.Proofs.Json.Objects

/-!
# Whole numbers are read as they were written

The reader takes the numeral of a whole number back, if no number could go on
behind it and if it has no more digits than the reader takes.

* `unsignedNumber_toDigits`: the digits.
* `value_toString`: a numeral, with or without a sign, whatever its length.
* `delimited_toString`: numerals of any length can be told from what follows them.
* `reads_toString`, `reads_null`: values that are read as they were written.
-/

namespace SourceShelf.Json

/-! ## Digits -/

/-- The digits of a whole number. -/
def digitCount (n : Int) : Nat := (Nat.toDigits 10 n.natAbs).length

theorem isDigit_of_mem_toDigits {n : Nat} {c : Char} (h : c ∈ Nat.toDigits 10 n) :
    c.isDigit = true :=
  Nat.isDigit_of_mem_toDigits (by decide) (by decide) h

/-- Only the numeral of zero starts with a zero. -/
theorem head?_toDigits {n : Nat} (h : 0 < n) : (Nat.toDigits 10 n).head? ≠ some '0' := by
  induction n using Nat.strongRecOn with
  | ind n ih =>
    rcases Nat.lt_or_ge n 10 with hsmall | hlarge
    · have hall : ∀ d < 10, 0 < d → some (Nat.digitChar d) ≠ some '0' := by decide
      rw [Nat.toDigits_of_lt_base hsmall]
      exact hall n hsmall h
    · rw [Nat.toDigits_of_base_le (by decide) hlarge, List.head?_append_of_ne_nil _
        Nat.toDigits_ne_nil]
      exact ih (n / 10) (by omega) (by omega)

theorem digitsValue_toDigits (n : Nat) : digitsValue (Nat.toDigits 10 n) = n := by
  have hvalue : digitsValue (Nat.toDigits 10 n) = Nat.ofDigitChars 10 (Nat.toDigits 10 n) 0 := by
    rw [Nat.ofDigitChars_eq_foldl]
    rfl
  rw [hvalue, Nat.ofDigitChars_ten_toDigits]

/-- All digits are taken, and nothing else. -/
theorem digits_append {ds rest : List Char} (hds : ∀ c ∈ ds, c.isDigit = true)
    (hrest : EndsNumber rest) : digits (ds ++ rest) = ds := by
  have hnone : rest.takeWhile Char.isDigit = [] := by
    cases rest with
    | nil => rfl
    | cons c cs => exact List.takeWhile_cons_of_neg (by simp [(endsNumber_cons c cs).mp hrest])
  rw [digits, List.takeWhile_append_of_pos hds, hnone, List.append_nil]

theorem fraction_of_endsNumber {rest : List Char} (h : EndsNumber rest) :
    fraction rest = ([], rest) := by
  cases rest with
  | nil => rfl
  | cons c cs =>
    obtain ⟨-, hpoint, -⟩ := (endsNumber_cons c cs).mp h
    unfold fraction
    split
    · rename_i heq
      exact absurd (List.cons.inj heq).1 hpoint
    · rfl

theorem exponent_of_endsNumber {rest : List Char} (h : EndsNumber rest) :
    exponent rest = (none, rest) := by
  cases rest with
  | nil => rfl
  | cons c cs =>
    obtain ⟨-, -, hsmall, hlarge⟩ := (endsNumber_cons c cs).mp h
    simp [exponent, hsmall, hlarge]

/-- The digits of a number are read as the number, or are too many. -/
theorem unsignedNumber_toDigits (negative : Bool) (n : Nat) {rest : List Char}
    (h : EndsNumber rest) :
    unsignedNumber negative (Nat.toDigits 10 n ++ rest) =
      some (if Decimal.maxDigits < (Nat.toDigits 10 n).length then
        .error ⟨.numeral (.tooLong (Nat.toDigits 10 n).length), Nat.toDigits 10 n ++ rest⟩
      else .ok (.int (if negative then -n else n), rest)) := by
  have hdrop : (Nat.toDigits 10 n ++ rest).drop (Nat.toDigits 10 n).length = rest :=
    List.drop_left
  unfold unsignedNumber
  extract_lets whole m
  have hw : whole = Nat.toDigits 10 n := by
    rcases Nat.eq_zero_or_pos n with rfl | hpos
    · rfl
    · unfold whole
      split
      · rename_i heq
        have hhead := head?_toDigits hpos
        rw [← List.head?_append_of_ne_nil _ Nat.toDigits_ne_nil, heq] at hhead
        exact absurd rfl hhead
      · exact digits_append (fun _ => isDigit_of_mem_toDigits) h
  clear_value whole
  subst hw
  have hne : ¬ (Nat.toDigits 10 n).isEmpty = true := by
    simp
  rw [if_neg hne, hdrop, fraction_of_endsNumber h]
  dsimp only
  rw [exponent_of_endsNumber h]
  dsimp only
  have hm : m = n := congrArg Int.ofNat (digitsValue_toDigits n)
  rw [if_pos (by decide), ← apply_ite some, hm]

/-! ## Numerals -/

/-- A numeral is made of digits, with a sign before them or not. -/
theorem toString_cases (n : Int) :
    n < 0 ∧ (toString n).toList = '-' :: Nat.toDigits 10 n.natAbs ∨
      0 ≤ n ∧ (toString n).toList = Nat.toDigits 10 n.natAbs := by
  rw [Int.toString_eq_repr, Int.repr_eq_if]
  by_cases hn : 0 ≤ n
  · have habs : n.toNat = n.natAbs := by omega
    refine .inr ⟨hn, ?_⟩
    rw [if_pos hn, Nat.toList_repr, habs]
  · have habs : (-n).toNat = n.natAbs := by omega
    refine .inl ⟨by omega, ?_⟩
    rw [if_neg hn, String.toList_append, Nat.toList_repr, habs]
    rfl

/-- What a numeral starts with. -/
theorem exists_toDigits (n : Nat) : ∃ c cs, Nat.toDigits 10 n = c :: cs ∧ c.isDigit = true := by
  rcases hds : Nat.toDigits 10 n with _ | ⟨c, cs⟩
  · exact absurd hds Nat.toDigits_ne_nil
  · exact ⟨c, cs, rfl, isDigit_of_mem_toDigits (hds ▸ List.mem_cons_self)⟩

theorem number_minus (cs : List Char) :
    number ('-' :: cs) = (unsignedNumber true cs).getD (.error ⟨.value, '-' :: cs⟩) := rfl

theorem number_of_ne_minus {c : Char} (hc : c ≠ '-') (cs : List Char) :
    number (c :: cs) = (unsignedNumber false (c :: cs)).getD (.error ⟨.value, c :: cs⟩) := by
  unfold number
  split
  rename_i heq
  split at heq
  · rename_i hcs
    exact absurd (List.cons.inj hcs).1 hc
  · cases heq
    rfl

/-- A numeral is read as its number, or has too many digits. -/
theorem number_toString (n : Int) {rest : List Char} (h : EndsNumber rest) :
    number ((toString n).toList ++ rest) =
      if Decimal.maxDigits < digitCount n then
        .error ⟨.numeral (.tooLong (digitCount n)), Nat.toDigits 10 n.natAbs ++ rest⟩
      else .ok (.int n, rest) := by
  rcases toString_cases n with ⟨hn, htext⟩ | ⟨hn, htext⟩
  · have habs : (-(n.natAbs : Int)) = n := by omega
    rw [htext, List.cons_append, number_minus, unsignedNumber_toDigits true _ h,
      Option.getD_some, if_pos rfl, habs]
    rfl
  · have habs : (n.natAbs : Int) = n := by omega
    have hunsigned := unsignedNumber_toDigits false n.natAbs h
    obtain ⟨c, cs, hds, hc⟩ := exists_toDigits n.natAbs
    have hminus : c ≠ '-' := by
      rintro rfl
      cases hc
    rw [htext, hds, List.cons_append, number_of_ne_minus hminus, ← List.cons_append, ← hds,
      hunsigned, Option.getD_some, if_neg Bool.false_ne_true, habs]
    rfl

/-- No word starts like a numeral. -/
theorem word?_toString (n : Int) (rest : List Char) :
    word? ((toString n).toList ++ rest) = none := by
  obtain ⟨c, cs, hds, hc⟩ := exists_toDigits n.natAbs
  have hne (d : Char) (hd : d.isDigit = false) : d ≠ c := by
    rintro rfl
    rw [hc] at hd
    cases hd
  rcases toString_cases n with ⟨-, htext⟩ | ⟨-, htext⟩
  · rw [htext, hds]
    simp [word?, words, hne 'I' rfl]
  · rw [htext, hds]
    simp [word?, words, hne 'n' rfl, hne 't' rfl, hne 'f' rfl, hne 'N' rfl, hne 'I' rfl,
      hne '-' rfl]

/-- Where a numeral stands, a number is read. -/
theorem value_toString (levels : Nat) (n : Int) (fuel : Nat) (rest : List Char) :
    value levels (fuel + 1) ((toString n).toList ++ rest) =
      number ((toString n).toList ++ rest) := by
  obtain ⟨c, cs, htext, hquote, hbrace, hbracket⟩ : ∃ c cs, (toString n).toList = c :: cs ∧
      c ≠ '"' ∧ c ≠ '\x7b' ∧ c ≠ '[' := by
    obtain ⟨c, cs, hds, hc⟩ := exists_toDigits n.natAbs
    rcases toString_cases n with ⟨-, htext⟩ | ⟨-, htext⟩
    · exact ⟨'-', _, htext, by decide⟩
    · refine ⟨c, cs, htext.trans hds, ?_, ?_, ?_⟩ <;> (rintro rfl; cases hc)
  have hword := word?_toString n rest
  rw [htext, List.cons_append] at hword ⊢
  simp [value, hword, hquote, hbrace, hbracket]

/-- A numeral can be told from what follows it. -/
theorem delimited_toString : Delimited fun n : Int => toString n := by
  have hdigits {m n : Nat} {rest rest' : List Char} (hrest : EndsNumber rest)
      (hrest' : EndsNumber rest') (h : Nat.toDigits 10 m ++ rest = Nat.toDigits 10 n ++ rest') :
      m = n ∧ rest = rest' := by
    have htaken := congrArg digits h
    rw [digits_append (fun _ => isDigit_of_mem_toDigits) hrest,
      digits_append (fun _ => isDigit_of_mem_toDigits) hrest'] at htaken
    have hvalue := congrArg digitsValue htaken
    rw [digitsValue_toDigits, digitsValue_toDigits] at hvalue
    subst hvalue
    exact ⟨rfl, List.append_cancel_left h⟩
  have hsign {n : Nat} {cs rest : List Char} : '-' :: cs ≠ Nat.toDigits 10 n ++ rest := by
    intro h
    obtain ⟨c, ds, hds, hc⟩ := exists_toDigits n
    rw [hds, List.cons_append, List.cons.injEq] at h
    obtain ⟨rfl, -⟩ := h
    cases hc
  intro m n rest rest' hrest hrest' h
  dsimp only at h
  rcases toString_cases m with ⟨hm, htext⟩ | ⟨hm, htext⟩ <;>
    rcases toString_cases n with ⟨hn, htext'⟩ | ⟨hn, htext'⟩ <;> rw [htext, htext'] at h
  · rw [List.cons_append, List.cons_append, List.cons.injEq] at h
    obtain ⟨habs, hrests⟩ := hdigits hrest hrest' h.2
    exact ⟨by omega, hrests⟩
  · exact absurd h hsign
  · exact absurd h.symm hsign
  · obtain ⟨habs, hrests⟩ := hdigits hrest hrest' h
    exact ⟨by omega, hrests⟩

/-! ## Values -/

theorem starts_toString (n : Int) : Starts (toString n).toList := by
  obtain ⟨c, cs, hds, hc⟩ := exists_toDigits n.natAbs
  have hspace : isSpace c = false := by
    rw [Bool.eq_false_iff]
    intro hspace
    simp only [isSpace, Bool.or_eq_true, decide_eq_true_eq] at hspace
    rcases hspace with ((rfl | rfl) | rfl) | rfl <;> cases hc
  rcases toString_cases n with ⟨-, htext⟩ | ⟨-, htext⟩
  · exact ⟨'-', _, htext, rfl⟩
  · exact ⟨c, cs, htext.trans hds, hspace⟩

/-- A numeral is read as it was written if it is not too long. -/
theorem reads_toString (levels : Nat) {n : Int} (h : digitCount n ≤ Decimal.maxDigits) :
    Reads levels (toString n).toList (.int n) where
  starts := starts_toString n
  value fuel rest hfuel hrest := by
    obtain ⟨fuel, rfl⟩ := (starts_toString n).exists_fuel hfuel
    rw [value_toString, number_toString n hrest, if_neg (by omega)]

/-- A numeral that is too long is not read. -/
theorem refused_toString (levels : Nat) {n : Int} (h : Decimal.maxDigits < digitCount n) :
    Refused levels (toString n).toList where
  starts := starts_toString n
  value fuel rest hfuel hrest := by
    obtain ⟨fuel, rfl⟩ := (starts_toString n).exists_fuel hfuel
    exact ⟨_, by rw [value_toString, number_toString n hrest, if_pos h]⟩

theorem reads_null (levels : Nat) : Reads levels "null".toList .null := by
  have hstarts : Starts "null".toList := ⟨'n', _, rfl, rfl⟩
  refine ⟨hstarts, fun fuel rest hfuel _ => ?_⟩
  obtain ⟨fuel, rfl⟩ := hstarts.exists_fuel hfuel
  rfl

end SourceShelf.Json
