import SourceShelf.Json.Printer
import SourceShelf.Json.Reader

/-!
# Strings are read as they were written

Every character of a string is written so that the reader takes exactly it
back, whatever the layout and whatever follows.

* `hexUnit?_hexDigits`: the four digits of a code unit.
* `unicodeEscape?_escape`: an escape, with its surrogate pair if it needs one.
* `stringBody_charText`: one character.
* `string_stringText`: a string.
* `control_not_mem_stringText`: no control character is left in it.
-/

namespace SourceShelf.Json

/-! ## Digits -/

theorem hexValue?_digitChar {d : Nat} (h : d < 16) : hexValue? d.digitChar = some d := by
  have hall : ∀ d < 16, hexValue? (Nat.digitChar d) = some d := by decide
  exact hall d h

/-- Digits filled up with zeros. -/
def filled (width n : Nat) : List Char :=
  List.replicate (width - (Nat.toDigits 16 n).length) '0' ++ Nat.toDigits 16 n

theorem toList_hexDigits (width n : Nat) : (hexDigits width n).toList = filled width n := by
  rw [hexDigits, String.toList_ofList, filled]

theorem filled_one {n : Nat} (h : n < 16) : filled 1 n = [n.digitChar] := by
  rw [filled, Nat.toDigits_of_lt_base h]
  rfl

/-- The last digit is split off. -/
theorem filled_succ {width n : Nat} (hwidth : 0 < width) :
    filled (width + 1) n = filled width (n / 16) ++ [(n % 16).digitChar] := by
  rcases Nat.lt_or_ge n 16 with hsmall | hlarge
  · obtain ⟨w, rfl⟩ : ∃ w, width = w + 1 := ⟨width - 1, by omega⟩
    rw [filled, filled, Nat.toDigits_of_lt_base hsmall, Nat.div_eq_of_lt hsmall,
      Nat.mod_eq_of_lt hsmall, Nat.toDigits_of_lt_base (by decide)]
    simp [List.replicate_succ']
  · rw [filled, filled, Nat.toDigits_of_base_le (by decide) hlarge, List.length_append,
      List.length_singleton, Nat.add_sub_add_right, List.append_assoc]

theorem filled_four {n : Nat} (h : n < 0x10000) :
    filled 4 n = [(n / 16 / 16 / 16).digitChar, (n / 16 / 16 % 16).digitChar,
      (n / 16 % 16).digitChar, (n % 16).digitChar] := by
  rw [filled_succ (by decide), filled_succ (by decide), filled_succ (by decide),
    filled_one (by omega)]
  rfl

/-- The four digits of a code unit are read as the unit. -/
theorem hexUnit?_hexDigits {n : Nat} (h : n < 0x10000) (e : Char) (rest : List Char) :
    hexUnit? ((hexDigits 4 n).toList ++ e :: rest) = some (n, e :: rest) := by
  have hvalue : ((n / 16 / 16 / 16 * 16 + n / 16 / 16 % 16) * 16 + n / 16 % 16) * 16 + n % 16 =
      n := by
    omega
  rw [toList_hexDigits, filled_four h]
  simp only [List.cons_append, List.nil_append, hexUnit?]
  rw [hexValue?_digitChar (by omega), hexValue?_digitChar (by omega),
    hexValue?_digitChar (by omega), hexValue?_digitChar (by omega)]
  simp only [Option.bind_eq_bind, Option.bind_some, hvalue]

/-! ## Escapes -/

theorem unicodeEscape?_unit {n : Nat} (h : n < 0x10000) (hhigh : isHighSurrogate n = false)
    (e : Char) (rest : List Char) :
    unicodeEscape? ((hexDigits 4 n).toList ++ e :: rest) =
      some (.ok (unitChar n, e :: rest)) := by
  unfold unicodeEscape?
  rw [hexUnit?_hexDigits h]
  split
  · rename_i heq
    cases heq
  · rename_i heq
    cases heq
    rw [hhigh]
    rfl
  · rename_i heq
    cases heq
    rfl

theorem unicodeEscape?_pair {high low : Nat} (hhigh : isHighSurrogate high = true)
    (hlow : isLowSurrogate low = true) (e : Char) (rest : List Char) :
    unicodeEscape? ((hexDigits 4 high).toList ++ '\\' :: 'u' ::
      ((hexDigits 4 low).toList ++ e :: rest)) = some (.ok (pairChar high low, e :: rest)) := by
  have hhigh' : high < 0x10000 := by
    simp only [isHighSurrogate, Bool.and_eq_true, decide_eq_true_eq] at hhigh
    omega
  have hlow' : low < 0x10000 := by
    simp only [isLowSurrogate, Bool.and_eq_true, decide_eq_true_eq] at hlow
    omega
  have hlength : 4 < ((hexDigits 4 low).toList ++ e :: rest).length := by
    rw [toList_hexDigits, filled_four hlow']
    simp
  unfold unicodeEscape?
  rw [hexUnit?_hexDigits hhigh']
  simp only [hhigh, hlength, decide_true, Bool.and_self, if_true]
  rw [hexUnit?_hexDigits hlow']
  simp only [hlow, if_true]

/-- The places of characters leave out the surrogates. -/
theorem toNat_range (c : Char) : c.toNat < 0xD800 ∨ 0xDFFF < c.toNat ∧ c.toNat < 0x110000 :=
  c.valid

/-- An escape is read as its character. -/
theorem unicodeEscape?_escape (c : Char) (e : Char) (rest : List Char) :
    ∃ digits, (unicodeEscape c).toList = '\\' :: 'u' :: digits ∧
      unicodeEscape? (digits ++ e :: rest) = some (.ok (c, e :: rest)) := by
  have hrange := toNat_range c
  unfold unicodeEscape
  dsimp only
  by_cases hbasic : c.toNat < 0x10000
  · rw [if_pos hbasic]
    have hhigh : isHighSurrogate c.toNat = false := by
      simp only [isHighSurrogate, Bool.and_eq_false_iff, decide_eq_false_iff_not]
      omega
    have hlow : isLowSurrogate c.toNat = false := by
      simp only [isLowSurrogate, Bool.and_eq_false_iff, decide_eq_false_iff_not]
      omega
    refine ⟨(hexDigits 4 c.toNat).toList, by rw [unitEscape, String.toList_append]; rfl, ?_⟩
    rw [unicodeEscape?_unit hbasic hhigh, unitChar, hhigh, hlow, Char.ofNat_toNat]
    rfl
  · rw [if_neg hbasic]
    obtain ⟨m, hm⟩ : ∃ m, m = c.toNat - 0x10000 := ⟨_, rfl⟩
    rw [← hm]
    have hhigh : isHighSurrogate (0xD800 + m / 0x400) = true := by
      simp only [isHighSurrogate, Bool.and_eq_true, decide_eq_true_eq]
      omega
    have hlow : isLowSurrogate (0xDC00 + m % 0x400) = true := by
      simp only [isLowSurrogate, Bool.and_eq_true, decide_eq_true_eq]
      omega
    refine ⟨(hexDigits 4 (0xD800 + m / 0x400)).toList ++ '\\' :: 'u' ::
      (hexDigits 4 (0xDC00 + m % 0x400)).toList, ?_, ?_⟩
    · simp [unitEscape]
    · have hpair : pairChar (0xD800 + m / 0x400) (0xDC00 + m % 0x400) = c := by
        have hnat : 0x10000 + (0xD800 + m / 0x400 - 0xD800) * 0x400 +
            (0xDC00 + m % 0x400 - 0xDC00) = c.toNat := by omega
        rw [pairChar, hnat, Char.ofNat_toNat]
      rw [List.append_assoc, List.cons_append, List.cons_append,
        unicodeEscape?_pair hhigh hlow, hpair]

/-! ## Characters -/

/-- The three ways to write a character: a backslash and a letter, an escape,
and the character itself. -/
theorem charText_cases (ascii : Bool) (c : Char) :
    (∃ l, escaped? l = some c ∧ (charText ascii c).toList = ['\\', l]) ∨
      (charText ascii c).toList = (unicodeEscape c).toList ∨
      ((charText ascii c).toList = [c] ∧ c ≠ '"' ∧ c ≠ '\\' ∧ 0x1F < c.toNat) := by
  unfold charText
  by_cases hquote : c = '"'
  · exact .inl ⟨'"', by rw [hquote]; rfl, by rw [if_pos hquote]; rfl⟩
  rw [if_neg hquote]
  by_cases hslash : c = '\\'
  · exact .inl ⟨'\\', by rw [hslash]; rfl, by rw [if_pos hslash]; rfl⟩
  rw [if_neg hslash]
  by_cases hfeed : c = '\n'
  · exact .inl ⟨'n', by rw [hfeed]; rfl, by rw [if_pos hfeed]; rfl⟩
  rw [if_neg hfeed]
  by_cases hreturn : c = '\r'
  · exact .inl ⟨'r', by rw [hreturn]; rfl, by rw [if_pos hreturn]; rfl⟩
  rw [if_neg hreturn]
  by_cases htab : c = '\t'
  · exact .inl ⟨'t', by rw [htab]; rfl, by rw [if_pos htab]; rfl⟩
  rw [if_neg htab]
  by_cases hform : c = '\x0c'
  · exact .inl ⟨'f', by rw [hform]; rfl, by rw [if_pos hform]; rfl⟩
  rw [if_neg hform]
  by_cases hback : c = '\x08'
  · exact .inl ⟨'b', by rw [hback]; rfl, by rw [if_pos hback]; rfl⟩
  rw [if_neg hback]
  by_cases hcontrol : c.toNat < 0x20
  · exact .inr (.inl (by rw [if_pos hcontrol]))
  rw [if_neg hcontrol]
  by_cases hhigh : (ascii && decide (0x7F ≤ c.toNat)) = true
  · exact .inr (.inl (by rw [if_pos hhigh]))
  · exact .inr (.inr ⟨by rw [if_neg hhigh]; exact String.toList_singleton c, hquote, hslash,
      by omega⟩)

section Characters

variable (start : List Char) (fuel : Nat) (done : List Char)

theorem stringBody_quote (rest : List Char) :
    stringBody start (fuel + 1) done ('"' :: rest) = .ok (String.ofList done.reverse, rest) := by
  simp [stringBody]

theorem stringBody_plain {c : Char} (hquote : c ≠ '"') (hslash : c ≠ '\\')
    (hcontrol : 0x1F < c.toNat) (rest : List Char) :
    stringBody start (fuel + 1) done (c :: rest) = stringBody start fuel (c :: done) rest := by
  simp [stringBody, hquote, hslash, Nat.not_le.mpr hcontrol]

/-- A backslash and a letter are read as the character that they stand for. -/
theorem stringBody_escaped {l c : Char} (hl : escaped? l = some c) (rest : List Char) :
    stringBody start (fuel + 1) done ('\\' :: l :: rest) =
      stringBody start fuel (c :: done) rest := by
  have hunicode : l ≠ 'u' := by
    rintro rfl
    cases (show escaped? 'u' = none from rfl).symm.trans hl
  simp only [stringBody, hl, if_false, if_true, Char.reduceEq]

theorem stringBody_unicodeEscape (c e : Char) (rest : List Char) :
    stringBody start (fuel + 1) done ((unicodeEscape c).toList ++ e :: rest) =
      stringBody start fuel (c :: done) (e :: rest) := by
  obtain ⟨digits, htext, hread⟩ := unicodeEscape?_escape c e rest
  rw [htext, List.cons_append, List.cons_append]
  simp [stringBody, hread]

/-- A character is read as it was written.  Something must follow it, as the
closing quote does. -/
theorem stringBody_charText (ascii : Bool) (c e : Char) (rest : List Char) :
    stringBody start (fuel + 1) done ((charText ascii c).toList ++ e :: rest) =
      stringBody start fuel (c :: done) (e :: rest) := by
  rcases charText_cases ascii c with ⟨l, hl, htext⟩ | htext | ⟨htext, hquote, hslash, hcontrol⟩
  · rw [htext]
    exact stringBody_escaped start fuel done hl (e :: rest)
  · rw [htext]
    exact stringBody_unicodeEscape start fuel done c e rest
  · rw [htext]
    exact stringBody_plain start fuel done hquote hslash hcontrol (e :: rest)

/-- Characters up to the closing quote are read as they were written. -/
theorem stringBody_charTexts (ascii : Bool) (cs rest : List Char) (h : cs.length < fuel) :
    stringBody start fuel done (cs.flatMap (fun c => (charText ascii c).toList) ++ '"' :: rest) =
      .ok (String.ofList (done.reverse ++ cs), rest) := by
  obtain ⟨fuel, rfl⟩ : ∃ n, fuel = n + 1 := ⟨fuel - 1, by omega⟩
  induction cs generalizing fuel done with
  | nil => rw [List.flatMap_nil, List.nil_append, stringBody_quote, List.append_nil]
  | cons c cs ih =>
    obtain ⟨fuel, rfl⟩ : ∃ n, fuel = n + 1 := ⟨fuel - 1, by simp at h; omega⟩
    have hstep := ih (c :: done) fuel (by simpa using h)
    rw [List.reverse_cons, List.append_assoc, List.singleton_append] at hstep
    -- what follows a character is the start of the next one, or the quote
    obtain ⟨e, more, hmore⟩ : ∃ e more,
        cs.flatMap (fun c => (charText ascii c).toList) ++ '"' :: rest = e :: more := by
      rcases hflat : cs.flatMap (fun c => (charText ascii c).toList) with _ | ⟨e, more⟩
      · exact ⟨'"', rest, rfl⟩
      · exact ⟨e, more ++ '"' :: rest, rfl⟩
    rw [List.flatMap_cons, List.append_assoc, hmore, stringBody_charText, ← hmore, hstep]

end Characters

/-! ## Strings -/

theorem toList_stringText (ascii : Bool) (s : String) :
    (stringText ascii s).toList =
      '"' :: (s.toList.flatMap (fun c => (charText ascii c).toList) ++ ['"']) := by
  simp [stringText, String.toList_join, List.flatMap_map]

/-- A character takes one place at least. -/
theorem length_charText_pos (ascii : Bool) (c : Char) : 0 < (charText ascii c).toList.length := by
  rcases charText_cases ascii c with ⟨l, -, htext⟩ | htext | ⟨htext, -⟩
  · rw [htext]
    exact Nat.succ_pos _
  · obtain ⟨digits, hescape, -⟩ := unicodeEscape?_escape c 'e' []
    rw [htext, hescape]
    exact Nat.succ_pos _
  · rw [htext]
    exact Nat.succ_pos _

theorem length_le_stringText (ascii : Bool) (s : String) :
    s.toList.length + 2 ≤ (stringText ascii s).toList.length := by
  have hflat : s.toList.length ≤
      (s.toList.flatMap fun c => (charText ascii c).toList).length := by
    induction s.toList with
    | nil => exact Nat.le_refl 0
    | cons c cs ih =>
      rw [List.flatMap_cons, List.length_append, List.length_cons]
      have := length_charText_pos ascii c
      omega
  rw [toList_stringText, List.length_cons, List.length_append, List.length_singleton]
  omega

/-- A string is read as it was written, whatever follows. -/
theorem string_stringText (ascii : Bool) (s : String) (rest : List Char) (fuel : Nat)
    (h : s.toList.length < fuel) :
    ∃ body, (stringText ascii s).toList ++ rest = '"' :: body ∧
      string fuel body = .ok (s, rest) := by
  refine ⟨s.toList.flatMap (fun c => (charText ascii c).toList) ++ '"' :: rest, ?_, ?_⟩
  · rw [toList_stringText, List.cons_append, List.append_assoc, List.singleton_append]
  · rw [string, stringBody_charTexts _ _ _ _ _ _ h, List.reverse_nil, List.nil_append,
      String.ofList_toList]

/-- What a string is and what follows it can be told from the text. -/
theorem stringText_append_inj {ascii : Bool} {s t : String} {rest rest' : List Char}
    (h : (stringText ascii s).toList ++ rest = (stringText ascii t).toList ++ rest') :
    s = t ∧ rest = rest' := by
  obtain ⟨fuel, hs, ht⟩ : ∃ fuel, s.toList.length < fuel ∧ t.toList.length < fuel :=
    ⟨s.toList.length + t.toList.length + 1, by omega, by omega⟩
  obtain ⟨body, hbody, hstring⟩ := string_stringText ascii s rest fuel hs
  obtain ⟨body', hbody', hstring'⟩ := string_stringText ascii t rest' fuel ht
  obtain rfl : body = body' := (List.cons.inj (hbody.symm.trans (h.trans hbody'))).2
  rw [hstring] at hstring'
  exact Prod.mk.inj (Except.ok.inj hstring')

/-! ## Controls -/

section Controls

variable {d : Char} (hd : d.toNat ≤ 0x1F)
include hd

theorem control_not_mem_unitEscape {n : Nat} (h : n < 0x10000) : d ∉ (unitEscape n).toList := by
  have hdigit (k : Nat) (hk : k < 16) : d ≠ k.digitChar := by
    have hall : ∀ k < 16, 0x1F < (Nat.digitChar k).toNat := by decide
    rintro rfl
    exact absurd (hall k hk) (Nat.not_lt.mpr hd)
  have hmark : d ≠ '\\' ∧ d ≠ 'u' := by
    constructor <;> (rintro rfl; exact absurd hd (by decide))
  rw [unitEscape, String.toList_append, toList_hexDigits, filled_four h]
  simp only [String.reduceToList, List.cons_append, List.nil_append, List.mem_cons,
    List.not_mem_nil, or_false, not_or]
  exact ⟨hmark.1, hmark.2, hdigit _ (by omega), hdigit _ (by omega), hdigit _ (by omega),
    hdigit _ (by omega)⟩

theorem control_not_mem_charText (ascii : Bool) (c : Char) : d ∉ (charText ascii c).toList := by
  rcases charText_cases ascii c with ⟨l, hl, htext⟩ | htext | ⟨htext, -, -, hcontrol⟩
  · have hletter : 0x1F < l.toNat := by
      unfold escaped? at hl
      split at hl <;> first | decide | cases hl
    rw [htext, List.mem_cons, List.mem_singleton]
    rintro (rfl | rfl)
    · exact absurd hd (by decide)
    · omega
  · have hrange := toNat_range c
    rw [htext, unicodeEscape]
    dsimp only
    split
    · rename_i hbasic
      exact control_not_mem_unitEscape hd hbasic
    · rw [String.toList_append, List.mem_append, not_or]
      exact ⟨control_not_mem_unitEscape hd (by omega), control_not_mem_unitEscape hd (by omega)⟩
  · rw [htext, List.mem_singleton]
    rintro rfl
    omega

/-- No control character is left in the text of a string. -/
theorem control_not_mem_stringText (ascii : Bool) (s : String) :
    d ∉ (stringText ascii s).toList := by
  have hquote : d ≠ '"' := by
    rintro rfl
    exact absurd hd (by decide)
  rw [toList_stringText]
  simp only [List.mem_cons, List.mem_append, List.mem_flatMap, List.not_mem_nil, or_false, not_or,
    not_exists, not_and]
  exact ⟨hquote, fun c _ => control_not_mem_charText hd ascii c, hquote⟩

end Controls

end SourceShelf.Json
