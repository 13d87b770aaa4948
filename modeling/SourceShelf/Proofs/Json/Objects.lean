import Mathlib.Data.List.Forall2
import SourceShelf.Proofs.Json.Strings

/-!
# Objects are read as they were written

* `Reads`: a text that is read as a value, if no number could go on behind it
  (`EndsNumber`).
* `reads_stringText`, `reads_bracketed`: strings, and objects of values that are
  read as they were written.
* `Refused`, `refused_bracketed`: a text that is not read, and an object with a
  value that is not.
* `readChars_of_reads`, `readChars_of_refused`: a whole text.
-/

namespace SourceShelf.Json

/-! ## White space -/

/-- True of white space. -/
def Blank (s : String) : Prop := ∀ c ∈ s.toList, isSpace c = true

theorem blank_newline (depth : Nat) : Blank (newline depth) := by
  intro c hc
  rw [newline, String.toList_append, List.mem_append] at hc
  rcases hc with hc | hc
  · obtain rfl : c = '\n' := by simpa using hc
    rfl
  · rw [String.toList_ofList] at hc
    obtain rfl := List.eq_of_mem_replicate hc
    rfl

theorem skip_cons {c : Char} (h : isSpace c = false) (cs : List Char) : skip (c :: cs) = c :: cs :=
  List.dropWhile_cons_of_neg (by simp [h])

theorem skip_blank {s : String} (h : Blank s) (cs : List Char) : skip (s.toList ++ cs) = skip cs :=
  List.dropWhile_append_of_pos h

/-! ## Values -/

/-- True of what a number can end before: nothing that could belong to it. -/
def EndsNumber (rest : List Char) : Prop :=
  ∀ c ∈ rest.head?, c.isDigit = false ∧ c ≠ '.' ∧ c ≠ 'e' ∧ c ≠ 'E'

@[simp] theorem endsNumber_nil : EndsNumber [] := by simp [EndsNumber]

@[simp] theorem endsNumber_cons (c : Char) (rest : List Char) :
    EndsNumber (c :: rest) ↔ c.isDigit = false ∧ c ≠ '.' ∧ c ≠ 'e' ∧ c ≠ 'E' := by
  simp [EndsNumber]

theorem endsNumber_blank {s : String} (h : Blank s) {rest : List Char} (hrest : EndsNumber rest) :
    EndsNumber (s.toList ++ rest) := by
  rcases hchars : s.toList with _ | ⟨c, cs⟩
  · exact hrest
  · have hspace := h c (by simp [hchars])
    simp only [isSpace, Bool.or_eq_true, decide_eq_true_eq] at hspace
    rw [List.cons_append, endsNumber_cons]
    rcases hspace with ((rfl | rfl) | rfl) | rfl <;> decide

/-- True of a text with something other than white space at its start. -/
def Starts (text : List Char) : Prop := ∃ c cs, text = c :: cs ∧ isSpace c = false

theorem Starts.skip {text : List Char} (h : Starts text) (rest : List Char) :
    skip (text ++ rest) = text ++ rest := by
  obtain ⟨c, cs, rfl, hc⟩ := h
  exact skip_cons hc _

/-- As much fuel as such a text has characters is enough for a step. -/
theorem Starts.exists_fuel {text : List Char} (h : Starts text) {fuel : Nat}
    (hfuel : text.length ≤ fuel) : ∃ f, fuel = f + 1 := by
  obtain ⟨c, cs, rfl, -⟩ := h
  rw [List.length_cons] at hfuel
  exact ⟨fuel - 1, by omega⟩

/-- A text that is read as a value where so many levels can be nested, if a number can end behind
it.  As much fuel as it has characters is enough. -/
structure Reads (levels : Nat) (text : List Char) (v : Value) : Prop where
  starts : Starts text
  value : ∀ fuel rest, text.length ≤ fuel → EndsNumber rest →
    value levels fuel (text ++ rest) = .ok (v, rest)

/-- A text that is not read, with the same fuel. -/
structure Refused (levels : Nat) (text : List Char) : Prop where
  starts : Starts text
  value : ∀ fuel rest, text.length ≤ fuel → EndsNumber rest →
    ∃ e, value levels fuel (text ++ rest) = .error e

theorem reads_stringText (levels : Nat) (ascii : Bool) (s : String) :
    Reads levels (stringText ascii s).toList (.str s) where
  starts := ⟨'"', _, toList_stringText ascii s, rfl⟩
  value fuel rest hfuel _ := by
    have hlength := length_le_stringText ascii s
    obtain ⟨fuel, rfl⟩ : ∃ n, fuel = n + 1 := ⟨fuel - 1, by omega⟩
    obtain ⟨body, hbody, hstring⟩ :=
      string_stringText ascii s rest fuel (by omega)
    rw [hbody, Json.value, hstring]
    rfl

/-- True of texts that can be told from what follows them, if a number can end there. -/
def Delimited {α : Type} (text : α → String) : Prop :=
  ∀ x y rest rest', EndsNumber rest → EndsNumber rest' →
    (text x).toList ++ rest = (text y).toList ++ rest' → x = y ∧ rest = rest'

theorem delimited_stringText (ascii : Bool) : Delimited (stringText ascii) :=
  fun _ _ _ _ _ _ => stringText_append_inj

/-! ## Objects -/

/-- The text of an entry. -/
def entryText (ascii : Bool) (e : String × String) : String :=
  stringText ascii e.1 ++ ": " ++ e.2

/-- The text of an entry with a value that it is read as. -/
def ReadsEntry (levels : Nat) (e : String × String) (m : String × Value) : Prop :=
  e.1 = m.1 ∧ Reads levels e.2.toList m.2

section Members

variable {levels : Nat} {ascii : Bool} {e : String × String} {m : String × Value}

theorem toList_entryText (ascii : Bool) (e : String × String) :
    (entryText ascii e).toList = (stringText ascii e.1).toList ++ ':' :: ' ' :: e.2.toList := by
  simp [entryText]

theorem length_le_entryText (ascii : Bool) (e : String × String) :
    e.2.toList.length ≤ (entryText ascii e).toList.length := by
  rw [toList_entryText, List.length_append, List.length_cons, List.length_cons]
  omega

/-- Entries under one key can be told from what follows them if their values can. -/
theorem delimited_entryText {α : Type} {text : α → String} (h : Delimited text) (key : String) :
    Delimited fun x => entryText ascii (key, text x) := by
  intro x y rest rest' hrest hrest' heq
  simp only [toList_entryText, List.append_assoc, List.cons_append] at heq
  have hvalue := (stringText_append_inj heq).2
  rw [List.cons.injEq, List.cons.injEq] at hvalue
  exact h x y rest rest' hrest hrest' hvalue.2.2

/-- A member of an object is read up to its value. -/
theorem members_entryText (hstarts : Starts e.2.toList) {fuel : Nat}
    (hfuel : (entryText ascii e).toList.length ≤ fuel) (done : List (String × Value))
    (rest : List Char) :
    members levels (fuel + 1) done ((entryText ascii e).toList ++ rest) =
      match value levels fuel (e.2.toList ++ rest) with
      | .error err => .error err
      | .ok (v, rest) =>
        match skip rest with
        | '\x7d' :: rest => .ok (.ofEntries ((e.1, v) :: done).reverse, rest)
        | ',' :: rest => members levels fuel ((e.1, v) :: done) (skip rest)
        | rest => .error ⟨.comma, rest⟩ := by
  have hlength := length_le_stringText ascii e.1
  rw [toList_entryText, List.length_append, List.length_cons, List.length_cons] at hfuel
  obtain ⟨body, hbody, hstring⟩ :=
    string_stringText ascii e.1 (':' :: ' ' :: (e.2.toList ++ rest)) fuel (by omega)
  have hspace : skip (' ' :: (e.2.toList ++ rest)) = e.2.toList ++ rest := hstarts.skip rest
  rw [toList_entryText, List.append_assoc, List.cons_append, List.cons_append, hbody]
  generalize hread : members levels (fuel + 1) done ('"' :: body) = r
  rw [members] at hread
  simp only [hstring, skip_cons (show isSpace ':' = false from rfl), hspace] at hread
  exact hread.symm

/-- A member of an object is read with its value. -/
theorem members_of_readsEntry (h : ReadsEntry levels e m) {fuel : Nat}
    (hfuel : (entryText ascii e).toList.length ≤ fuel) (done : List (String × Value))
    {rest : List Char} (hrest : EndsNumber rest) :
    members levels (fuel + 1) done ((entryText ascii e).toList ++ rest) =
      match skip rest with
      | '\x7d' :: rest => .ok (.ofEntries (m :: done).reverse, rest)
      | ',' :: rest => members levels fuel (m :: done) (skip rest)
      | rest => .error ⟨.comma, rest⟩ := by
  obtain ⟨key, v⟩ := m
  obtain ⟨rfl, hvalue⟩ := h
  have hlength := Nat.le_trans (length_le_entryText ascii e) hfuel
  rw [members_entryText hvalue.starts hfuel, hvalue.value fuel rest hlength hrest]

/-- A member of an object whose value is not read. -/
theorem members_of_refused (h : Refused levels e.2.toList) {fuel : Nat}
    (hfuel : (entryText ascii e).toList.length ≤ fuel) (done : List (String × Value))
    {rest : List Char} (hrest : EndsNumber rest) :
    ∃ err, members levels (fuel + 1) done ((entryText ascii e).toList ++ rest) = .error err := by
  have hlength := Nat.le_trans (length_le_entryText ascii e) hfuel
  obtain ⟨err, herr⟩ := h.value fuel rest hlength hrest
  exact ⟨err, by rw [members_entryText h.starts hfuel, herr]⟩

/-- The entries of an object with commas and white space between them. -/
def entriesText (ascii : Bool) (gap : String) (es : List (String × String)) : String :=
  ("," ++ gap).intercalate (es.map (entryText ascii))

theorem entriesText_singleton (ascii : Bool) (gap : String) (e : String × String) :
    entriesText ascii gap [e] = entryText ascii e := String.intercalate_singleton

theorem toList_entriesText_cons (ascii : Bool) (gap : String) (e e' : String × String)
    (es : List (String × String)) :
    (entriesText ascii gap (e :: e' :: es)).toList =
      (entryText ascii e).toList ++ ',' :: (gap.toList ++
        (entriesText ascii gap (e' :: es)).toList) := by
  rw [entriesText, List.map_cons, List.map_cons, String.intercalate_cons_cons]
  simp [entriesText]

theorem entriesText_starts (ascii : Bool) (gap : String) (e : String × String)
    (es : List (String × String)) :
    ∃ cs, (entriesText ascii gap (e :: es)).toList = '"' :: cs := by
  cases es with
  | nil => exact ⟨_, by rw [entriesText_singleton, toList_entryText, toList_stringText]; rfl⟩
  | cons e' es =>
    exact ⟨_, by rw [toList_entriesText_cons, toList_entryText, toList_stringText]; rfl⟩

theorem skip_entriesText (gap : String) (es : List (String × String)) (rest : List Char) :
    skip ((entriesText ascii gap (e :: es)).toList ++ rest) =
      (entriesText ascii gap (e :: es)).toList ++ rest := by
  obtain ⟨cs, hcs⟩ := entriesText_starts ascii gap e es
  rw [hcs]
  exact skip_cons rfl _

/-- The members of an object are read one after another. -/
theorem members_entriesText {gap last : String} (hgap : Blank gap) (hlast : Blank last)
    {es : List (String × String)} {ms : List (String × Value)}
    (h : List.Forall₂ (ReadsEntry levels) (e :: es) ms) (fuel : Nat) (done : List (String × Value))
    (rest : List Char) (hfuel : (entriesText ascii gap (e :: es)).toList.length < fuel) :
    members levels fuel done ((entriesText ascii gap (e :: es)).toList ++
      (last.toList ++ '\x7d' :: rest)) = .ok (.ofEntries (done.reverse ++ ms), rest) := by
  obtain ⟨fuel, rfl⟩ : ∃ n, fuel = n + 1 := ⟨fuel - 1, by omega⟩
  induction es generalizing e fuel done ms with
  | nil =>
    obtain ⟨m, ms, he, hnil, rfl⟩ := List.forall₂_cons_left_iff.mp h
    cases hnil
    rw [entriesText_singleton] at hfuel ⊢
    have hends : EndsNumber (last.toList ++ '\x7d' :: rest) := endsNumber_blank hlast (by simp)
    rw [members_of_readsEntry he (by omega) done hends, skip_blank hlast, skip_cons rfl,
      List.reverse_cons]
    rfl
  | cons e' es ih =>
    obtain ⟨m, ms, he, hes, rfl⟩ := List.forall₂_cons_left_iff.mp h
    rw [toList_entriesText_cons] at hfuel ⊢
    rw [List.length_append, List.length_cons, List.length_append] at hfuel
    obtain ⟨fuel, rfl⟩ : ∃ n, fuel = n + 1 := ⟨fuel - 1, by omega⟩
    have hrest := ih hes (m :: done) fuel (by omega)
    rw [List.reverse_cons, List.append_assoc, List.singleton_append] at hrest
    rw [List.append_assoc, List.cons_append, List.append_assoc,
      members_of_readsEntry he (by omega) done (by simp), skip_cons rfl]
    simp only [skip_blank hgap, skip_entriesText]
    exact hrest

/-- The members of an object are read up to one whose value is not read. -/
theorem members_entriesText_refused {gap : String} (hgap : Blank gap)
    {front back : List (String × String)} (hfront : ∀ e ∈ front, ∃ v, Reads levels e.2.toList v)
    (hrefused : Refused levels e.2.toList) (fuel : Nat) (done : List (String × Value))
    {rest : List Char} (hrest : EndsNumber rest)
    (hfuel : (entriesText ascii gap (front ++ e :: back)).toList.length < fuel) :
    ∃ err, members levels fuel done ((entriesText ascii gap (front ++ e :: back)).toList ++ rest) =
      .error err := by
  obtain ⟨fuel, rfl⟩ : ∃ n, fuel = n + 1 := ⟨fuel - 1, by omega⟩
  induction front generalizing fuel done with
  | nil =>
    rw [List.nil_append] at hfuel ⊢
    cases back with
    | nil =>
      rw [entriesText_singleton] at hfuel ⊢
      exact members_of_refused hrefused (by omega) done hrest
    | cons e' back =>
      rw [toList_entriesText_cons] at hfuel ⊢
      rw [List.length_append] at hfuel
      rw [List.append_assoc]
      exact members_of_refused hrefused (by omega) done (by simp)
  | cons e' front ih =>
    obtain ⟨next, more, hnext⟩ : ∃ next more, front ++ e :: back = next :: more :=
      List.exists_cons_of_ne_nil (by simp)
    obtain ⟨v, hv⟩ := hfront e' List.mem_cons_self
    rw [List.cons_append, hnext, toList_entriesText_cons, ← hnext] at hfuel ⊢
    rw [List.length_append, List.length_cons, List.length_append] at hfuel
    obtain ⟨fuel, rfl⟩ : ∃ n, fuel = n + 1 := ⟨fuel - 1, by omega⟩
    obtain ⟨err, herr⟩ := ih (fun e he => hfront e (List.mem_cons_of_mem _ he))
      ((e'.1, v) :: done) fuel (by omega)
    refine ⟨err, ?_⟩
    rw [List.append_assoc, List.cons_append, List.append_assoc,
      members_of_readsEntry (m := (e'.1, v)) ⟨rfl, hv⟩ (by omega) done (by simp), skip_cons rfl]
    rw [hnext] at herr ⊢
    simp only [skip_blank hgap, skip_entriesText]
    exact herr

end Members

/-- The parts of an object stand between white space, if there are any. -/
theorem bracketed_entries (l : Layout) (depth : Nat) (e : String × String)
    (es : List (String × String)) :
    ∃ first gap last : String, Blank first ∧ Blank gap ∧ Blank last ∧
      bracketed l "\x7b" "\x7d" depth ((e :: es).map (entryText l.ascii)) =
        "\x7b" ++ first ++ entriesText l.ascii gap (e :: es) ++ last ++ "\x7d" := by
  unfold bracketed
  rw [if_neg (by simp)]
  by_cases hindented : l.indented = true
  · rw [if_pos hindented]
    exact ⟨newline (depth + 1), newline (depth + 1), newline depth, blank_newline _,
      blank_newline _, blank_newline _, rfl⟩
  · rw [if_neg hindented]
    exact ⟨"", " ", "", by simp [Blank], by simp [Blank, isSpace], by simp [Blank],
      by simp [entriesText]⟩

theorem head?_bracketed (l : Layout) (depth : Nat) (parts : List String) :
    (bracketed l "\x7b" "\x7d" depth parts).toList.head? = some '\x7b' := by
  unfold bracketed
  split
  · simp
  · split <;> simp

/-- An object is read member by member, one level below its own. -/
theorem value_bracketed (levels : Nat) (l : Layout) (depth : Nat) (e : String × String)
    (es : List (String × String)) :
    ∃ gap last : String, Blank gap ∧ Blank last ∧
      Starts (bracketed l "\x7b" "\x7d" depth ((e :: es).map (entryText l.ascii))).toList ∧
      (entriesText l.ascii gap (e :: es)).toList.length + 2 ≤
        (bracketed l "\x7b" "\x7d" depth ((e :: es).map (entryText l.ascii))).toList.length ∧
      ∀ fuel rest, value (levels + 1) (fuel + 1)
          ((bracketed l "\x7b" "\x7d" depth ((e :: es).map (entryText l.ascii))).toList ++ rest) =
        members levels fuel [] ((entriesText l.ascii gap (e :: es)).toList ++
          (last.toList ++ '\x7d' :: rest)) := by
  obtain ⟨first, gap, last, hfirst, hgap, hlast, htext⟩ := bracketed_entries l depth e es
  have hchars : (bracketed l "\x7b" "\x7d" depth ((e :: es).map (entryText l.ascii))).toList =
      '\x7b' :: (first.toList ++ ((entriesText l.ascii gap (e :: es)).toList ++
        (last.toList ++ ['\x7d']))) := by
    rw [htext]
    simp
  rw [hchars]
  refine ⟨gap, last, hgap, hlast, ⟨_, _, rfl, rfl⟩, ?_, fun fuel rest => ?_⟩
  · simp only [List.length_cons, List.length_append]
    omega
  · obtain ⟨cs, hcs⟩ := entriesText_starts l.ascii gap e es
    rw [List.cons_append, List.append_assoc, List.append_assoc, List.append_assoc]
    simp only [value, skip_blank hfirst, skip_entriesText, Nat.add_eq_zero_iff, Nat.one_ne_zero,
      and_false, if_false, Nat.add_sub_cancel]
    rw [hcs]
    rfl

/-- An object is read as it was written if its values are, one level below its own. -/
theorem reads_bracketed {levels : Nat} (l : Layout) (depth : Nat) {es : List (String × String)}
    {ms : List (String × Value)} (h : List.Forall₂ (ReadsEntry levels) es ms) :
    Reads (levels + 1) (bracketed l "\x7b" "\x7d" depth (es.map (entryText l.ascii))).toList
      (.ofEntries ms) := by
  cases es with
  | nil =>
    cases h
    have htext : (bracketed l "\x7b" "\x7d" depth []).toList = ['\x7b', '\x7d'] := by
      simp [bracketed]
    rw [List.map_nil, htext]
    have hstarts : Starts ['\x7b', '\x7d'] := ⟨_, _, rfl, rfl⟩
    refine ⟨hstarts, fun fuel rest hfuel _ => ?_⟩
    obtain ⟨fuel, rfl⟩ := hstarts.exists_fuel hfuel
    rfl
  | cons e es =>
    obtain ⟨gap, last, hgap, hlast, hstarts, hlength, hvalue⟩ := value_bracketed levels l depth e es
    refine ⟨hstarts, fun fuel rest hfuel _ => ?_⟩
    obtain ⟨fuel, rfl⟩ := hstarts.exists_fuel hfuel
    rw [hvalue]
    exact members_entriesText hgap hlast h fuel [] rest (by omega)

/-- An object is not read if one of its values is not. -/
theorem refused_bracketed {levels : Nat} (l : Layout) (depth : Nat) {e : String × String}
    {front back : List (String × String)} (hfront : ∀ e ∈ front, ∃ v, Reads levels e.2.toList v)
    (hrefused : Refused levels e.2.toList) :
    Refused (levels + 1) (bracketed l "\x7b" "\x7d" depth
      ((front ++ e :: back).map (entryText l.ascii))).toList := by
  obtain ⟨next, more, hnext⟩ : ∃ next more, front ++ e :: back = next :: more :=
    List.exists_cons_of_ne_nil (by simp)
  have hobject := value_bracketed levels l depth next more
  rw [← hnext] at hobject
  obtain ⟨gap, last, hgap, hlast, hstarts, hlength, hvalue⟩ := hobject
  refine ⟨hstarts, fun fuel rest hfuel _ => ?_⟩
  obtain ⟨fuel, rfl⟩ := hstarts.exists_fuel hfuel
  rw [hvalue]
  exact members_entriesText_refused hgap hfront hrefused fuel [] (endsNumber_blank hlast (by simp))
    (by omega)

/-- Every reader takes an object in an object. -/
theorem NestingLimit.exists_levels (limit : NestingLimit) : ∃ n, limit.levels = n + 2 :=
  ⟨limit.levels - 2, by have := limit.two_le; omega⟩

/-- A text that is read as a value, and nothing else, holds the value. -/
theorem readChars_of_reads {limit : NestingLimit} {text : List Char} {v : Value}
    (h : Reads limit.levels text v) (hmark : text.head? ≠ some '\ufeff') :
    readChars limit text = .ok v := by
  have hvalue := h.value (2 * text.length + 2) [] (by omega) endsNumber_nil
  have hskip := h.starts.skip []
  rw [List.append_nil] at hvalue hskip
  unfold readChars
  split
  · exact absurd rfl hmark
  · rw [hskip, hvalue]
    rfl

theorem readChars_of_refused {limit : NestingLimit} {text : List Char}
    (h : Refused limit.levels text) : ∃ e, readChars limit text = .error e := by
  obtain ⟨e, he⟩ := h.value (2 * text.length + 2) [] (by omega) endsNumber_nil
  have hskip := h.starts.skip []
  rw [List.append_nil] at he hskip
  unfold readChars
  split
  · exact ⟨_, rfl⟩
  · exact ⟨e, by rw [hskip, he]⟩

end SourceShelf.Json
