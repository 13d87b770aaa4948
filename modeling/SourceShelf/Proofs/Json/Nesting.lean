import SourceShelf.Proofs.Text.Utf8
import SourceShelf.Settings.Loading

/-!
# How deep a text can nest

A reader that can nest more reads all that one reads which can nest less, and nothing else about a
text depends on the limit.

* `ReadsMore`, `readChars_of_le`: two readers with different limits, by induction on the fuel.
* `Shallow`, `ReadsShallow`: where no more brackets stand than levels are left, a value does not
  nest too deep, and what follows it is the end of the text.
* `readChars_of_brackets_le`, `readDocument_of_brackets_le`: such a text, and such a document.
* `readChars_opened`: a text that opens with more brackets than levels.
-/

namespace SourceShelf.Json

/-- True of a result that is none since a text nests too deep. -/
def TooDeep {α : Type} (r : Except ReadError α) : Prop := ∃ n rest, r = .error ⟨.tooDeep n, rest⟩

section Results

variable {α : Type}

@[simp] theorem not_tooDeep_ok (x : α) : ¬ TooDeep (.ok x : Except ReadError α) := by
  rintro ⟨n, rest, h⟩
  cases h

theorem tooDeep_error_iff {e : ReadError} :
    TooDeep (.error e : Except ReadError α) ↔ ∃ n, e.problem = .tooDeep n := by
  constructor
  · rintro ⟨n, rest, h⟩
    cases h
    exact ⟨n, rfl⟩
  · rintro ⟨n, h⟩
    exact ⟨n, e.rest, by rw [← h]⟩

theorem TooDeep.of_error {β : Type} {e : ReadError} (h : TooDeep (.error e : Except ReadError α)) :
    TooDeep (.error e : Except ReadError β) :=
  tooDeep_error_iff.mpr (tooDeep_error_iff.mp h)

theorem failure_eq_tooDeep_iff {e : ReadError} {cs : List Char} {n : Nesting} :
    e.failure cs = .tooDeep n ↔ e.problem = .tooDeep n := by
  unfold ReadError.failure
  constructor
  · intro h
    split at h
    · rename_i m hm
      cases h
      exact hm
    · cases h
  · intro h
    rw [h]

end Results

/-! ## Two limits -/

/-- With so much fuel, a reader that can nest more reads the same, unless the other finds the text
too deep. -/
structure ReadsMore (fuel : Nat) : Prop where
  value {l l' : Nat} (cs : List Char) (h : l ≤ l') :
    value l fuel cs = value l' fuel cs ∨ TooDeep (value l fuel cs)
  items {l l' : Nat} (done : List Value) (cs : List Char) (h : l ≤ l') :
    items l fuel done cs = items l' fuel done cs ∨ TooDeep (items l fuel done cs)
  members {l l' : Nat} (done : List (String × Value)) (cs : List Char) (h : l ≤ l') :
    members l fuel done cs = members l' fuel done cs ∨ TooDeep (members l fuel done cs)

namespace ReadsMore

variable {fuel l l' : Nat} (hless : ReadsMore fuel) (h : l ≤ l')

include hless h

/-- Only a list or an object takes a level. -/
theorem value_succ (cs : List Char) :
    Json.value l (fuel + 1) cs = Json.value l' (fuel + 1) cs ∨
      TooDeep (Json.value l (fuel + 1) cs) := by
  unfold Json.value
  split
  · exact .inl rfl
  · by_cases hl : l = 0
    · exact .inr ⟨.object, _, if_pos hl⟩
    rw [if_neg hl, if_neg (by omega)]
    split
    · exact .inl rfl
    · exact hless.members _ _ (by omega)
  · by_cases hl : l = 0
    · exact .inr ⟨.list, _, if_pos hl⟩
    rw [if_neg hl, if_neg (by omega)]
    split
    · exact .inl rfl
    · exact hless.items _ _ (by omega)
  · exact .inl rfl

theorem items_succ (done : List Value) (cs : List Char) :
    Json.items l (fuel + 1) done cs = Json.items l' (fuel + 1) done cs ∨
      TooDeep (Json.items l (fuel + 1) done cs) := by
  unfold Json.items
  rcases hless.value cs h with heq | ⟨n, rest, hdeep⟩
  · rw [heq]
    split
    · exact .inl rfl
    · split
      · exact .inl rfl
      · exact hless.items _ _ h
      · exact .inl rfl
  · rw [hdeep]
    exact .inr ⟨n, rest, rfl⟩

theorem members_succ (done : List (String × Value)) (cs : List Char) :
    Json.members l (fuel + 1) done cs = Json.members l' (fuel + 1) done cs ∨
      TooDeep (Json.members l (fuel + 1) done cs) := by
  unfold Json.members
  split
  · split
    · exact .inl rfl
    · split
      · rename_i rest _
        rcases hless.value (skip rest) h with heq | ⟨n, rest, hdeep⟩
        · rw [heq]
          split
          · exact .inl rfl
          · split
            · exact .inl rfl
            · exact hless.members _ _ h
            · exact .inl rfl
        · rw [hdeep]
          exact .inr ⟨n, rest, rfl⟩
      · exact .inl rfl
  · exact .inl rfl

end ReadsMore

theorem readsMore (fuel : Nat) : ReadsMore fuel := by
  induction fuel with
  | zero => exact ⟨fun _ _ => .inl rfl, fun _ _ _ => .inl rfl, fun _ _ _ => .inl rfl⟩
  | succ fuel ih =>
    exact ⟨fun cs h => ih.value_succ h cs, fun done cs h => ih.items_succ h done cs,
      fun done cs h => ih.members_succ h done cs⟩

/-- Every reader that can nest as much as another reads what the other reads, and refuses what it
refuses for another reason than its depth. -/
theorem readChars_of_le {limit limit' : NestingLimit} (h : limit.levels ≤ limit'.levels)
    (cs : List Char) :
    readChars limit cs = readChars limit' cs ∨ TooDeep (readChars limit cs) := by
  unfold readChars
  split
  · exact .inl rfl
  · rcases (readsMore _).value (skip cs) h with heq | ⟨n, rest, hdeep⟩
    · rw [heq]
      exact .inl rfl
    · rw [hdeep]
      exact .inr ⟨n, rest, rfl⟩

/-! ## What follows a value -/

theorem skip_suffix (cs : List Char) : skip cs <:+ cs := List.dropWhile_suffix _

theorem suffix_of_hexUnit? {cs rest : List Char} {n : Nat} (h : hexUnit? cs = some (n, rest)) :
    rest <:+ cs := by
  unfold hexUnit? at h
  split at h
  · rename_i a b c d e rest'
    simp only [Option.bind_eq_bind, Option.bind_eq_some_iff, Option.some.injEq, Prod.mk.injEq] at h
    obtain ⟨-, -, -, -, -, -, -, -, -, rfl⟩ := h
    exact ⟨[a, b, c, d], rfl⟩
  · cases h

theorem suffix_of_unicodeEscape? {cs rest : List Char} {x : Char}
    (h : unicodeEscape? cs = some (.ok (x, rest))) : rest <:+ cs := by
  unfold unicodeEscape? at h
  split at h
  · cases h
  · rename_i high more hhigh
    have hmore := suffix_of_hexUnit? hhigh
    split at h
    · split at h
      · cases h
      · rename_i low rest' hlow
        have hpair := (suffix_of_hexUnit? hlow).trans ⟨['\\', 'u'], rfl⟩
        split at h <;> obtain ⟨-, rfl⟩ := Prod.mk.inj (Except.ok.inj (Option.some.inj h))
        · exact hpair.trans hmore
        · exact hmore
    · obtain ⟨-, rfl⟩ := Prod.mk.inj (Except.ok.inj (Option.some.inj h))
      exact hmore
  · rename_i hunit
    obtain ⟨-, rfl⟩ := Prod.mk.inj (Except.ok.inj (Option.some.inj h))
    exact suffix_of_hexUnit? hunit

/-- True of a result that is no nesting too deep, and has the end of the text behind it. -/
structure Shallow {α : Type} (cs : List Char) (r : Except ReadError (α × List Char)) : Prop where
  notDeep : ¬ TooDeep r
  suffix : ∀ x rest, r = .ok (x, rest) → rest <:+ cs

theorem Shallow.of_suffix {α : Type} {cs cs' : List Char} {r : Except ReadError (α × List Char)}
    (h : Shallow cs r) (hcs : cs <:+ cs') : Shallow cs' r where
  notDeep := h.notDeep
  suffix x rest hr := (h.suffix x rest hr).trans hcs

theorem shallow_ok {α : Type} {cs rest : List Char} (x : α) (h : rest <:+ cs) :
    Shallow cs (.ok (x, rest)) where
  notDeep := not_tooDeep_ok _
  suffix _ _ hr := by
    cases hr
    exact h

theorem shallow_error {α : Type} {cs : List Char} {e : ReadError}
    (h : ∀ n, e.problem ≠ .tooDeep n) :
    Shallow cs (.error e : Except ReadError (α × List Char)) where
  notDeep hdeep := by
    obtain ⟨n, hn⟩ := tooDeep_error_iff.mp hdeep
    exact h n hn
  suffix _ _ hr := by cases hr

/-- An error stays one when more was to be read. -/
theorem Shallow.error {α β : Type} {cs cs' : List Char} {e : ReadError}
    (h : Shallow cs (.error e : Except ReadError (α × List Char))) :
    Shallow cs' (.error e : Except ReadError (β × List Char)) where
  notDeep hdeep := h.notDeep hdeep.of_error
  suffix _ _ hr := by cases hr

/-- A string is read up to a place behind it, or it has a fault of its own. -/
theorem shallow_stringBody (start : List Char) (fuel : Nat) (done cs : List Char) :
    Shallow cs (stringBody start fuel done cs) := by
  induction fuel generalizing done cs with
  | zero => exact shallow_error fun n h => by cases h
  | succ fuel ih =>
    cases cs with
    | nil => exact shallow_error fun n h => by cases h
    | cons c cs =>
      unfold stringBody
      by_cases hquote : c = '"'
      · rw [if_pos hquote]
        exact shallow_ok _ (List.suffix_cons c cs)
      rw [if_neg hquote]
      by_cases hslash : c = '\\'
      · rw [if_pos hslash]
        split
        · exact shallow_error fun n h => by cases h
        · rename_i digits
          split
          · exact shallow_error fun n h => by cases h
          · exact shallow_error fun n h => by cases h
          · rename_i x rest hescape
            exact (ih _ rest).of_suffix
              ((suffix_of_unicodeEscape? hescape).trans ⟨[c, 'u'], rfl⟩)
        · rename_i e rest _
          split
          · exact (ih _ rest).of_suffix ⟨[c, e], rfl⟩
          · exact shallow_error fun n h => by cases h
      rw [if_neg hslash]
      split
      · exact shallow_error fun n h => by cases h
      · exact (ih _ cs).of_suffix (List.suffix_cons c cs)

theorem suffix_fraction (cs : List Char) : (fraction cs).2 <:+ cs := by
  unfold fraction
  split
  · dsimp only
    split
    · exact List.suffix_rfl
    · exact (List.drop_suffix _ _).trans (List.suffix_cons _ _)
  · exact List.suffix_rfl

theorem suffix_splitSign (cs : List Char) : (Decimal.splitSign cs).2 <:+ cs := by
  unfold Decimal.splitSign
  split
  · exact List.suffix_cons _ _
  · exact List.suffix_cons _ _
  · exact List.suffix_rfl

theorem suffix_exponent (cs : List Char) : (exponent cs).2 <:+ cs := by
  unfold exponent
  split
  · rename_i e rest
    split
    · dsimp only
      split
      · exact List.suffix_rfl
      · exact ((List.drop_suffix _ _).trans (suffix_splitSign rest)).trans (List.suffix_cons _ _)
    · exact List.suffix_rfl
  · exact List.suffix_rfl

theorem shallow_unsignedNumber {negative : Bool} {cs : List Char}
    {r : Except ReadError (Value × List Char)} (h : unsignedNumber negative cs = some r) :
    Shallow cs r := by
  unfold unsignedNumber at h
  extract_lets whole at h
  have hrest : (exponent (fraction (cs.drop whole.length)).2).2 <:+ cs :=
    ((suffix_exponent _).trans (suffix_fraction _)).trans (List.drop_suffix _ _)
  split at h
  · cases h
  · dsimp only at h
    split at h
    · split at h
      · cases h
        exact shallow_error fun n h => by cases h
      · cases h
        exact shallow_ok _ hrest
    · cases h
      exact shallow_ok _ hrest

theorem suffix_of_word? {cs rest : List Char} {v : Value} (h : word? cs = some (v, rest)) :
    rest <:+ cs := by
  obtain ⟨w, -, hw⟩ := Option.map_eq_some_iff.mp h
  cases hw
  exact List.drop_suffix _ _

theorem shallow_number (cs : List Char) : Shallow cs (number cs) := by
  have hunsigned {negative : Bool} {rest : List Char} (h : rest <:+ cs) :
      Shallow cs ((unsignedNumber negative rest).getD (.error ⟨.value, cs⟩)) := by
    rcases hr : unsignedNumber negative rest with _ | r
    · exact shallow_error fun n h => by cases h
    · exact (shallow_unsignedNumber hr).of_suffix h
  unfold number
  split
  rename_i heq
  split at heq
  · cases heq
    exact hunsigned (List.suffix_cons _ _)
  · cases heq
    exact hunsigned List.suffix_rfl

/-! ## Values -/

/-- The brackets in a text. -/
def brackets (cs : List Char) : Nat := cs.countP fun c => c = '[' || c = '\x7b'

theorem brackets_le {cs cs' : List Char} (h : cs <:+ cs') : brackets cs ≤ brackets cs' :=
  h.sublist.countP_le

theorem brackets_skip_le (cs : List Char) : brackets (skip cs) ≤ brackets cs :=
  brackets_le (skip_suffix cs)

/-- What stands behind a character behind white space is an end of the text too. -/
theorem suffix_of_skip {cs rest behind : List Char} {c : Char} (hrest : rest <:+ cs)
    (h : skip rest = c :: behind) : behind <:+ cs :=
  ((List.suffix_cons c behind).trans (h ▸ skip_suffix rest)).trans hrest

theorem shallow_misplaced {α : Type} {cs rest : List Char} {p : Problem}
    (hp : p = .value ∨ p = .propertyName ∨ p = .colon ∨ p = .comma) :
    Shallow cs (.error ⟨p, rest⟩ : Except ReadError (α × List Char)) := by
  refine shallow_error fun n h => ?_
  subst h
  simp at hp

/-- With so much fuel, nothing nests too deep where no more brackets stand than levels are left. -/
structure ReadsShallow (fuel : Nat) : Prop where
  value {levels : Nat} {cs : List Char} (h : brackets cs ≤ levels) :
    Shallow cs (value levels fuel cs)
  items {levels : Nat} {cs : List Char} (done : List Value) (h : brackets cs ≤ levels) :
    Shallow cs (items levels fuel done cs)
  members {levels : Nat} {cs : List Char} (done : List (String × Value))
    (h : brackets cs ≤ levels) : Shallow cs (members levels fuel done cs)

namespace ReadsShallow

variable {fuel levels : Nat} {cs : List Char} (hless : ReadsShallow fuel)

include hless

/-- Behind a bracket there is one bracket less. -/
theorem value_succ (h : brackets cs ≤ levels) : Shallow cs (Json.value levels (fuel + 1) cs) := by
  unfold Json.value
  split
  · rename_i rest
    have hstring : Shallow rest (string fuel rest) := shallow_stringBody _ fuel [] rest
    rcases hs : string fuel rest with e | ⟨s, rest'⟩
    · exact (hs ▸ hstring).error
    · exact shallow_ok _ ((hstring.suffix _ _ hs).trans (List.suffix_cons _ _))
  · rename_i rest
    have hlevels : brackets rest + 1 ≤ levels := by simpa [brackets] using h
    have hskip := brackets_skip_le rest
    rw [if_neg (by omega)]
    split
    · rename_i rest' hrest
      exact shallow_ok _ (suffix_of_skip (List.suffix_cons _ _) hrest)
    · exact (hless.members _ (by omega)).of_suffix
        ((skip_suffix rest).trans (List.suffix_cons _ _))
  · rename_i rest
    have hlevels : brackets rest + 1 ≤ levels := by simpa [brackets] using h
    have hskip := brackets_skip_le rest
    rw [if_neg (by omega)]
    split
    · rename_i rest' hrest
      exact shallow_ok _ (suffix_of_skip (List.suffix_cons _ _) hrest)
    · exact (hless.items _ (by omega)).of_suffix
        ((skip_suffix rest).trans (List.suffix_cons _ _))
  · split
    · rename_i r hword
      exact shallow_ok r.1 (suffix_of_word? hword)
    · exact shallow_number _

theorem items_succ (done : List Value) (h : brackets cs ≤ levels) :
    Shallow cs (Json.items levels (fuel + 1) done cs) := by
  unfold Json.items
  have hfirst := hless.value h
  rcases hv : Json.value levels fuel cs with e | ⟨v, rest⟩
  · exact (hv ▸ hfirst).error
  · have hrest := hfirst.suffix _ _ hv
    dsimp only
    split
    · rename_i rest' heq
      exact shallow_ok _ (suffix_of_skip hrest heq)
    · rename_i rest' heq
      have hnext : skip rest' <:+ cs := (skip_suffix rest').trans (suffix_of_skip hrest heq)
      exact (hless.items _ (Nat.le_trans (brackets_le hnext) h)).of_suffix hnext
    · exact shallow_misplaced (by simp)

theorem members_succ (done : List (String × Value)) (h : brackets cs ≤ levels) :
    Shallow cs (Json.members levels (fuel + 1) done cs) := by
  unfold Json.members
  split
  · rename_i body
    have hstring : Shallow body (string fuel body) := shallow_stringBody _ fuel [] body
    rcases hs : string fuel body with e | ⟨key, rest⟩
    · exact (hs ▸ hstring).error
    have hrest := (hstring.suffix _ _ hs).trans (List.suffix_cons '"' body)
    dsimp only
    split
    · rename_i rest' heq
      have hbehind : skip rest' <:+ '"' :: body :=
        (skip_suffix rest').trans (suffix_of_skip hrest heq)
      have hinner := hless.value (Nat.le_trans (brackets_le hbehind) h)
      rcases hv : Json.value levels fuel (skip rest') with e | ⟨v, rest''⟩
      · exact (hv ▸ hinner).error
      have hend := (hinner.suffix _ _ hv).trans hbehind
      dsimp only
      split
      · rename_i tail heq'
        exact shallow_ok _ (suffix_of_skip hend heq')
      · rename_i tail heq'
        have hnext : skip tail <:+ '"' :: body :=
          (skip_suffix tail).trans (suffix_of_skip hend heq')
        exact (hless.members _ (Nat.le_trans (brackets_le hnext) h)).of_suffix hnext
      · exact shallow_misplaced (by simp)
    · exact shallow_misplaced (by simp)
  · exact shallow_misplaced (by simp)

end ReadsShallow

theorem readsShallow (fuel : Nat) : ReadsShallow fuel := by
  induction fuel with
  | zero =>
    exact ⟨fun _ => shallow_misplaced (by simp), fun _ _ => shallow_misplaced (by simp),
      fun _ _ => shallow_misplaced (by simp)⟩
  | succ fuel ih => exact ⟨ih.value_succ, ih.items_succ, ih.members_succ⟩

/-- A text with no more brackets than levels does not nest too deep. -/
theorem not_tooDeep_readChars {limit : NestingLimit} {cs : List Char}
    (h : brackets cs ≤ limit.levels) : ¬ TooDeep (readChars limit cs) := by
  unfold readChars
  split
  · rw [tooDeep_error_iff]
    rintro ⟨n, hn⟩
    cases hn
  · have hvalue := (readsShallow (2 * cs.length + 2)).value
      (Nat.le_trans (brackets_skip_le cs) h)
    rcases hv : value limit.levels (2 * cs.length + 2) (skip cs) with e | ⟨v, rest⟩
    · exact fun hdeep => (hv ▸ hvalue).notDeep hdeep.of_error
    · dsimp only
      split
      · exact not_tooDeep_ok v
      · rw [tooDeep_error_iff]
        rintro ⟨n, hn⟩
        cases hn

/-- Such a text is read alike by every reader that has as many levels. -/
theorem readChars_of_brackets_le {limit limit' : NestingLimit} {cs : List Char}
    (h : brackets cs ≤ limit.levels) (h' : brackets cs ≤ limit'.levels) :
    readChars limit cs = readChars limit' cs := by
  rcases Nat.le_total limit.levels limit'.levels with hle | hle
  · exact (readChars_of_le hle cs).resolve_right (not_tooDeep_readChars h)
  · exact ((readChars_of_le hle cs).resolve_right (not_tooDeep_readChars h')).symm

/-! ## Texts that are too deep -/

theorem skip_opened (n : Nat) (rest : List Char) :
    skip (List.replicate (n + 1) '[' ++ rest) = List.replicate (n + 1) '[' ++ rest := by
  rw [List.replicate_succ, List.cons_append]
  exact List.dropWhile_cons_of_neg (by decide)

theorem value_opened (levels fuel : Nat) (rest : List Char) (hfuel : 2 * levels < fuel) :
    value levels fuel (List.replicate (levels + 1) '[' ++ rest) =
      .error ⟨.tooDeep .list, '[' :: rest⟩ := by
  induction levels generalizing fuel with
  | zero =>
    obtain ⟨fuel, rfl⟩ := Nat.exists_eq_add_one_of_ne_zero (Nat.ne_zero_of_lt hfuel)
    rfl
  | succ levels ih =>
    obtain ⟨fuel, rfl⟩ : ∃ n, fuel = n + 2 := ⟨fuel - 2, by omega⟩
    have hinner : items levels (fuel + 1) [] (List.replicate (levels + 1) '[' ++ rest) =
        .error ⟨.tooDeep .list, '[' :: rest⟩ := by
      rw [items, ih fuel (by omega)]
    have hskip := skip_opened levels rest
    rw [List.replicate_succ, List.cons_append] at hinner hskip ⊢
    rw [List.replicate_succ, List.cons_append, value, if_neg (Nat.succ_ne_zero levels), hskip]
    exact hinner

/-- A text that opens with more brackets than levels nests too deep, whatever follows. -/
theorem readChars_opened (limit : NestingLimit) (rest : List Char) :
    readChars limit (List.replicate (limit.levels + 1) '[' ++ rest) =
      .error ⟨.tooDeep .list, '[' :: rest⟩ := by
  have hvalue := value_opened limit.levels
    (2 * (List.replicate (limit.levels + 1) '[' ++ rest).length + 2) rest (by
      rw [List.length_append, List.length_replicate]
      omega)
  unfold readChars
  split
  · rename_i heq
    rw [List.replicate_succ, List.cons_append] at heq
    cases heq
  · rw [skip_opened, hvalue]

/-! ## Documents -/

theorem brackets_unifyLineEnds (cs : List Char) : brackets (unifyLineEnds cs) = brackets cs := by
  induction cs using unifyLineEnds.induct with
  | case1 => rfl
  | case2 cs ih => simpa [unifyLineEnds, brackets] using ih
  | case3 cs hfeed ih => simpa [unifyLineEnds, hfeed, brackets] using ih
  | case4 c cs hpair hreturn ih =>
    rw [unifyLineEnds, brackets, brackets, List.countP_cons, List.countP_cons]
    · exact congrArg (· + _) ih
    · exact hpair
    · exact hreturn

/-- A document with no more brackets than levels does not nest too deep. -/
theorem readDocument_ne_tooDeep {bytes : ByteArray} {s : String} {limit : NestingLimit}
    (hs : decodeUtf8 bytes = .ok s) (h : brackets s.toList ≤ limit.levels) (n : Nesting) :
    readDocument bytes limit ≠ .error (.content (.tooDeep n)) := by
  have hnot : ¬ TooDeep (readChars limit (unifyLineEnds s.toList)) :=
    not_tooDeep_readChars (by rwa [brackets_unifyLineEnds])
  unfold readDocument
  rw [hs]
  dsimp only
  intro herror
  rcases hread : readChars limit (unifyLineEnds s.toList) with e | v
  · rw [hread] at herror hnot
    have hfailure : e.failure (unifyLineEnds s.toList) = .tooDeep n :=
      DocumentError.content.inj (Except.error.inj herror)
    exact hnot (tooDeep_error_iff.mpr ⟨n, failure_eq_tooDeep_iff.mp hfailure⟩)
  · rw [hread] at herror
    cases herror

/-- Such a document is read alike by every reader that has as many levels. -/
theorem readDocument_of_brackets_le {bytes : ByteArray} {s : String} {limit limit' : NestingLimit}
    (hs : decodeUtf8 bytes = .ok s) (h : brackets s.toList ≤ limit.levels)
    (h' : brackets s.toList ≤ limit'.levels) :
    readDocument bytes limit = readDocument bytes limit' := by
  have hsame : readChars limit (unifyLineEnds s.toList) =
      readChars limit' (unifyLineEnds s.toList) :=
    readChars_of_brackets_le (by rwa [brackets_unifyLineEnds]) (by rwa [brackets_unifyLineEnds])
  unfold readDocument
  rw [hs]
  dsimp only
  rw [hsame]

/-- A document that opens with more brackets than levels nests too deep. -/
theorem readDocument_opened (limit : NestingLimit) (rest : List Char) :
    readDocument (String.ofList (List.replicate (limit.levels + 1) '[' ++ rest)).toUTF8 limit =
      .error (.content (.tooDeep .list)) := by
  have hunified (n : Nat) : unifyLineEnds (List.replicate n '[' ++ rest) =
      List.replicate n '[' ++ unifyLineEnds rest := by
    induction n with
    | zero => rfl
    | succ n ih =>
      rw [List.replicate_succ, List.cons_append, unifyLineEnds, ih, List.cons_append]
      · exact fun _ h _ => absurd h (by decide)
      · exact fun h => absurd h (by decide)
  unfold readDocument
  rw [decodeUtf8_eq_ok_iff.mpr rfl]
  dsimp only
  rw [String.toList_ofList, hunified, readChars_opened]
  rfl

end SourceShelf.Json
