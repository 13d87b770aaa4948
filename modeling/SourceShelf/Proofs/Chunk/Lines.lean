import SourceShelf.Chunk.Output
import SourceShelf.Proofs.Json.Keys
import SourceShelf.Proofs.Json.Numbers
import SourceShelf.Proofs.Text.Pieces

/-!
# Chunks on lines

Chunks that are written as JSON Lines can be told from what is written, whatever
their texts and symbols are.

* `Chunk.not_mem_line`: a chunk takes one line, since the writer leaves no line feed
  in it.
* `Chunk.read_line`: the line holds the chunk's fields, if the reader takes the
  numerals of its lines, and cannot be read otherwise.
* `Chunk.line_inj`: no two chunks have the same line, whatever their numerals are.
* `jsonLines_lossless`: all chunks.
-/

namespace SourceShelf

open Json

namespace Chunk

/-! ## One chunk -/

/-- The line of a chunk, without the line feed at its end. -/
def line (c : Chunk) : String := Layout.line.text c.toJson

/-- The text of a value that may be missing. -/
def optionText (s : Option String) : String := s.elim "null" (stringText false)

/-- The keys and texts of the fields. -/
def fieldTexts (c : Chunk) : List (String × String) :=
  [("symbol", optionText c.symbol), ("kind", stringText false c.kind.name),
    ("start_line", toString c.startLine), ("end_line", toString c.endLine),
    ("text", stringText false c.text)]

theorem line_eq (c : Chunk) :
    c.line = bracketed .line "\x7b" "\x7d" 0 (c.fieldTexts.map (entryText false)) := by
  have hsymbol : textAt .line 1 (c.symbol.elim .null .str) = optionText c.symbol := by
    cases c.symbol <;> rfl
  rw [fieldTexts, ← hsymbol]
  rfl

/-- What an object says about a chunk. -/
structure ToldBy (c : Chunk) (v : Value) : Prop where
  symbol : v.get? "symbol" = some (c.symbol.elim .null .str)
  kind : v.get? "kind" = some (.str c.kind.name)
  startLine : v.get? "start_line" = some (.int c.startLine)
  endLine : v.get? "end_line" = some (.int c.endLine)
  text : v.get? "text" = some (.str c.text)

/-- The reader takes the numerals of both lines. -/
def NumeralsFit (c : Chunk) : Prop :=
  digitCount c.startLine ≤ Decimal.maxDigits ∧ digitCount c.endLine ≤ Decimal.maxDigits

/-- What is read on the line of a chunk, by every reader. -/
structure StandsOn (c : Chunk) (line : String) : Prop where
  read : c.NumeralsFit → ∃ v, c.ToldBy v ∧ ∀ limit, Json.read line limit = .ok v
  refused : ¬ c.NumeralsFit → ∀ limit, ∃ message, Json.read line limit = .error message

theorem toldBy_toJson (c : Chunk) : c.ToldBy c.toJson := ⟨rfl, rfl, rfl, rfl, rfl⟩

theorem reads_optionText (levels : Nat) (s : Option String) :
    Reads levels (optionText s).toList (s.elim .null .str) := by
  cases s with
  | none => exact reads_null levels
  | some s => exact reads_stringText levels false s

theorem head?_line (c : Chunk) : c.line.toList.head? ≠ some '\ufeff' := by
  rw [line_eq, head?_bracketed]
  decide

theorem reads_line (levels : Nat) {c : Chunk} (h : c.NumeralsFit) :
    Reads (levels + 1) c.line.toList c.toJson := by
  have hentries : List.Forall₂ (ReadsEntry levels) c.fieldTexts
      [("symbol", c.symbol.elim .null .str), ("kind", .str c.kind.name),
        ("start_line", .int c.startLine), ("end_line", .int c.endLine), ("text", .str c.text)] :=
    .cons ⟨rfl, reads_optionText levels c.symbol⟩ <|
      .cons ⟨rfl, reads_stringText levels false c.kind.name⟩ <|
      .cons ⟨rfl, reads_toString levels h.1⟩ <|
      .cons ⟨rfl, reads_toString levels h.2⟩ <|
      .cons ⟨rfl, reads_stringText levels false c.text⟩ .nil
  have hkeys (a b d e f : Value) : ([("symbol", a), ("kind", b), ("start_line", d),
      ("end_line", e), ("text", f)].map Prod.fst).Nodup :=
    (by decide : ["symbol", "kind", "start_line", "end_line", "text"].Nodup)
  have hreads := reads_bracketed .line 0 hentries
  rw [Value.ofEntries_of_nodup (hkeys _ _ _ _ _)] at hreads
  rw [line_eq]
  exact hreads

theorem refused_line (levels : Nat) {c : Chunk} (h : ¬ c.NumeralsFit) :
    Refused (levels + 1) c.line.toList := by
  have hsymbol : ∃ v, Reads levels (optionText c.symbol).toList v :=
    ⟨_, reads_optionText levels c.symbol⟩
  have hkind : ∃ v, Reads levels (stringText false c.kind.name).toList v :=
    ⟨_, reads_stringText levels false c.kind.name⟩
  rw [line_eq]
  by_cases hstart : digitCount c.startLine ≤ Decimal.maxDigits
  · have hend : Decimal.maxDigits < digitCount c.endLine :=
      Nat.not_le.mp fun hend => h ⟨hstart, hend⟩
    have hfront : ∀ e ∈ [("symbol", optionText c.symbol), ("kind", stringText false c.kind.name),
        ("start_line", toString c.startLine)], ∃ v, Reads levels e.2.toList v := by
      simpa using ⟨hsymbol, hkind, _, reads_toString levels hstart⟩
    have hfields : c.fieldTexts = [("symbol", optionText c.symbol),
        ("kind", stringText false c.kind.name), ("start_line", toString c.startLine)] ++
        ("end_line", toString c.endLine) :: [("text", stringText false c.text)] := rfl
    have hrefused : Refused levels (toString c.endLine).toList := refused_toString levels hend
    rw [hfields]
    exact refused_bracketed .line 0 hfront hrefused
  · have hfront : ∀ e ∈ [("symbol", optionText c.symbol), ("kind", stringText false c.kind.name)],
        ∃ v, Reads levels e.2.toList v := by
      simpa using ⟨hsymbol, hkind⟩
    have hfields : c.fieldTexts =
        [("symbol", optionText c.symbol), ("kind", stringText false c.kind.name)] ++
        ("start_line", toString c.startLine) ::
          [("end_line", toString c.endLine), ("text", stringText false c.text)] := rfl
    have hrefused : Refused levels (toString c.startLine).toList :=
      refused_toString levels (Nat.not_le.mp hstart)
    rw [hfields]
    exact refused_bracketed .line 0 hfront hrefused

/-- What is read on the line of a chunk. -/
theorem standsOn_line (c : Chunk) : c.StandsOn c.line where
  read h := by
    refine ⟨c.toJson, c.toldBy_toJson, fun limit => ?_⟩
    obtain ⟨n, hn⟩ := limit.exists_levels
    have hreads : Reads limit.levels c.line.toList c.toJson := hn ▸ reads_line (n + 1) h
    rw [Json.read, readChars_of_reads hreads c.head?_line]
    rfl
  refused h limit := by
    obtain ⟨n, hn⟩ := limit.exists_levels
    have hrefused : Refused limit.levels c.line.toList := hn ▸ refused_line (n + 1) h
    obtain ⟨e, he⟩ := readChars_of_refused hrefused
    exact ⟨_, by rw [Json.read, he]; rfl⟩

/-! ## Two chunks -/

theorem delimited_optionText : Delimited optionText := by
  intro s t rest rest' _ _ h
  cases s with
  | none =>
    cases t with
    | none => exact ⟨rfl, List.append_cancel_left h⟩
    | some t =>
      rw [optionText, optionText, Option.elim_none, Option.elim_some, toList_stringText] at h
      cases h
  | some s =>
    cases t with
    | none =>
      rw [optionText, optionText, Option.elim_none, Option.elim_some, toList_stringText] at h
      cases h
    | some t =>
      obtain ⟨rfl, hrest⟩ := stringText_append_inj h
      exact ⟨rfl, hrest⟩

theorem delimited_kindText : Delimited fun k : ChunkKind => stringText false k.name := by
  intro k l rest rest' _ _ h
  obtain ⟨hname, hrest⟩ := stringText_append_inj h
  have hkind := congrArg ChunkKind.ofName? hname
  rw [ChunkKind.ofName?_name, ChunkKind.ofName?_name] at hkind
  exact ⟨Option.some.inj hkind, hrest⟩

/-- The line of a chunk, field by field. -/
theorem toList_line (c : Chunk) :
    c.line.toList = '\x7b' :: ((entryText false ("symbol", optionText c.symbol)).toList ++
      ',' :: ' ' :: ((entryText false ("kind", stringText false c.kind.name)).toList ++
      ',' :: ' ' :: ((entryText false ("start_line", toString c.startLine)).toList ++
      ',' :: ' ' :: ((entryText false ("end_line", toString c.endLine)).toList ++
      ',' :: ' ' :: ((entryText false ("text", stringText false c.text)).toList ++
      ['\x7d']))))) := by
  have hentries : c.line = "\x7b" ++ entriesText false " " c.fieldTexts ++ "\x7d" := by
    rw [line_eq]
    rfl
  rw [hentries, fieldTexts]
  simp [toList_entriesText_cons, entriesText_singleton]

/-- A field in front of others can be told from its text, and so can the others. -/
theorem field_inj {α : Type} {text : α → String} (h : Delimited text) (key : String) {x y : α}
    {rest rest' : List Char}
    (heq : (entryText false (key, text x)).toList ++ ',' :: ' ' :: rest =
      (entryText false (key, text y)).toList ++ ',' :: ' ' :: rest') : x = y ∧ rest = rest' := by
  obtain ⟨hvalue, hrest⟩ := delimited_entryText h key x y _ _ (by simp) (by simp) heq
  rw [List.cons.injEq, List.cons.injEq] at hrest
  exact ⟨hvalue, hrest.2.2⟩

/-- No two chunks have the same line. -/
theorem line_inj {c c' : Chunk} (h : c.line = c'.line) : c = c' := by
  have hchars := congrArg String.toList h
  rw [toList_line, toList_line, List.cons.injEq] at hchars
  obtain ⟨hsymbol, hkinds⟩ := field_inj delimited_optionText "symbol" hchars.2
  obtain ⟨hkind, hstarts⟩ := field_inj delimited_kindText "kind" hkinds
  obtain ⟨hstart, hends⟩ := field_inj delimited_toString "start_line" hstarts
  obtain ⟨hend, htexts⟩ := field_inj delimited_toString "end_line" hends
  obtain ⟨htext, -⟩ := delimited_entryText (delimited_stringText false) "text" c.text c'.text
    _ _ (by simp) (by simp) htexts
  cases c
  cases c'
  simp only [Chunk.mk.injEq]
  exact ⟨htext, hkind, hstart, hend, hsymbol⟩

/-- A chunk takes one line. -/
theorem not_mem_line (c : Chunk) : '\n' ∉ c.line.toList := by
  have hcontrol : ('\n').toNat ≤ 0x1F := by decide
  have hstring (s : String) : '\n' ∉ (stringText false s).toList :=
    control_not_mem_stringText hcontrol false s
  have hoption : '\n' ∉ (optionText c.symbol).toList := by
    cases c.symbol with
    | none => decide
    | some s => exact hstring s
  have hnumeral (n : Int) : '\n' ∉ (toString n).toList := by
    have hdigits : '\n' ∉ Nat.toDigits 10 n.natAbs := fun h =>
      absurd (isDigit_of_mem_toDigits h) (by decide)
    rcases toString_cases n with ⟨-, htext⟩ | ⟨-, htext⟩
    · rw [htext, List.mem_cons, not_or]
      exact ⟨by decide, hdigits⟩
    · rw [htext]
      exact hdigits
  have hentry (key text : String) (h : '\n' ∉ text.toList) :
      '\n' ∉ (entryText false (key, text)).toList := by
    simpa [toList_entryText] using ⟨hstring key, h⟩
  rw [toList_line]
  simp only [List.mem_cons, List.mem_append, List.not_mem_nil, or_false, not_or, Char.reduceEq,
    not_false_eq_true, true_and]
  exact ⟨hentry _ _ hoption, hentry _ _ (hstring c.kind.name), hentry _ _ (hnumeral c.startLine),
    hentry _ _ (hnumeral c.endLine), hentry _ _ (hstring c.text)⟩

end Chunk

/-! ## All chunks -/

/-- The output is split into the lines of the chunks and an empty rest. -/
theorem splitOn_writtenChunks (cs : List Chunk) :
    (writtenChunks .jsonLines cs).splitOn "\n" = cs.map Chunk.line ++ [""] := by
  have hsplit (s : String) : s.splitOn "\n" = (s.toList.splitOn '\n').map String.ofList :=
    splitOn_singleton s '\n'
  rw [hsplit]
  induction cs with
  | nil => rfl
  | cons c cs ih =>
    have hchars : (writtenChunks .jsonLines (c :: cs)).toList =
        c.line.toList ++ '\n' :: (writtenChunks .jsonLines cs).toList := by
      simp [writtenChunks, Chunk.written, Chunk.jsonLine, Chunk.line]
    rw [hchars, List.splitOn_append_cons_self_of_not_mem c.not_mem_line, List.map_cons, ih,
      String.ofList_toList]
    rfl

/-- What is written for some chunks has a line for each of them that tells what the
chunk is, and an empty rest.  So it tells which chunks they are. -/
theorem jsonLines_lossless (cs : List Chunk) :
    (∃ lines, (writtenChunks .jsonLines cs).splitOn "\n" = lines ++ [""] ∧
      List.Forall₂ Chunk.StandsOn cs lines) ∧
    ∀ cs', writtenChunks .jsonLines cs' = writtenChunks .jsonLines cs → cs' = cs := by
  refine ⟨⟨cs.map Chunk.line, splitOn_writtenChunks cs, ?_⟩, fun cs' h => ?_⟩
  · rw [List.forall₂_map_right_iff]
    exact List.forall₂_same.mpr fun c _ => c.standsOn_line
  · have hlines : cs'.map Chunk.line ++ [""] = cs.map Chunk.line ++ [""] := by
      rw [← splitOn_writtenChunks, ← splitOn_writtenChunks, h]
    have hinj : Function.Injective Chunk.line := fun _ _ => Chunk.line_inj
    exact hinj.list_map (List.append_cancel_right hlines)

end SourceShelf
