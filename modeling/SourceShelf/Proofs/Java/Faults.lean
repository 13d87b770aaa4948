import Mathlib
import SourceShelf.Proofs.Java.Places
import SourceShelf.Proofs.Text.Utf8

/-!
# Where a fault is said to be

A text that does not follow the grammar is refused for its first fault, in the order of all
trees of the text (`Tree.spotsOf`).

* `Tree.firstFaultOf?_eq_find?`: no fault stands before the first one.
* `Tree.searchFault_eq`: a search with a stack finds it, though it opens no tree without
  faults.
* `StandsAt`, `standsAt_place`, `StandsAt.unique`: what line and column say of a place, and
  that they are those of no other place.
* `byteColumn?_eq`: the column from the bytes of the text, however many bytes its characters
  have.
* `Tells.ofFault`: what the message says of a fault.
-/

namespace SourceShelf.Java

/-! ## The first fault -/

namespace Tree

/-- True of a word that was put in, and of what was passed over. -/
def isFault : Tree → Bool
  | missing .. | junk .. | error .. => true
  | leaf .. | node .. => false

mutual

theorem firstFault?_eq_find? (t : Tree) (above : List (Nat × Tree)) (i : Nat) :
    t.firstFault? = ((t.spots above i).find? (·.tree.isFault)).map Spot.tree := by
  match t with
  | .leaf .. => rfl
  | .missing .. => rfl
  | .junk .. => rfl
  | .error .. => rfl
  | .node p parts => exact firstFaultOf?_eq_find? parts _ 0

/-- The first fault is the first of all trees that is one. -/
theorem firstFaultOf?_eq_find? (ts : List Tree) (above : List (Nat × Tree)) (i : Nat) :
    firstFaultOf? ts = ((spotsOf above i ts).find? (·.tree.isFault)).map Spot.tree := by
  match ts with
  | [] => rfl
  | t :: ts =>
    rw [firstFaultOf?, spotsOf, List.find?_append, firstFault?_eq_find? t above i,
      firstFaultOf?_eq_find? ts above (i + 1)]
    cases (t.spots above i).find? (·.tree.isFault) <;> rfl

end

mutual

theorem isSome_firstFault? (t : Tree) : t.firstFault?.isSome = t.isFaulty := by
  match t with
  | .leaf .. => rfl
  | .missing .. => rfl
  | .junk .. => rfl
  | .error .. => rfl
  | .node p parts => exact isSome_firstFaultOf? parts

theorem isSome_firstFaultOf? (ts : List Tree) : (firstFaultOf? ts).isSome = anyFaulty ts := by
  match ts with
  | [] => rfl
  | t :: ts =>
    rw [firstFaultOf?, anyFaulty_cons, Option.isSome_or, isSome_firstFault? t,
      isSome_firstFaultOf? ts]

end

/-- A tree shows a fault if one of the trees in it is one. -/
theorem anyFaulty_iff {ts : List Tree} {above : List (Nat × Tree)} {i : Nat} :
    anyFaulty ts = true ↔ ∃ s ∈ spotsOf above i ts, s.tree.isFault = true := by
  rw [← isSome_firstFaultOf?, firstFaultOf?_eq_find? ts above i, Option.isSome_map,
    List.find?_isSome]

/-! ### The search -/

theorem sum_sizeOf_lt (ts : List Tree) : (ts.map sizeOf).sum < sizeOf ts := by
  induction ts with
  | nil => simp
  | cons t ts ih => simp; omega

/-- A search through the trees on a stack, the first of them next.  The parts of a phrase that
shows a fault are put on the stack in its place; a phrase without faults is passed. -/
def searchFault : List Tree → Option Tree
  | [] => none
  | node _ parts :: stack =>
    if anyFaulty parts then searchFault (parts ++ stack) else searchFault stack
  | leaf .. :: stack => searchFault stack
  | missing w p :: _ => some (missing w p)
  | junk a b :: _ => some (junk a b)
  | error parts :: _ => some (error parts)
termination_by stack => (stack.map sizeOf).sum
decreasing_by
  · have hparts := sum_sizeOf_lt parts
    simp only [List.map_append, List.sum_append, List.map_cons, List.sum_cons, node.sizeOf_spec]
    omega
  all_goals
    simp only [List.map_cons, List.sum_cons, node.sizeOf_spec, leaf.sizeOf_spec]
    omega

theorem firstFaultOf?_append (ts us : List Tree) :
    firstFaultOf? (ts ++ us) = (firstFaultOf? ts).or (firstFaultOf? us) := by
  induction ts with
  | nil => rfl
  | cons t ts ih => rw [List.cons_append, firstFaultOf?, firstFaultOf?, ih, Option.or_assoc]

/-- The search finds the first fault of all trees on the stack. -/
theorem searchFault_eq (stack : List Tree) : searchFault stack = firstFaultOf? stack := by
  fun_induction searchFault stack with
  | case1 => rfl
  | case2 p parts stack hfaulty ih =>
    rw [ih, firstFaultOf?_append, firstFaultOf?, firstFault?]
  | case3 p parts stack hfaultless ih =>
    rw [← isSome_firstFaultOf?, Bool.not_eq_true, Option.isSome_eq_false_iff,
      Option.isNone_iff_eq_none] at hfaultless
    rw [ih, firstFaultOf?, firstFault?, hfaultless, Option.none_or]
  | case4 stack w a b ih => rw [ih, firstFaultOf?, firstFault?, Option.none_or]
  | case5 => rw [firstFaultOf?, firstFault?, Option.some_or]
  | case6 => rw [firstFaultOf?, firstFault?, Option.some_or]
  | case7 => rw [firstFaultOf?, firstFault?, Option.some_or]

end Tree

/-! ## Lines and columns -/

section LastLine

variable {α : Type} [DecidableEq α] {feed : α}

/-- Where a last line starts: behind what ends with a line feed, if it has none itself. -/
structure IsLastLine (feed : α) (front last : List α) : Prop where
  behind : ∀ c ∈ front.getLast?, c = feed
  notMem : feed ∉ last

/-- The last line is what stands behind the last line feed. -/
theorem IsLastLine.eq_takeWhile {front last : List α} (h : IsLastLine feed front last) :
    ((front ++ last).reverse.takeWhile (· != feed)).reverse = last := by
  have hlast : ∀ c ∈ last.reverse, (c != feed) = true := by
    intro c hc
    rw [bne_iff_ne]
    rintro rfl
    exact h.notMem (List.mem_reverse.mp hc)
  have hfront : front.reverse.takeWhile (· != feed) = [] := by
    cases hhead : front.reverse with
    | nil => rfl
    | cons c cs =>
      obtain rfl := h.behind c (by rw [← List.head?_reverse, hhead]; rfl)
      exact List.takeWhile_cons_of_neg (by simp)
  rw [List.reverse_append, List.takeWhile_append_of_pos hlast, hfront, List.append_nil,
    List.reverse_reverse]

theorem exists_isLastLine (feed : α) (l : List α) :
    ∃ front last, l = front ++ last ∧ IsLastLine feed front last := by
  induction l using List.reverseRecOn with
  | nil => exact ⟨[], [], rfl, nofun, List.not_mem_nil⟩
  | append_singleton l c ih =>
    obtain ⟨front, last, rfl, h⟩ := ih
    by_cases hc : c = feed
    · exact ⟨front ++ last ++ [c], [], by simp, by simp [hc], List.not_mem_nil⟩
    · refine ⟨front, last ++ [c], (List.append_assoc ..), h.behind, ?_⟩
      rw [List.mem_append, List.mem_singleton, not_or]
      exact ⟨h.notMem, Ne.symm hc⟩

/-- Last lines that start behind as many line feeds start at the same place. -/
theorem IsLastLine.front_eq {l front last front' last' : List α} (h : IsLastLine feed front last)
    (h' : IsLastLine feed front' last') (hl : front <+: l) (hl' : front' <+: l)
    (hcount : front.count feed = front'.count feed) : front = front' := by
  have hlonger {a b : List α} (hab : a <+: b) (hb : ∀ c ∈ b.getLast?, c = feed)
      (hcount : a.count feed = b.count feed) : a = b := by
    obtain ⟨more, rfl⟩ := hab
    have hmore : feed ∉ more := List.count_eq_zero.mp (by rw [List.count_append] at hcount; omega)
    cases hend : more.getLast? with
    | none => rw [List.getLast?_eq_none_iff.mp hend, List.append_nil]
    | some c =>
      obtain rfl := hb c (by rw [List.getLast?_append, hend]; rfl)
      exact absurd (List.mem_of_getLast? hend) hmore
  rcases List.prefix_or_prefix_of_prefix hl hl' with hle | hle
  · exact hlonger hle h'.behind hcount
  · exact (hlonger hle h.behind hcount.symm).symm

end LastLine

/-- True of a place in the given line and column, both counted from `1`: before it are the
lines before its own, each with a line feed at its end, and the characters of its own. -/
def StandsAt (chars : List Char) (line column place : Nat) : Prop :=
  ∃ front last : List Char, chars.take place = front ++ last ∧ IsLastLine '\n' front last ∧
    line = 1 + (chars.take place).count '\n' ∧ column = 1 + last.length

section Columns

variable {chars : List Char} {line column place place' : Nat}

theorem standsAt_place (chars : List Char) (place : Nat) :
    StandsAt chars (Outline.lineOf chars place) (Outline.columnOf chars place) place := by
  obtain ⟨front, last, hsplit, h⟩ := exists_isLastLine '\n' (chars.take place)
  refine ⟨front, last, hsplit, h, rfl, ?_⟩
  rw [Outline.columnOf, hsplit, ← List.length_reverse, h.eq_takeWhile]

/-- No two places of a text have one line and one column. -/
theorem StandsAt.unique (h : StandsAt chars line column place)
    (h' : StandsAt chars line column place') (hplace : place ≤ chars.length)
    (hplace' : place' ≤ chars.length) : place = place' := by
  obtain ⟨front, last, hsplit, hlast, hline, hcolumn⟩ := h
  obtain ⟨front', last', hsplit', hlast', hline', hcolumn'⟩ := h'
  have hfronts : front = front' := by
    refine hlast.front_eq hlast' (l := chars) ?_ ?_ ?_
    · exact (hsplit ▸ List.prefix_append front last).trans (List.take_prefix place chars)
    · exact (hsplit' ▸ List.prefix_append front' last').trans (List.take_prefix place' chars)
    · rw [hsplit, List.count_append, List.count_eq_zero.mpr hlast.notMem] at hline
      rw [hsplit', List.count_append, List.count_eq_zero.mpr hlast'.notMem] at hline'
      omega
  have hlength := congrArg List.length hsplit
  have hlength' := congrArg List.length hsplit'
  rw [List.length_take, List.length_append] at hlength hlength'
  have := congrArg List.length hfronts
  omega

/-! ### Bytes -/

/-- The bytes of some characters. -/
def utf8Bytes (chars : List Char) : List UInt8 := chars.flatMap String.utf8EncodeChar

/-- The byte at which a character starts. -/
def byteOf (chars : List Char) (place : Nat) : Nat := (utf8Bytes (chars.take place)).length

/-- The line of a byte, counted from `1`. -/
def byteLine (bytes : List UInt8) (place : Nat) : Nat := 1 + (bytes.take place).count 10

/-- The column of a byte, counted from `1`: as many characters as the bytes between the last
line feed and this byte make. -/
def byteColumn? (bytes : List UInt8) (place : Nat) : Option Nat :=
  let line := ((bytes.take place).reverse.takeWhile (· != 10)).reverse
  (decodeUtf8 line.toByteArray).toOption.map fun s => 1 + s.length

theorem utf8Bytes_append (cs ds : List Char) : utf8Bytes (cs ++ ds) =
    utf8Bytes cs ++ utf8Bytes ds :=
  List.flatMap_append

theorem take_byteOf (chars : List Char) (place : Nat) :
    (utf8Bytes chars).take (byteOf chars place) = utf8Bytes (chars.take place) := by
  conv_lhs => rw [← List.take_append_drop place chars, utf8Bytes_append]
  rw [List.take_append_drop, byteOf, List.take_left]

theorem decodeUtf8_utf8Bytes (cs : List Char) :
    decodeUtf8 (utf8Bytes cs).toByteArray = .ok (String.ofList cs) := by
  have hbytes : (utf8Bytes cs).toByteArray = (String.ofList cs).toUTF8 :=
    String.toByteArray_ofList.symm
  rw [hbytes, decodeUtf8_eq_ok_iff.mpr rfl]

/-- The byte of a line feed is in the bytes of no other character. -/
theorem feed_mem_utf8EncodeChar {c : Char} : 10 ∈ String.utf8EncodeChar c ↔ c = '\n' := by
  constructor
  · intro h
    have hchar : c.val.toNat = 10 := by
      unfold String.utf8EncodeChar at h
      dsimp only at h
      repeat' split at h
      all_goals
        simp only [List.mem_cons, List.not_mem_nil, or_false, ← UInt8.toNat_inj,
          UInt8.toNat_ofNat'] at h
        have hten : (10 : UInt8).toNat = 10 := rfl
        omega
    exact Char.ext (UInt32.toNat_inj.mp hchar)
  · rintro rfl
    decide

theorem count_utf8Bytes (cs : List Char) : (utf8Bytes cs).count 10 = cs.count '\n' := by
  induction cs with
  | nil => rfl
  | cons c cs ih =>
    rw [utf8Bytes, List.flatMap_cons, List.count_append, List.count_cons, Nat.add_comm]
    congr 1
    by_cases hc : c = '\n'
    · rw [hc]
      rfl
    · rw [List.count_eq_zero.mpr (feed_mem_utf8EncodeChar.not.mpr hc)]
      simp [hc]

/-- What is the last line in characters is the last line in bytes. -/
theorem IsLastLine.bytes {front last : List Char} (h : IsLastLine '\n' front last) :
    IsLastLine 10 (utf8Bytes front) (utf8Bytes last) where
  behind := by
    rcases List.eq_nil_or_concat front with rfl | ⟨cs, c, rfl⟩
    · nofun
    · obtain rfl := h.behind c (by simp)
      rw [List.concat_eq_append, utf8Bytes_append]
      intro b hb
      simpa [utf8Bytes, String.utf8EncodeChar] using hb.symm
  notMem := by
    rw [← List.count_eq_zero, count_utf8Bytes, List.count_eq_zero]
    exact h.notMem

theorem byteLine_eq (chars : List Char) (place : Nat) :
    byteLine (utf8Bytes chars) (byteOf chars place) = Outline.lineOf chars place := by
  rw [byteLine, take_byteOf, count_utf8Bytes, Outline.lineOf]

theorem byteColumn?_eq (chars : List Char) (place : Nat) :
    byteColumn? (utf8Bytes chars) (byteOf chars place) = some (Outline.columnOf chars place) := by
  obtain ⟨front, last, hsplit, h, -, hcolumn⟩ := standsAt_place chars place
  unfold byteColumn?
  dsimp only
  rw [take_byteOf, hsplit, utf8Bytes_append, h.bytes.eq_takeWhile, decodeUtf8_utf8Bytes, hcolumn,
    Except.toOption, Option.map_some, String.length_ofList]

end Columns

/-! ## Messages -/

/-- What a message says of a fault: the word that is missing, or the start of the first line of
what was passed over. -/
inductive Tells (chars : List Char) : Tree → String → Prop
  | missing (w : Token) (place : Nat) :
      Tells chars (.missing w place) ("Java syntax error: missing " ++ quoted w.name)
  | near {t : Tree} {line : String} {rest : List String} (hword : t.word? = none)
      (hlines : splitLines (Outline.textOf chars t) = line :: rest) :
      Tells chars t ("Java syntax error near " ++ quoted (String.ofList (line.toList.take 40)))
  | empty {t : Tree} (hword : t.word? = none) (htext : Outline.textOf chars t = "") :
      Tells chars t ("Java syntax error near " ++ quoted "")

/-- A text that is not empty has a first line. -/
theorem splitLines_ne_nil {text : String} (h : text ≠ "") : splitLines text ≠ [] := by
  have hchars : text.toList ≠ [] := fun hnil => h (String.toList_eq_nil_iff.mp hnil)
  rw [splitLines, ne_eq, List.map_eq_nil_iff]
  generalize text.toList = cs at hchars
  fun_cases splitLineChars cs with
  | case1 => exact absurd rfl hchars
  | _ => exact List.cons_ne_nil _ _

/-- What a message says of a stretch that was passed over. -/
theorem Tells.passed {t : Tree} {chars : List Char} (hword : t.word? = none) :
    Tells chars t ("Java syntax error near " ++
      quoted (String.ofList
        (((splitLines (Outline.textOf chars t)).headD "").toList.take 40))) := by
  by_cases htext : Outline.textOf chars t = ""
  · have hshown : String.ofList (((splitLines "").headD "").toList.take 40) = "" := rfl
    rw [htext, hshown]
    exact .empty hword htext
  · obtain ⟨line, rest, hlines⟩ := List.exists_cons_of_ne_nil (splitLines_ne_nil htext)
    rw [hlines, List.headD_cons]
    exact .near hword hlines

theorem Tells.ofFault {t : Tree} (chars : List Char) (h : t.isFault = true) :
    Tells chars t (SyntaxProblem.ofFault chars t).message := by
  cases t with
  | missing w place => exact .missing w place
  | junk a b => exact .passed rfl
  | error parts => exact .passed rfl
  | leaf => cases h
  | node => cases h

/-! ## Refused texts -/

/-- The first fault of a text, in the order of all trees. -/
structure IsFirstFault (parts : List Tree) (s : Spot) : Prop where
  isFault : s.tree.isFault = true
  first : ∃ front back, Tree.spotsOf [] 0 parts = front ++ s :: back ∧
    ∀ r ∈ front, r.tree.isFault = false

section Refused

variable {text : String}

theorem exists_isFirstFault {parts : List Tree}
    (h : ∃ s ∈ Tree.spotsOf [] 0 parts, s.tree.isFault = true) :
    ∃ s, IsFirstFault parts s ∧ Tree.firstFaultOf? parts = some s.tree := by
  obtain ⟨s, hs⟩ := Option.isSome_iff_exists.mp (List.find?_isSome.mpr h)
  obtain ⟨hfault, front, back, hsplit, hfront⟩ := List.find?_eq_some_iff_append.mp hs
  refine ⟨s, ⟨hfault, front, back, hsplit, fun r hr => by simpa using hfront r hr⟩, ?_⟩
  rw [Tree.firstFaultOf?_eq_find? parts [] 0, hs, Option.map_some]

/-- Trees start inside the text. -/
theorem SyntaxTree.start_le (tree : SyntaxTree text) {s : Spot}
    (hs : s ∈ Tree.spotsOf [] 0 tree.parts) : s.tree.start ≤ text.length := by
  obtain ⟨horder, hbounds⟩ := Tree.laidOut_inOrder tree.laidOut
  have hsub := (Tree.spotsOf_within tree.parts [] 0 s hs).1
  rw [Tree.start, Tree.start?_eq]
  cases hleaves : s.tree.leaves with
  | nil => exact Nat.zero_le _
  | cons x rest =>
    have hx : x ∈ Tree.leavesOf tree.parts := hsub.subset (hleaves ▸ List.mem_cons_self)
    exact (horder.forward x hx).trans (hbounds x hx).2

/-- A text whose tree shows a fault is refused for the first one, wherever a search looks for
it.  The line and the column that are reported are those of the place where the fault starts,
and of no other place of the text; they are counted in characters, and come to the same when
they are counted in bytes up to the last line feed and in characters behind it. -/
theorem syntax_error_located (tree : SyntaxTree text) (path : Option String) (locals : Bool)
    (hfaulty : ∃ s ∈ Tree.spotsOf [] 0 tree.parts, s.tree.isFault = true) :
    ∃ s message, ∃ line column : Nat,
      (IsFirstFault tree.parts s ∧
        Tree.searchFault [.node .program tree.parts] = some s.tree) ∧
      tree.read path locals = .error (.parse message path (some line) (some column)) ∧
      (tree = SyntaxTree.ofText text →
        parse text path locals = .error (.parse message path (some line) (some column))) ∧
      Tells text.toList s.tree message ∧
      (s.tree.start ≤ text.length ∧ StandsAt text.toList line column s.tree.start ∧
        ∀ place ≤ text.length, StandsAt text.toList line column place → place = s.tree.start) ∧
      byteLine (utf8Bytes text.toList) (byteOf text.toList s.tree.start) = line ∧
      byteColumn? (utf8Bytes text.toList) (byteOf text.toList s.tree.start) = some column := by
  obtain ⟨s, hfirst, hfound⟩ := exists_isFirstFault hfaulty
  have hs : s ∈ Tree.spotsOf [] 0 tree.parts := by
    obtain ⟨front, back, hsplit, -⟩ := hfirst.first
    exact hsplit ▸ List.mem_append_right _ List.mem_cons_self
  have hread : tree.read path locals = .error (.parse
      (SyntaxProblem.ofFault text.toList s.tree).message path
      (some (Outline.lineOf text.toList s.tree.start))
      (some (Outline.columnOf text.toList s.tree.start))) := by
    rw [SyntaxTree.read, SyntaxTree.firstFault?, hfound]
  have hstands := standsAt_place text.toList s.tree.start
  have hinside : s.tree.start ≤ text.toList.length :=
    String.length_toList ▸ tree.start_le hs
  refine ⟨s, _, _, _, ⟨hfirst, ?_⟩, hread, ?_, .ofFault _ hfirst.isFault,
    ⟨tree.start_le hs, hstands, ?_⟩, byteLine_eq _ _, byteColumn?_eq _ _⟩
  · rw [Tree.searchFault_eq, Tree.firstFaultOf?, Tree.firstFault?, hfound, Option.some_or]
  · rintro rfl
    exact hread
  · intro place hplace h
    exact h.unique hstands (String.length_toList ▸ hplace) hinside

/-- A comment, and in the second line a declaration with a sign in it that starts no word: the
tree has the sign as a fault between the name and the semicolon. -/
def strayTree : SyntaxTree "/*é*/\nß é #;" where
  parts :=
    [.leaf .blockComment 0 5,
      .node .localVariableDeclaration
        [.leaf .typeIdentifier 6 7, .node .variableDeclarator [.leaf .identifier 8 9],
          .error [.junk 10 11], .leaf .semicolon 11 12]]
  laidOut := by decide

/-- The sign stands in the fifth column, though six bytes of its line are before it. -/
theorem syntax_error_located_stray :
    strayTree.read none true =
        .error (.parse "Java syntax error near '#'" none (some 2) (some 5)) ∧
      ∀ place ≤ 12, StandsAt "/*é*/\nß é #;".toList 2 5 place → place = 10 := by
  have hfaulty : ∃ s ∈ Tree.spotsOf [] 0 strayTree.parts, s.tree.isFault = true :=
    Tree.anyFaulty_iff.mp rfl
  obtain ⟨s, message, line, column, ⟨-, hsearch⟩, hread, -, -, ⟨-, -, hunique⟩, -⟩ :=
    syntax_error_located strayTree none true hfaulty
  have hs : s.tree = .error [.junk 10 11] := by
    rw [Tree.searchFault_eq] at hsearch
    exact (Option.some_inj.mp hsearch).symm
  have hreported : strayTree.read none true =
      .error (.parse "Java syntax error near '#'" none (some 2) (some 5)) := by
    rfl
  rw [hreported] at hread
  simp only [Except.error.injEq, Failure.parse.injEq, Option.some.injEq] at hread
  obtain ⟨-, -, hline, hcolumn⟩ := hread
  obtain rfl : line = 2 := by omega
  obtain rfl : column = 5 := by omega
  rw [hs] at hunique
  exact ⟨hreported, hunique⟩

end Refused

end SourceShelf.Java
