/-!
# Places in a text

A `Place` counts what stands before it: characters, UTF-8 bytes and line
feeds.  A `Cursor` is a place together with the characters that follow it.
`Cursor.advance` is the only way to move, so the counts of a cursor always
agree with what it has passed (`Place.after_append`).
-/

namespace SourceShelf

/-- A place in a text, by what stands before it. -/
structure Place where
  chars : Nat
  bytes : Nat
  lines : Nat
deriving DecidableEq, Repr, Inhabited

namespace Place

/-- The place before the first character. -/
def origin : Place := ⟨0, 0, 0⟩

/-- The place behind one character. -/
def next (p : Place) (c : Char) : Place :=
  ⟨p.chars + 1, p.bytes + c.utf8Size, if c = '\n' then p.lines + 1 else p.lines⟩

/-- The place behind a run of characters. -/
def after (p : Place) (cs : List Char) : Place :=
  cs.foldl next p

@[simp] theorem after_nil (p : Place) : p.after [] = p := rfl

@[simp] theorem after_cons (p : Place) (c : Char) (cs : List Char) :
    p.after (c :: cs) = (p.next c).after cs := rfl

theorem after_append (p : Place) (cs ds : List Char) :
    p.after (cs ++ ds) = (p.after cs).after ds :=
  List.foldl_append

/-- Passing characters counts each of them once. -/
theorem chars_after (p : Place) (cs : List Char) :
    (p.after cs).chars = p.chars + cs.length := by
  induction cs generalizing p with
  | nil => rfl
  | cons c cs ih => simp only [after_cons, ih, List.length_cons, next]; omega

end Place

/-- A place and the characters that follow it. -/
structure Cursor where
  place : Place
  rest : List Char
deriving Repr, Inhabited

namespace Cursor

/-- The start of a text. -/
def ofString (s : String) : Cursor := ⟨Place.origin, s.toList⟩

/-- Moves over `n` characters, or to the end. -/
def advance : Nat → Cursor → Cursor
  | 0, c => c
  | _ + 1, ⟨p, []⟩ => ⟨p, []⟩
  | n + 1, ⟨p, x :: r⟩ => advance n ⟨p.next x, r⟩

/-- Moves over the characters that satisfy a test. -/
def advanceWhile (test : Char → Bool) (c : Cursor) : Cursor :=
  c.advance (c.rest.takeWhile test).length

/-- True behind the last character. -/
def atEnd (c : Cursor) : Bool := c.rest.isEmpty

theorem advance_eq (n : Nat) (c : Cursor) :
    c.advance n = ⟨c.place.after (c.rest.take n), c.rest.drop n⟩ := by
  obtain ⟨p, r⟩ := c
  induction n generalizing p r with
  | zero => rfl
  | succ n ih =>
    cases r with
    | nil => rfl
    | cons x r => simp [advance, ih]

end Cursor

end SourceShelf
