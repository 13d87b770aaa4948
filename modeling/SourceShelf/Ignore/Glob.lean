import SourceShelf.Text.Blank
import SourceShelf.Text.Quoted

/-!
# Glob patterns

A pattern is read into a list of parts, each of which takes some characters
from the front of a path: a character, a run of characters, or a group that
may be missing.  `Glob.covers` tells whether the parts take a path to its end.

A pattern with a slash before its end starts at the root, any other one starts
in any folder.  A pattern that covers a folder covers all that is in it, and
one with a slash at its end covers only what is in a folder.
-/

namespace SourceShelf.Ignore

/-- A set of characters. -/
inductive CharSet where
  | only (c : Char)
  | noSlash
  | noNewline
  | ranges (negated : Bool) (items : List (Char × Char))
deriving DecidableEq, Repr, Inhabited

/-- True of the characters in a set. -/
def CharSet.has (s : CharSet) (x : Char) : Bool :=
  match s with
  | only c => x = c
  | noSlash => x ≠ '/'
  | noNewline => x ≠ '\n'
  | ranges negated items => items.any (fun r => r.1 ≤ x && x ≤ r.2) != negated

/-- One character of a set, or any number of them. -/
inductive Atom where
  | one (s : CharSet)
  | many (s : CharSet)
deriving DecidableEq, Repr, Inhabited

/-- An atom, or a group of atoms that may be missing. -/
inductive Part where
  | must (a : Atom)
  | may (group : List Atom)
deriving DecidableEq, Repr, Inhabited

/-- What a run of characters of a set may leave of a text. -/
def runs (s : CharSet) : List Char → List (List Char)
  | [] => [[]]
  | c :: cs => (c :: cs) :: if s.has c then runs s cs else []

/-- What an atom may leave of a text. -/
def Atom.rests : Atom → List Char → List (List Char)
  | one s, c :: cs => if s.has c then [cs] else []
  | one _, [] => []
  | many s, cs => runs s cs

/-- What a part may leave of a text. -/
def Part.rests : Part → List Char → List (List Char)
  | must a, cs => a.rests cs
  | may group, cs => cs :: group.foldl (fun rests a => rests.flatMap a.rests) [cs]

/-- A pattern. -/
abbrev Glob := List Part

/-- True when a pattern takes a text to its end.  A line feed at the end need
not be taken. -/
def Glob.covers : Glob → List Char → Bool
  | [], cs => cs = [] || cs = ['\n']
  | p :: ps, cs => (p.rests cs).any (Glob.covers ps)

/-! ## Reading patterns -/

/-- A range that ends before it starts.  Its place is counted in the regular
expression that a pattern stands for. -/
structure BadRange where
  low : Char
  high : Char
  place : Nat
deriving DecidableEq, Repr, Inhabited

/-- How a character is written in a set of a regular expression. -/
def inSet (c : Char) : String := if c = '\\' then "\\\\" else c.toString

/-- How many characters write a character outside a set. -/
def literalWidth (c : Char) : Nat :=
  if "()[]\x7b\x7d?*+-|^$\\.&~# \t\n\r\x0b\x0c".toList.contains c then 2 else 1

/-- Why a pattern has no meaning. -/
inductive GlobError where
  | invalid (pattern : String)
  | badRange (r : BadRange)
deriving DecidableEq, Repr, Inhabited

/-- The text of the error. -/
def GlobError.message : GlobError → String
  | invalid p => "Invalid git pattern: " ++ quoted p
  | badRange r =>
    "bad character range " ++ inSet r.low ++ "-" ++ inSet r.high ++ " at position " ++
      toString r.place

/-- A character that stands for itself. -/
def literal (c : Char) : Part := .must (.one (.only c))

/-- A slash and all that follows it, which may be missing. -/
def maybeBeneath : Part := .may [.one (.only '/'), .many .noNewline]

/-- A slash and all that follows it. -/
def beneath : List Part := [literal '/', .must (.many .noNewline)]

/-- Any name. -/
def anyName : List Part := [.must (.one .noSlash), .must (.many .noSlash)]

/-- Any folders in front, which may be missing. -/
def maybeFolders : Part := .may [.one .noNewline, .many .noNewline, .one (.only '/')]

/-- Any folders in between, which may be missing. -/
def maybeBetween : Part := .may [.one (.only '/'), .one .noNewline, .many .noNewline]

/-- What stands between brackets, up to the closing one, and what follows it.
A closing bracket that comes first stands for itself. -/
def bracket? : List Char → Option (List Char × List Char)
  | ']' :: cs => (upTo cs).map fun r => (']' :: r.1, r.2)
  | cs => upTo cs
where
  upTo : List Char → Option (List Char × List Char)
    | [] => none
    | ']' :: cs => some ([], cs)
    | c :: cs => (upTo cs).map fun r => (c :: r.1, r.2)

/-- The ranges that stand between brackets, from a place on. -/
def rangesOf (place : Nat) : List Char → Except BadRange (List (Char × Char))
  | a :: '-' :: b :: cs =>
    if b < a then .error ⟨a, b, place⟩
    else (rangesOf (place + (inSet a).length + 1 + (inSet b).length) cs).map ((a, b) :: ·)
  | a :: cs => (rangesOf (place + (inSet a).length) cs).map ((a, a) :: ·)
  | [] => .ok []

/-- What a segment of a pattern is: parts and the place behind them, a bracket
that is never closed, or a backslash at the end. -/
inductive Segment where
  | parts (ps : List Part) (stop : Nat)
  | openBracket
  | openEscape
  | badRange (r : BadRange)
deriving DecidableEq, Repr, Inhabited

/-- A segment with a part in front. -/
def Segment.cons (p : Part) : Segment → Segment
  | parts ps stop => parts (p :: ps) stop
  | s => s

/-- The parts of a segment from a place on.  Fuel as long as the segment is
enough. -/
def segment : Nat → Nat → List Char → Segment
  | 0, place, _ => .parts [] place
  | _ + 1, place, [] => .parts [] place
  | _ + 1, _, ['\\'] => .openEscape
  | fuel + 1, place, '\\' :: c :: cs =>
    (segment fuel (place + literalWidth c) cs).cons (literal c)
  | fuel + 1, place, '*' :: cs => (segment fuel (place + 5) cs).cons (.must (.many .noSlash))
  | fuel + 1, place, '?' :: cs => (segment fuel (place + 4) cs).cons (.must (.one .noSlash))
  | fuel + 1, place, '[' :: cs =>
    let negated := cs.head?.any fun c => c = '!' || c = '^'
    match bracket? (if negated then cs.drop 1 else cs) with
    | none => .openBracket
    | some (inside, rest) =>
      let start := if negated then place + 2 else place + 1
      match rangesOf start inside with
      | .error r => .badRange r
      | .ok items =>
        let stop := start + (String.join (inside.map inSet)).length + 1
        (segment fuel stop rest).cons (.must (.one (.ranges negated items)))
  | fuel + 1, place, c :: cs => (segment fuel (place + literalWidth c) cs).cons (literal c)

/-- Runs of `**` as one. -/
def mergeStars : List String → List String
  | "**" :: "**" :: rest => mergeStars ("**" :: rest)
  | s :: rest => s :: mergeStars rest
  | [] => []

/-- The parts of the segments of a pattern from a place on.  `slash` tells
whether a slash must come before the next name. -/
def assemble (first slash : Bool) (place : Nat) : List String → Except Segment (List Part)
  | [] => .ok []
  | ["**"] => .ok (if first then anyName ++ [maybeBeneath] else beneath)
  | "**" :: rest =>
    if first then (assemble false false (place + 8) rest).map (maybeFolders :: ·)
    else (assemble false true (place + 8) rest).map (maybeBetween :: ·)
  | s :: rest =>
    let start := if slash then place + 1 else place
    let here := if s = "*" then .parts anyName (start + 5) else segment s.length start s.toList
    match here with
    | .parts ps stop =>
      let tail := if rest.isEmpty then [maybeBeneath] else []
      (assemble false true stop rest).map fun more =>
        (if slash then [literal '/'] else []) ++ ps ++ tail ++ more
    | problem => .error problem

/-- A pattern without the blanks at its end, unless they are escaped. -/
def trimPattern (s : String) : String :=
  if s.endsWith "\\ " then s
  else String.ofList (s.toList.reverse.dropWhile isBlank).reverse

/-- The segments of a pattern, anchored at the root: a slash in front is
dropped, and a single name may stand in any folder. -/
def anchored (segments : List String) : List String :=
  match segments with
  | "" :: rest => rest
  | [s] => if s = "**" then [s] else ["**", s]
  | [s, ""] => if s = "**" then [s, ""] else ["**", s, ""]
  | segments => segments

/-- The segments of a pattern with what is in a folder named at its end. -/
def withFolderEnd (segments : List String) : List String :=
  if 1 < segments.length && segments.getLast? = some "" then segments.dropLast ++ ["**"]
  else segments

/-- The glob of a pattern without its sign.  Nothing is what a pattern means
whose bracket is never closed. -/
def globOf (shown : String) (pattern : String) : Except GlobError (Option Glob) :=
  match anchored (mergeStars (pattern.splitOn "/")) with
  | [] => .error (.invalid shown)
  | ["**", ""] => .ok (some ([.must (.one .noNewline), .must (.many .noNewline)] ++ beneath))
  | segments =>
    match assemble true false 1 (withFolderEnd segments) with
    | .ok parts => .ok (some parts)
    | .error (.badRange r) => .error (.badRange r)
    | .error .openEscape => .error (.invalid shown)
    | .error _ => .ok none

end SourceShelf.Ignore
