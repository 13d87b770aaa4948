import SourceShelf.Decimal.Numeral
import SourceShelf.Json.Value
import SourceShelf.Settings.Options

/-!
# Vectors

An embedding comes as a list of JSON values.  `Vector.ofEmbedding` makes the
vector of single precision numbers that is stored: numbers are rounded, a text
is read as a number, nothing is no number, and lists must have one shape.

`cosine` is the cosine of the angle between two vectors of one dimension.
-/

namespace SourceShelf

/-- What an embedder gives for a text. -/
abbrev Embedding := List Json.Value

/-- Numbers and how many items the list had from which they come. -/
structure Vector where
  extent : Nat
  values : List Float32
deriving Repr, Inhabited

/-- Why an embedding is no vector. -/
inductive VectorError where
  | text (s : String)
  | number (e : NumberError)
  | entries
  | ragged (shape : List Nat)
deriving DecidableEq, Repr, Inhabited

namespace VectorError

/-- The sizes of a shape. -/
def shapeText : List Nat → String
  | [n] => "(" ++ toString n ++ ",)"
  | ns => "(" ++ ", ".intercalate (ns.map toString) ++ ")"

/-- The text of the error. -/
def message : VectorError → String
  | text s => "could not convert string to float: " ++ quoted s
  | number e => e.message
  | entries => "float() argument must be a string or a real number, not 'dict'"
  | ragged shape =>
    "setting an array element with a sequence. " ++
      "The requested array has an inhomogeneous shape after " ++
      toString shape.length ++ " dimensions. The detected shape was " ++ shapeText shape ++
      " + inhomogeneous part."

end VectorError

namespace Vector

/-- What two lists start with. -/
def commonPrefix : List Nat → List Nat → List Nat
  | a :: as, b :: bs => if a = b then a :: commonPrefix as bs else []
  | _, _ => []

mutual

/-- The sizes that all lists in a value have, level by level, and whether the
lists go no deeper than that. -/
def shape : Json.Value → List Nat × Bool
  | .arr vs =>
    match shapes vs with
    | none => ([vs.length], true)
    | some (ns, even) => (vs.length :: ns, even)
  | _ => ([], true)

/-- The shape that some values share. -/
def shapes : List Json.Value → Option (List Nat × Bool)
  | [] => none
  | v :: vs =>
    let (ns, even) := shape v
    match shapes vs with
    | none => some (ns, even)
    | some (ms, even') => some (commonPrefix ns ms, even && even' && ns == ms)

end

/-- A number of single precision. -/
def single (x : Float) : Float32 := x.toFloat32

/-- A value that is no list, as a number. -/
def scalar : Json.Value → Except VectorError Float32
  | .null => .ok (single (0.0 / 0.0))
  | .bool b => .ok (if b then 1.0 else 0.0)
  | .int n => ((floatOfInt n).mapError .number).map single
  | .float x => .ok (single x)
  | .str s =>
    match Decimal.real? s with
    | some x => .ok (single x)
    | none => .error (.text s)
  | .arr _ | .obj _ => .error .entries

mutual

/-- The numbers in a value. -/
def numbers : Json.Value → Except VectorError (List Float32)
  | .arr vs => numbersOf vs
  | .obj es => (scalar (.obj es)).map fun x => [x]
  | .null => (scalar .null).map fun x => [x]
  | .bool b => (scalar (.bool b)).map fun x => [x]
  | .int n => (scalar (.int n)).map fun x => [x]
  | .float x => (scalar (.float x)).map fun x => [x]
  | .str s => (scalar (.str s)).map fun x => [x]

/-- The numbers in some values. -/
def numbersOf : List Json.Value → Except VectorError (List Float32)
  | [] => .ok []
  | v :: vs =>
    match numbers v with
    | .error e => .error e
    | .ok xs => (numbersOf vs).map (xs ++ ·)

end

/-- The vector of an embedding. -/
def ofEmbedding (e : Embedding) : Except VectorError Vector :=
  match shape (.arr e) with
  | (ns, false) => .error (.ragged ns)
  | (_, true) => (numbersOf e).map fun xs => ⟨e.length, xs⟩

/-- How many numbers a vector has. -/
def size (v : Vector) : Nat := v.values.length

/-- The sum of the products of numbers that stand at the same place. -/
def dot (xs ys : List Float32) : Float32 :=
  (xs.zip ys).foldl (fun s p => s + p.1 * p.2) 0.0

/-- The length of a vector, or a very small number if that is larger. -/
def norm (xs : List Float32) : Float32 :=
  let n := (dot xs xs).sqrt
  if n < 1e-12 then 1e-12 else n

/-- A vector of length one with the same direction. -/
def normalized (xs : List Float32) : List Float32 :=
  let n := norm xs
  xs.map (· / n)

/-- The cosine of the angle between two vectors. -/
def cosine (a b : Vector) : Float32 := dot (normalized a.values) (normalized b.values)

end Vector

end SourceShelf
