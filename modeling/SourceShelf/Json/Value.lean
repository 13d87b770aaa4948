/-!
# JSON values

A number written without a point and an exponent is whole and of any size;
every other number is a `Float`.  An object is a list of keys and values in
the order in which the keys first came; a key that comes again replaces the
value (`Value.put`).
-/

namespace SourceShelf.Json

/-- A JSON value. -/
inductive Value where
  | null
  | bool (b : Bool)
  | int (n : Int)
  | float (x : Float)
  | str (s : String)
  | arr (items : List Value)
  | obj (entries : List (String × Value))
deriving Repr, Inhabited

namespace Value

/-- Sets the value of a key.  A new key comes last. -/
def put (entries : List (String × Value)) (key : String) (v : Value) : List (String × Value) :=
  if entries.any (·.1 = key) then
    entries.map fun e => if e.1 = key then (key, v) else e
  else entries ++ [(key, v)]

/-- The object that some keys and values make, one after another. -/
def ofEntries (entries : List (String × Value)) : Value :=
  obj (entries.foldl (fun es e => put es e.1 e.2) [])

/-- The value of a key of an object. -/
def get? (v : Value) (key : String) : Option Value :=
  match v with
  | obj entries => entries.lookup key
  | _ => none

/-- The text of a string. -/
def str? : Value → Option String
  | str s => some s
  | _ => none

/-- The truth value. -/
def bool? : Value → Option Bool
  | bool b => some b
  | _ => none

/-- The whole number. -/
def int? : Value → Option Int
  | int n => some n
  | _ => none

/-- The items of a list. -/
def arr? : Value → Option (List Value)
  | arr vs => some vs
  | _ => none

/-- The entries of an object. -/
def obj? : Value → Option (List (String × Value))
  | obj es => some es
  | _ => none

end Value

end SourceShelf.Json
