import SourceShelf.Action
import SourceShelf.Log
import SourceShelf.Store.Record

/-!
# The store

A store is a list of rows in the order in which they were written.  A row
replaces the one with the same identity and comes last.  Several records are
written together or not at all.
-/

namespace SourceShelf

/-- Why an operation on a store fails. -/
inductive StoreError where
  | vector (e : VectorError)
  | lineTooLarge
  | closed
  | notStore
  | unopened
  | refused (message : String)
deriving DecidableEq, Repr, Inhabited

/-- The text of the error. -/
def StoreError.message : StoreError → String
  | vector e => e.message
  | lineTooLarge => "Python int too large to convert to SQLite INTEGER"
  | closed => "Cannot operate on a closed database."
  | notStore => "file is not a database"
  | unopened => "unable to open database file"
  | refused m => m

/-- Stored rows. -/
structure Store where
  rows : List Row := []
deriving Repr, Inhabited

/-- What a store holds, in numbers.  `kinds` counts the chunks of each kind,
`extents` lists the sizes of the vectors. -/
structure StoreStats where
  chunks : Nat
  files : Nat
  kinds : List (String × Nat)
  extents : List Nat
deriving DecidableEq, Repr, Inhabited

/-- The items of a list, each at its first place. -/
def distinct {α : Type} [BEq α] (xs : List α) : List α :=
  xs.foldl (fun ys x => if ys.contains x then ys else ys ++ [x]) []

namespace Store

/-- Writes a row. -/
def insert (s : Store) (r : Row) : Store :=
  { rows := s.rows.filter (·.chunkId ≠ r.chunkId) ++ [r] }

/-- The rows of some records. -/
def rowsOf (records : List ChunkRecord) : Except StoreError (List Row) :=
  (records.mapM Row.ofRecord).mapError .vector

/-- Writes some rows. -/
def insertAll (s : Store) (rows : List Row) : Except StoreError Store :=
  if rows.all Row.storable then .ok (rows.foldl insert s) else .error .lineTooLarge

/-- The rows of a file. -/
def rowsOfFile (s : Store) (path : String) : List Row := s.rows.filter (·.filePath = path)

/-- Removes the rows of a file. -/
def deleteFile (s : Store) (path : String) : Store :=
  { rows := s.rows.filter (·.filePath ≠ path) }

/-- What a store holds, in numbers. -/
def stats (s : Store) : StoreStats :=
  let kinds := (distinct (s.rows.map (·.kind))).mergeSort fun a b => !(b < a)
  { chunks := s.rows.length
    files := (distinct (s.rows.map (·.filePath))).length
    kinds := kinds.map fun k => (k, s.rows.countP (·.kind = k))
    extents := distinct (s.rows.map (·.vector.extent)) }

/-! ## Search -/

/-- The `k` best rows, or the best one if `k` is not positive.  `notBelow a b`
says that the score `a` is as good as `b`; of two rows with scores that are as
good as each other the one written first comes first. -/
def best {κ : Type} (notBelow : κ → κ → Bool) (score : Row → κ) (k : Int) (rows : List Row) :
    List (Row × κ) :=
  ((rows.map fun r => (r, score r)).mergeSort fun a b => notBelow a.2 b.2).take (max 1 k).toNat

/-- The rows whose vectors have a given number of numbers. -/
def rowsOfSize (s : Store) (size : Nat) : List Row := s.rows.filter (·.vector.size = size)

/-- The order of scores.  What is no number comes last. -/
def scoreNotBelow (a b : Float32) : Bool := b.isNaN || b ≤ a

/-- The rows nearest to a vector, with their scores. -/
def search (s : Store) (query : Vector) (k : Int) : List (Row × Float32) :=
  best scoreNotBelow (fun r => r.vector.cosine query) k (s.rowsOfSize query.size)

/-- The record of rows that a search leaves out. -/
def searchRecords (s : Store) (query : Vector) : List LogRecord :=
  let skipped := s.rows.length - (s.rowsOfSize query.size).length
  if skipped = 0 then []
  else
    [.warning ("Skipping " ++ toString skipped ++
      " chunk(s) embedded with a different dimension")]

end Store

/-! ## Calls that may fail -/

/-- A store behind calls that may fail.  Each call takes the first of `faults`;
a call that fails leaves the rows as they are. -/
structure Shelf where
  store : Store := {}
  faults : List (Option String) := []
deriving Repr, Inhabited

namespace Shelf

/-- The start of a call. -/
def attempt : Action Shelf StoreError Unit :=
  .ofFunction fun s =>
    match s.faults with
    | [] => (.ok (), s)
    | none :: fs => (.ok (), { s with faults := fs })
    | some m :: fs => (.error (.refused m), { s with faults := fs })

/-- Writes some records and counts them. -/
def upsert (records : List ChunkRecord) : Action Shelf StoreError Nat := do
  let rows ← Action.ofExcept (Store.rowsOf records)
  attempt
  let store ← Action.ofExcept ((← get).store.insertAll rows)
  modify fun s => { s with store }
  return rows.length

/-- Removes the rows of a file and counts them. -/
def deleteFile (path : String) : Action Shelf StoreError Nat := do
  attempt
  let count := ((← get).store.rowsOfFile path).length
  modify fun s => { s with store := s.store.deleteFile path }
  return count

/-- Removes all rows, then gives their space back. -/
def clear : Action Shelf StoreError Unit := do
  attempt
  modify fun s => { s with store := {} }
  attempt

/-- What the store holds, in numbers. -/
def stats : Action Shelf StoreError StoreStats := do
  attempt
  return (← get).store.stats

end Shelf

end SourceShelf
