import SourceShelf.Store.Basic

/-!
# Open and closed stores

A handle gives access to a store until it is closed.
-/

namespace SourceShelf

/-- Access to a store. -/
structure Handle where
  store : Store := {}
  isOpen : Bool := true
deriving Repr, Inhabited

namespace Handle

/-- The name of the file that holds a store. -/
def fileName : String := "chunks.sqlite3"

/-- The store, while the handle is open. -/
def current (h : Handle) : Except StoreError Store :=
  if h.isOpen then .ok h.store else .error .closed

/-- Writes some records and counts them. -/
def upsert (h : Handle) (records : List ChunkRecord) : Except StoreError (Handle × Nat) := do
  let rows ← Store.rowsOf records
  let store ← (← h.current).insertAll rows
  return ({ h with store }, rows.length)

/-- Removes the rows of a file and counts them. -/
def deleteFile (h : Handle) (path : String) : Except StoreError (Handle × Nat) := do
  let store ← h.current
  return ({ h with store := store.deleteFile path }, (store.rowsOfFile path).length)

/-- The rows nearest to an embedding, with their scores, and what is reported. -/
def search (h : Handle) (query : Embedding) (k : Int) :
    Except StoreError (List (Row × Float32) × List LogRecord) := do
  let store ← h.current
  let v ← (Vector.ofEmbedding query).mapError .vector
  return (store.search v k, store.searchRecords v)

/-- What the store holds, in numbers. -/
def stats (h : Handle) : Except StoreError StoreStats := h.current.map Store.stats

/-- Removes all rows. -/
def clear (h : Handle) : Except StoreError Handle :=
  h.current.map fun _ => { h with store := {} }

/-- Ends the access. -/
def close (h : Handle) : Handle := { h with isOpen := false }

/-- Starts the access again. -/
def reopen (h : Handle) : Handle := { h with isOpen := true }

end Handle

end SourceShelf
