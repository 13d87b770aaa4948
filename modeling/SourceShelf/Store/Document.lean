import SourceShelf.Json.Printer
import SourceShelf.Json.Reader
import SourceShelf.Store.Basic

/-!
# Stores in files

A store is kept in a file as a JSON list of its rows.  The numbers of a vector
are written as the bits that make them up, so nothing is lost by rounding.
-/

namespace SourceShelf

open Json (Value)

/-- A vector as a value. -/
def Vector.toJson (v : Vector) : Value :=
  .obj [("extent", .int v.extent), ("bits", .arr (v.values.map fun x => .int x.toBits.toNat))]

/-- The vector in a value. -/
def Vector.ofJson? (v : Value) : Option Vector := do
  let extent ← (← v.get? "extent").int?
  let bits ← (← (← v.get? "bits").arr?).mapM Value.int?
  return { extent := extent.toNat, values := bits.map fun n => Float32.ofBits n.toNat.toUInt32 }

/-- A row as a value. -/
def Row.toJson (r : Row) : Value :=
  .obj [("chunk_id", .str r.chunkId), ("file_path", .str r.filePath),
    ("file_sha256", .str r.fileSha256), ("kind", .str r.kind),
    ("symbol", r.symbol.elim .null .str), ("start_line", .int r.startLine),
    ("end_line", .int r.endLine), ("text", .str r.text), ("vector", r.vector.toJson)]

/-- The row in a value. -/
def Row.ofJson? (v : Value) : Option Row := do
  return { chunkId := ← (← v.get? "chunk_id").str?
           filePath := ← (← v.get? "file_path").str?
           fileSha256 := ← (← v.get? "file_sha256").str?
           kind := ← (← v.get? "kind").str?
           symbol := (← v.get? "symbol").str?
           startLine := ← (← v.get? "start_line").int?
           endLine := ← (← v.get? "end_line").int?
           text := ← (← v.get? "text").str?
           vector := ← Vector.ofJson? (← v.get? "vector") }

/-- The text of a store's file. -/
def Store.text (s : Store) : String := Json.Layout.line.text (.arr (s.rows.map Row.toJson))

/-- The store in the text of a file. -/
def Store.ofText? (text : String) : Option Store := do
  let rows ← (← (Json.read text).toOption).arr?
  return { rows := ← rows.mapM Row.ofJson? }

end SourceShelf
