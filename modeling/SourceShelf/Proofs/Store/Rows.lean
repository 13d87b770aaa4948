import Mathlib.Data.List.Forall2
import SourceShelf.Proofs.Action
import SourceShelf.Store.Basic

/-!
# The rows of a store

What a row holds of a record, what each operation does to the rows, and what each
call of a store that may fail can lead to.

* `Row.Keeps`: a row keeps a record, field by field.
* `foldl_insert_rows_of_new`: rows with new identities are appended.
* `rowsOutside`: the rows that are left when some files are removed.
* `Shelf.attempt_cases` and the lemmas behind it: a call either does its whole
  work or leaves the rows as they are.  Only `clear` can fail behind its work.
-/

namespace SourceShelf

/-! ## Rows of records -/

/-- A row keeps a record: it has the identity of the record, its fields, and the vector
of its embedding. -/
structure Row.Keeps (row : Row) (r : ChunkRecord) : Prop where
  chunkId : row.chunkId = r.chunkId
  filePath : row.filePath = r.filePath
  fileSha256 : row.fileSha256 = r.fileSha256
  kind : row.kind = r.kind
  symbol : row.symbol = r.symbol
  startLine : row.startLine = r.startLine
  endLine : row.endLine = r.endLine
  text : row.text = r.text
  vector : Vector.ofEmbedding r.embedding = .ok row.vector

theorem Row.ofRecord_eq_ok_iff {r : ChunkRecord} {row : Row} :
    Row.ofRecord r = .ok row ↔ row.Keeps r := by
  unfold Row.ofRecord
  constructor
  · intro h
    rcases hv : Vector.ofEmbedding r.embedding with e | v
    · rw [hv] at h
      cases h
    · rw [hv] at h
      cases h
      exact ⟨rfl, rfl, rfl, rfl, rfl, rfl, rfl, rfl, hv⟩
  · intro h
    obtain ⟨chunkId, filePath, fileSha256, kind, symbol, startLine, endLine, text, vector⟩ := row
    obtain ⟨rfl, rfl, rfl, rfl, rfl, rfl, rfl, rfl, hv⟩ := h
    rw [hv]
    rfl

namespace Store

theorem rowsOf_cons (r : ChunkRecord) (records : List ChunkRecord) :
    rowsOf (r :: records) =
      match Row.ofRecord r with
      | .error e => .error (.vector e)
      | .ok row => (rowsOf records).map (row :: ·) := by
  rw [rowsOf, List.mapM_cons]
  rcases Row.ofRecord r with e | row
  · rfl
  · rw [rowsOf]
    rcases records.mapM Row.ofRecord with e | rows <;> rfl

/-- Each record is kept by the row that stands at its place. -/
theorem rowsOf_eq_ok_iff {records : List ChunkRecord} {rows : List Row} :
    rowsOf records = .ok rows ↔ List.Forall₂ (fun r row => Row.Keeps row r) records rows := by
  induction records generalizing rows with
  | nil =>
    rw [List.forall₂_nil_left_iff]
    exact ⟨fun h => (Except.ok.inj h).symm, fun h => h ▸ rfl⟩
  | cons r records ih =>
    rw [rowsOf_cons, List.forall₂_cons_left_iff]
    constructor
    · intro h
      rcases hrow : Row.ofRecord r with e | row
      · rw [hrow] at h
        cases h
      rcases hrows : rowsOf records with e | rest
      · rw [hrow, hrows] at h
        cases h
      rw [hrow, hrows] at h
      exact ⟨row, rest, Row.ofRecord_eq_ok_iff.mp hrow, ih.mp hrows, (Except.ok.inj h).symm⟩
    · rintro ⟨row, rest, hrow, hrest, rfl⟩
      rw [Row.ofRecord_eq_ok_iff.mpr hrow, ih.mpr hrest]
      rfl

end Store

/-! ## What the operations do -/

namespace Store

theorem insert_rows (s : Store) (r : Row) :
    (s.insert r).rows = s.rows.filter (fun q => q.chunkId ≠ r.chunkId) ++ [r] := rfl

@[simp] theorem deleteFile_rows (s : Store) (path : String) :
    (s.deleteFile path).rows = s.rows.filter (fun r => r.filePath ≠ path) := rfl

/-- A row whose identity is new is appended. -/
theorem insert_rows_of_new {s : Store} {r : Row} (h : ∀ q ∈ s.rows, q.chunkId ≠ r.chunkId) :
    (s.insert r).rows = s.rows ++ [r] := by
  rw [insert_rows, List.filter_eq_self.mpr]
  intro q hq
  exact decide_eq_true (h q hq)

/-- Rows whose identities are new, and new to each other, are appended. -/
theorem foldl_insert_rows_of_new {s : Store} {rows : List Row}
    (hnew : ∀ q ∈ s.rows, ∀ r ∈ rows, q.chunkId ≠ r.chunkId)
    (hdistinct : (rows.map (·.chunkId)).Nodup) :
    (rows.foldl insert s).rows = s.rows ++ rows := by
  induction rows generalizing s with
  | nil => simp
  | cons r rows ih =>
    have hr : (s.insert r).rows = s.rows ++ [r] :=
      insert_rows_of_new fun q hq => hnew q hq r List.mem_cons_self
    rw [List.map_cons, List.nodup_cons] at hdistinct
    rw [List.foldl_cons, ih ?_ hdistinct.2, hr, List.append_assoc, List.singleton_append]
    intro q hq r' hr'
    rw [hr, List.mem_append, List.mem_singleton] at hq
    rcases hq with hq | rfl
    · exact hnew q hq r' (List.mem_cons_of_mem _ hr')
    · intro he
      exact hdistinct.1 (List.mem_map.mpr ⟨r', hr', he.symm⟩)

theorem insertAll_eq_ok {s s' : Store} {rows : List Row} (h : s.insertAll rows = .ok s') :
    s' = rows.foldl insert s := by
  unfold insertAll at h
  split at h
  · exact (Except.ok.inj h).symm
  · cases h

end Store

/-! ## Rows of other files -/

/-- The rows that belong to none of some files. -/
def rowsOutside (paths : List String) (rows : List Row) : List Row :=
  rows.filter fun r => r.filePath ∉ paths

section Outside

variable {paths paths' : List String} {rows : List Row} {r : Row}

theorem mem_rowsOutside : r ∈ rowsOutside paths rows ↔ r ∈ rows ∧ r.filePath ∉ paths := by
  rw [rowsOutside, List.mem_filter, decide_eq_true_eq]

theorem rowsOutside_sublist (paths : List String) (rows : List Row) :
    (rowsOutside paths rows).Sublist rows := List.filter_sublist

@[simp] theorem rowsOutside_nil (rows : List Row) : rowsOutside [] rows = rows := by
  simp [rowsOutside]

theorem rowsOutside_singleton (path : String) (rows : List Row) :
    rowsOutside [path] rows = rows.filter fun r => r.filePath ≠ path := by
  simp [rowsOutside]

theorem rowsOutside_append (paths paths' : List String) (rows : List Row) :
    rowsOutside (paths ++ paths') rows = rowsOutside paths' (rowsOutside paths rows) := by
  rw [rowsOutside, rowsOutside, rowsOutside, List.filter_filter]
  congr 1
  funext r
  simp [Bool.and_comm]

/-- The rows of a file that is not removed stay. -/
theorem filter_rowsOutside {path : String} (h : path ∉ paths) (rows : List Row) :
    (rowsOutside paths rows).filter (·.filePath = path) = rows.filter (·.filePath = path) := by
  rw [rowsOutside, List.filter_filter]
  refine List.filter_congr fun r _ => ?_
  by_cases hr : r.filePath = path
  · simp [hr, h]
  · simp [hr]

end Outside

namespace Shelf

open SourceShelf.Action

theorem attempt_cases (s : Shelf) :
    ∃ faults, attempt.runOn s = (.ok (), { s with faults }) ∨
      ∃ e, attempt.runOn s = (.error e, { s with faults }) := by
  obtain ⟨store, _ | ⟨_ | m, fs⟩⟩ := s
  · exact ⟨[], .inl rfl⟩
  · exact ⟨fs, .inl rfl⟩
  · exact ⟨fs, .inr ⟨_, rfl⟩⟩

theorem deleteFile_cases (path : String) (s : Shelf) :
    ∃ faults,
      (∃ n, (deleteFile path).runOn s = (.ok n, ⟨s.store.deleteFile path, faults⟩)) ∨
        ∃ e, (deleteFile path).runOn s = (.error e, ⟨s.store, faults⟩) := by
  obtain ⟨faults, h | ⟨e, h⟩⟩ := attempt_cases s
  · exact ⟨faults, .inl ⟨_, runOn_bind_of_ok h _⟩⟩
  · exact ⟨faults, .inr ⟨e, runOn_bind_of_error h _⟩⟩

theorem clear_cases (s : Shelf) :
    ∃ faults, clear.runOn s = (.ok (), ⟨{}, faults⟩) ∨
      ∃ e, clear.runOn s = (.error e, ⟨s.store, faults⟩) ∨
        clear.runOn s = (.error e, ⟨{}, faults⟩) := by
  obtain ⟨faults, h | ⟨e, h⟩⟩ := attempt_cases s
  · obtain ⟨faults', h' | ⟨e, h'⟩⟩ := attempt_cases ⟨{}, faults⟩
    · exact ⟨faults', .inl ((runOn_bind_of_ok h _).trans h')⟩
    · exact ⟨faults', .inr ⟨e, .inr ((runOn_bind_of_ok h _).trans h')⟩⟩
  · exact ⟨faults, .inr ⟨e, .inl (runOn_bind_of_error h _)⟩⟩

theorem stats_cases (s : Shelf) :
    ∃ faults, stats.runOn s = (.ok s.store.stats, ⟨s.store, faults⟩) ∨
      ∃ e, stats.runOn s = (.error e, ⟨s.store, faults⟩) := by
  obtain ⟨faults, h | ⟨e, h⟩⟩ := attempt_cases s
  · exact ⟨faults, .inl (runOn_bind_of_ok h _)⟩
  · exact ⟨faults, .inr ⟨e, runOn_bind_of_error h _⟩⟩

/-- Records are written together or not at all. -/
theorem upsert_cases (records : List ChunkRecord) (s : Shelf) :
    ∃ faults,
      (∃ rows, Store.rowsOf records = .ok rows ∧
        (upsert records).runOn s = (.ok rows.length, ⟨rows.foldl Store.insert s.store, faults⟩)) ∨
      ∃ e, (upsert records).runOn s = (.error e, ⟨s.store, faults⟩) := by
  unfold upsert
  rcases hrows : Store.rowsOf records with e | rows
  · exact ⟨s.faults, .inr ⟨e, rfl⟩⟩
  have hfirst : (Action.ofExcept (.ok rows) : Action Shelf StoreError (List Row)).runOn s =
    (.ok rows, s) := rfl
  obtain ⟨faults, h | ⟨e, h⟩⟩ := attempt_cases s
  · rcases hall : s.store.insertAll rows with e | store
    · refine ⟨faults, .inr ⟨e, ?_⟩⟩
      rw [runOn_bind_of_ok hfirst, runOn_bind_of_ok h, runOn_bind_of_ok (runOn_get _),
        runOn_bind, runOn_ofExcept, hall]
    · refine ⟨faults, .inl ⟨rows, rfl, ?_⟩⟩
      rw [runOn_bind_of_ok hfirst, runOn_bind_of_ok h, runOn_bind_of_ok (runOn_get _),
        runOn_bind, runOn_ofExcept, hall]
      rw [← Store.insertAll_eq_ok hall]
      rfl
  · refine ⟨faults, .inr ⟨e, ?_⟩⟩
    rw [runOn_bind_of_ok hfirst, runOn_bind_of_error h]

end Shelf

end SourceShelf
