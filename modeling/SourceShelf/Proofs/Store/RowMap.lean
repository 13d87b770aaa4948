import Mathlib.Algebra.BigOperators.Group.List.Lemmas
import Mathlib.Algebra.GroupWithZero.Nat
import Mathlib.Data.Finset.Card
import Mathlib.Data.List.AList
import SourceShelf.Proofs.Store.Rows
import SourceShelf.Store.Handle

/-!
# The store as a map

A store is a list of rows, and every call walks that list.  What the calls mean
is said here by a map from identities to rows: a record that is written takes the
place of the one with its identity and is the newest, all else stays in the order
in which it came.

There are three groups.

* The map.  A `RowMap` is an association list, the newest row first, in which
  each row stands under the identity of the record that was written.  Which records
  can be written (`ChunkRecord.vector?`) and what is then in the map
  (`RowMap.write`) is said without the store.
* The calls.  `StoreCall` names them, `Handle.call` makes one and gives the
  answer, `RowMap.call` says what it does to the map, and `RowMap.Answers` what
  it has to answer.
* The simulation.  `Handle.Holds` ties an open store to the map whose rows it
  lists.  `Handle.Holds.call` is the step, `Handle.Holds.after` the run, and
  `Handle.after_refines_map` is the result.
-/

namespace SourceShelf

/-! ## The map -/

/-- The vector with which a record is stored.  There is none if its embedding is no
vector or its lines are no numbers of 64 bits. -/
def ChunkRecord.vector? (r : ChunkRecord) : Option Vector :=
  match Vector.ofEmbedding r.embedding with
  | .error _ => none
  | .ok v =>
    if (-2 ^ 63 ≤ r.startLine ∧ r.startLine < 2 ^ 63) ∧ -2 ^ 63 ≤ r.endLine ∧ r.endLine < 2 ^ 63
    then some v else none

/-- Rows by their identities, the newest one first. -/
structure RowMap where
  byId : AList fun _ : String => Row
  keyed : ∀ e ∈ byId.entries, e.2.chunkId = e.1

namespace RowMap

/-- The map without rows. -/
def empty : RowMap where
  byId := ∅
  keyed := by simp

/-- The rows, the oldest one first. -/
def rows (m : RowMap) : List Row := (m.byId.entries.map Sigma.snd).reverse

/-- How many rows there are. -/
def size (m : RowMap) : Nat := m.byId.keys.length

/-- Writes a record with a vector, under the identity of the record. -/
def write (m : RowMap) (r : ChunkRecord) (v : Vector) : RowMap where
  byId := m.byId.insert r.chunkId
    { chunkId := r.chunkId, filePath := r.filePath, fileSha256 := r.fileSha256, kind := r.kind,
      symbol := r.symbol, startLine := r.startLine, endLine := r.endLine, text := r.text,
      vector := v }
  keyed := by
    intro e he
    rw [AList.entries_insert, List.mem_cons] at he
    rcases he with rfl | he
    · rfl
    · exact m.keyed e ((List.kerase_sublist _ _).mem he)

/-- Writes some records one after the other, if all of them can be stored. -/
def writeAll (m : RowMap) : List ChunkRecord → Option RowMap
  | [] => some m
  | r :: records =>
    match r.vector? with
    | none => none
    | some v => (m.write r v).writeAll records

/-- Removes the rows of a file. -/
def removeFile (m : RowMap) (path : String) : RowMap where
  byId := ⟨m.byId.entries.filter fun e => e.2.filePath ≠ path,
    m.byId.nodupKeys.sublist List.filter_sublist⟩
  keyed e he := m.keyed e (List.mem_of_mem_filter he)

/-- How many rows a file has. -/
def sizeOfFile (m : RowMap) (path : String) : Nat :=
  m.byId.entries.countP fun e => e.2.filePath = path

@[simp] theorem rows_empty : empty.rows = [] := rfl

@[simp] theorem length_rows (m : RowMap) : m.rows.length = m.size := by
  simp [rows, size, AList.keys, List.keys]

/-- Under distinct keys, what is erased by its key is all that has the key. -/
theorem kerase_eq_filter (k : String) {entries : List (Sigma fun _ : String => Row)}
    (hnodup : entries.NodupKeys) : List.kerase k entries = entries.filter fun e => e.1 ≠ k := by
  induction entries with
  | nil => rfl
  | cons e entries ih =>
    rw [List.nodupKeys_cons] at hnodup
    by_cases hk : k = e.1
    · have hrest : ∀ e' ∈ entries, e'.1 ≠ k := by
        intro e' he' hke
        exact hnodup.1 (hk ▸ hke ▸ List.mem_map_of_mem he')
      rw [List.kerase_cons_eq hk, List.filter_cons_of_neg (by simp [hk]), List.filter_eq_self.mpr]
      intro e' he'
      exact decide_eq_true (hrest e' he')
    · rw [List.kerase_cons_ne hk, List.filter_cons_of_pos (by simpa using Ne.symm hk),
        ih hnodup.2]

/-- What is written is the row that keeps the record, and it comes last. -/
theorem rows_write (m : RowMap) {r : ChunkRecord} {row : Row} (hrow : row.Keeps r) :
    (m.write r row.vector).rows = m.rows.filter (fun q => q.chunkId ≠ row.chunkId) ++ [row] := by
  obtain ⟨chunkId, filePath, fileSha256, kind, symbol, startLine, endLine, text, vector⟩ := row
  obtain ⟨rfl, rfl, rfl, rfl, rfl, rfl, rfl, rfl, -⟩ := hrow
  simp only [rows, write, AList.entries_insert, List.map_cons, List.reverse_cons]
  -- no step below is to compute the digest
  generalize r.chunkId = id
  have hkeys : (m.byId.entries.filter fun e => e.1 ≠ id) =
      m.byId.entries.filter fun e => e.2.chunkId ≠ id :=
    List.filter_congr fun e he => by rw [m.keyed e he]
  rw [kerase_eq_filter _ m.byId.nodupKeys, hkeys, List.filter_reverse, List.filter_map]
  rfl

theorem rows_removeFile (m : RowMap) (path : String) :
    (m.removeFile path).rows = m.rows.filter fun r => r.filePath ≠ path := by
  simp only [rows, removeFile, List.filter_reverse, List.filter_map]
  rfl

theorem sizeOfFile_eq (m : RowMap) (path : String) :
    m.sizeOfFile path = (m.rows.filter fun r => r.filePath = path).length := by
  simp only [sizeOfFile, rows, List.filter_reverse, List.length_reverse, List.filter_map,
    List.length_map, List.countP_eq_length_filter]
  rfl

end RowMap

/-! ## The calls -/

/-- A call of a store. -/
inductive StoreCall where
  | upsert (records : List ChunkRecord)
  | deleteFile (path : String)
  | clear
  | stats
  | search (query : Embedding) (k : Int)

/-- What a call of a store answers. -/
inductive StoreAnswer where
  | count (n : Nat)
  | done
  | numbers (s : StoreStats)
  | hits (hits : List (Row × Float32))
  | failed (e : StoreError)

namespace Handle

/-- What is left and answered by a call that may fail. -/
def settle {α : Type} (h : Handle) (answer : α → Handle × StoreAnswer) :
    Except StoreError α → Handle × StoreAnswer
  | .ok x => answer x
  | .error e => (h, .failed e)

/-- Makes a call. -/
def call (h : Handle) : StoreCall → Handle × StoreAnswer
  | .upsert records => h.settle (fun p => (p.1, .count p.2)) (h.upsert records)
  | .deleteFile path => h.settle (fun p => (p.1, .count p.2)) (h.deleteFile path)
  | .clear => h.settle (fun h' => (h', .done)) h.clear
  | .stats => h.settle (fun s => (h, .numbers s)) h.stats
  | .search query k => h.settle (fun p => (h, .hits p.1)) (h.search query k)

/-- Makes some calls. -/
def after (h : Handle) (calls : List StoreCall) : Handle :=
  calls.foldl (fun h c => (h.call c).1) h

end Handle

namespace RowMap

/-- What a call does to the map.  Records are written together, and only if all
of them can be stored. -/
def call (m : RowMap) : StoreCall → RowMap
  | .upsert records => (m.writeAll records).getD m
  | .deleteFile path => m.removeFile path
  | .clear => empty
  | .stats | .search _ _ => m

/-- What some calls do to the map. -/
def after (m : RowMap) (calls : List StoreCall) : RowMap := calls.foldl call m

/-- The numbers of a map. -/
structure Counts (m : RowMap) (s : StoreStats) : Prop where
  chunks : s.chunks = m.size
  files : s.files = (m.rows.map (·.filePath)).toFinset.card
  kinds : ∀ kind n, (kind, n) ∈ s.kinds ↔ 0 < n ∧ n = m.rows.countP (·.kind = kind)
  kinds_nodup : (s.kinds.map Prod.fst).Nodup
  kinds_sum : (s.kinds.map Prod.snd).sum = s.chunks

/-- What a call has to answer. -/
def Answers (m : RowMap) : StoreCall → StoreAnswer → Prop
  | .upsert records, answer =>
    if (m.writeAll records).isSome then answer = .count records.length
    else ∃ e, answer = .failed e
  | .deleteFile path, answer => answer = .count (m.sizeOfFile path)
  | .clear, answer => answer = .done
  | .stats, answer => ∃ s, answer = .numbers s ∧ m.Counts s
  | .search query k, answer =>
    match Vector.ofEmbedding query with
    | .error e => answer = .failed (.vector e)
    | .ok v => ∃ hits, answer = .hits hits ∧ (hits.length : Int) ≤ max 1 k ∧
        ∀ hit ∈ hits, hit.1 ∈ m.rows ∧ hit.1.vector.size = v.size

end RowMap

/-! ## The simulation -/

/-- The items of a list, each once. -/
theorem distinct_spec {α : Type} [DecidableEq α] (xs : List α) :
    (distinct xs).Nodup ∧ ∀ x, x ∈ distinct xs ↔ x ∈ xs := by
  suffices ∀ ys : List α, ys.Nodup →
      (xs.foldl (fun ys x => if ys.contains x then ys else ys ++ [x]) ys).Nodup ∧
        ∀ x, x ∈ xs.foldl (fun ys x => if ys.contains x then ys else ys ++ [x]) ys ↔
          x ∈ ys ∨ x ∈ xs by
    simpa [distinct] using this [] List.nodup_nil
  induction xs with
  | nil =>
    intro ys hys
    simpa using hys
  | cons x xs ih =>
    intro ys hys
    rw [List.foldl_cons]
    by_cases hx : x ∈ ys
    · rw [if_pos (List.contains_iff_mem.mpr hx)]
      refine ⟨(ih ys hys).1, fun z => ?_⟩
      rw [(ih ys hys).2, List.mem_cons]
      grind
    · have hnodup : (ys ++ [x]).Nodup := by
        rw [List.nodup_append]
        grind
      rw [if_neg (by simpa using hx)]
      refine ⟨(ih _ hnodup).1, fun z => ?_⟩
      rw [(ih _ hnodup).2, List.mem_append, List.mem_singleton, List.mem_cons, or_assoc]

theorem length_distinct {α : Type} [DecidableEq α] (xs : List α) :
    (distinct xs).length = xs.toFinset.card := by
  have hspec := distinct_spec xs
  rw [← List.toFinset_card_of_nodup hspec.1]
  congr 1
  ext x
  simp [hspec.2]

namespace Store

/-- The kinds that are counted. -/
theorem kinds_spec (s : Store) :
    (s.stats.kinds.map Prod.fst).Nodup ∧
      ∀ kind, kind ∈ s.stats.kinds.map Prod.fst ↔ kind ∈ s.rows.map (·.kind) := by
  have hperm : (s.stats.kinds.map Prod.fst).Perm (distinct (s.rows.map (·.kind))) := by
    simp only [stats, List.map_map, Function.comp_def, List.map_id']
    exact List.mergeSort_perm _ _
  have hspec := distinct_spec (s.rows.map (·.kind))
  exact ⟨hperm.nodup_iff.mpr hspec.1, fun kind => hperm.mem_iff.trans (hspec.2 kind)⟩

/-- A kind comes with the number of its rows. -/
theorem kinds_eq (s : Store) :
    s.stats.kinds =
      (s.stats.kinds.map Prod.fst).map fun kind => (kind, s.rows.countP (·.kind = kind)) := by
  simp only [stats, List.map_map, Function.comp_def, List.map_id']

/-- Every row is counted under one kind. -/
theorem sum_kinds (s : Store) : (s.stats.kinds.map Prod.snd).sum = s.rows.length := by
  have hspec := s.kinds_spec
  have hperm : (s.stats.kinds.map Prod.fst).Perm (s.rows.map (·.kind)).dedup := by
    refine (List.perm_ext_iff_of_nodup hspec.1 (List.nodup_dedup _)).mpr fun kind => ?_
    rw [hspec.2, List.mem_dedup]
  have hcount : ∀ kind, s.rows.countP (·.kind = kind) = (s.rows.map (·.kind)).count kind := by
    intro kind
    rw [List.count, List.countP_map]
    rfl
  calc (s.stats.kinds.map Prod.snd).sum
      = ((s.stats.kinds.map Prod.fst).map fun kind => (s.rows.map (·.kind)).count kind).sum := by
        conv => lhs; rw [s.kinds_eq, List.map_map]
        simp only [Function.comp_def, hcount]
    _ = ((s.rows.map (·.kind)).dedup.map fun kind => (s.rows.map (·.kind)).count kind).sum :=
        (hperm.map _).sum_eq
    _ = s.rows.length := by rw [List.sum_map_count_dedup_eq_length, List.length_map]

variable {s : Store} {m : RowMap}

theorem insert_rows_eq (h : s.rows = m.rows) {r : ChunkRecord} {row : Row}
    (hrow : row.Keeps r) : (s.insert row).rows = (m.write r row.vector).rows := by
  rw [insert_rows, m.rows_write hrow, h]

theorem stats_counts (h : s.rows = m.rows) : m.Counts s.stats where
  chunks := by
    rw [← m.length_rows, ← h]
    rfl
  files := by
    rw [← h]
    exact length_distinct _
  kinds kind n := by
    rw [← h, s.kinds_eq, List.mem_map]
    simp only [s.kinds_spec.2, List.mem_map, Prod.mk.injEq]
    constructor
    · rintro ⟨_, ⟨r, hr, hkind⟩, rfl, rfl⟩
      exact ⟨List.countP_pos_iff.mpr ⟨r, hr, decide_eq_true hkind⟩, rfl⟩
    · intro ⟨hpos, hn⟩
      obtain ⟨r, hr, hkind⟩ := List.countP_pos_iff.mp (hn ▸ hpos)
      exact ⟨kind, ⟨r, hr, of_decide_eq_true hkind⟩, rfl, hn.symm⟩
  kinds_nodup := s.kinds_spec.1
  kinds_sum := s.sum_kinds

/-- What a search finds is stored and has the size of the query. -/
theorem search_spec (s : Store) (v : Vector) (k : Int) :
    ((s.search v k).length : Int) ≤ max 1 k ∧
      ∀ hit ∈ s.search v k, hit.1 ∈ s.rows ∧ hit.1.vector.size = v.size := by
  refine ⟨?_, fun hit hhit => ?_⟩
  · rw [search, best, List.length_take]
    omega
  · have hmap := List.mem_mergeSort.mp (List.mem_of_mem_take hhit)
    obtain ⟨r, hr, rfl⟩ := List.mem_map.mp hmap
    have hsize := List.mem_filter.mp hr
    exact ⟨hsize.1, of_decide_eq_true hsize.2⟩

end Store

/-! ### Records that can be stored -/

theorem Row.fits_iff (n : Int) : Row.fits n = true ↔ -2 ^ 63 ≤ n ∧ n < 2 ^ 63 := by
  simp [Row.fits]

/-- A record can be stored if its row can. -/
theorem Row.Keeps.vector?_eq {row : Row} {r : ChunkRecord} (h : row.Keeps r) :
    r.vector? = if row.storable = true then some row.vector else none := by
  have hstorable : row.storable = true ↔
      (-2 ^ 63 ≤ r.startLine ∧ r.startLine < 2 ^ 63) ∧
        -2 ^ 63 ≤ r.endLine ∧ r.endLine < 2 ^ 63 := by
    rw [Row.storable, Bool.and_eq_true, fits_iff, fits_iff, h.startLine, h.endLine]
  simp only [ChunkRecord.vector?, h.vector, hstorable]

namespace RowMap

variable {s : Store} {m : RowMap} {records : List ChunkRecord} {rows : List Row}

/-- Records whose rows can be stored are written one after the other. -/
theorem writeAll_of_storable (hm : s.rows = m.rows)
    (hrows : List.Forall₂ (fun r row => Row.Keeps row r) records rows)
    (hall : rows.all Row.storable = true) :
    ∃ m', m.writeAll records = some m' ∧ (rows.foldl Store.insert s).rows = m'.rows := by
  induction hrows generalizing s m with
  | nil => exact ⟨m, rfl, hm⟩
  | cons hrow _ ih =>
    rw [List.all_cons, Bool.and_eq_true] at hall
    obtain ⟨m', hwritten, hrows'⟩ := ih (Store.insert_rows_eq hm hrow) hall.2
    refine ⟨m', ?_, hrows'⟩
    rw [writeAll, hrow.vector?_eq, if_pos hall.1]
    exact hwritten

/-- If one of the rows cannot be stored, nothing is written. -/
theorem writeAll_of_not_storable
    (hrows : List.Forall₂ (fun r row => Row.Keeps row r) records rows)
    (hall : ¬ rows.all Row.storable = true) : m.writeAll records = none := by
  induction hrows generalizing m with
  | nil => exact absurd rfl hall
  | @cons r row records rows hrow _ ih =>
    rw [writeAll, hrow.vector?_eq]
    by_cases hstorable : row.storable = true
    · rw [if_pos hstorable]
      refine ih fun hrest => hall ?_
      rw [List.all_cons, hstorable, hrest]
      rfl
    · rw [if_neg hstorable]

/-- If one of the records has no row, nothing is written. -/
theorem writeAll_of_rowsOf_error {e : StoreError} (h : Store.rowsOf records = .error e) :
    m.writeAll records = none := by
  induction records generalizing m with
  | nil => cases h
  | cons r records ih =>
    rw [Store.rowsOf_cons] at h
    rcases hrow : Row.ofRecord r with e' | row
    · have hvector : r.vector? = none := by
        rcases hv : Vector.ofEmbedding r.embedding with e'' | v
        · rw [ChunkRecord.vector?, hv]
        · rw [Row.ofRecord, hv] at hrow
          cases hrow
      rw [writeAll, hvector]
    · rw [hrow] at h
      have hrest : Store.rowsOf records = .error e := by
        rcases hrest : Store.rowsOf records with e' | rest
        · rw [hrest] at h
          exact h
        · rw [hrest] at h
          cases h
      rw [writeAll]
      split
      · rfl
      · exact ih hrest

end RowMap

/-! ### Calls -/

namespace Handle

/-- An open store holds a map if it lists its rows. -/
structure Holds (h : Handle) (m : RowMap) : Prop where
  isOpen : h.isOpen = true
  rows : h.store.rows = m.rows

variable {h : Handle} {m : RowMap}

theorem current_of_isOpen (hopen : h.isOpen = true) : h.current = .ok h.store := if_pos hopen

theorem upsert_of_rowsOf (hopen : h.isOpen = true) {records : List ChunkRecord} {rows : List Row}
    (hrows : Store.rowsOf records = .ok rows) :
    h.upsert records =
      (h.store.insertAll rows).map fun store => ({ h with store := store }, rows.length) := by
  rw [upsert, hrows, current_of_isOpen hopen]
  change (h.store.insertAll rows >>= fun store => pure ({ h with store := store }, rows.length)) = _
  rcases h.store.insertAll rows with e | store <;> rfl

/-- Records are written together, or if one of them cannot be stored none is. -/
theorem Holds.upsert (hm : h.Holds m) (records : List ChunkRecord) :
    (∃ m' s, m.writeAll records = some m' ∧ s.rows = m'.rows ∧
      h.upsert records = .ok ({ h with store := s }, records.length)) ∨
    m.writeAll records = none ∧ ∃ e, h.upsert records = .error e := by
  rcases hrows : Store.rowsOf records with e | rows
  · refine .inr ⟨RowMap.writeAll_of_rowsOf_error hrows, e, ?_⟩
    rw [Handle.upsert, hrows]
    rfl
  have hkeeps := Store.rowsOf_eq_ok_iff.mp hrows
  by_cases hall : rows.all Row.storable = true
  · obtain ⟨m', hwritten, hrows'⟩ := RowMap.writeAll_of_storable hm.rows hkeeps hall
    refine .inl ⟨m', _, hwritten, hrows', ?_⟩
    rw [upsert_of_rowsOf hm.isOpen hrows, Store.insertAll, if_pos hall, hkeeps.length_eq]
    rfl
  · refine .inr ⟨RowMap.writeAll_of_not_storable hkeeps hall, .lineTooLarge, ?_⟩
    rw [upsert_of_rowsOf hm.isOpen hrows, Store.insertAll, if_neg hall]
    rfl

/-- One call keeps to the map. -/
theorem Holds.call (hm : h.Holds m) (c : StoreCall) :
    (h.call c).1.Holds (m.call c) ∧ m.Answers c (h.call c).2 := by
  have hcurrent := current_of_isOpen hm.isOpen
  cases c with
  | upsert records =>
    rcases hm.upsert records with ⟨m', s, hwritten, hrows, hupsert⟩ | ⟨hwritten, e, hupsert⟩
    · simp only [Handle.call, RowMap.call, RowMap.Answers, hwritten, hupsert, settle,
        Option.isSome_some, if_true]
      exact ⟨⟨hm.isOpen, hrows⟩, trivial⟩
    · simp only [Handle.call, RowMap.call, RowMap.Answers, hwritten, hupsert, settle]
      exact ⟨hm, e, rfl⟩
  | deleteFile path =>
    have hdelete : h.deleteFile path =
        .ok ({ h with store := h.store.deleteFile path }, m.sizeOfFile path) := by
      rw [deleteFile, hcurrent, m.sizeOfFile_eq, ← hm.rows]
      rfl
    simp only [Handle.call, RowMap.call, RowMap.Answers, hdelete, settle]
    refine ⟨⟨hm.isOpen, ?_⟩, trivial⟩
    rw [Store.deleteFile_rows, RowMap.rows_removeFile, hm.rows]
  | clear =>
    have hclear : h.clear = .ok { h with store := {} } := by rw [clear, hcurrent]; rfl
    simp only [Handle.call, RowMap.call, RowMap.Answers, hclear, settle]
    exact ⟨⟨hm.isOpen, rfl⟩, trivial⟩
  | stats =>
    have hstats : h.stats = .ok h.store.stats := by rw [stats, hcurrent]; rfl
    simp only [Handle.call, RowMap.call, RowMap.Answers, hstats, settle]
    exact ⟨hm, _, rfl, Store.stats_counts hm.rows⟩
  | search query k =>
    rcases hquery : Vector.ofEmbedding query with e | v
    · have hsearch : h.search query k = .error (.vector e) := by
        rw [search, hcurrent, hquery]
        rfl
      simp only [Handle.call, RowMap.call, RowMap.Answers, hsearch, settle, hquery]
      exact ⟨hm, trivial⟩
    · have hsearch : h.search query k = .ok (h.store.search v k, h.store.searchRecords v) := by
        rw [search, hcurrent, hquery]
        rfl
      simp only [Handle.call, RowMap.call, RowMap.Answers, hsearch, settle, hquery]
      refine ⟨hm, _, rfl, ?_⟩
      rw [← hm.rows]
      exact h.store.search_spec v k

/-- So do all calls together. -/
theorem Holds.after (hm : h.Holds m) (calls : List StoreCall) :
    (h.after calls).Holds (m.after calls) := by
  induction calls generalizing h m with
  | nil => exact hm
  | cons c calls ih => exact ih (hm.call c).1

theorem settle_of_failed {α : Type} {answer : α → Handle × StoreAnswer}
    {result : Except StoreError α} {e : StoreError} (hanswer : ∀ x, (answer x).2 ≠ .failed e)
    (hfailed : (h.settle answer result).2 = .failed e) : (h.settle answer result).1 = h := by
  cases result with
  | error e' => rfl
  | ok x => exact absurd hfailed (hanswer x)

/-- A call that fails leaves all as it is. -/
theorem call_of_failed {c : StoreCall} {e : StoreError} (hfailed : (h.call c).2 = .failed e) :
    (h.call c).1 = h := by
  cases c <;> exact settle_of_failed (fun _ => nofun) hfailed

/-- Whatever was called before, a store lists the rows of the map that was built
by the same calls, the next call answers what the map says, and it changes
nothing if it fails. -/
theorem after_refines_map (calls : List StoreCall) (next : StoreCall) :
    (({} : Handle).after calls).store.rows = (RowMap.empty.after calls).rows ∧
      (RowMap.empty.after calls).Answers next ((({} : Handle).after calls).call next).2 ∧
      ∀ e, ((({} : Handle).after calls).call next).2 = .failed e →
        ((({} : Handle).after calls).call next).1 = ({} : Handle).after calls := by
  have hempty : ({} : Handle).Holds .empty := ⟨rfl, rfl⟩
  have hholds := hempty.after calls
  exact ⟨hholds.rows, (hholds.call next).2, fun _ => call_of_failed⟩

end Handle

end SourceShelf
