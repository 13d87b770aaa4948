import SourceShelf.Proofs.Index.Filling
import SourceShelf.Proofs.Index.Manifest

/-!
# What a run is to do

The documents among the candidates of a run, and which of them are out of date
(`staleDocuments`).  `Index.prepared` is the index as it is when a run starts to
look at its candidates: without what another embedder made, and without the
files that are gone.

* `mem_staleDocuments`, `staleDocuments_paths_nodup`: which documents are stale.
* `Index.relisted`: the manifest that a run saves.
-/

namespace SourceShelf

open SourceShelf.Action

/-- A candidate that was read and parsed. -/
structure Document where
  key : DocumentKey
  unit : Java.CompilationUnit
deriving DecidableEq, Repr

namespace Document

/-- The chunks of a document, as they go to the store. -/
def records (o : ChunkOptions) (d : Document) : List PendingChunk :=
  chunksAt d.key 0 (d.unit.chunks o).chunks

theorem mem_records_document {o : ChunkOptions} {d : Document} {p : PendingChunk}
    (h : p ∈ d.records o) : p.document = d.key := mem_chunksAt_document h

end Document

namespace Candidate

/-- The document of a candidate, if it can be read and parsed. -/
def document? (o : ChunkOptions) (c : Candidate) : Option Document :=
  match c.loaded with
  | .error _ => none
  | .ok t =>
    match Java.parse t.text (some c.path) o.includeLocalTypes with
    | .error _ => none
    | .ok u => some ⟨⟨c.path, textDigest t.text⟩, u⟩

/-- The document of a candidate, if it is not the one in the manifest. -/
def stale? (o : ChunkOptions) (m : Manifest) (c : Candidate) : Option Document :=
  (c.document? o).filter fun d => m.digest? c.path ≠ some d.key.digest

/-- What is listed about a candidate that is not read or not parsed. -/
def failure? (o : ChunkOptions) (m : Manifest) (c : Candidate) : Option Failure :=
  match c.loaded with
  | .error (.limit _) => none
  | .error (.failure f) => some f
  | .ok t =>
    if m.digest? c.path = some (textDigest t.text) then none
    else
      match Java.parse t.text (some c.path) o.includeLocalTypes with
      | .error f => some f
      | .ok _ => none

variable {o : ChunkOptions} {m m' : Manifest} {c : Candidate} {d : Document}

theorem document?_path (h : c.document? o = some d) : d.key.path = c.path := by
  unfold document? at h
  split at h
  · cases h
  · split at h
    · cases h
    · cases h
      rfl

theorem document?_of_parse {t : SourceText} {u : Java.CompilationUnit} (hloaded : c.loaded = .ok t)
    (hparse : Java.parse t.text (some c.path) o.includeLocalTypes = .ok u) :
    c.document? o = some ⟨⟨c.path, textDigest t.text⟩, u⟩ := by
  unfold document?
  rw [hloaded]
  dsimp only
  rw [hparse]

theorem stale?_eq_some :
    c.stale? o m = some d ↔ c.document? o = some d ∧ m.digest? c.path ≠ some d.key.digest := by
  rw [stale?, Option.filter_eq_some_iff, decide_eq_true_eq]

theorem stale?_congr (h : m.digest? c.path = m'.digest? c.path) : c.stale? o m = c.stale? o m' := by
  unfold stale?
  rw [h]

theorem failure?_congr (h : m.digest? c.path = m'.digest? c.path) :
    c.failure? o m = c.failure? o m' := by
  unfold failure?
  rw [h]

end Candidate

/-- The documents among some candidates that are not in the manifest as they
are now. -/
def staleDocuments (o : ChunkOptions) (m : Manifest) (cs : List Candidate) : List Document :=
  cs.filterMap (Candidate.stale? o m)

section Stale

variable {o : ChunkOptions} {m : Manifest} {cs : List Candidate} {d : Document}

theorem mem_staleDocuments :
    d ∈ staleDocuments o m cs ↔
      ∃ c ∈ cs, c.document? o = some d ∧ m.digest? c.path ≠ some d.key.digest := by
  rw [staleDocuments, List.mem_filterMap]
  simp only [Candidate.stale?_eq_some]

theorem staleDocuments_append (cs cs' : List Candidate) :
    staleDocuments o m (cs ++ cs') = staleDocuments o m cs ++ staleDocuments o m cs' :=
  List.filterMap_append

theorem exists_candidate_of_stale (h : d ∈ staleDocuments o m cs) :
    ∃ c ∈ cs, c.path = d.key.path := by
  obtain ⟨c, hc, hd, -⟩ := mem_staleDocuments.mp h
  exact ⟨c, hc, (Candidate.document?_path hd).symm⟩

theorem staleDocuments_paths_sublist (o : ChunkOptions) (m : Manifest) (cs : List Candidate) :
    ((staleDocuments o m cs).map (·.key.path)).Sublist (cs.map (·.path)) := by
  induction cs with
  | nil => exact List.Sublist.refl _
  | cons c cs ih =>
    rcases hd : c.stale? o m with _ | d
    · rw [staleDocuments, List.filterMap_cons_none hd, List.map_cons]
      exact ih.cons _
    · rw [staleDocuments, List.filterMap_cons_some hd, List.map_cons, List.map_cons,
        Candidate.document?_path (Candidate.stale?_eq_some.mp hd).1]
      exact ih.cons_cons _

theorem staleDocuments_paths_nodup (hdistinct : (cs.map (·.path)).Nodup) :
    ((staleDocuments o m cs).map (·.key.path)).Nodup :=
  hdistinct.sublist (staleDocuments_paths_sublist o m cs)

end Stale

/-! ## The index at the start of a run -/

namespace Index

/-- An index without what another embedder made. -/
def opened (x : Index) (modelId : String) : Index :=
  if RunState.isOutdated x.manifest modelId then { manifest := { embedder := modelId } }
  else { x with manifest := { x.manifest with embedder := modelId } }

/-- An index without some files. -/
def without (x : Index) (paths : List String) : Index where
  store := { rows := rowsOutside paths x.store.rows }
  manifest := x.manifest.eraseAll paths

end Index

/-- The files that a run removes. -/
def RunInput.gone (input : RunInput) (m : Manifest) : List String :=
  if input.removesMissing then RunState.missing m input.candidates else []

namespace Index

/-- An index as it is when a run starts to look at its candidates. -/
def prepared (x : Index) (modelId : String) (input : RunInput) : Index :=
  (x.opened modelId).without (input.gone (x.opened modelId).manifest)

/-- The documents that a run replaces. -/
def stale (x : Index) (modelId : String) (input : RunInput) : List Document :=
  staleDocuments input.options (x.prepared modelId input).manifest input.candidates

/-- The manifest that a run saves. -/
def relisted (x : Index) (modelId : String) (input : RunInput) : Manifest :=
  (x.prepared modelId input).manifest.insertAll ((x.stale modelId input).map (·.key))

@[simp] theorem opened_embedder (x : Index) (modelId : String) :
    (x.opened modelId).manifest.embedder = modelId := by
  unfold opened
  split <;> rfl

@[simp] theorem prepared_embedder (x : Index) (modelId : String) (input : RunInput) :
    (x.prepared modelId input).manifest.embedder = modelId := by
  rw [prepared, without, Manifest.eraseAll_embedder, opened_embedder]

@[simp] theorem relisted_embedder (x : Index) (modelId : String) (input : RunInput) :
    (x.relisted modelId input).embedder = modelId := by
  rw [relisted, Manifest.insertAll_embedder, prepared_embedder]

theorem opened_rows_sublist (x : Index) (modelId : String) :
    (x.opened modelId).store.rows.Sublist x.store.rows := by
  unfold opened
  split
  · exact List.nil_sublist _
  · exact List.Sublist.refl _

theorem prepared_rows_sublist (x : Index) (modelId : String) (input : RunInput) :
    (x.prepared modelId input).store.rows.Sublist x.store.rows :=
  (rowsOutside_sublist _ _).trans (x.opened_rows_sublist modelId)

theorem stale_paths_nodup {x : Index} {modelId : String} {input : RunInput}
    (hdistinct : (input.candidates.map (·.path)).Nodup) :
    ((x.stale modelId input).map (·.key.path)).Nodup := staleDocuments_paths_nodup hdistinct

end Index

end SourceShelf
