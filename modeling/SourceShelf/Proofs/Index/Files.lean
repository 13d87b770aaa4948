import Mathlib.Data.List.Nodup
import SourceShelf.Proofs.Index.Outcome

/-!
# What a run leaves of each file

The manifest entry and the rows of one file, before and behind a run that saved
its manifest.

* `prepared_digest?`, `prepared_rowsOfFile_of_not_gone`: what is left when the run
  starts to look at its candidates.
* `relisted_digest?_of_document` and the lemmas around it: what the saved
  manifest lists.
* `Updated.rowsOfFile_of_stale` and the lemmas around it: a stale document takes
  the place of what was there; other files stay as they were prepared.
* `Spilled.rowsOfFile_of_not_atRisk`: the files that a failing run leaves alone.
-/

namespace SourceShelf

theorem mem_rowsOfFile {s : Store} {path : String} {r : Row} :
    r ∈ s.rowsOfFile path ↔ r ∈ s.rows ∧ r.filePath = path := by
  rw [Store.rowsOfFile, List.mem_filter, decide_eq_true_eq]

theorem mem_gone {input : RunInput} {m : Manifest} {p : String} :
    p ∈ input.gone m ↔
      input.removesMissing = true ∧ m.digest? p ≠ none ∧ ∀ c ∈ input.candidates, c.path ≠ p := by
  unfold RunInput.gone
  by_cases h : input.removesMissing = true
  · rw [if_pos h, Manifest.mem_missing]
    exact (and_iff_right h).symm
  · rw [if_neg h]
    exact ⟨fun hp => absurd hp List.not_mem_nil, fun hp => absurd hp.1 h⟩

theorem filter_records_of_other {o : ChunkOptions} {docs : List Document} {p : String}
    (h : p ∉ docs.map (·.key.path)) :
    (docs.flatMap (·.records o)).filter (·.document.path = p) = [] := by
  rw [List.filter_eq_nil_iff]
  intro q hq hpath
  obtain ⟨d, hd, hq⟩ := List.mem_flatMap.mp hq
  rw [Document.mem_records_document hq, decide_eq_true_eq] at hpath
  exact h (hpath ▸ List.mem_map_of_mem hd)

/-- Among the chunks of documents of different files, those of one document. -/
theorem filter_records_of_mem {o : ChunkOptions} {docs : List Document} {d : Document}
    (hdistinct : (docs.map (·.key.path)).Nodup) (hd : d ∈ docs) :
    (docs.flatMap (·.records o)).filter (·.document.path = d.key.path) = d.records o := by
  obtain ⟨before, after, rfl⟩ := List.append_of_mem hd
  rw [List.map_append, List.map_cons, List.nodup_append, List.nodup_cons] at hdistinct
  obtain ⟨-, ⟨hafter, -⟩, hbefore⟩ := hdistinct
  have hfirst : (before.flatMap (·.records o)).filter (·.document.path = d.key.path) = [] :=
    filter_records_of_other fun hp => hbefore _ hp _ List.mem_cons_self rfl
  have hlast := filter_records_of_other (o := o) hafter
  have hown : (d.records o).filter (·.document.path = d.key.path) = d.records o := by
    rw [List.filter_eq_self]
    intro q hq
    rw [Document.mem_records_document hq, decide_eq_true_eq]
  rw [List.flatMap_append, List.flatMap_cons, List.filter_append, List.filter_append, hfirst,
    hlast, hown, List.nil_append, List.append_nil]

namespace Index

variable {R : String → Embedding → Prop} {x y : Index} {modelId : String} {input : RunInput}
variable {p : String} {d : Document}

/-! ## Before the candidates -/

theorem opened_of_outdated (h : RunState.isOutdated x.manifest modelId = true) :
    x.opened modelId = { manifest := { embedder := modelId } } := if_pos h

theorem opened_of_current (h : ¬ RunState.isOutdated x.manifest modelId = true) :
    x.opened modelId = { x with manifest := { x.manifest with embedder := modelId } } := if_neg h

theorem prepared_digest? (x : Index) (modelId : String) (input : RunInput) (p : String) :
    (x.prepared modelId input).manifest.digest? p =
      if p ∈ input.gone (x.opened modelId).manifest then none
      else (x.opened modelId).manifest.digest? p :=
  Manifest.digest?_eraseAll _ _ p

/-- A candidate is not removed. -/
theorem prepared_digest?_of_candidate {c : Candidate} (hc : c ∈ input.candidates) :
    (x.prepared modelId input).manifest.digest? c.path =
      (x.opened modelId).manifest.digest? c.path := by
  rw [prepared_digest?, if_neg]
  exact fun h => (mem_gone.mp h).2.2 c hc rfl

theorem mem_prepared_rows {r : Row} :
    r ∈ (x.prepared modelId input).store.rows ↔
      r ∈ (x.opened modelId).store.rows ∧
        r.filePath ∉ input.gone (x.opened modelId).manifest := mem_rowsOutside

theorem prepared_rowsOfFile_of_not_gone
    (hp : p ∉ input.gone (x.opened modelId).manifest) :
    (x.prepared modelId input).store.rowsOfFile p = (x.opened modelId).store.rowsOfFile p :=
  filter_rowsOutside hp _

/-! ## Behind the candidates -/

/-- A chunk of a stale document is one of its file. -/
theorem mem_stale_paths_of_record {q : PendingChunk}
    (hq : q ∈ (x.stale modelId input).flatMap (·.records input.options)) :
    q.document.path ∈ (x.stale modelId input).map (·.key.path) := by
  obtain ⟨d, hd, hq⟩ := List.mem_flatMap.mp hq
  rw [Document.mem_records_document hq]
  exact List.mem_map_of_mem hd

theorem exists_candidate_of_mem_stale (hd : d ∈ x.stale modelId input) :
    ∃ c ∈ input.candidates, c.document? input.options = some d ∧ c.path = d.key.path := by
  obtain ⟨c, hc, hdoc, -⟩ := mem_staleDocuments.mp hd
  exact ⟨c, hc, hdoc, (Candidate.document?_path hdoc).symm⟩

theorem relisted_digest?_of_stale (hdistinct : (input.candidates.map (·.path)).Nodup)
    (hd : d ∈ x.stale modelId input) :
    (x.relisted modelId input).digest? d.key.path = some d.key.digest := by
  refine Manifest.digest?_insertAll_of_mem _ ?_ (List.mem_map_of_mem hd)
  rw [List.map_map]
  exact stale_paths_nodup hdistinct

theorem relisted_digest?_of_not_stale (hp : p ∉ (x.stale modelId input).map (·.key.path)) :
    (x.relisted modelId input).digest? p = (x.prepared modelId input).manifest.digest? p := by
  refine Manifest.digest?_insertAll_of_not_mem _ fun k hk hpath => hp ?_
  obtain ⟨d, hd, rfl⟩ := List.mem_map.mp hk
  exact hpath ▸ List.mem_map_of_mem hd

/-- Of the candidates with one path, the document is that of the first. -/
theorem document?_of_mem_stale (hdistinct : (input.candidates.map (·.path)).Nodup) {c : Candidate}
    (hc : c ∈ input.candidates) (hstale : c.path ∈ (x.stale modelId input).map (·.key.path)) :
    ∃ d ∈ x.stale modelId input, c.document? input.options = some d ∧
      (x.prepared modelId input).manifest.digest? c.path ≠ some d.key.digest := by
  obtain ⟨d, hd, hpath⟩ := List.mem_map.mp hstale
  obtain ⟨c', hc', hdoc, hne⟩ := mem_staleDocuments.mp hd
  have hsame : c' = c := List.inj_on_of_nodup_map hdistinct hc' hc
    ((Candidate.document?_path hdoc).symm.trans hpath)
  subst hsame
  exact ⟨d, hd, hdoc, hne⟩

/-- A candidate that can be read and parsed is listed as it is. -/
theorem relisted_digest?_of_document (hdistinct : (input.candidates.map (·.path)).Nodup)
    {c : Candidate} (hc : c ∈ input.candidates) (hd : c.document? input.options = some d) :
    (x.relisted modelId input).digest? c.path = some d.key.digest := by
  by_cases hlisted : (x.prepared modelId input).manifest.digest? c.path = some d.key.digest
  · rw [relisted_digest?_of_not_stale, hlisted]
    intro hstale
    obtain ⟨d', -, hdoc, hne⟩ := document?_of_mem_stale hdistinct hc hstale
    obtain rfl := Option.some.inj (hdoc.symm.trans hd)
    exact hne hlisted
  · rw [← Candidate.document?_path hd]
    exact relisted_digest?_of_stale hdistinct (mem_staleDocuments.mpr ⟨c, hc, hd, hlisted⟩)

/-- A run over a folder lists no file that is no candidate. -/
theorem relisted_digest?_of_absent (hremoves : input.removesMissing = true)
    (habsent : ∀ c ∈ input.candidates, c.path ≠ p) :
    (x.relisted modelId input).digest? p = none := by
  have hstale : p ∉ (x.stale modelId input).map (·.key.path) := by
    intro hp
    obtain ⟨d, hd, rfl⟩ := List.mem_map.mp hp
    obtain ⟨c, hc, -, hpath⟩ := exists_candidate_of_mem_stale hd
    exact habsent c hc hpath
  rw [relisted_digest?_of_not_stale hstale, prepared_digest?]
  by_cases hlisted : (x.opened modelId).manifest.digest? p = none
  · rw [hlisted, ite_self]
  · rw [if_pos (mem_gone.mpr ⟨hremoves, hlisted, habsent⟩)]

/-- A file whose rows a run is going to drop or to replace: the index is emptied, or
the file is gone or is not as it is listed. -/
inductive AtRisk (x : Index) (modelId : String) (input : RunInput) (path : String) : Prop where
  | outdated (outdated : RunState.isOutdated x.manifest modelId = true)
  | gone (removes : input.removesMissing = true) (absent : ∀ c ∈ input.candidates, c.path ≠ path)
  | stale (c : Candidate) (d : Document) (candidate : c ∈ input.candidates) (same : c.path = path)
      (document : c.document? input.options = some d)
      (changed : x.manifest.digest? path ≠ some d.key.digest)

namespace Spilled

/-- Every row is an old one, or that of a chunk of a stale document. -/
theorem mem_rows (h : Spilled R x modelId input y) {r : Row} (hr : r ∈ y.store.rows) :
    r ∈ x.store.rows ∨
      ∃ d ∈ x.stale modelId input, ∃ q ∈ d.records input.options, StoredAs R q r := by
  rcases h with hrows | ⟨lost, done, rows, -, hdone, hrows, hstored⟩
  · exact .inl (hrows ▸ hr)
  rw [hrows, List.mem_append, mem_rowsOutside] at hr
  rcases hr with ⟨hr, -⟩ | hr
  · exact .inl ((x.opened_rows_sublist modelId).subset hr)
  · obtain ⟨q, hq, hqr⟩ := exists_storedAs_of_mem hstored hr
    obtain ⟨d, hd, hq⟩ := List.mem_flatMap.mp (hdone.subset hq)
    exact .inr ⟨d, hd, q, hq, hqr⟩

/-- A run that does not save leaves the rows of files alone that it is not going
to drop or to replace. -/
theorem rowsOfFile_of_not_atRisk (h : Spilled R x modelId input y)
    (hrisk : ¬ x.AtRisk modelId input p) : y.store.rowsOfFile p = x.store.rowsOfFile p := by
  rcases h with hrows | ⟨lost, done, rows, hlost, hdone, hrows, hstored⟩
  · rw [Store.rowsOfFile, hrows, Store.rowsOfFile]
  have hopened := x.opened_of_current fun hout => hrisk (.outdated hout)
  have hgone : p ∉ input.gone (x.opened modelId).manifest := by
    intro hp
    obtain ⟨hremoves, -, habsent⟩ := mem_gone.mp hp
    exact hrisk (.gone hremoves habsent)
  have hstale : p ∉ (x.stale modelId input).map (·.key.path) := by
    intro hp
    obtain ⟨d, hd, hpath⟩ := List.mem_map.mp hp
    obtain ⟨c, hc, hdoc, hne⟩ := mem_staleDocuments.mp hd
    have hcpath : c.path = p := (Candidate.document?_path hdoc).symm.trans hpath
    rw [prepared_digest?_of_candidate hc, hopened, hcpath] at hne
    exact hrisk (.stale c d hc hcpath hdoc hne)
  have hkept : p ∉ lost := fun hp => (List.mem_append.mp (hlost hp)).elim hgone hstale
  have hnew : rows.filter (·.filePath = p) = [] :=
    filter_storedAs_of_other hstored fun q hq hpath =>
      hstale (hpath ▸ mem_stale_paths_of_record (hdone.subset hq))
  rw [Store.rowsOfFile, hrows, List.filter_append, hnew, List.append_nil,
    filter_rowsOutside hkept, hopened]
  rfl

end Spilled

namespace Updated

/-- The embedder of a run is the one in the manifest that it saves. -/
theorem embedder (h : Updated R x modelId input y) : y.manifest.embedder = modelId := by
  rw [h.manifest, relisted_embedder]

/-- The rows of a stale document are those of its chunks. -/
theorem rowsOfFile_of_stale (h : Updated R x modelId input y)
    (hdistinct : (input.candidates.map (·.path)).Nodup) (hd : d ∈ x.stale modelId input) :
    List.Forall₂ (StoredAs R) (d.records input.options) (y.store.rowsOfFile d.key.path) := by
  obtain ⟨rows, hrows, hstored⟩ := h.rows
  have hold : (rowsOutside ((x.stale modelId input).map (·.key.path))
      (x.prepared modelId input).store.rows).filter (·.filePath = d.key.path) = [] := by
    rw [List.filter_eq_nil_iff]
    intro r hr hpath
    rw [decide_eq_true_eq] at hpath
    exact (mem_rowsOutside.mp hr).2 (hpath ▸ List.mem_map_of_mem hd)
  rw [Store.rowsOfFile, hrows, List.filter_append, hold, List.nil_append,
    ← filter_records_of_mem (o := input.options) (stale_paths_nodup hdistinct) hd]
  refine List.rel_filter (fun q r hqr => ?_) hstored
  show decide (q.document.path = d.key.path) = true ↔ decide (r.filePath = d.key.path) = true
  rw [hqr.filePath]

/-- The rows of other files stay as they were. -/
theorem rowsOfFile_of_not_stale (h : Updated R x modelId input y)
    (hp : p ∉ (x.stale modelId input).map (·.key.path)) :
    y.store.rowsOfFile p = (x.prepared modelId input).store.rowsOfFile p := by
  obtain ⟨rows, hrows, hstored⟩ := h.rows
  have hnew : rows.filter (·.filePath = p) = [] :=
    filter_storedAs_of_other hstored fun q hq hpath => hp (hpath ▸ mem_stale_paths_of_record hq)
  rw [Store.rowsOfFile, hrows, List.filter_append, hnew, List.append_nil, filter_rowsOutside hp]
  rfl

/-- Every row is an old one of a file that is not stale, or that of a chunk of a
stale document. -/
theorem mem_rows (h : Updated R x modelId input y) {r : Row} :
    r ∈ y.store.rows →
      (r ∈ (x.prepared modelId input).store.rows ∧
        r.filePath ∉ (x.stale modelId input).map (·.key.path)) ∨
      ∃ d ∈ x.stale modelId input, ∃ q ∈ d.records input.options, StoredAs R q r := by
  intro hr
  obtain ⟨rows, hrows, hstored⟩ := h.rows
  rw [hrows, List.mem_append, mem_rowsOutside] at hr
  rcases hr with hr | hr
  · exact .inl hr
  · obtain ⟨q, hq, hqr⟩ := exists_storedAs_of_mem hstored hr
    obtain ⟨d, hd, hq⟩ := List.mem_flatMap.mp hq
    exact .inr ⟨d, hd, q, hq, hqr⟩

/-- An old row of a file that is not stale is still there. -/
theorem mem_rows_of_not_stale (h : Updated R x modelId input y) {r : Row}
    (hr : r ∈ (x.prepared modelId input).store.rows)
    (hpath : r.filePath ∉ (x.stale modelId input).map (·.key.path)) : r ∈ y.store.rows := by
  obtain ⟨rows, hrows, -⟩ := h.rows
  rw [hrows]
  exact List.mem_append_left _ (mem_rowsOutside.mpr ⟨hr, hpath⟩)

end Updated

end Index

end SourceShelf
