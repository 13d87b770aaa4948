import Mathlib.Data.List.Flatten
import Mathlib.Data.List.Infix
import SourceShelf.Proofs.Index.Opening
import SourceShelf.Proofs.Index.Visits

/-!
# What a run leaves

`Updated R x modelId input y` says what a run that saved its manifest makes of
the index `x`: the rows of files that are gone or out of date are dropped, those
of the stale documents are appended, and the manifest is changed to match.

* `triple_update`: a run up to the point where it saves.
* `run_cases`: how a run ends.
* `keep_run`: what is kept of an index, whether the run saved or not.
-/

namespace SourceShelf

open SourceShelf.Action

namespace Index

/-- What a run makes of an index when it saves its manifest. -/
structure Updated (R : String → Embedding → Prop) (x : Index) (modelId : String) (input : RunInput)
    (y : Index) : Prop where
  manifest : y.manifest = x.relisted modelId input
  complete : ∀ d ∈ x.stale modelId input, (d.unit.chunks input.options).stopped = none
  rows : ∃ rows,
    y.store.rows = rowsOutside ((x.stale modelId input).map (·.key.path))
      (x.prepared modelId input).store.rows ++ rows ∧
    List.Forall₂ (StoredAs R) ((x.stale modelId input).flatMap (·.records input.options)) rows

/-- What a run leaves of the rows of an index when it does not save.  It did not
change them; or it opened the index, took rows from some of the files that are
gone or stale, and put behind the others those of the first chunks. -/
def Spilled (R : String → Embedding → Prop) (x : Index) (modelId : String) (input : RunInput)
    (y : Index) : Prop :=
  y.store.rows = x.store.rows ∨
  ∃ lost done rows,
    lost ⊆ input.gone (x.opened modelId).manifest ++ (x.stale modelId input).map (·.key.path) ∧
    done <+: (x.stale modelId input).flatMap (·.records input.options) ∧
    y.store.rows = rowsOutside lost (x.opened modelId).store.rows ++ rows ∧
    List.Forall₂ (StoredAs R) done rows

end Index

/-- No chunk is taken for a row of another file or for another chunk. -/
structure Apart (kept : List Row) (taken : List PendingChunk) : Prop where
  rows : ∀ r ∈ kept, ∀ p ∈ taken, r.filePath ≠ p.document.path → r.chunkId ≠ p.chunkId
  distinct : (taken.map (·.chunkId)).Nodup

/-- The chunks of documents whose old rows are gone are taken for no row. -/
theorem Apart.fresh {o : ChunkOptions} {kept : List Row} {docs done : List Document}
    (h : Apart kept (docs.flatMap (·.records o))) (hdone : done.Sublist docs) :
    Fresh (rowsOutside (done.map (·.key.path)) kept) (done.flatMap (·.records o)) where
  new r hr p hp := by
    obtain ⟨hr, hpath⟩ := mem_rowsOutside.mp hr
    obtain ⟨d, hd, hp⟩ := List.mem_flatMap.mp hp
    refine h.rows r hr p (List.mem_flatMap.mpr ⟨d, hdone.subset hd, hp⟩) fun heq => hpath ?_
    rw [heq, Document.mem_records_document hp]
    exact List.mem_map_of_mem hd
  distinct := h.distinct.sublist ((hdone.flatMap _).map _)

namespace RunState

variable {σ : Type} {R : String → Embedding → Prop} {e : Embedder σ} {x : Index}
variable {input : RunInput} {faults : List (Option String)} {world : Logged σ}

/-- How far an index is filled once some documents are replaced. -/
def Replaced (R : String → Embedding → Prop) (o : ChunkOptions) (kept : List Row)
    (docs : List Document) (i : IndexSink.State σ) : Prop :=
  IndexSink.Filled R (rowsOutside (docs.map (·.key.path)) kept) (docs.flatMap (·.records o)) i ∧
    ∀ d ∈ docs, (d.unit.chunks o).stopped = none

/-- Replacing the next document. -/
theorem triple_replace_next (he : e.Answers R) {o : ChunkOptions} {kept : List Row}
    {docs done rest : List Document} {d : Document} (hdocs : docs = done ++ d :: rest)
    (hdistinct : (docs.map (·.key.path)).Nodup)
    (hapart : Apart kept (docs.flatMap (·.records o))) :
    Triple (Replaced R o kept done) (IndexSink.replace e o d.key d.unit)
      (fun _ => Replaced R o kept (done ++ [d]))
      (IndexSink.Torn R (docs.map (·.key.path)) kept (docs.flatMap (·.records o))) := by
  have hother : ∀ p ∈ done.flatMap (·.records o), p.document.path ≠ d.key.path := by
    intro p hp
    obtain ⟨d', hd', hp⟩ := List.mem_flatMap.mp hp
    rw [Document.mem_records_document hp]
    rw [hdocs, List.map_append, List.map_cons] at hdistinct
    exact (List.nodup_append.mp hdistinct).2.2 _ (List.mem_map_of_mem hd') _ List.mem_cons_self
  have hnext : (done ++ [d]).flatMap (·.records o) =
      done.flatMap (·.records o) ++ chunksAt d.key 0 (d.unit.chunks o).chunks := by
    rw [List.flatMap_append, List.flatMap_singleton]
    rfl
  have hfront : done ++ [d] <+: docs := ⟨rest, by simp [hdocs]⟩
  have htaken := hfront.flatMap (·.records o)
  have hpaths := (hfront.sublist.map (·.key.path)).subset
  have hfresh := hapart.fresh hfront.sublist
  rw [hnext] at htaken hfresh
  rw [List.map_append, List.map_singleton] at hpaths
  rw [List.map_append, List.map_singleton, rowsOutside_append] at hfresh
  have hreplace := IndexSink.triple_replace he o d.key d.unit hother hfresh
  refine (hreplace.and_const (∀ d ∈ done, (d.unit.chunks o).stopped = none)).conseq
    (fun _ h => h) ?_ fun _ h =>
      (h.mono (List.Subset.trans (List.subset_append_right _ _) hpaths) htaken).outside
        (List.Subset.trans (List.subset_append_left _ _) hpaths)
  rintro _ i ⟨⟨hstopped, hfilled⟩, hdone⟩
  refine ⟨?_, fun d' hd' => ?_⟩
  · rw [List.map_append, List.map_singleton, rowsOutside_append, hnext]
    exact hfilled
  · rcases List.mem_append.mp hd' with hd' | hd'
    · exact hdone d' hd'
    · rw [List.mem_singleton.mp hd']
      exact hstopped

theorem Ready.replaced {y : Index} {removed : Nat} {s : RunState σ} (h : Ready y removed s)
    (R : String → Embedding → Prop) (o : ChunkOptions) :
    Replaced R o y.store.rows [] s.index := by
  refine ⟨⟨[], [], ?_, ?_, .nil⟩, by simp⟩
  · rw [h.pending]
    rfl
  · rw [h.store, List.map_nil, rowsOutside_nil, List.append_nil]

theorem Ready.visited {y : Index} {removed : Nat} {s : RunState σ} (h : Ready y removed s)
    (o : ChunkOptions) : Visited o y.manifest removed [] s :=
  ⟨h.manifest, h.failures, h.changed, h.removed, h.saved⟩

variable (input) in
/-- A run up to the point where it saves its manifest, for any invariant `J` of
the index that replacing a stale document preserves.  Storing what waits at the
end leads to `D`; a failure leads to `F`. -/
theorem triple_update_of {J : List Document → IndexSink.State σ → Prop}
    {D F : IndexSink.State σ → Prop} (hdistinct : (input.candidates.map (·.path)).Nodup)
    (hstart : ∀ removed (s : RunState σ), Ready (x.prepared e.modelId input) removed s →
      J [] s.index)
    (hold : ∀ i : IndexSink.State σ, i.shelf.store.rows = x.store.rows → F i)
    (hopened : ∀ lost (i : IndexSink.State σ), lost ⊆ input.gone (x.opened e.modelId).manifest →
      i.shelf.store.rows = rowsOutside lost (x.opened e.modelId).store.rows → F i)
    (hreplace : ∀ done d rest, x.stale e.modelId input = done ++ d :: rest →
      Triple (J done) (IndexSink.replace e input.options d.key d.unit)
        (fun _ => J (done ++ [d])) F)
    (hworld : ∀ docs i w, J docs i → J docs { i with world := w })
    (hend : ∀ done rest i, x.stale e.modelId input = done ++ rest → J done i → F i)
    (hclose : Triple (J (x.stale e.modelId input)) (IndexSink.close e) (fun _ => D) F) :
    Triple (Ready x 0) (update e input)
      (fun _ s => D s.index ∧ Visited input.options (x.prepared e.modelId input).manifest
        (input.gone (x.opened e.modelId).manifest).length input.candidates s)
      (fun s => F s.index ∧ s.saved = none) := by
  have hremains {paths : List String} {s : RunState σ}
      (h : Remains paths (x.opened e.modelId) s)
      (hpaths : paths ⊆ input.gone (x.opened e.modelId).manifest) :
      F s.index ∧ s.saved = none := by
    obtain ⟨⟨lost, hlost, hrows⟩, hsaved⟩ := h
    exact ⟨hopened lost s.index (List.Subset.trans hlost hpaths) hrows, hsaved⟩
  have hunopened (s : RunState σ) (h : Remains [] x s ∨ Remains [] (x.opened e.modelId) s) :
      F s.index ∧ s.saved = none := by
    rcases h with ⟨⟨lost, hlost, hrows⟩, hsaved⟩ | h
    · obtain rfl := List.subset_nil.mp hlost
      rw [rowsOutside_nil] at hrows
      exact ⟨hold s.index hrows, hsaved⟩
    · exact hremains h (List.nil_subset _)
  have hvisits := triple_visits (e := e) hdistinct hreplace hworld hend
    (input.gone (x.opened e.modelId).manifest).length
  unfold update
  refine triple_bind ((triple_discardOutdated x e.modelId).conseq (fun _ h => h) (fun _ _ h => h)
    hunopened) fun _ => ?_
  refine triple_bind ((triple_removeMissing (x.opened e.modelId) input).conseq (fun _ h => h)
    (fun _ _ h => h) fun _ h => hremains h (List.Subset.refl _)) fun _ => ?_
  refine triple_bind (hvisits.conseq (fun s hs => ⟨hstart _ s hs, hs.visited _⟩)
    (fun _ _ h => h) fun _ h => h) fun _ => ?_
  refine triple_withError (triple_within ?_)
  rintro s ⟨hJ, hs⟩
  refine hclose.conseq ?_ ?_ ?_
  · rintro _ rfl
    exact hJ
  · intro _ i hD
    exact ⟨hD, hs.manifest, hs.failures, hs.changed, hs.removed, hs.saved⟩
  · intro i hF
    exact ⟨hF, hs.saved⟩

/-- What a failure leaves once a run looks at its candidates. -/
private theorem spilled_of_torn {modelId : String} {i : IndexSink.State σ}
    (h : IndexSink.Torn R ((x.stale modelId input).map (·.key.path))
      (x.prepared modelId input).store.rows
      ((x.stale modelId input).flatMap (·.records input.options)) i) (m : Manifest) :
    x.Spilled R modelId input ⟨i.shelf.store, m⟩ :=
  .inr ((h.mono (List.subset_append_right _ _) (List.prefix_refl _)).outside
    (List.subset_append_left _ _))

/-- A run up to the point where it saves its manifest. -/
theorem triple_update (he : e.Answers R) (hdistinct : (input.candidates.map (·.path)).Nodup)
    (hapart : Apart (x.prepared e.modelId input).store.rows
      ((x.stale e.modelId input).flatMap (·.records input.options))) :
    Triple (Ready x 0) (update e input)
      (fun _ s => x.Updated R e.modelId input ⟨s.index.shelf.store, s.manifest⟩)
      (fun s => x.Spilled R e.modelId input ⟨s.index.shelf.store, s.manifest⟩ ∧
        s.saved = none) := by
  have hupdate := triple_update_of input (e := e) (x := x)
    (J := Replaced R input.options (x.prepared e.modelId input).store.rows)
    (F := fun i => x.Spilled R e.modelId input ⟨i.shelf.store, x.manifest⟩) hdistinct
    (fun _ s h => h.replaced R _) (fun i h => .inl h)
    (fun lost i hlost h => .inr ⟨lost, [], [], List.subset_append_of_subset_left _ hlost,
      List.nil_prefix, by rw [h, List.append_nil], .nil⟩)
    (fun done d rest hsplit => (triple_replace_next he hsplit
      (Index.stale_paths_nodup hdistinct) hapart).conseq (fun _ h => h) (fun _ _ h => h)
      fun i h => spilled_of_torn h _)
    (fun _ _ _ h => h)
    (fun done rest i hsplit h => spilled_of_torn ((h.1.torn.mono (List.nil_subset _) (by
      rw [hsplit, List.flatMap_append]
      exact List.prefix_append _ _)).outside (by
      rw [hsplit, List.map_append]
      exact List.subset_append_left _ _)) _)
    (((IndexSink.triple_close he (hapart.fresh (List.Sublist.refl _))).and_const _).conseq
      (fun i h => h) (fun _ _ h => h)
      fun i h => spilled_of_torn
        ((h.mono (List.nil_subset _) (List.prefix_refl _)).outside (List.Subset.refl _)) _)
  refine hupdate.conseq (fun _ h => h) ?_ fun _ h => h
  rintro _ s ⟨⟨hrows, hcomplete⟩, hs⟩
  exact ⟨hs.manifest, hcomplete, hrows⟩

/-- What a run that is over says, if the store counts its rows. -/
def summary (files : Nat) (s : RunState σ) : RunSummary where
  files := files
  changed := s.changed
  removed := s.removed
  written := s.index.sink.written
  failed := s.failures.length
  chunks := s.index.shelf.store.stats.chunks

/-- How a run ends: it fails before it saves, or saves, and then may still fail
to count the rows. -/
theorem run_cases (e : Embedder σ) (input : RunInput) (s : RunState σ) :
    (∃ err t, (update e input).runOn s = (.error err, t) ∧
      (run e input).runOn s = (.error err, t)) ∨
    ∃ t faults, (update e input).runOn s = (.ok (), t) ∧
      ((run e input).runOn s).2 =
        { t with saved := some t.manifest
                 index := { t.index with shelf := ⟨t.index.shelf.store, faults⟩ } } ∧
      (((run e input).runOn s).1 = .ok (t.summary input.candidates.length) ∨
        ∃ err, ((run e input).runOn s).1 = .error (.store err)) := by
  rcases hupdate : (update e input).runOn s with ⟨err | _, t⟩
  · exact .inl ⟨err, t, rfl, runOn_bind_of_error hupdate _⟩
  · unfold run
    rw [runOn_bind_of_ok hupdate, save, runOn_bind_of_ok (runOn_modify _ _), summarize]
    obtain ⟨faults, hstats | ⟨err, hstats⟩⟩ := Shelf.stats_cases t.index.shelf
    · have hshelf : (onShelf Shelf.stats).runOn { t with saved := some t.manifest } =
          (.ok t.index.shelf.store.stats, { t with
            saved := some t.manifest
            index := { t.index with shelf := ⟨t.index.shelf.store, faults⟩ } }) := by
        rw [onShelf_runOn, hstats]
        rfl
      rw [runOn_bind_of_ok hshelf]
      exact .inr ⟨t, faults, rfl, rfl, .inl rfl⟩
    · have hshelf : (onShelf Shelf.stats).runOn { t with saved := some t.manifest } =
          (.error (.store err), { t with
            saved := some t.manifest
            index := { t.index with shelf := ⟨t.index.shelf.store, faults⟩ } }) := by
        rw [onShelf_runOn, hstats]
        rfl
      rw [runOn_bind_of_error hshelf]
      exact .inr ⟨t, faults, rfl, rfl, .inr ⟨_, rfl⟩⟩

end RunState

namespace Index

variable {σ : Type} {R : String → Embedding → Prop} {e : Embedder σ} {x : Index}
variable {input : RunInput} {faults : List (Option String)} {world : Logged σ}

variable (faults world) in
/-- What is kept of an index when a run over it is over. -/
theorem keep_run (he : e.Answers R) (hdistinct : (input.candidates.map (·.path)).Nodup)
    (hapart : Apart (x.prepared e.modelId input).store.rows
      ((x.stale e.modelId input).flatMap (·.records input.options))) :
    ((x.run e input faults world).2.saved = none ∧
      (x.keep (x.run e input faults world).2).manifest = x.manifest ∧
      x.Spilled R e.modelId input (x.keep (x.run e input faults world).2)) ∨
    ((x.run e input faults world).2.saved ≠ none ∧
      x.Updated R e.modelId input (x.keep (x.run e input faults world).2)) := by
  have hready := RunState.ready_start x faults input.batchSize world
  have hupdate := RunState.triple_update he hdistinct hapart
  unfold run
  rcases RunState.run_cases e input (RunState.start x.manifest { store := x.store, faults }
    input.batchSize world) with ⟨err, t, ht, hrun⟩ | ⟨t, faults', ht, hrun, -⟩
  · obtain ⟨hspilled, hsaved⟩ := hupdate.of_error hready ht
    rw [hrun]
    refine .inl ⟨hsaved, ?_, hspilled⟩
    rw [keep, hsaved]
    rfl
  · have hupdated := hupdate.of_ok hready ht
    rw [hrun]
    exact .inr ⟨Option.some_ne_none _, hupdated⟩

/-- A run that comes to an end has saved its manifest. -/
theorem saved_of_run_ok {r : RunSummary} (h : (x.run e input faults world).1 = .ok r) :
    (x.run e input faults world).2.saved ≠ none := by
  unfold run at h ⊢
  rcases RunState.run_cases e input (RunState.start x.manifest { store := x.store, faults }
    input.batchSize world) with ⟨err, t, -, hrun⟩ | ⟨t, faults', -, hrun, -⟩
  · rw [hrun] at h
    cases h
  · rw [hrun]
    exact Option.some_ne_none _

end Index

end SourceShelf
