import Mathlib
import SourceShelf.Proofs.Files.Written
import SourceShelf.Proofs.Index.Retry
import SourceShelf.Proofs.Index.Saved

/-!
# Nothing left to do

A run that came to an end leaves an index that is stable: the same run over it
finds every file as it is listed, calls neither the embedder nor the store but
to count the rows, and leaves the rows and the file of the manifest as they were.

* `Index.Stable`, `stable_of_relisted`: what a run that came to an end leaves.
* `RunState.update_stable`: a run over a stable index.
* `indexing_is_idempotent`: the run, the file of its manifest, and the next run.
-/

namespace SourceShelf

open SourceShelf.Action Files

/-- An index over which a run has nothing to do. -/
structure Index.Stable (y : Index) (modelId : String) (input : RunInput) : Prop where
  embedder : y.manifest.embedder = modelId
  gone : input.gone y.manifest = []
  current : ∀ c ∈ input.candidates, c.stale? input.options y.manifest = none
  limits : ∀ c ∈ input.candidates, ∀ x, c.loaded ≠ .error (.limit x)

/-- The rows are counted in one call. -/
theorem Shelf.stats_runOn {s : Shelf} (h : ∀ m, s.faults.head? ≠ some (some m)) :
    stats.runOn s = (.ok s.store.stats, { s with faults := s.faults.tail }) := by
  obtain ⟨store, faults⟩ := s
  rcases faults with _ | ⟨_ | m, faults⟩
  · rfl
  · rfl
  · exact absurd rfl (h m)

namespace RunState

variable {σ : Type} {e : Embedder σ} {input : RunInput} {y : Index} {s t : RunState σ}

/-- What a run may have done since the state `s`: list the failures `fs`. -/
structure Passed (s : RunState σ) (fs : List Failure) (t : RunState σ) : Prop where
  sink : t.index.sink = s.index.sink
  shelf : t.index.shelf = s.index.shelf
  inner : t.index.world.inner = s.index.world.inner
  manifest : t.manifest = s.manifest
  failures : t.failures = s.failures ++ fs
  changed : t.changed = s.changed
  removed : t.removed = s.removed

theorem passed_nil (s : RunState σ) : Passed s [] s :=
  ⟨rfl, rfl, rfl, rfl, (List.append_nil _).symm, rfl, rfl⟩

/-- A candidate that is as it is listed is passed over. -/
theorem visit_current {c : Candidate} {fs : List Failure} (h : Passed s fs t)
    (hcurrent : c.stale? input.options s.manifest = none)
    (hlimit : ∀ x, c.loaded ≠ .error (.limit x)) :
    ∃ t', (visit e input.options c).runOn t = (.ok (), t') ∧
      Passed s (fs ++ (c.failure? input.options s.manifest).toList) t' := by
  have hcases := visit_cases e input.options c t
  rw [h.manifest] at hcases
  rcases hcases with ⟨x, hloaded, -⟩ | ⟨f, -, hfailure, hrun⟩ | ⟨-, hfailure, hrun⟩ |
    ⟨d, hstale, -⟩
  · exact absurd hloaded (hlimit x)
  · refine ⟨_, hrun, { h with failures := ?_ }⟩
    rw [hfailure, ← List.append_assoc, ← h.failures]
    rfl
  · rw [hfailure]
    exact ⟨t, hrun, by simpa using h⟩
  · rw [hcurrent] at hstale
    cases hstale

theorem visits_current {fs : List Failure} {cs : List Candidate} (h : Passed s fs t)
    (hcurrent : ∀ c ∈ cs, c.stale? input.options s.manifest = none)
    (hlimits : ∀ c ∈ cs, ∀ x, c.loaded ≠ .error (.limit x)) :
    ∃ t', (cs.forM (visit e input.options)).runOn t = (.ok (), t') ∧
      Passed s (fs ++ cs.filterMap (Candidate.failure? input.options s.manifest)) t' := by
  induction cs generalizing t fs with
  | nil => exact ⟨t, rfl, by simpa using h⟩
  | cons c cs ih =>
    obtain ⟨t', hrun, h'⟩ := visit_current (e := e) h (hcurrent c List.mem_cons_self)
      (hlimits c List.mem_cons_self)
    obtain ⟨t'', hrun', h''⟩ := ih h' (fun d hd => hcurrent d (List.mem_cons_of_mem _ hd))
      fun d hd => hlimits d (List.mem_cons_of_mem _ hd)
    refine ⟨t'', (runOn_bind_of_ok hrun _).trans hrun', ?_⟩
    rw [List.append_assoc] at h''
    cases hfailure : c.failure? input.options s.manifest with
    | none => simpa [hfailure] using h''
    | some f => simpa [hfailure] using h''

/-- A run over a stable index does no more than list the files that fail. -/
theorem update_stable (hy : y.Stable e.modelId input) (hs : s.manifest = y.manifest)
    (hpending : s.index.sink.pending = []) :
    ∃ t, (update e input).runOn s = (.ok (), t) ∧
      Passed s (input.candidates.filterMap (Candidate.failure? input.options s.manifest)) t := by
  have hopen : (discardOutdated e.modelId).runOn s = (.ok (), s) := by
    have hname : s.manifest.embedder = e.modelId := by rw [hs, hy.embedder]
    have hcurrent : ¬ isOutdated s.manifest e.modelId = true := by simp [isOutdated, hname]
    unfold discardOutdated
    rw [runOn_bind_of_ok (runOn_get s), runOn_bind_of_ok (runOn_modify _ _), if_neg hcurrent,
      ← hname]
    rfl
  have hremove : (removeMissing input).runOn s = (.ok (), s) := by
    have hgone := hy.gone
    unfold removeMissing
    unfold RunInput.gone at hgone
    by_cases hremoves : input.removesMissing = true
    · rw [if_pos hremoves] at hgone ⊢
      rw [runOn_bind_of_ok (runOn_get s), hs, hgone]
      rfl
    · rw [if_neg hremoves]
      rfl
  obtain ⟨t, hvisits, hlisted⟩ := visits_current (e := e) (passed_nil s)
    (by rw [hs]; exact hy.current) hy.limits
  have hfinish : (finish e input.place).runOn t = (.ok (), t) := by
    have hflush : (IndexSink.close e).runOn t.index = (.ok (), t.index) := by
      unfold IndexSink.close IndexSink.flush
      rw [runOn_discard, runOn_bind_of_ok (runOn_get t.index), hlisted.sink, hpending]
      rfl
    unfold finish onIndex
    rw [runOn_withError, runOn_within, hflush]
    rfl
  refine ⟨t, ?_, by simpa using hlisted⟩
  unfold update
  rw [runOn_bind_of_ok hopen, runOn_bind_of_ok hremove, runOn_bind_of_ok hvisits, hfinish]

/-- A run over a stable index calls the store once, to count the rows, and saves
the manifest that it found. -/
theorem run_stable (hy : y.Stable e.modelId input) (hs : s.manifest = y.manifest)
    (hpending : s.index.sink.pending = [])
    (hfaults : ∀ m, s.index.shelf.faults.head? ≠ some (some m)) :
    ∃ t, (run e input).runOn s =
        (.ok { files := input.candidates.length
               changed := s.changed
               removed := s.removed
               written := s.index.sink.written
               failed := (s.failures ++
                 input.candidates.filterMap (Candidate.failure? input.options y.manifest)).length
               chunks := s.index.shelf.store.stats.chunks }, t) ∧
      t.index.shelf = ⟨s.index.shelf.store, s.index.shelf.faults.tail⟩ ∧
      t.index.world.inner = s.index.world.inner ∧ t.saved = some y.manifest := by
  obtain ⟨t, hupdate, ht⟩ := update_stable hy hs hpending
  have hstats : (onShelf Shelf.stats).runOn { t with saved := some t.manifest } =
      (.ok s.index.shelf.store.stats, { t with
        saved := some t.manifest
        index := { t.index with
          shelf := ⟨s.index.shelf.store, s.index.shelf.faults.tail⟩ } }) := by
    rw [onShelf_runOn, ht.shelf, Shelf.stats_runOn hfaults]
    rfl
  refine ⟨{ t with
    saved := some t.manifest
    index := { t.index with shelf := ⟨s.index.shelf.store, s.index.shelf.faults.tail⟩ } },
    ?_, rfl, ht.inner,
    congrArg some (ht.manifest.trans hs)⟩
  unfold run save summarize
  rw [runOn_bind_of_ok hupdate, runOn_bind_of_ok (runOn_modify _ _), runOn_bind_of_ok hstats,
    runOn_bind_of_ok (runOn_get _)]
  rw [runOn_pure]
  simp only [ht.changed, ht.removed, ht.sink, ht.failures, hs]

/-- A run that comes to its end has met no candidate whose limit is no number. -/
theorem triple_update_limits :
    Triple (fun _ => True) (update e input)
      (fun _ _ => ∀ c ∈ input.candidates, ∀ x, c.loaded ≠ .error (.limit x)) fun _ => True := by
  have hany {ε α : Type} (P : Prop) (a : Action (RunState σ) ε α) :
      Triple (fun _ => P) a (fun _ _ => P) fun _ => True :=
    triple_intro (fun _ _ _ h _ => h) fun _ _ _ _ _ => trivial
  have hvisits := triple_forM input.candidates (f := visit e input.options)
    (I := fun seen _ => ∀ c ∈ seen, ∀ x, c.loaded ≠ .error (.limit x)) (F := fun _ => True)
    fun seen c rest _ => triple_intro (fun s s' _ hseen hrun c' hc' x hx => by
      rcases List.mem_append.mp hc' with hc' | hc'
      · exact hseen c' hc' x hx
      · obtain rfl := List.mem_singleton.mp hc'
        rw [visit, hx] at hrun
        cases hrun) fun _ _ _ _ _ => trivial
  refine triple_bind (hany True _) fun _ => triple_bind (hany True _) fun _ => ?_
  exact triple_bind (hvisits.conseq (fun _ _ c hc => absurd hc List.not_mem_nil)
    (fun _ _ h => h) fun _ h => h) fun _ => hany _ _

end RunState

namespace Index

variable {x y : Index} {modelId : String} {input : RunInput}

/-- An index is stable if its manifest lists what a run has listed. -/
theorem stable_of_relisted (hdistinct : (input.candidates.map (·.path)).Nodup)
    (hname : y.manifest.embedder = modelId)
    (hlisted : ∀ p, y.manifest.digest? p = (x.relisted modelId input).digest? p)
    (hlimits : ∀ c ∈ input.candidates, ∀ e, c.loaded ≠ .error (.limit e)) :
    y.Stable modelId input where
  embedder := hname
  gone := by
    rw [List.eq_nil_iff_forall_not_mem]
    intro p hp
    obtain ⟨hremoves, hmem, habsent⟩ := mem_gone.mp hp
    rw [hlisted, relisted_digest?_of_absent hremoves habsent] at hmem
    exact hmem rfl
  current c hc := by
    rw [Option.eq_none_iff_forall_ne_some]
    intro d hd
    obtain ⟨hdoc, hne⟩ := Candidate.stale?_eq_some.mp hd
    rw [hlisted, relisted_digest?_of_document hdistinct hc hdoc] at hne
    exact hne rfl
  limits := hlimits

end Index

/-! ## Manifests list no file twice -/

namespace Manifest

variable {m : Manifest}

theorem Distinct.insert (h : m.Distinct) (path digest : String) :
    (m.insert path digest).Distinct := by
  unfold Distinct Manifest.insert at *
  by_cases hany : m.files.any (·.1 = path) = true
  · rw [if_pos hany, List.map_map]
    have hkeys : m.files.map (Prod.fst ∘ fun e => if e.1 = path then (path, digest) else e) =
        m.files.map Prod.fst := by
      refine List.map_congr_left fun e _ => ?_
      rw [Function.comp_apply]
      split
      · rename_i heq
        exact heq.symm
      · rfl
    rw [hkeys]
    exact h
  · have hnew : path ∉ m.files.map Prod.fst := fun hmem => by
      obtain ⟨e, he, heq⟩ := List.mem_map.mp hmem
      exact hany (List.any_eq_true.mpr ⟨e, he, by simpa using heq⟩)
    rw [if_neg hany, List.map_append, List.map_singleton]
    simpa using h.concat hnew

theorem Distinct.insertAll (h : m.Distinct) (keys : List DocumentKey) :
    (m.insertAll keys).Distinct := by
  induction keys generalizing m with
  | nil => exact h
  | cons k keys ih => exact ih (h.insert k.path k.digest)

theorem Distinct.eraseAll (h : m.Distinct) (paths : List String) : (m.eraseAll paths).Distinct := by
  induction paths generalizing m with
  | nil => exact h
  | cons p paths ih => exact ih (h.sublist (List.filter_sublist.map Prod.fst))

theorem Distinct.opened {x : Index} (h : x.manifest.Distinct) (modelId : String) :
    (x.opened modelId).manifest.Distinct := by
  unfold Index.opened
  split
  · exact List.nodup_nil
  · exact h

/-- The manifest that a run saves lists no file twice. -/
theorem Distinct.relisted {x : Index} (h : x.manifest.Distinct) (modelId : String)
    (input : RunInput) : (x.relisted modelId input).Distinct :=
  ((h.opened modelId).eraseAll _).insertAll _

end Manifest

/-! ## The next run -/

/-- The index in a store and in what stands at the place of a manifest, unless that is beyond a
limit. -/
def Index.loaded {α : Type} (bytesOf : α → ByteArray) (t : Disk α) (place : Path)
    (store : Store) (limit : Json.NestingLimit := .standard) : Except LimitError Index :=
  (Manifest.load bytesOf t place limit).map fun r => ⟨store, r.1⟩

/-- What a run that came to its end has kept. -/
theorem IndexCall.kept_of_completed {σ : Type} {c : IndexCall σ} {x : Index} {r : RunSummary}
    (hdistinct : (c.input.candidates.map (·.path)).Nodup) (h : (c.runOver x).1 = .ok r) :
    (c.after x).manifest = x.relisted c.embedder.modelId c.input ∧
      (∀ k ∈ c.input.candidates, ∀ e, k.loaded ≠ .error (.limit e)) ∧
      r.files = c.input.candidates.length ∧
      r.failed = (c.input.candidates.filterMap (Candidate.failure? c.input.options
        (x.relisted c.embedder.modelId c.input))).length ∧
      r.chunks = (c.after x).store.stats.chunks := by
  obtain ⟨t, hupdate, hafter, rfl⟩ := runOver_ok h
  have hready := RunState.ready_start x c.faults c.input.batchSize c.world
  have hvisited := (RunState.triple_update_saved hdistinct).of_ok hready hupdate
  have hlimits := RunState.triple_update_limits.of_ok trivial hupdate
  rw [hafter, Index.failures_of_relisted hdistinct, ← hvisited.failures]
  exact ⟨hvisited.manifest, hlimits, rfl, rfl, rfl⟩

/-- A run over any rows and any file of a manifest has come to its end, and its
manifest was written.  Then the next run with the same files, whatever its
embedder would answer under the same name, finds nothing to do: its manifest is
read, it does not call the embedder, it calls the store at most once, which is to
count the rows, it says that nothing was changed, removed or written, and it leaves
the rows and the text of the manifest as they were. -/
theorem indexing_is_idempotent {α σ τ : Type} {c : IndexCall σ} {bytesOf : α → ByteArray}
    {before t behind : Disk α} {place : Path} {store : Store} {limit : Json.NestingLimit}
    {x : Index} {content : α} {summary : RunSummary}
    (hdistinct : (c.input.candidates.map (·.path)).Nodup)
    (hx : Index.loaded bytesOf before place store limit = .ok x)
    (hdone : (c.runOver x).1 = .ok summary)
    (hcontent : bytesOf content = (c.after x).manifest.text.toUTF8)
    (hwrite : t.write place.text content = .ok behind)
    (e : Embedder τ) (hname : e.modelId = c.embedder.modelId) (faults : List (Option String))
    (hfaults : ∀ m, faults.head? ≠ some (some m)) (world : Logged τ) :
    let kept := c.after x
    ∃ y s, Index.loaded bytesOf behind place kept.store limit = .ok y ∧
      Index.run y e c.input faults world =
        (.ok { summary with changed := 0, removed := 0, written := 0 }, s) ∧
      s.index.world.inner = world.inner ∧
      s.index.shelf = ⟨kept.store, faults.tail⟩ ∧
      ∃ m, s.saved = some m ∧ m.text = kept.manifest.text := by
  intro kept
  have hxDistinct : x.manifest.Distinct := by
    rcases hload : Manifest.load bytesOf before place limit with err | ⟨m, log⟩
    · rw [Index.loaded, hload] at hx
      cases hx
    · rw [Index.loaded, hload] at hx
      cases hx
      exact Manifest.distinct_load hload
  obtain ⟨hmanifest, hlimits, hfiles, hfailed, hchunks⟩ :=
    IndexCall.kept_of_completed hdistinct hdone
  have hkept : kept.manifest.Distinct := by
    rw [hmanifest]
    exact hxDistinct.relisted _ _
  -- the next run starts from the same rows and the same entries in another order
  have hloaded : Index.loaded bytesOf behind place kept.store limit =
      .ok ⟨kept.store, kept.manifest.arranged⟩ := by
    rw [Index.loaded, Manifest.load_written hkept hcontent hwrite]
    rfl
  have hdigests (p : String) : kept.manifest.arranged.digest? p =
      (x.relisted e.modelId c.input).digest? p := by
    rw [Manifest.digest?_arranged hkept, hname]
    exact congrArg (Manifest.digest? · p) hmanifest
  have hstable : (⟨kept.store, kept.manifest.arranged⟩ : Index).Stable e.modelId c.input :=
    Index.stable_of_relisted hdistinct (by
      rw [hname]
      exact (congrArg Manifest.embedder hmanifest).trans (Index.relisted_embedder _ _ _))
      hdigests hlimits
  obtain ⟨s, hrun, hshelf, hinner, hsaved⟩ := RunState.run_stable hstable
    (s := RunState.start kept.manifest.arranged { store := kept.store, faults } c.input.batchSize
      world) rfl rfl hfaults
  have hfailures : c.input.candidates.filterMap
        (Candidate.failure? c.input.options kept.manifest.arranged) =
      c.input.candidates.filterMap (Candidate.failure? c.input.options
        (x.relisted c.embedder.modelId c.input)) :=
    List.filterMap_congr fun k _ => Candidate.failure?_congr (by rw [hdigests, hname])
  refine ⟨_, s, hloaded, ?_, hinner, hshelf, _, hsaved, Manifest.text_arranged _⟩
  refine hrun.trans ?_
  rw [hfailures, hfiles, hfailed, hchunks]
  rfl

/-- A folder with a file of two chunks and one that cannot be read is indexed twice, the second
time with an embedder that fails whatever it is asked. -/
theorem indexing_is_idempotent_importing :
    let c := KnownRun.call { files := [.importing, .unreadable] }
    let place : Path := ⟨.relative, ["m"]⟩
    let kept := c.after {}
    let failing : Embedder Unit := .ofTexts "uniform" fun _ => throw (.failed "down")
    kept.store.rows.map (·.kind) = ["type-header", "constructor"] ∧
      Index.loaded id ({} : Disk ByteArray) place {} = .ok {} ∧
      (c.runOver {}).1 = .ok ⟨2, 1, 0, 2, 1, 2⟩ ∧
      ∃ (behind : Disk ByteArray) (y : Index) (s : RunState Unit) (m : Manifest),
        Index.loaded id behind place kept.store = .ok y ∧
        Index.run y failing c.input [] ⟨(), []⟩ = (.ok ⟨2, 0, 0, 0, 1, 2⟩, s) ∧
        s.index.shelf = ⟨kept.store, []⟩ ∧ s.saved = some m ∧ m.text = kept.manifest.text := by
  intro c place kept failing
  have hloaded : Index.loaded id ({} : Disk ByteArray) place {} = .ok {} := by
    rw [Index.loaded, Manifest.load_eq, Disk.contentAt, Disk.look, Disk.find, Disk.spotOf_first]
    rfl
  have hrows : kept.store.rows.map (·.kind) = ["type-header", "constructor"] := by
    rw [show kept = _ from KnownRun.after_call _ _]
    decide +kernel
  have hdone : (c.runOver {}).1 = .ok ⟨2, 1, 0, 2, 1, 2⟩ := by
    rw [KnownRun.runOver_call]
    decide +kernel
  have hwrite := Disk.write_first kept.manifest.text.toUTF8
  have hdistinct : (c.input.candidates.map (·.path)).Nodup := by decide
  obtain ⟨y, s, hnext, hrun, -, hshelf, m, hsaved, htext⟩ := indexing_is_idempotent (c := c)
    (x := {}) hdistinct hloaded hdone (by rfl) hwrite failing rfl [] (by simp) ⟨(), []⟩
  exact ⟨hrows, hloaded, hdone, _, y, s, m, hnext, hrun, hshelf, hsaved, htext⟩

end SourceShelf
