import SourceShelf.Proofs.Index.Alike
import SourceShelf.Proofs.Index.Counting
import SourceShelf.Proofs.Index.Incremental
import SourceShelf.Proofs.Index.Stable

/-!
# The numbers of a run add up

A run that came to its end says how many files it looked at, replaced and failed to read, how
many chunks it wrote, and how many there are now.  The first four are counted on the way and
the last one by the store.

* `Updated.rows_balance`: the rows before a run, those that it deleted and wrote, and those
  behind it.
* `Index.Counted`: every entry of the manifest is of a text with as many chunks as there are
  rows of the file.  Runs that save keep it so.
* `summary_balances`: the summary of a run behind runs that came to their ends.
-/

namespace SourceShelf

/-- How many rows there are of some files. -/
def Store.countOf (s : Store) (paths : List String) : Nat :=
  (paths.map fun p => (s.rowsOfFile p).length).sum

/-- How many chunks some documents have. -/
def chunkCount (o : ChunkOptions) (docs : List Document) : Nat :=
  (docs.map fun d => (d.unit.chunks o).chunks.length).sum

/-- How many rows a run deletes: all of an index of another embedder, those of the files that
are gone, and those of the documents that it replaces. -/
def Index.deleted (x : Index) (modelId : String) (input : RunInput) : Nat :=
  let y := x.opened modelId
  (if RunState.isOutdated x.manifest modelId then x.store.rows.length else 0) +
    y.store.countOf (input.gone y.manifest) +
    y.store.countOf ((staleDocuments input.options y.manifest input.candidates).map (·.key.path))

/-- The summary of a run over the index `x` that left the index `y` adds up.  The documents
among the candidates `cs` are those that the history has seen. -/
structure RunSummary.Balances (r : RunSummary) (o : ChunkOptions) (cs : List Candidate)
    (x : Index) (modelId : String) (input : RunInput) (y : Index) : Prop where
  /-- Every candidate is skipped, replaced or listed as failed: exactly one of the three. -/
  groups : ∀ c ∈ input.candidates,
    [c.isListed (x.opened modelId).manifest,
      (c.stale? input.options (x.opened modelId).manifest).isSome,
      (c.failure? input.options (x.opened modelId).manifest).isSome].count true = 1
  changed : r.changed = input.candidates.countP fun c =>
    (c.stale? input.options (x.opened modelId).manifest).isSome
  failed : r.failed = input.candidates.countP fun c =>
    (c.failure? input.options (x.opened modelId).manifest).isSome
  files : r.files =
    input.candidates.countP (·.isListed (x.opened modelId).manifest) + r.changed + r.failed
  written : r.written = chunkCount input.options
    (staleDocuments input.options (x.opened modelId).manifest input.candidates)
  rows : r.chunks + x.deleted modelId input = x.store.rows.length + r.written
  /-- Each entry of the manifest is of a document, and their chunks are all there are. -/
  chunks : ∃ docs, List.Forall₂
    (fun e d => Known o cs d ∧ d.key = ⟨e.1, e.2⟩) y.manifest.files docs ∧
    r.chunks = chunkCount o docs

section Rows

variable {S : String → Embedding → Prop} {o : ChunkOptions} {x y : Index} {modelId : String}
variable {input : RunInput} {d : Document}

theorem Document.length_records (o : ChunkOptions) (d : Document) :
    (d.records o).length = (d.unit.chunks o).chunks.length := by
  rw [records, chunksAt, List.length_map, List.length_zipIdx]

theorem length_flatMap_records (o : ChunkOptions) (docs : List Document) :
    (docs.flatMap (·.records o)).length = chunkCount o docs := by
  rw [List.length_flatMap, chunkCount]
  simp only [Document.length_records]

/-- No file is gone twice. -/
theorem RunInput.gone_nodup {m : Manifest} (h : m.Distinct) (input : RunInput) :
    (input.gone m).Nodup := by
  unfold RunInput.gone RunState.missing
  split
  · exact (List.mergeSort_perm _ _).nodup_iff.mpr (h.filter _)
  · exact List.nodup_nil

theorem Index.length_opened_rows (x : Index) (modelId : String) :
    (x.opened modelId).store.rows.length +
        (if RunState.isOutdated x.manifest modelId then x.store.rows.length else 0) =
      x.store.rows.length := by
  unfold Index.opened
  split
  · exact Nat.zero_add _
  · rfl

/-- The rows behind a run and those that it deleted are the rows before it and those that it
wrote. -/
theorem Index.Updated.rows_balance (h : x.Updated S modelId input y)
    (hdistinct : (input.candidates.map (·.path)).Nodup) (hx : x.manifest.Distinct) :
    y.store.rows.length + x.deleted modelId input =
      x.store.rows.length + chunkCount input.options
        (staleDocuments input.options (x.opened modelId).manifest input.candidates) := by
  obtain ⟨rows, hrows, hstored⟩ := h.rows
  have hopened := x.length_opened_rows modelId
  have hgone := length_rowsOutside (input.gone_nodup (hx.opened modelId))
    (x.opened modelId).store.rows
  have hpaths : ((x.stale modelId input).map (·.key.path)).Nodup := stale_paths_nodup hdistinct
  have hkept := length_rowsOutside hpaths (x.prepared modelId input).store.rows
  have hstale (p : String) (hp : p ∈ (x.stale modelId input).map (·.key.path)) :
      (x.prepared modelId input).store.rowsOfFile p = (x.opened modelId).store.rowsOfFile p := by
    obtain ⟨d, hd, rfl⟩ := List.mem_map.mp hp
    obtain ⟨c, hc, -, hpath⟩ := exists_candidate_of_mem_stale hd
    exact prepared_rowsOfFile_of_not_gone fun hmem => (mem_gone.mp hmem).2.2 c hc hpath
  have hcount : (((x.stale modelId input).map (·.key.path)).map fun p =>
      ((x.prepared modelId input).store.rows.filter (·.filePath = p)).length).sum =
      (x.opened modelId).store.countOf ((x.stale modelId input).map (·.key.path)) :=
    congrArg List.sum (List.map_congr_left fun p hp => congrArg List.length (hstale p hp))
  have hwritten : rows.length = chunkCount input.options (x.stale modelId input) := by
    rw [← hstored.length_eq, length_flatMap_records]
  have hprepared : (x.prepared modelId input).store.rows =
      rowsOutside (input.gone (x.opened modelId).manifest) (x.opened modelId).store.rows := rfl
  rw [hcount] at hkept
  rw [← hprepared] at hgone
  rw [hrows, List.length_append, hwritten, ← x.stale_eq_opened, deleted, ← x.stale_eq_opened]
  unfold Store.countOf Store.rowsOfFile at *
  omega

end Rows

/-! ## Behind runs that came to their ends -/

/-- Every entry of the manifest is of a document with as many chunks as the file has rows, and
the rows are all of listed files. -/
structure Index.Counted (o : ChunkOptions) (cs : List Candidate) (x : Index) : Prop where
  known : KnownRows o cs x
  distinct : x.manifest.Distinct
  covered : x.Covered
  entries : ∀ path digest, x.manifest.digest? path = some digest → ∃ d, Known o cs d ∧
    d.key = ⟨path, digest⟩ ∧ (x.store.rowsOfFile path).length = (d.unit.chunks o).chunks.length

section History

variable {σ : Type} {o : ChunkOptions} {cs cs' : List Candidate} {x : Index} {c : IndexCall σ}
variable {es : List (Event σ)} {r : RunSummary}

namespace Index.Counted

theorem empty (o : ChunkOptions) (cs : List Candidate) : Counted o cs {} where
  known := knownRows_empty o cs
  distinct := List.nodup_nil
  covered _ hr := absurd hr List.not_mem_nil
  entries _ _ h := nomatch h

/-- A run that saves keeps it so. -/
theorem after (h : x.Counted o cs) (hc : c.Regular o)
    (hfree : CollisionFree o (cs ++ c.input.candidates)) (hsaves : c.Saves x) :
    (c.after x).Counted o (cs ++ c.input.candidates) := by
  obtain ⟨hupdated, hknown⟩ := (h.known.mono (List.subset_append_left _ _)).step hc hfree
    (List.subset_append_right cs c.input.candidates) hsaves
  refine ⟨hknown, ?_, hupdated.covered hc.distinct h.covered, fun path digest hdigest => ?_⟩
  · rw [hupdated.manifest]
    exact h.distinct.relisted _ _
  by_cases hpath : path ∈ (x.stale c.embedder.modelId c.input).map (·.key.path)
  · obtain ⟨d, hd, rfl⟩ := List.mem_map.mp hpath
    have hnew : (c.after x).manifest.digest? d.key.path = some d.key.digest := by
      rw [hupdated.manifest, relisted_digest?_of_stale hc.distinct hd]
    obtain rfl : d.key.digest = digest := Option.some.inj (hnew.symm.trans hdigest)
    refine ⟨d, ?_, rfl, ?_⟩
    · exact (known_of_stale rfl (List.subset_append_right _ _) hd).alike hc.options.symm
    · rw [← (hupdated.rowsOfFile_of_stale hc.distinct hd).length_eq, Document.length_records,
        d.length_chunks c.input.options o]
  · obtain ⟨-, hold, hrows⟩ := hupdated.kept hpath hdigest
    obtain ⟨d, hd, hkey, hlength⟩ := h.entries path digest hold
    exact ⟨d, hd.mono (List.subset_append_left _ _), hkey, hrows ▸ hlength⟩

/-- The rows are the chunks of the documents in the manifest. -/
theorem total (h : x.Counted o cs) :
    ∃ docs, List.Forall₂ (fun e d => Known o cs d ∧ d.key = ⟨e.1, e.2⟩) x.manifest.files docs ∧
      x.store.rows.length = chunkCount o docs := by
  have hentry (e : String × String) (he : e ∈ x.manifest.files) :=
    h.entries e.1 e.2 ((Manifest.digest?_eq_some h.distinct).mpr he)
  have : Nonempty Document := ⟨⟨default, default⟩⟩
  choose! docOf hknown hkey hlength using hentry
  have houtside : rowsOutside (x.manifest.files.map Prod.fst) x.store.rows = [] := by
    rw [List.eq_nil_iff_forall_not_mem]
    intro r hr
    obtain ⟨hmem, hpath⟩ := mem_rowsOutside.mp hr
    exact hpath (List.mem_map_of_mem ((Manifest.digest?_eq_some h.distinct).mp (h.covered r hmem)))
  refine ⟨x.manifest.files.map docOf, List.forall₂_map_right_iff.mpr
    (List.forall₂_same.mpr fun e he => ⟨hknown e he, hkey e he⟩), ?_⟩
  rw [← length_rowsOutside h.distinct x.store.rows, houtside, List.length_nil, Nat.zero_add,
    chunkCount, List.map_map, List.map_map]
  exact congrArg List.sum (List.map_congr_left hlength)

end Index.Counted

/-- Behind runs that saved their manifests, every entry has the rows of its document. -/
theorem counted_replay (hruns : ∀ c, .run c ∈ es → c.Regular o) (hfree : CollisionFree o (seen es))
    (hsaves : AllSave es) : (replay es).Counted o (seen es) := by
  induction es using List.reverseRecOn with
  | nil => exact Index.Counted.empty o _
  | append_singleton es e ih =>
    rw [seen_append] at hfree
    have hbefore := ih (fun c hc => hruns c (List.mem_append_left _ hc))
      (hfree.mono (List.subset_append_left _ _)) (hsaves.of_prefix (List.prefix_append _ _))
    rw [replay_append_singleton]
    cases e with
    | reset => exact Index.Counted.empty o _
    | run c =>
      rw [seen_singleton_run] at hfree
      rw [seen_append, seen_singleton_run]
      exact hbefore.after (hruns c (List.mem_append_right _ (List.mem_singleton_self _))) hfree
        (hsaves es c (List.prefix_refl _))

/-- Behind runs that came to their ends, whatever their embedders and whether they wrote imports
to members, the summary of a run that comes to its end adds up. -/
theorem summary_balances (hruns : ∀ k, .run k ∈ es ++ [.run c] → k.Regular o)
    (hfree : CollisionFree o (seen (es ++ [.run c]))) (hcompletes : AllComplete es)
    (hdone : (c.runOver (replay es)).1 = .ok r) :
    r.Balances o (seen (es ++ [.run c])) (replay es) c.embedder.modelId c.input
      (c.after (replay es)) := by
  have hc := hruns c (List.mem_append_right _ (List.mem_singleton_self _))
  rw [seen_append, seen_singleton_run] at hfree ⊢
  have hbefore := counted_replay (fun k hk => hruns k (List.mem_append_left _ hk))
    (hfree.mono (List.subset_append_left _ _)) hcompletes.allSave
  have hsaves : c.Saves (replay es) := IndexCall.Completes.saves ⟨r, hdone⟩
  obtain ⟨hupdated, -⟩ := (hbefore.known.mono (List.subset_append_left _ _)).step hc hfree
    (List.subset_append_right (seen es) c.input.candidates) hsaves
  obtain ⟨-, hlimits, hfiles, -, hchunks⟩ := IndexCall.kept_of_completed hc.distinct hdone
  obtain ⟨hchanged, hfailed, hwritten⟩ := IndexCall.counts_of_completed hc.distinct hdone
  obtain ⟨docs, hdocs, htotal⟩ := (hbefore.after hc hfree hsaves).total
  have hgroups (k : Candidate) (hk : k ∈ c.input.candidates) :=
    Candidate.one_group (hlimits k hk) c.input.options
      ((replay es).opened c.embedder.modelId).manifest
  refine ⟨hgroups, hchanged, hfailed, ?_, hwritten, ?_, docs, hdocs, hchunks.trans htotal⟩
  · rw [hfiles, hchanged, hfailed]
    exact length_eq_of_groups _ _ _ hgroups
  · rw [hchunks, hwritten]
    exact hupdated.rows_balance hc.distinct hbefore.distinct

end History

/-- Two files are indexed.  Then one of them is replaced, the other one removed, and a new one
cannot be read. -/
theorem summary_balances_changedFile :
    let x := replay (KnownRun.history [{ files := [.beside, .bare] }])
    let c := KnownRun.call { files := [.importing, .unreadable] }
    (c.runOver x).1 = .ok ⟨2, 1, 1, 2, 1, 2⟩ ∧ x.store.rows.length = 2 ∧
      RunSummary.Balances ⟨2, 1, 1, 2, 1, 2⟩ {}
        (seen (KnownRun.history [{ files := [.beside, .bare] },
          { files := [.importing, .unreadable] }]))
        x "uniform" c.input (c.after x) := by
  intro x c
  let rs : List KnownRun :=
    [{ files := [.beside, .bare] }, { files := [.importing, .unreadable] }]
  have hhistory : KnownRun.history [{ files := [.beside, .bare] }] ++ [.run c] =
      KnownRun.history rs := rfl
  have hruns (k : IndexCall Unit) (hk : .run k ∈ KnownRun.history rs) : k.Regular {} := by
    obtain ⟨r, hr, rfl⟩ := KnownRun.call_of_mem_history hk
    simp only [rs, List.mem_cons, List.not_mem_nil, or_false] at hr
    rcases hr with rfl | rfl
    · exact ⟨rfl, by decide⟩
    · exact ⟨rfl, by decide⟩
  have hfree : CollisionFree {} (seen (KnownRun.history rs)) := by
    refine collisionFree_samples ?_
    rw [KnownRun.seen_history]
    exact List.map_subset _ (by simp [rs, KnownFile.samples])
  have hx : x = KnownRun.after { files := [.beside, .bare] } {} := KnownRun.replay_history _
  have hrows : x.store.rows.length = 2 := by
    rw [hx]
    decide +kernel
  have hdone : (c.runOver x).1 = .ok ⟨2, 1, 1, 2, 1, 2⟩ := by
    rw [KnownRun.runOver_call, hx]
    decide +kernel
  refine ⟨hdone, hrows, ?_⟩
  rw [← hhistory] at hruns hfree ⊢
  refine summary_balances hruns hfree (allComplete_of_undisturbed fun k hk => ?_) hdone
  obtain ⟨r, hr, rfl⟩ := KnownRun.call_of_mem_history hk
  obtain rfl := List.mem_singleton.mp hr
  exact KnownRun.undisturbed fun f hf => absurd hf List.not_mem_nil

end SourceShelf
