import SourceShelf.Proofs.Index.Plan

/-!
# The start of a run

Before a run looks at its candidates it empties an index that another embedder
made, and removes the files that are gone.

* `Ready y removed s`: a run that has noted down nothing so far stands over `y`.
* `triple_discardOutdated`, `triple_removeMissing`: the two steps, which lead to
  `Index.opened` and to `Index.prepared`.
-/

namespace SourceShelf

open SourceShelf.Action

namespace Index

variable {x : Index}

@[simp] theorem without_nil : x.without [] = x := by
  simp [without, Manifest.eraseAll]

theorem without_append_singleton (paths : List String) (p : String) :
    x.without (paths ++ [p]) =
      { store := (x.without paths).store.deleteFile p
        manifest := (x.without paths).manifest.erase p } := by
  simp only [without, Manifest.eraseAll, List.foldl_append, List.foldl_cons, List.foldl_nil,
    rowsOutside_append, rowsOutside_singleton, Store.deleteFile]

end Index

namespace RunState

variable {σ : Type} {x y : Index} {removed : Nat} {s : RunState σ}

/-- A run over an index that has noted down nothing but what it removed. -/
structure Ready (y : Index) (removed : Nat) (s : RunState σ) : Prop where
  store : s.index.shelf.store = y.store
  manifest : s.manifest = y.manifest
  pending : s.index.sink.pending = []
  written : s.index.sink.written = 0
  failures : s.failures = []
  changed : s.changed = 0
  removed : s.removed = removed
  saved : s.saved = none

/-- A run that ended before it wrote anything: at most the rows of some of the
files `paths` are gone. -/
structure Remains (paths : List String) (y : Index) (s : RunState σ) : Prop where
  rows : ∃ lost, lost ⊆ paths ∧ s.index.shelf.store.rows = rowsOutside lost y.store.rows
  saved : s.saved = none

theorem ready_start (x : Index) (faults : List (Option String)) (batchSize : Int)
    (world : Logged σ) :
    Ready x 0 (start x.manifest { store := x.store, faults } batchSize world) :=
  ⟨rfl, rfl, rfl, rfl, rfl, rfl, rfl, rfl⟩

theorem Ready.remains (h : Ready y removed s) : Remains [] y s :=
  ⟨⟨[], List.Subset.refl _, by rw [h.store, rowsOutside_nil]⟩, h.saved⟩

theorem onShelf_runOn {α : Type} (a : Action Shelf StoreError α) (s : RunState σ) :
    (onShelf a).runOn s = ((a.runOn s.index.shelf).1.mapError .store,
      { s with index := { s.index with shelf := (a.runOn s.index.shelf).2 } }) := rfl

theorem Remains.mono {paths paths' : List String} (h : Remains paths y s)
    (hpaths : paths ⊆ paths') : Remains paths' y s := by
  obtain ⟨⟨lost, hlost, hrows⟩, hsaved⟩ := h
  exact ⟨⟨lost, List.Subset.trans hlost hpaths, hrows⟩, hsaved⟩

private theorem triple_clear (x : Index) (m : Manifest) :
    Triple (Ready (σ := σ) { x with manifest := m } 0) (onShelf Shelf.clear)
      (fun _ => Ready { manifest := m } 0)
      (fun s => Remains [] x s ∨ Remains [] { manifest := { embedder := m.embedder } } s) := by
  intro s hs
  rw [onShelf_runOn]
  obtain ⟨faults, hrun | ⟨err, hrun | hrun⟩⟩ := Shelf.clear_cases s.index.shelf
  · rw [hrun]
    exact { hs with store := rfl }
  · rw [hrun]
    exact .inl ⟨hs.remains.rows, hs.saved⟩
  · rw [hrun]
    exact .inr ⟨⟨[], List.Subset.refl _, rfl⟩, hs.saved⟩

/-- What another embedder made is gone. -/
theorem triple_discardOutdated (x : Index) (modelId : String) :
    Triple (Ready (σ := σ) x 0) (discardOutdated modelId)
      (fun _ => Ready (x.opened modelId) 0)
      (fun s => Remains [] x s ∨ Remains [] (x.opened modelId) s) := by
  refine triple_get fun _ => ?_
  rintro s ⟨rfl, hs⟩
  have hnamed : Ready { x with manifest := { x.manifest with embedder := modelId } } 0
      { s with manifest := { x.manifest with embedder := modelId } } :=
    { hs with manifest := rfl }
  rw [runOn_bind_of_ok (runOn_modify _ _), hs.manifest, Index.opened]
  by_cases hout : isOutdated x.manifest modelId = true
  · rw [if_pos hout, if_pos hout]
    refine triple_bind (triple_clear x { x.manifest with embedder := modelId })
      (fun _ => triple_modify fun s' hs' => ?_) _ hnamed
    exact { hs' with manifest := by rw [hs'.manifest] }
  · rw [if_neg hout, if_neg hout]
    exact hnamed

/-- A file is gone, and the run has noted it down. -/
theorem triple_removeFile (y : Index) (paths : List String) (p : String) :
    Triple (Ready (σ := σ) (y.without paths) paths.length) (removeFile p)
      (fun _ => Ready (y.without (paths ++ [p])) (paths ++ [p]).length) (Remains paths y) := by
  intro s hs
  unfold removeFile
  obtain ⟨faults, ⟨n, hrun⟩ | ⟨err, hrun⟩⟩ := Shelf.deleteFile_cases p s.index.shelf
  · have hshelf : (discard (onShelf (Shelf.deleteFile p))).runOn s =
        (.ok (), { s with index := { s.index with
          shelf := ⟨s.index.shelf.store.deleteFile p, faults⟩ } }) := by
      rw [runOn_discard, onShelf_runOn, hrun]
      rfl
    rw [runOn_bind_of_ok hshelf, y.without_append_singleton]
    exact { hs with
      store := by rw [← hs.store]
      manifest := by rw [← hs.manifest]
      removed := by rw [List.length_append, ← hs.removed]; rfl }
  · have hshelf : (discard (onShelf (Shelf.deleteFile p))).runOn s =
        (.error (.store err), { s with index := { s.index with
          shelf := ⟨s.index.shelf.store, faults⟩ } }) := by
      rw [runOn_discard, onShelf_runOn, hrun]
      rfl
    rw [runOn_bind_of_error hshelf]
    exact ⟨⟨paths, List.Subset.refl _, by rw [hs.store]; rfl⟩, hs.saved⟩

/-- The files that are gone are removed. -/
theorem triple_removeMissing (y : Index) (input : RunInput) :
    Triple (Ready (σ := σ) y 0) (removeMissing input)
      (fun _ => Ready (y.without (input.gone y.manifest)) (input.gone y.manifest).length)
      (Remains (input.gone y.manifest) y) := by
  unfold removeMissing RunInput.gone
  by_cases hremoves : input.removesMissing = true
  · rw [if_pos hremoves, if_pos hremoves]
    refine triple_get fun _ => ?_
    rintro s ⟨rfl, hs⟩
    rw [hs.manifest]
    have hloop := triple_forM (missing y.manifest input.candidates) (f := removeFile)
      (I := fun paths => Ready (σ := σ) (y.without paths) paths.length)
      (F := Remains (missing y.manifest input.candidates) y) fun paths p rest hpaths =>
        (triple_removeFile y paths p).conseq (fun _ h => h) (fun _ _ h => h)
          fun _ h => h.mono (hpaths ▸ List.subset_append_left _ _)
    exact hloop s (by rwa [Index.without_nil])
  · rw [if_neg hremoves, if_neg hremoves]
    refine triple_pure fun s hs => ?_
    rwa [Index.without_nil]

end RunState

end SourceShelf
