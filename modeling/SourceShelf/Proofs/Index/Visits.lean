import SourceShelf.Proofs.Index.Plan

/-!
# Looking at the candidates of a run

* `visit_cases`: a candidate ends the run, is listed, is skipped, or replaces a
  document.
* `Visited`: what the run has noted down after some candidates.
* `triple_visits`: all candidates, one after another, for any invariant of the
  index that replacing one stale document preserves.
-/

namespace SourceShelf

open SourceShelf.Action

namespace RunState

variable {σ : Type} {e : Embedder σ} {o : ChunkOptions} {m : Manifest}
variable {cs : List Candidate} {c : Candidate} {s : RunState σ}

/-- What looking at a candidate leads to. -/
theorem visit_cases (e : Embedder σ) (o : ChunkOptions) (c : Candidate) (s : RunState σ) :
    (∃ x, c.loaded = .error (.limit x) ∧ (visit e o c).runOn s = (.error (.limit x), s)) ∨
    (∃ f, c.stale? o s.manifest = none ∧ c.failure? o s.manifest = some f ∧
      (visit e o c).runOn s = (fail f : Action (RunState σ) RunError Unit).runOn s) ∨
    (c.stale? o s.manifest = none ∧ c.failure? o s.manifest = none ∧
      (visit e o c).runOn s = (.ok (), s)) ∨
    ∃ d, c.stale? o s.manifest = some d ∧ c.failure? o s.manifest = none ∧
      (visit e o c).runOn s =
        (do report (unitRecord d.unit); replaceFile e o d.key d.unit : Action _ _ _).runOn s := by
  rcases hloaded : c.loaded with (f | x) | t
  · refine .inr (.inl ⟨f, ?_, ?_, ?_⟩)
    · simp [Candidate.stale?, Candidate.document?, hloaded]
    · simp [Candidate.failure?, hloaded]
    · simp [visit, hloaded]
  · refine .inl ⟨x, rfl, ?_⟩
    simp [visit, hloaded]
  have hvisit : visit e o c = visitText e o c.path t.text := by simp [visit, hloaded]
  rw [hvisit, visitText, runOn_bind_of_ok (runOn_get s)]
  by_cases hdigest : s.manifest.digest? c.path = some (textDigest t.text)
  · refine .inr (.inr (.inl ⟨?_, ?_, ?_⟩))
    · rw [Option.eq_none_iff_forall_ne_some]
      intro d hd
      obtain ⟨hdoc, hne⟩ := Candidate.stale?_eq_some.mp hd
      simp only [Candidate.document?, hloaded] at hdoc
      split at hdoc
      · cases hdoc
      · cases hdoc
        exact hne hdigest
    · simp [Candidate.failure?, hloaded, hdigest]
    · rw [if_pos hdigest]
      rfl
  rw [if_neg hdigest]
  rcases hparse : Java.parse t.text (some c.path) o.includeLocalTypes with f | u
  · refine .inr (.inl ⟨f, ?_, ?_, rfl⟩)
    · simp [Candidate.stale?, Candidate.document?, hloaded, hparse]
    · simp [Candidate.failure?, hloaded, hdigest, hparse]
  · refine .inr (.inr (.inr ⟨⟨⟨c.path, textDigest t.text⟩, u⟩, ?_, ?_, rfl⟩))
    · rw [Candidate.stale?_eq_some]
      simp [Candidate.document?, hloaded, hparse, hdigest]
    · simp [Candidate.failure?, hloaded, hdigest, hparse]

/-- What a run that started with the manifest `m` has noted down after some
candidates. -/
structure Visited (o : ChunkOptions) (m : Manifest) (removed : Nat) (seen : List Candidate)
    (s : RunState σ) : Prop where
  manifest : s.manifest = m.insertAll ((staleDocuments o m seen).map (·.key))
  failures : s.failures = seen.filterMap (Candidate.failure? o m)
  changed : s.changed = (staleDocuments o m seen).length
  removed : s.removed = removed
  saved : s.saved = none

namespace Visited

variable {removed : Nat} {seen : List Candidate}

/-- The manifest still says of a file what it said at first, until the file has
had its turn. -/
theorem digest? (h : Visited o m removed seen s) (hc : c.path ∉ seen.map (·.path)) :
    s.manifest.digest? c.path = m.digest? c.path := by
  rw [h.manifest]
  refine Manifest.digest?_insertAll_of_not_mem m fun k hk => ?_
  obtain ⟨d, hd, rfl⟩ := List.mem_map.mp hk
  obtain ⟨c', hc', hpath⟩ := exists_candidate_of_stale hd
  rw [← hpath]
  exact fun heq => hc (heq ▸ List.mem_map_of_mem hc')

theorem skip (h : Visited o m removed seen s) (hstale : c.stale? o m = none)
    (hfailure : c.failure? o m = none) : Visited o m removed (seen ++ [c]) s where
  manifest := by simpa [staleDocuments, List.filterMap_append, hstale] using h.manifest
  failures := by simpa [List.filterMap_append, hfailure] using h.failures
  changed := by simpa [staleDocuments, List.filterMap_append, hstale] using h.changed
  removed := h.removed
  saved := h.saved

theorem fail {f : Failure} {i : IndexSink.State σ} (h : Visited o m removed seen s)
    (hstale : c.stale? o m = none) (hfailure : c.failure? o m = some f) :
    Visited o m removed (seen ++ [c])
      { s with index := i, failures := s.failures ++ [f] } where
  manifest := by simpa [staleDocuments, List.filterMap_append, hstale] using h.manifest
  failures := by simpa [List.filterMap_append, hfailure] using h.failures
  changed := by simpa [staleDocuments, List.filterMap_append, hstale] using h.changed
  removed := h.removed
  saved := h.saved

theorem replace {d : Document} {i : IndexSink.State σ} (h : Visited o m removed seen s)
    (hstale : c.stale? o m = some d) (hfailure : c.failure? o m = none) :
    Visited o m removed (seen ++ [c])
      { s with index := i, changed := s.changed + 1
               manifest := s.manifest.insert d.key.path d.key.digest } where
  manifest := by
    rw [staleDocuments_append, staleDocuments, staleDocuments, List.filterMap_cons_some hstale,
      List.filterMap_nil, List.map_append, List.map_singleton,
      Manifest.insertAll_append_singleton, ← staleDocuments, ← h.manifest]
  failures := by simpa [List.filterMap_append, hfailure] using h.failures
  changed := by simpa [staleDocuments, List.filterMap_append, hstale] using h.changed
  removed := h.removed
  saved := h.saved

end Visited

/-- Replacing a document, for an invariant of the index and what the run notes
down. -/
theorem triple_replaceFile {J : IndexSink.State σ → Prop} {J' : IndexSink.State σ → Prop}
    {F : IndexSink.State σ → Prop} {V : RunState σ → Prop} {W : RunState σ → Prop}
    (key : DocumentKey) (u : Java.CompilationUnit)
    (hreplace : Triple J (IndexSink.replace e o key u) (fun _ => J') F)
    (hworld : ∀ i w, J' i → J' { i with world := w })
    (hV : ∀ s, V s → s.saved = none)
    (hW : ∀ s i, V s → W { s with index := i, changed := s.changed + 1
                                  manifest := s.manifest.insert key.path key.digest }) :
    Triple (fun s => J s.index ∧ V s) (replaceFile e o key u)
      (fun _ s => J' s.index ∧ W s) (fun s => F s.index ∧ s.saved = none) := by
  rintro s ⟨hJ, hs⟩
  unfold replaceFile
  rw [runOn_bind_of_ok (runOn_modify _ _)]
  rcases hrun : (IndexSink.replace e o key u).runOn s.index with ⟨err | n, i⟩
  · have hfail : (onIndex (IndexSink.replace e o key u)).runOn
        { s with changed := s.changed + 1 } =
        (.error err, { s with changed := s.changed + 1, index := i }) := by
      rw [onIndex, runOn_within, hrun]
    rw [runOn_bind_of_error hfail]
    exact ⟨hreplace.of_error hJ hrun, hV s hs⟩
  · have hok : (onIndex (IndexSink.replace e o key u)).runOn
        { s with changed := s.changed + 1 } =
        (.ok n, { s with changed := s.changed + 1, index := i }) := by
      rw [onIndex, runOn_within, hrun]
    rw [runOn_bind_of_ok hok]
    have hJ' : J' i := hreplace.of_ok hJ hrun
    exact ⟨hworld i _ hJ', hW s _ hs⟩

/-- Looking at the candidates, one after another.  `J done` is to hold of the
index once the documents `done` are replaced; if it cannot be kept up, the run
ends with `F`. -/
theorem triple_visits {J : List Document → IndexSink.State σ → Prop}
    {F : IndexSink.State σ → Prop} (hdistinct : (cs.map (·.path)).Nodup)
    (hreplace : ∀ done d rest, staleDocuments o m cs = done ++ d :: rest →
      Triple (J done) (IndexSink.replace e o d.key d.unit) (fun _ => J (done ++ [d])) F)
    (hworld : ∀ docs i w, J docs i → J docs { i with world := w })
    (hend : ∀ done rest i, staleDocuments o m cs = done ++ rest → J done i → F i)
    (removed : Nat) :
    Triple (fun s => J [] s.index ∧ Visited o m removed [] s) (cs.forM (visit e o))
      (fun _ s => J (staleDocuments o m cs) s.index ∧ Visited o m removed cs s)
      (fun s => F s.index ∧ s.saved = none) := by
  refine triple_forM _ (I := fun seen s =>
    J (staleDocuments o m seen) s.index ∧ Visited o m removed seen s) fun seen c rest hcs => ?_
  rintro s ⟨hJ, hs⟩
  have hc : c.path ∉ seen.map (·.path) := by
    rw [hcs, List.map_append, List.map_cons] at hdistinct
    exact fun hmem => (List.nodup_append.mp hdistinct).2.2 _ hmem _ List.mem_cons_self rfl
  have hdigest := hs.digest? hc
  have hkeep (hstale : c.stale? o m = none) :
      staleDocuments o m (seen ++ [c]) = staleDocuments o m seen := by
    simp [staleDocuments, List.filterMap_append, hstale]
  have hcases := visit_cases e o c s
  rw [Candidate.stale?_congr hdigest, Candidate.failure?_congr hdigest] at hcases
  rcases hcases with ⟨x, -, hrun⟩ | ⟨f, hstale, hfailure, hrun⟩ | ⟨hstale, hfailure, hrun⟩ |
    ⟨d, hstale, hfailure, hrun⟩
  · rw [hrun]
    exact ⟨hend _ _ _ (by rw [hcs, staleDocuments_append]) hJ, hs.saved⟩
  · rw [hrun, hkeep hstale]
    exact ⟨hworld _ _ _ hJ, hs.fail hstale hfailure⟩
  · rw [hrun, hkeep hstale]
    exact ⟨hJ, hs.skip hstale hfailure⟩
  · rw [hrun]
    have hnext : staleDocuments o m (seen ++ [c]) = staleDocuments o m seen ++ [d] := by
      simp [staleDocuments, List.filterMap_append, hstale]
    have hsplit : staleDocuments o m cs =
        staleDocuments o m seen ++ d :: staleDocuments o m rest := by
      rw [hcs, staleDocuments_append]
      simp [staleDocuments, hstale]
    rw [hnext]
    refine triple_replaceFile (V := Visited o m removed seen)
      (W := Visited o m removed (seen ++ [c])) d.key d.unit (hreplace _ d _ hsplit)
      (fun i w => hworld _ i w) (fun _ h => h.saved)
      (fun _ _ h => h.replace hstale hfailure) _ ⟨hworld _ _ _ hJ, ?_⟩
    exact ⟨hs.manifest, hs.failures, hs.changed, hs.removed, hs.saved⟩

end RunState

end SourceShelf
