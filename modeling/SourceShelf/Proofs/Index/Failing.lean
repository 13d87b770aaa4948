import SourceShelf.Proofs.Chunk.Stream
import SourceShelf.Proofs.Index.Completion

/-!
# What a run can fail with

A run fails with an error of the embedder or of the store, or because the limit on the size
of a candidate is no number of bytes (`RunState.raises_run`).  Where the first candidate has
no limit and no files are removed, the run has at most emptied the index
(`Index.run_no_limit`).
-/

namespace SourceShelf

open SourceShelf.Action

/-- True of an error that comes from the embedder or from the store. -/
def RunError.IsInner : RunError → Prop
  | .failure (.emit ..) => True
  | .store _ => True
  | _ => False

/-- True of an error that comes from the embedder or from the store, while chunks are
stored. -/
def EmissionError.IsInner : EmissionError → Prop
  | .failure (.emit ..) => True
  | _ => False

namespace RunState

variable {σ : Type} {e : Embedder σ} {input : RunInput}

theorem raises_onShelf {α : Type} (a : Action Shelf StoreError α) :
    Raises (onShelf a : Action (RunState σ) RunError α) RunError.IsInner :=
  raises_withError fun _ _ _ _ => trivial

theorem raises_report {ε : Type} {E : ε → Prop} (r : LogRecord) :
    Raises (report r : Action (RunState σ) ε Unit) E := raises_modify _

theorem raises_discardOutdated (modelId : String) :
    Raises (discardOutdated modelId : Action (RunState σ) RunError Unit) RunError.IsInner := by
  refine raises_bind raises_get fun s => raises_bind (raises_modify _) fun _ => ?_
  split
  · exact raises_bind (raises_onShelf _) fun _ => raises_modify _
  · exact raises_pure ()

theorem raises_removeMissing (input : RunInput) :
    Raises (removeMissing input : Action (RunState σ) RunError Unit) RunError.IsInner := by
  unfold removeMissing
  split
  · refine raises_bind raises_get fun s => raises_forM fun p _ => ?_
    exact raises_bind (raises_discard (raises_onShelf _)) fun _ => raises_modify _
  · exact raises_pure ()

theorem raises_handOver (sink : Sink σ) (path : Option String) (cs : List Chunk) :
    Raises (sink.handOver path cs) EmissionError.IsInner := by
  induction cs with
  | nil => exact raises_pure ()
  | cons c cs ih =>
    refine raises_bind (raises_withError fun _ _ x _ => ?_) fun _ => ih
    cases x <;> trivial

/-- A unit that was read from a text has all its chunks. -/
theorem raises_emit (sink : Sink σ) {text : String} {path : Option String} {locals : Bool}
    {u : Java.CompilationUnit} (h : Java.parse text path locals = .ok u) (o : ChunkOptions) :
    Raises (sink.emit u.path (u.chunks o)) EmissionError.IsInner := by
  rw [Java.chunks_eq_of_parse h o]
  exact raises_bind (raises_handOver sink _ _) fun _ => raises_pure _

theorem raises_replaceFile (e : Embedder σ) (o : ChunkOptions) (key : DocumentKey) {text : String}
    {path : Option String} {locals : Bool} {u : Java.CompilationUnit}
    (h : Java.parse text path locals = .ok u) :
    Raises (replaceFile e o key u) RunError.IsInner := by
  have hreplace : Raises (IndexSink.replace e o key u) RunError.IsInner := by
    refine raises_bind (raises_discard (raises_withError fun _ _ _ _ => trivial)) fun _ =>
      raises_bind (raises_modify _) fun _ => raises_withError ?_
    refine (raises_emit _ h o).imp fun x hx => ?_
    cases x with
    | failure f => cases f <;> trivial
    | lookup _ => exact hx
  refine raises_bind (raises_modify _) fun _ => raises_bind (raises_within hreplace) fun n => ?_
  exact raises_bind (raises_report _) fun _ => raises_modify _

/-- A visit fails with an inner error, or because the candidate has no limit. -/
theorem raises_visit (e : Embedder σ) (o : ChunkOptions) (c : Candidate) :
    Raises (visit e o c) fun err =>
      err.IsInner ∨ ∃ x, c.loaded = .error (.limit x) ∧ err = .limit x := by
  unfold visit
  rcases hloaded : c.loaded with (f | x) | t
  · exact raises_bind (raises_report _) fun _ => raises_modify _
  · exact raises_throw (.inr ⟨x, rfl, rfl⟩)
  · unfold visitText
    refine raises_bind raises_get fun s => ?_
    split
    · exact raises_pure ()
    · split
      · exact raises_bind (raises_report _) fun _ => raises_modify _
      · rename_i u hparse
        refine raises_bind (raises_report _) fun _ => ?_
        exact (raises_replaceFile e o _ hparse).imp fun _ => .inl

/-- A run fails with an inner error, or because a candidate has no limit. -/
theorem raises_run (e : Embedder σ) (input : RunInput) :
    Raises (run e input) fun err =>
      err.IsInner ∨ ∃ c ∈ input.candidates, ∃ x, c.loaded = .error (.limit x) ∧ err = .limit x := by
  unfold run update
  refine raises_bind (raises_bind ?_ fun _ => raises_bind ?_ fun _ => raises_bind ?_ fun _ => ?_)
    fun _ => raises_bind (raises_modify _) fun _ => raises_bind ?_ fun _ =>
      raises_bind raises_get fun _ => raises_pure _
  · exact (raises_discardOutdated e.modelId).imp fun _ => .inl
  · exact (raises_removeMissing input).imp fun _ => .inl
  · refine raises_forM fun c hc => (raises_visit e input.options c).imp fun err herr => ?_
    exact herr.imp_right fun ⟨x, hx, heq⟩ => ⟨c, hc, x, hx, heq⟩
  · exact raises_withError fun _ _ _ _ => .inl trivial
  · exact (raises_onShelf _).imp fun _ => .inl

end RunState

namespace Index

variable {σ : Type} {e : Embedder σ} {input : RunInput}

open RunState

/-- A run that removes no files, and whose first candidate has no limit, fails.  It has opened
the index and done nothing else. -/
theorem run_no_limit (x : Index) (e : Embedder σ) (world : Logged σ)
    (hkeeps : input.removesMissing = false) {c : Candidate} {cs : List Candidate}
    (hcandidates : input.candidates = c :: cs) {err : LimitError}
    (hloaded : c.loaded = .error (.limit err)) :
    (x.run e input [] world).1 = .error (.limit err) ∧
      (x.run e input [] world).2.saved = none ∧
      (x.run e input [] world).2.index.shelf.store = (x.opened e.modelId).store := by
  set s := start x.manifest { store := x.store, faults := [] } input.batchSize world
  have hready := ready_start x [] input.batchSize world
  have hcalm : Calm s := ⟨none, fun f hf => absurd hf List.not_mem_nil,
    fun p hp => absurd hp List.not_mem_nil, rfl⟩
  rcases hopen : (discardOutdated e.modelId).runOn s with ⟨err' | _, t⟩
  · exact ((triple_discardOutdated_calm e.modelId).of_error hcalm hopen).elim
  · have ht : Ready (x.opened e.modelId) 0 t :=
      (triple_discardOutdated x e.modelId).of_ok hready hopen
    have hremove : (removeMissing input).runOn t = (.ok (), t) := by
      rw [removeMissing, hkeeps, if_neg Bool.false_ne_true]
      rfl
    have hvisit : (visit e input.options c).runOn t = (.error (.limit err), t) := by
      simp [visit, hloaded]
    have hvisits : (input.candidates.forM (visit e input.options)).runOn t =
        (.error (.limit err), t) := by
      rw [hcandidates]
      exact runOn_bind_of_error hvisit _
    have hupdate : (update e input).runOn s = (.error (.limit err), t) := by
      rw [update, runOn_bind_of_ok hopen, runOn_bind_of_ok hremove, runOn_bind_of_error hvisits]
    have hrun : x.run e input [] world = (.error (.limit err), t) := by
      rw [Index.run, RunState.run, runOn_bind_of_error hupdate]
    rw [hrun]
    exact ⟨rfl, ht.saved, ht.store⟩

end Index

end SourceShelf
