import SourceShelf.Proofs.Index.KnownFiles
import SourceShelf.Proofs.Java.EmptyText
import SourceShelf.Proofs.Store.Planned

/-!
# Trying a run again

What a run does to the rows follows from the candidates, the manifest and the
vectors.  So a run that failed can be done again, wherever it failed: the second
run drops and replaces all that the first one left.

* `planned_update`: a run up to the point where it saves is planned.
* `retry_converges`: a run that failed and is done again, compared with a run
  that is done at once.
-/

namespace SourceShelf

open SourceShelf.Action

variable {σ : Type} {e : Embedder σ}

namespace IndexSink

/-- A sink over its store. -/
def view : View (State σ) IndexSink := ⟨State.sink, fun s => s.shelf.store⟩

theorem planned_onShelf {α : Type} {a : Action Shelf StoreError α} (h : Planned Shelf.view a) :
    Planned (view (σ := σ)) (onShelf a) :=
  planned_withError (planned_within h (fun _ => ()) (fun _ k => k) (fun _ => rfl)
    (fun _ _ => rfl) (fun _ => rfl) fun _ _ => rfl)

/-- An action on the embedder that always leads to the same result. -/
theorem planned_onWorld {ε α : Type} {a : Action (Logged σ) ε α}
    (h : ∀ s s' t t' x y, a.runOn s = (.ok x, s') → a.runOn t = (.ok y, t') → x = y) :
    Planned view (onWorld a) := by
  intro k
  by_cases hok : ∃ x t t', a.runOn t = (.ok x, t')
  · obtain ⟨x, t, t', hrun⟩ := hok
    refine ⟨.nothing, some (x, k), fun s hs => ?_⟩
    rw [onWorld_runOn]
    rcases hrun' : a.runOn s.world with ⟨err | y, w⟩
    · exact ⟨.nothing, StoreChange.le_refl _, (StoreChange.nothing_apply _).symm⟩
    · refine ⟨?_, (StoreChange.nothing_apply _).symm⟩
      rw [h _ _ _ _ _ _ hrun hrun', ← hs]
      rfl
  · refine ⟨.nothing, none, fun s _ => ?_⟩
    rw [onWorld_runOn]
    rcases hrun' : a.runOn s.world with ⟨err | y, w⟩
    · exact ⟨.nothing, StoreChange.le_refl _, (StoreChange.nothing_apply _).symm⟩
    · exact absurd ⟨y, _, _, hrun'⟩ hok

theorem planned_flush (he : e.Repeats) : Planned view (flush e) := by
  refine planned_get (fun s t h => ?_) fun s => ?_
  · have hsink : s.sink = t.sink := h
    rw [hsink]
  have hembed : Planned view ((onWorld (e.embed (s.sink.pending.map (·.chunk.text)))).withError
      IndexSinkError.embed) :=
    planned_withError (planned_onWorld fun s s' t t' x y hx hy => he _ s s' x t t' y hx hy)
  have hreport (n : Nat) : Planned (view (σ := σ))
      (onWorld (SourceShelf.report (ε := IndexSinkError)
      (.debug ("Stored " ++ toString n ++ " embedded chunk(s)")))) :=
    planned_onWorld fun _ _ _ _ _ _ _ _ => rfl
  by_cases hpending : s.sink.pending.isEmpty = true
  · rw [if_pos hpending]
    exact planned_pure 0
  rw [if_neg hpending]
  refine planned_bind (planned_modify (fun k => { k with pending := [] }) (fun _ => rfl)
    fun _ => rfl) fun _ => planned_bind hembed fun vs => ?_
  by_cases hcount : vs.length = s.sink.pending.length
  · rw [if_neg (by simpa using hcount)]
    refine planned_bind (planned_onShelf (Shelf.planned_upsert _)) fun n => ?_
    refine planned_bind (planned_modify (fun k => { k with written := k.written + n })
      (fun _ => rfl) fun _ => rfl) fun _ => planned_bind (hreport n) fun _ => planned_pure n
  · rw [if_pos hcount]
    exact planned_throw _

theorem planned_consume (he : e.Repeats) (c : Chunk) : Planned view (consume e c) := by
  refine planned_get (fun s t h => ?_) fun s => ?_
  · have hsink : s.sink = t.sink := h
    rw [hsink]
  cases s.sink.document with
  | none => exact planned_throw _
  | some d =>
    refine planned_bind (planned_modify (fun k => { k with
      pending := k.pending ++ [⟨d, k.ordinal, c⟩], ordinal := k.ordinal + 1 }) (fun _ => rfl)
      fun _ => rfl) fun _ => planned_get (fun s t h => ?_) fun s => ?_
    · have hsink : s.sink = t.sink := h
      rw [hsink]
    · by_cases hfull : s.sink.batchSize ≤ s.sink.pending.length
      · exact (congrArg (Planned view) (if_pos hfull)).mpr (planned_discard (planned_flush he))
      · exact (congrArg (Planned view) (if_neg hfull)).mpr (planned_pure ())

theorem planned_handOver (he : e.Repeats) (path : Option String) (cs : List Chunk) :
    Planned view ((receiver e).handOver path cs) := by
  induction cs with
  | nil => exact planned_pure ()
  | cons c cs ih =>
    exact planned_bind (planned_withError (planned_withError (planned_consume he c))) fun _ => ih

theorem planned_replace (he : e.Repeats) (o : ChunkOptions) (key : DocumentKey)
    (u : Java.CompilationUnit) : Planned view (replace e o key u) := by
  have hdelete : Planned view (discard (((Shelf.deleteFile key.path).within State.shelf
      fun x (s : State σ) => { s with shelf := x }).withError RunError.store)) := by
    rw [discard_withError, discard_within]
    exact planned_withError (planned_within (Shelf.planned_deleteFile key.path) (fun _ => ())
      (fun _ k => k) (fun _ => rfl) (fun _ _ => rfl) (fun _ => rfl) fun _ _ => rfl)
  refine planned_bind hdelete fun _ => planned_bind (planned_modify
    (fun k => k.setDocument key) (fun _ => rfl) fun _ => rfl) fun _ => planned_withError ?_
  refine planned_bind (planned_handOver he u.path _) fun _ => ?_
  cases (u.chunks o).stopped with
  | none => exact planned_pure _
  | some err => exact planned_throw _

end IndexSink

namespace RunState

/-- What a run has noted down, and what waits to be stored. -/
structure Notes where
  sink : IndexSink
  manifest : Manifest
  saved : Option Manifest
  failures : List Failure
  changed : Nat
  removed : Nat

/-- The notes of a run. -/
def notes (s : RunState σ) : Notes :=
  ⟨s.index.sink, s.manifest, s.saved, s.failures, s.changed, s.removed⟩

/-- A run over its store. -/
def view : View (RunState σ) Notes := ⟨notes, fun s => s.index.shelf.store⟩

theorem planned_onIndex {ε α : Type} {a : Action (IndexSink.State σ) ε α}
    (h : Planned IndexSink.view a) : Planned view (onIndex a) :=
  planned_within h Notes.sink (fun k n => { n with sink := k }) (fun _ => rfl) (fun _ _ => rfl)
    (fun _ => rfl) fun _ _ => rfl

theorem planned_onShelf {α : Type} {a : Action Shelf StoreError α} (h : Planned Shelf.view a) :
    Planned (view (σ := σ)) (onShelf a) :=
  planned_withError (planned_within h (fun _ => ()) (fun _ n => n) (fun _ => rfl)
    (fun _ _ => rfl) (fun _ => rfl) fun _ _ => rfl)

theorem planned_report {ε : Type} (r : LogRecord) :
    Planned view (report r : Action (RunState σ) ε Unit) :=
  planned_modify id (fun _ => rfl) fun _ => rfl

theorem summary_congr {s t : RunState σ} (hnotes : s.notes = t.notes)
    (hstore : s.index.shelf.store = t.index.shelf.store) (files : Nat) :
    s.summary files = t.summary files := by
  have hwritten := congrArg (fun n => n.sink.written) hnotes
  have hfailures := congrArg Notes.failures hnotes
  have hchanged := congrArg Notes.changed hnotes
  have hremoved := congrArg Notes.removed hnotes
  simp only [notes] at hwritten hfailures hchanged hremoved
  rw [summary, summary, hwritten, hfailures, hchanged, hremoved, hstore]

theorem planned_fail {ε : Type} (f : Failure) :
    Planned view (fail f : Action (RunState σ) ε Unit) :=
  planned_bind (planned_report _) fun _ =>
    planned_modify (fun n => { n with failures := n.failures ++ [f] }) (fun _ => rfl) fun _ => rfl

theorem planned_discardOutdated (modelId : String) :
    Planned (view (σ := σ)) (discardOutdated modelId) := by
  refine planned_get (fun s t h => ?_) fun s => ?_
  · have hmanifest : s.manifest = t.manifest := congrArg Notes.manifest h
    rw [hmanifest]
  refine planned_bind (planned_modify
    (fun n => { n with manifest := { n.manifest with embedder := modelId } }) (fun _ => rfl)
    fun _ => rfl) fun _ => ?_
  by_cases hout : isOutdated s.manifest modelId = true
  · rw [if_pos hout]
    exact planned_bind (planned_onShelf Shelf.planned_clear) fun _ => planned_modify
      (fun n => { n with manifest := { n.manifest with files := [] } }) (fun _ => rfl)
      fun _ => rfl
  · rw [if_neg hout]
    exact planned_pure ()

theorem planned_removeFile (path : String) : Planned (view (σ := σ)) (removeFile path) := by
  have hdelete : Planned (view (σ := σ)) (discard (onShelf (Shelf.deleteFile path))) := by
    rw [onShelf, discard_withError, discard_within]
    exact planned_onShelf (Shelf.planned_deleteFile path)
  exact planned_bind hdelete fun _ => planned_modify
    (fun n => { n with manifest := n.manifest.erase path, removed := n.removed + 1 })
    (fun _ => rfl) fun _ => rfl

theorem planned_removeMissing (input : RunInput) :
    Planned (view (σ := σ)) (removeMissing input) := by
  unfold removeMissing
  by_cases hremoves : input.removesMissing = true
  · rw [if_pos hremoves]
    refine planned_get (fun s t h => ?_) fun s => planned_forM planned_removeFile _
    have hmanifest : s.manifest = t.manifest := congrArg Notes.manifest h
    rw [hmanifest]
  · rw [if_neg hremoves]
    exact planned_pure ()

theorem planned_visit (he : e.Repeats) (o : ChunkOptions) (c : Candidate) :
    Planned view (visit e o c) := by
  unfold visit
  rcases c.loaded with (f | x) | t
  · exact planned_fail f
  · exact planned_throw _
  refine planned_get (fun s t h => ?_) fun s => ?_
  · have hmanifest : s.manifest = t.manifest := congrArg Notes.manifest h
    rw [hmanifest]
  by_cases hdigest : s.manifest.digest? c.path = some (textDigest t.text)
  · rw [if_pos hdigest]
    exact planned_pure ()
  rw [if_neg hdigest]
  cases Java.parse t.text (some c.path) o.includeLocalTypes with
  | error f => exact planned_fail f
  | ok u =>
    refine planned_bind (planned_report _) fun _ => ?_
    refine planned_bind (planned_modify (fun n => { n with changed := n.changed + 1 })
      (fun _ => rfl) fun _ => rfl) fun _ => ?_
    refine planned_bind (planned_onIndex (IndexSink.planned_replace he o _ u)) fun n => ?_
    exact planned_bind (planned_report _) fun _ => planned_modify
      (fun n => { n with manifest := n.manifest.insert c.path (textDigest t.text) })
      (fun _ => rfl) fun _ => rfl

/-- What a run does up to the point where it saves follows from its input and
the manifest. -/
theorem planned_update (he : e.Repeats) (input : RunInput) : Planned view (update e input) := by
  refine planned_bind (planned_discardOutdated _) fun _ => ?_
  refine planned_bind (planned_removeMissing input) fun _ => ?_
  refine planned_bind (planned_forM (planned_visit he input.options) _) fun _ => ?_
  exact planned_withError (planned_onIndex (planned_discard (IndexSink.planned_flush he)))

/-! ## Nothing to do -/

/-- A run that finds its candidates as they are listed changes nothing. -/
theorem triple_update_idle {x : Index} {input : RunInput}
    (hdistinct : (input.candidates.map (·.path)).Nodup)
    (hprepared : x.prepared e.modelId input = x) (hstale : x.stale e.modelId input = []) :
    Triple (Ready x 0) (update e input)
      (fun _ s => (s.index.shelf.store = x.store ∧ s.index.sink.written = 0) ∧
        Visited input.options x.manifest (input.gone (x.opened e.modelId).manifest).length
          input.candidates s)
      (fun _ => True) := by
  have hupdate := triple_update_of input (e := e) (x := x)
    (J := fun _ i => i.shelf.store = x.store ∧ i.sink.written = 0 ∧ i.sink.pending = [])
    (D := fun i => i.shelf.store = x.store ∧ i.sink.written = 0) (F := fun _ => True) hdistinct
    (fun _ s h => ⟨by rw [h.store, hprepared], h.written, h.pending⟩) (fun _ _ => trivial)
    (fun _ _ _ _ => trivial)
    (fun done d rest hsplit => by rw [hstale] at hsplit; simp at hsplit) (fun _ _ _ h => h)
    (fun _ _ _ _ _ => trivial) (triple_discard fun i hi => ?_)
  · rw [hprepared] at hupdate
    exact hupdate.conseq (fun _ h => h) (fun _ _ h => h) fun _ _ => trivial
  · rcases IndexSink.flush_cases e i with ⟨-, hrun⟩ |
      ⟨vs, w, rows, faults, -, hcount, hrows, hrun⟩ | ⟨err, i', hrun, -, -⟩ <;> rw [hrun]
    · exact ⟨hi.1, hi.2.1⟩
    · rw [hi.2.2, List.length_nil, List.length_eq_zero_iff] at hcount
      rw [hcount, List.zipWith_nil_right] at hrows
      obtain rfl : ([] : List Row) = rows := Except.ok.inj hrows
      exact ⟨hi.1, hi.2.1⟩
    · trivial

/-- A run that fails before it saves has saved nothing. -/
theorem triple_update_saved {x : Index} {input : RunInput}
    (hdistinct : (input.candidates.map (·.path)).Nodup) :
    Triple (Ready x 0) (update e input)
      (fun _ s => Visited input.options (x.prepared e.modelId input).manifest
        (input.gone (x.opened e.modelId).manifest).length input.candidates s)
      (fun s => s.saved = none) := by
  have htrivial {α ε : Type} (a : Action (IndexSink.State σ) ε α) :
      Triple (fun _ => True) a (fun _ _ => True) (fun _ => True) :=
    triple_intro (fun _ _ _ _ _ => trivial) fun _ _ _ _ _ => trivial
  exact (triple_update_of _ (J := fun _ _ => True) (D := fun _ => True) (F := fun _ => True)
    hdistinct (fun _ _ _ => trivial) (fun _ _ => trivial) (fun _ _ _ _ => trivial)
    (fun _ _ _ _ => htrivial _)
    (fun _ _ _ _ => trivial) (fun _ _ _ _ _ => trivial) (htrivial _)).conseq (fun _ h => h)
      (fun _ _ h => h.2) fun _ h => h.2

end RunState

namespace Index

variable {x y : Index} {modelId : String} {input : RunInput}

/-- A run behind one that saved finds nothing to prepare. -/
theorem prepared_of_relisted (hy : y.manifest = x.relisted modelId input) :
    y.opened modelId = y ∧ input.gone y.manifest = [] ∧ y.prepared modelId input = y := by
  have hname : y.manifest.embedder = modelId := by rw [hy, relisted_embedder]
  have hopened : y.opened modelId = y := by
    rw [opened_of_current (by simp [RunState.isOutdated, hname]), ← hname]
  have hgone : input.gone y.manifest = [] := by
    rw [List.eq_nil_iff_forall_not_mem]
    intro p hp
    obtain ⟨hremoves, hlisted, habsent⟩ := mem_gone.mp hp
    rw [hy, relisted_digest?_of_absent hremoves habsent] at hlisted
    exact hlisted rfl
  exact ⟨hopened, hgone, by rw [prepared, hopened, hgone, without_nil]⟩

/-- A run behind one that saved finds no stale documents. -/
theorem stale_of_relisted (hdistinct : (input.candidates.map (·.path)).Nodup)
    (hy : y.manifest = x.relisted modelId input) : y.stale modelId input = [] := by
  rw [List.eq_nil_iff_forall_not_mem]
  intro d hd
  obtain ⟨c, hc, hdoc, hne⟩ := mem_staleDocuments.mp hd
  rw [(prepared_of_relisted hy).2.2, hy, relisted_digest?_of_document hdistinct hc hdoc] at hne
  exact hne rfl

theorem failure?_of_document {o : ChunkOptions} {m : Manifest} {c : Candidate} {d : Document}
    (h : c.document? o = some d) : c.failure? o m = none := by
  unfold Candidate.document? at h
  unfold Candidate.failure?
  rcases hloaded : c.loaded with e | t <;> rw [hloaded] at h
  · cases h
  dsimp only at h ⊢
  cases hparse : Java.parse t.text (some c.path) o.includeLocalTypes with
  | error f =>
    rw [hparse] at h
    cases h
  | ok u => exact ite_self none

/-- A run behind one that saved lists the same failures. -/
theorem failures_of_relisted (hdistinct : (input.candidates.map (·.path)).Nodup) :
    input.candidates.filterMap (Candidate.failure? input.options (x.relisted modelId input)) =
      input.candidates.filterMap
        (Candidate.failure? input.options (x.prepared modelId input).manifest) := by
  refine List.filterMap_congr fun c hc => ?_
  by_cases hstale : c.path ∈ (x.stale modelId input).map (·.key.path)
  · obtain ⟨d, -, hdoc, -⟩ := document?_of_mem_stale hdistinct hc hstale
    rw [failure?_of_document hdoc, failure?_of_document hdoc]
  · exact Candidate.failure?_congr (relisted_digest?_of_not_stale hstale)

end Index

/-! ## The retry -/

namespace IndexCall

variable {c : IndexCall σ} {x : Index}

/-- The state from which a run over an index starts. -/
def start (c : IndexCall σ) (x : Index) : RunState σ :=
  .start x.manifest { store := x.store, faults := c.faults } c.input.batchSize c.world

/-- A run that comes to an end. -/
theorem runOver_ok {r : RunSummary} (h : (c.runOver x).1 = .ok r) :
    ∃ t, (RunState.update c.embedder c.input).runOn (c.start x) = (.ok (), t) ∧
      c.after x = ⟨t.index.shelf.store, t.manifest⟩ ∧
      r = t.summary c.input.candidates.length := by
  rcases RunState.run_cases c.embedder c.input (c.start x) with
    ⟨err, t, -, hrun⟩ | ⟨t, faults, hupdate, hstate, hrun | ⟨err, hrun⟩⟩
  · cases (congrArg Prod.fst hrun).symm.trans h
  · refine ⟨t, hupdate, ?_, ?_⟩
    · exact congrArg x.keep hstate
    · exact (Except.ok.inj (hrun.symm.trans h)).symm
  · cases hrun.symm.trans h

/-- Any run: it fails before it saves, or it saves. -/
theorem runOver_cases (hdistinct : (c.input.candidates.map (·.path)).Nodup) :
    (∃ err t, (RunState.update c.embedder c.input).runOn (c.start x) = (.error err, t) ∧
      ¬ c.Saves x ∧ c.after x = ⟨t.index.shelf.store, x.manifest⟩) ∨
    ∃ t, (RunState.update c.embedder c.input).runOn (c.start x) = (.ok (), t) ∧
      c.Saves x ∧ c.after x = ⟨t.index.shelf.store, t.manifest⟩ := by
  have hready := RunState.ready_start x c.faults c.input.batchSize c.world
  rcases RunState.run_cases c.embedder c.input (c.start x) with
    ⟨err, t, hupdate, hrun⟩ | ⟨t, faults, hupdate, hstate, -⟩
  · have hsaved : t.saved = none :=
      (RunState.triple_update_saved hdistinct).of_error hready hupdate
    have hstate : (c.runOver x).2 = t := congrArg Prod.snd hrun
    refine .inl ⟨err, t, hupdate, fun hsaves => hsaves (by rw [hstate, hsaved]), ?_⟩
    rw [after, hstate, Index.keep, hsaved]
    rfl
  · have hsaved : (c.runOver x).2.saved = some t.manifest := congrArg RunState.saved hstate
    refine .inr ⟨t, hupdate, fun hnone => ?_, congrArg x.keep hstate⟩
    rw [hsaved] at hnone
    cases hnone

end IndexCall

/-- What a run does behind one that saved. -/
theorem update_behind_saved {c : IndexCall σ} {x y : Index} {s t : RunState σ}
    (hdistinct : (c.input.candidates.map (·.path)).Nodup)
    (hsaved : (RunState.update c.embedder c.input).runOn (c.start x) = (.ok (), s))
    (hy : y = ⟨s.index.shelf.store, s.manifest⟩) {s' : RunState σ} (hs' : RunState.Ready y 0 s')
    (hagain : (RunState.update c.embedder c.input).runOn s' = (.ok (), t)) :
    t.index.shelf.store = s.index.shelf.store ∧ t.manifest = s.manifest ∧
      ∀ files, t.summary files =
        { s.summary files with changed := 0, removed := 0, written := 0 } := by
  have hready := RunState.ready_start x c.faults c.input.batchSize c.world
  have hvisited := (RunState.triple_update_saved hdistinct).of_ok hready hsaved
  have hlisted : y.manifest = x.relisted c.embedder.modelId c.input := by
    rw [hy]
    exact hvisited.manifest
  obtain ⟨hopened, hgone, hprepared⟩ := Index.prepared_of_relisted hlisted
  have hstale := Index.stale_of_relisted hdistinct hlisted
  obtain ⟨⟨hstore, hwritten⟩, hidle⟩ :=
    (RunState.triple_update_idle hdistinct hprepared hstale).of_ok hs' hagain
  rw [Index.stale, hprepared] at hstale
  have hmanifest := hidle.manifest
  have hchanged := hidle.changed
  have hremoved := hidle.removed
  have hfailures := hidle.failures
  rw [hstale] at hmanifest hchanged
  rw [hopened, hgone] at hremoved
  rw [hlisted, Index.failures_of_relisted hdistinct, ← hvisited.failures] at hfailures
  rw [hy] at hstore hmanifest
  refine ⟨hstore, hmanifest, fun files => ?_⟩
  rw [RunState.summary, hstore, hwritten, hchanged, hremoved, hfailures]
  rfl

/-- A run is done again over what it left, wherever it ended, and comes to an
end.  Then the rows, their order and the manifest are those of a run that is
done once.  So is the summary if the first run had not saved its manifest; if it
had, the second run has nothing left to do. -/
theorem retry_converges {c : IndexCall σ} {x : Index} {faults faults' : List (Option String)}
    {world world' : Logged σ} {again once : RunSummary} (he : c.embedder.Repeats)
    (hdistinct : (c.input.candidates.map (·.path)).Nodup)
    (hagain : ((c.tried faults world).runOver (c.after x)).1 = .ok again)
    (honce : ((c.tried faults' world').runOver x).1 = .ok once) :
    (c.tried faults world).after (c.after x) = (c.tried faults' world').after x ∧
    (¬ c.Saves x → again = once) ∧
    (c.Saves x → again = { once with changed := 0, removed := 0, written := 0 }) := by
  have hplanned := RunState.planned_update he c.input
  obtain ⟨t, ht, hafter, rfl⟩ := IndexCall.runOver_ok hagain
  obtain ⟨u, hu, hafter', rfl⟩ := IndexCall.runOver_ok honce
  rw [hafter, hafter']
  rcases IndexCall.runOver_cases hdistinct with
    ⟨err, s, hs, hsaves, hkept⟩ | ⟨s, hs, hsaves, hkept⟩
  · rw [hkept] at ht
    obtain ⟨-, hnotes, hstore⟩ := hplanned.redo hs ht hu rfl rfl rfl rfl
    have hmanifest : t.manifest = u.manifest := congrArg RunState.Notes.manifest hnotes
    refine ⟨?_, fun _ => RunState.summary_congr hnotes hstore _, fun h => absurd h hsaves⟩
    exact congrArg₂ Index.mk hstore hmanifest
  · have hready : RunState.Ready (c.after x) 0 ((c.tried faults world).start (c.after x)) :=
      RunState.ready_start _ _ _ _
    obtain ⟨hstore, hmanifest, hsummary⟩ := update_behind_saved hdistinct hs hkept hready ht
    obtain ⟨-, hnotes, hstore'⟩ := hplanned.agree hs hu rfl rfl
    have hmanifest' : s.manifest = u.manifest := congrArg RunState.Notes.manifest hnotes
    refine ⟨?_, fun h => absurd hsaves h, fun _ => ?_⟩
    · exact congrArg₂ Index.mk (hstore.trans hstore') (hmanifest.trans hmanifest')
    · rw [hsummary, RunState.summary_congr hnotes hstore']
      rfl

/-- The second version of a file is indexed, and the store fails at the second of its two
chunks.  Then the run is done again. -/
theorem retry_converges_stoppedRun :
    let x := replay (KnownRun.history [{ files := [.bare] }])
    let c := KnownRun.call { files := [.importing], faults := [none, none, some "disk I/O error"] }
    let d := c.tried [] ⟨(), []⟩
    (c.after x).store.rows.map (fun r => (r.kind, r.fileSha256)) =
        [("type-header", Document.importing.key.digest)] ∧
      ¬ c.Saves x ∧
      (d.runOver (c.after x)).1 = .ok ⟨1, 1, 0, 2, 0, 2⟩ ∧
      (d.runOver x).1 = .ok ⟨1, 1, 0, 2, 0, 2⟩ ∧ d.after (c.after x) = d.after x := by
  intro x c d
  have hx : x = KnownRun.after { files := [.bare] } {} := KnownRun.replay_history _
  have hrows : (c.after x).store.rows.map (fun r => (r.kind, r.fileSha256)) =
      [("type-header", Document.importing.key.digest)] := by
    rw [KnownRun.after_call, hx]
    decide +kernel
  have hsaves : ¬ c.Saves x := by
    rw [IndexCall.Saves, KnownRun.runOver_call, hx, ← Option.isSome_iff_ne_none]
    decide +kernel
  have honce : (d.runOver x).1 = .ok ⟨1, 1, 0, 2, 0, 2⟩ := by
    rw [show d = KnownRun.call { files := [.importing] } from rfl, KnownRun.runOver_call, hx]
    decide +kernel
  have hundisturbed : d.Undisturbed :=
    KnownRun.undisturbed (r := { files := [.importing] }) fun f hf => absurd hf List.not_mem_nil
  obtain ⟨again, hagain⟩ := hundisturbed.completes (c.after x)
  obtain ⟨hindex, hsame, -⟩ := retry_converges (c := c) (Embedder.uniform_repeats _)
    (List.nodup_singleton _) hagain honce
  exact ⟨hrows, hsaves, hsame hsaves ▸ hagain, honce, hindex⟩

/-! ## A failure behind the save -/

/-- A run over an empty file whose second call of the store fails: the rows of
the file are removed, but the rows are not counted. -/
def IndexCall.failingLate : IndexCall Unit where
  embedder := .uniform "uniform"
  input := { candidates := [⟨"Empty.java", .ok ⟨"", .utf8⟩⟩], removesMissing := true }
  faults := [none, some "disk I/O error"]
  world := ⟨(), []⟩

section NoDeclarations

variable {path text m : String} {w : Logged σ}

/-- The run over a file without declarations. -/
private def overText (path text : String) : RunInput where
  candidates := [⟨path, .ok ⟨text, .utf8⟩⟩]
  removesMissing := true

/-- A run over a new file without declarations. -/
private theorem run_new (hparse : Java.parse text (some path) true = .ok { path := some path }) :
    (Index.run {} e (overText path text) [] w).1 = .ok ⟨1, 1, 0, 0, 0, 0⟩ := by
  simp [overText, Index.run, RunState.run, RunState.update, runOn_bind, RunState.discardOutdated,
    RunState.start, RunState.isOutdated, RunState.removeMissing, RunState.missing, RunState.visit,
    RunState.visitText, Manifest.digest?, hparse, RunState.report, RunState.replaceFile,
    RunState.onIndex]
  rfl

/-- The same run in a store whose second call fails. -/
private theorem run_new_failing
    (hparse : Java.parse text (some path) true = .ok { path := some path }) :
    (Index.run {} e (overText path text) [none, some m] w).1 =
        .error (.store (.refused m)) ∧
      ({} : Index).keep (Index.run {} e (overText path text) [none, some m] w).2 =
        { manifest := ⟨e.modelId, [(path, textDigest text)]⟩ } := by
  simp [overText, Index.run, RunState.run, RunState.update, runOn_bind, RunState.discardOutdated,
    RunState.start, RunState.isOutdated, RunState.removeMissing, RunState.missing, RunState.visit,
    RunState.visitText, Manifest.digest?, hparse, RunState.report, RunState.replaceFile,
    RunState.onIndex]
  exact ⟨rfl, rfl⟩

/-- A run over a file that is listed as it is. -/
private theorem run_listed :
    (Index.run { manifest := ⟨e.modelId, [(path, textDigest text)]⟩ } e (overText path text) []
      w).1 = .ok ⟨1, 0, 0, 0, 0, 0⟩ := by
  simp [overText, Index.run, RunState.run, RunState.update, runOn_bind, RunState.discardOutdated,
    RunState.start, RunState.isOutdated, RunState.removeMissing, RunState.missing, RunState.visit,
    RunState.visitText, Manifest.digest?]
  rfl

end NoDeclarations

/-- The summary shows that a run failed behind the save: it counts the file as
changed, and the second run does not. -/
theorem retry_summary_failingLate :
    (IndexCall.failingLate.runOver {}).1 = .error (.store (.refused "disk I/O error")) ∧
    ((IndexCall.failingLate.tried [] ⟨(), []⟩).runOver (IndexCall.failingLate.after {})).1 =
      .ok { files := 1, changed := 0, removed := 0, written := 0, failed := 0, chunks := 0 } ∧
    ((IndexCall.failingLate.tried [] ⟨(), []⟩).runOver {}).1 =
      .ok { files := 1, changed := 1, removed := 0, written := 0, failed := 0, chunks := 0 } := by
  have hparse := Java.parse_empty (some "Empty.java") true
  obtain ⟨hfails, hkept⟩ := run_new_failing (e := .uniform "uniform") (m := "disk I/O error")
    (w := ⟨(), []⟩) hparse
  refine ⟨hfails, ?_, run_new hparse⟩
  have hafter : IndexCall.failingLate.after {} =
      { manifest := ⟨"uniform", [("Empty.java", textDigest "")]⟩ } := hkept
  rw [hafter]
  exact run_listed

end SourceShelf
