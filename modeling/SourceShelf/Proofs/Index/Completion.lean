import SourceShelf.Proofs.Index.History

/-!
# Runs that come to an end

A run fails only if something outside fails: a call of the store, the embedder,
or the limit on the size of a file.  Otherwise it comes to an end over any
index, and files that cannot be read or parsed do not stop it.

* `Shelf.Willing`, `Embedder.Serves`, `Document.Storable`: nothing goes wrong.
* `IndexSink.Calm`: what every step of the run keeps up.
* `IndexCall.Undisturbed.completes`: the run comes to an end.
-/

namespace SourceShelf

open SourceShelf.Action

namespace Shelf

/-- No call of the store will fail. -/
def Willing (s : Shelf) : Prop := ∀ f ∈ s.faults, f = none

theorem triple_attempt : Triple Willing attempt (fun _ => Willing) fun _ => False := by
  rintro ⟨store, _ | ⟨_ | m, fs⟩⟩ hs
  · exact hs
  · exact fun f hf => hs f (List.mem_cons_of_mem _ hf)
  · exact Option.some_ne_none m (hs _ List.mem_cons_self)

theorem triple_deleteFile (path : String) :
    Triple Willing (deleteFile path) (fun _ => Willing) fun _ => False := by
  refine triple_bind triple_attempt fun _ => triple_get fun _ => ?_
  exact triple_bind (triple_modify (R := fun _ => Willing) fun _ h => h.2) fun _ =>
    triple_pure fun _ h => h

theorem triple_clear : Triple Willing clear (fun _ => Willing) fun _ => False := by
  refine triple_bind triple_attempt fun _ => ?_
  exact triple_bind (triple_modify (R := fun _ => Willing) fun _ h => h) fun _ => triple_attempt

theorem triple_stats : Triple Willing stats (fun _ => Willing) fun _ => False := by
  refine triple_bind triple_attempt fun _ => triple_get fun _ => ?_
  exact triple_pure fun _ h => h.2

theorem triple_upsert {records : List ChunkRecord} {rows : List Row}
    (hrows : Store.rowsOf records = .ok rows) (hstorable : rows.all Row.storable = true) :
    Triple Willing (upsert records) (fun _ => Willing) fun _ => False := by
  rintro s hs
  have hfirst : (Action.ofExcept (Store.rowsOf records) : Action Shelf StoreError _).runOn s =
      (.ok rows, s) := by
    rw [runOn_ofExcept, hrows]
  rw [upsert, runOn_bind_of_ok hfirst]
  refine triple_bind triple_attempt (fun _ => triple_get fun t => ?_) s hs
  rintro _ ⟨rfl, ht⟩
  rw [Store.insertAll, if_pos hstorable]
  exact ht

end Shelf

/-- An embedder that never fails, and gives one vector for each text that the
store can take. -/
def Embedder.Serves {σ : Type} (e : Embedder σ) : Prop :=
  ∀ texts w, ∃ vs w', (e.embed texts).runOn w = (.ok vs, w') ∧ vs.length = texts.length ∧
    ∀ v ∈ vs, ∃ u, Vector.ofEmbedding v = .ok u

/-- True of a chunk whose lines the store can take. -/
def Chunk.storable (c : Chunk) : Bool := Row.fits c.startLine && Row.fits c.endLine

/-- A document whose chunks can all be stored. -/
structure Document.Storable (o : ChunkOptions) (d : Document) : Prop where
  complete : (d.unit.chunks o).stopped = none
  lines : ∀ c ∈ (d.unit.chunks o).chunks, c.storable = true

/-- The rows of chunks that can be stored, with vectors that can be. -/
theorem rowsOf_zipWith_storable {ps : List PendingChunk} {vs : List Embedding}
    (hps : ∀ p ∈ ps, p.chunk.storable = true) (hvs : ∀ v ∈ vs, ∃ u, Vector.ofEmbedding v = .ok u) :
    ∃ rows, Store.rowsOf (List.zipWith PendingChunk.record ps vs) = .ok rows ∧
      rows.all Row.storable = true := by
  suffices ∃ rows, (List.zipWith PendingChunk.record ps vs).mapM Row.ofRecord = .ok rows ∧
      rows.all Row.storable = true by
    obtain ⟨rows, hrows, hall⟩ := this
    exact ⟨rows, by rw [Store.rowsOf, hrows]; rfl, hall⟩
  induction ps generalizing vs with
  | nil => exact ⟨[], rfl, rfl⟩
  | cons p ps ih =>
    cases vs with
    | nil => exact ⟨[], rfl, rfl⟩
    | cons v vs =>
      obtain ⟨rows, hrows, hall⟩ := ih (fun q hq => hps q (List.mem_cons_of_mem _ hq))
        fun w hw => hvs w (List.mem_cons_of_mem _ hw)
      obtain ⟨u, hu⟩ := hvs v List.mem_cons_self
      obtain ⟨row, hrow, hstorable⟩ :
          ∃ row, Row.ofRecord (p.record v) = .ok row ∧ row.storable = true :=
        ⟨_, congrArg (Except.map _) hu, hps p List.mem_cons_self⟩
      refine ⟨row :: rows, ?_, ?_⟩
      · rw [List.zipWith_cons_cons, List.mapM_cons, hrow, hrows]
        rfl
      · rw [List.all_cons, hstorable, hall]
        rfl

namespace IndexSink

variable {σ : Type} {e : Embedder σ} {d : Option DocumentKey}

/-- The store will take what waits.  Chunks belong to the document `d`. -/
structure Calm (d : Option DocumentKey) (s : State σ) : Prop where
  willing : s.shelf.Willing
  pending : ∀ p ∈ s.sink.pending, p.chunk.storable = true
  document : s.sink.document = d

theorem triple_shelf {α : Type} {a : Action Shelf StoreError α}
    (h : Triple Shelf.Willing a (fun _ => Shelf.Willing) fun _ => False) :
    Triple (Calm (σ := σ) d) (a.within State.shelf fun x s => { s with shelf := x })
      (fun _ => Calm d) fun _ => False :=
  triple_within fun _ hs => h.conseq (fun _ ht => ht ▸ hs.willing)
    (fun _ _ ht => { hs with willing := ht }) fun _ ht => ht

theorem triple_flush_calm (he : e.Serves) :
    Triple (Calm d) (flush e) (fun _ => Calm d) fun _ => False := by
  intro s hs
  unfold flush
  rw [runOn_bind_of_ok (runOn_get s)]
  by_cases hpending : s.sink.pending.isEmpty = true
  · rw [if_pos hpending]
    exact hs
  rw [if_neg hpending, runOn_bind_of_ok (runOn_modify _ _)]
  obtain ⟨vs, w, hembed, hcount, hvs⟩ := he (s.sink.pending.map (·.chunk.text)) s.world
  have hworld : ((onWorld (e.embed (s.sink.pending.map (·.chunk.text)))).withError
      IndexSinkError.embed).runOn { s with sink := { s.sink with pending := [] } } =
      (.ok vs, { s with sink := { s.sink with pending := [] }, world := w }) := by
    rw [runOn_withError, onWorld_runOn, hembed]
    rfl
  rw [List.length_map] at hcount
  rw [runOn_bind_of_ok hworld, if_neg (by simpa using hcount)]
  obtain ⟨rows, hrows, hstorable⟩ := rowsOf_zipWith_storable hs.pending hvs
  have hupsert := triple_withError (f := IndexSinkError.store)
    (triple_shelf (σ := σ) (d := d) (Shelf.triple_upsert hrows hstorable))
  refine triple_bind hupsert (fun n => ?_) _ { hs with pending := by simp }
  refine triple_bind (triple_modify (R := fun _ => Calm d) fun _ h => { h with }) fun _ => ?_
  exact triple_bind (Q := fun _ => Calm d) (fun _ h => { h with }) fun _ => triple_pure fun _ h => h

theorem triple_consume_calm (he : e.Serves) (key : DocumentKey) {c : Chunk}
    (hc : c.storable = true) :
    Triple (Calm (some key)) (consume e c) (fun _ => Calm (some key)) fun _ => False := by
  intro s hs
  have hpush : Calm (some key) (push key c s) := by
    refine { hs with pending := fun p hp => ?_ }
    rcases List.mem_append.mp hp with hp | hp
    · exact hs.pending p hp
    · rw [List.mem_singleton.mp hp]
      exact hc
  rw [consume_runOn e c hs.document]
  by_cases hfull : s.sink.batchSize ≤ (push key c s).sink.pending.length
  · rw [if_pos hfull]
    exact triple_discard (triple_flush_calm he) _ hpush
  · rw [if_neg hfull]
    exact hpush

theorem triple_handOver_calm (he : e.Serves) {key : DocumentKey} (path : Option String)
    {cs : List Chunk} (hcs : ∀ c ∈ cs, c.storable = true) :
    Triple (Calm (some key)) ((receiver e).handOver path cs) (fun _ => Calm (some key))
      fun _ => False := by
  induction cs with
  | nil => exact triple_pure fun _ h => h
  | cons c cs ih =>
    have hfirst := triple_consume_calm he key (hcs c List.mem_cons_self)
    exact triple_bind (triple_withError (triple_withError hfirst)) fun _ =>
      ih fun c' hc' => hcs c' (List.mem_cons_of_mem _ hc')

theorem triple_replace_calm (he : e.Serves) {o : ChunkOptions} {x : Document}
    (hx : x.Storable o) :
    Triple (Calm d) (replace e o x.key x.unit) (fun _ => Calm (some x.key)) fun _ => False := by
  have hdelete := triple_shelf (σ := σ) (d := d) (Shelf.triple_deleteFile x.key.path)
  unfold replace
  refine triple_bind (Q := fun _ => Calm d) (triple_discard (triple_withError hdelete)) fun _ => ?_
  refine triple_bind (triple_modify (R := fun _ => Calm (some x.key)) fun s hs =>
    { hs with document := rfl }) fun _ => triple_withError ?_
  unfold Sink.emit
  refine triple_bind (triple_handOver_calm he x.unit.path hx.lines) fun _ => ?_
  rw [hx.complete]
  exact triple_pure fun _ h => h

end IndexSink

namespace RunState

variable {σ : Type} {e : Embedder σ} {input : RunInput}

/-- Nothing in the way of a run. -/
def Calm (s : RunState σ) : Prop := ∃ d, IndexSink.Calm d s.index

theorem triple_onShelf {α : Type} {a : Action Shelf StoreError α}
    (h : Triple Shelf.Willing a (fun _ => Shelf.Willing) fun _ => False) :
    Triple (Calm (σ := σ)) (onShelf a) (fun _ => Calm) fun _ => False := by
  refine triple_withError (triple_within fun s hs => ?_)
  obtain ⟨d, hs⟩ := hs
  exact h.conseq (fun _ ht => ht ▸ hs.willing) (fun _ _ ht => ⟨d, { hs with willing := ht }⟩)
    fun _ ht => ht

theorem triple_report_calm (r : LogRecord) :
    Triple (Calm (σ := σ)) (report r : Action (RunState σ) RunError Unit) (fun _ => Calm)
      fun _ => False :=
  triple_modify fun _ ⟨d, hs⟩ => ⟨d, { hs with }⟩

theorem triple_discardOutdated_calm (modelId : String) :
    Triple (Calm (σ := σ)) (discardOutdated modelId) (fun _ => Calm) fun _ => False := by
  refine triple_get fun s => ?_
  refine triple_bind (triple_modify (R := fun _ => Calm) fun _ h => h.2) fun _ => ?_
  by_cases hout : isOutdated s.manifest modelId = true
  · rw [if_pos hout]
    exact triple_bind (triple_onShelf Shelf.triple_clear) fun _ => triple_modify fun _ h => h
  · rw [if_neg hout]
    exact triple_pure fun _ h => h

theorem triple_removeMissing_calm (input : RunInput) :
    Triple (Calm (σ := σ)) (removeMissing input) (fun _ => Calm) fun _ => False := by
  have hremove (p : String) :
      Triple (Calm (σ := σ)) (removeFile p) (fun _ => Calm) fun _ => False :=
    triple_bind (triple_discard (triple_onShelf (Shelf.triple_deleteFile p))) fun _ =>
      triple_modify fun _ h => h
  unfold removeMissing
  by_cases hremoves : input.removesMissing = true
  · rw [if_pos hremoves]
    refine triple_get fun s => ?_
    exact (triple_forM _ (I := fun _ => Calm) fun _ p _ _ => hremove p).conseq (fun _ h => h.2)
      (fun _ _ h => h) fun _ h => h
  · rw [if_neg hremoves]
    exact triple_pure fun _ h => h

theorem triple_visit_calm (he : e.Serves) {o : ChunkOptions} {c : Candidate}
    (hlimit : ∀ x, c.loaded ≠ .error (.limit x))
    (hdoc : ∀ d, c.document? o = some d → d.Storable o) :
    Triple Calm (visit e o c) (fun _ => Calm) fun _ => False := by
  intro s hs
  rcases visit_cases e o c s with
    ⟨x, hloaded, -⟩ | ⟨f, -, -, hrun⟩ | ⟨-, -, hrun⟩ | ⟨d, hstale, -, hrun⟩
  · exact absurd hloaded (hlimit x)
  · rw [hrun]
    exact triple_bind (triple_report_calm _)
      (fun _ => triple_modify (R := fun _ => Calm) fun _ h => h) s hs
  · rw [hrun]
    exact hs
  · rw [hrun]
    have hd := hdoc d (Candidate.stale?_eq_some.mp hstale).1
    refine triple_bind (triple_report_calm _) (fun _ => ?_) s hs
    unfold replaceFile
    refine triple_bind (triple_modify (R := fun _ => Calm) fun _ h => h) fun _ => ?_
    refine triple_bind (Q := fun _ => Calm) (triple_within fun t ht => ?_) fun n => ?_
    · obtain ⟨k, ht⟩ := ht
      exact (IndexSink.triple_replace_calm he hd).conseq (fun _ hi => hi ▸ ht)
        (fun _ _ hi => ⟨_, hi⟩) fun _ hi => hi
    · exact triple_bind (triple_report_calm _) fun _ => triple_modify fun _ h => h

theorem triple_run_calm (he : e.Serves)
    (hlimits : ∀ c ∈ input.candidates, ∀ x, c.loaded ≠ .error (.limit x))
    (hdocs : ∀ c ∈ input.candidates, ∀ d, c.document? input.options = some d →
      d.Storable input.options) :
    Triple Calm (run e input) (fun _ => Calm) fun _ => False := by
  have hvisits := triple_forM input.candidates (f := visit e input.options)
    (I := fun _ => Calm) (F := fun _ => False) fun done c rest hcs =>
      have hc : c ∈ input.candidates := by simp [hcs]
      triple_visit_calm he (hlimits c hc) (hdocs c hc)
  refine triple_bind (Q := fun _ => Calm) ?_ fun _ =>
    triple_bind (triple_modify (R := fun _ => Calm) fun _ h => h) fun _ =>
      triple_bind (triple_onShelf Shelf.triple_stats) fun _ =>
        triple_get fun _ => triple_pure fun _ h => h.2
  refine triple_bind (triple_discardOutdated_calm e.modelId) fun _ => ?_
  refine triple_bind (triple_removeMissing_calm input) fun _ => triple_bind hvisits fun _ => ?_
  refine triple_withError (triple_within fun s hs => ?_)
  obtain ⟨d, hs⟩ := hs
  exact (triple_discard (IndexSink.triple_flush_calm he)).conseq (fun _ hi => hi ▸ hs)
    (fun _ _ hi => ⟨d, hi⟩) fun _ hi => hi

end RunState

namespace IndexCall

variable {σ : Type} {c : IndexCall σ}

/-- A run with nothing in its way: the store and the embedder do not fail, and
there is a size that files may have. -/
structure Undisturbed (c : IndexCall σ) : Prop where
  faults : ∀ f ∈ c.faults, f = none
  serves : c.embedder.Serves
  limits : ∀ k ∈ c.input.candidates, ∀ x, k.loaded ≠ .error (.limit x)
  storable : ∀ k ∈ c.input.candidates, ∀ d, k.document? c.input.options = some d →
    d.Storable c.input.options

/-- A run with nothing in its way comes to an end, over any index. -/
theorem Undisturbed.completes (h : c.Undisturbed) (x : Index) : c.Completes x := by
  have hstart : RunState.Calm (.start x.manifest { store := x.store, faults := c.faults }
      c.input.batchSize c.world) :=
    ⟨none, h.faults, fun p hp => absurd hp List.not_mem_nil, rfl⟩
  have hrun := RunState.triple_run_calm h.serves h.limits h.storable _ hstart
  unfold Completes runOver Index.run
  rcases hresult : (RunState.run c.embedder c.input).runOn _ with ⟨err | r, t⟩
  · rw [hresult] at hrun
    exact hrun.elim
  · exact ⟨r, rfl⟩

end IndexCall

/-! ## An embedder that serves -/

/-- An embedder that gives every text the same vector. -/
def Embedder.uniform {σ : Type} (modelId : String) : Embedder σ :=
  .ofTexts modelId fun texts => pure (texts.map fun _ => [.bool true])

theorem Embedder.uniform_answers {σ : Type} (modelId : String) :
    (uniform (σ := σ) modelId).Answers fun _ v => v = [.bool true] := by
  intro texts s s' vs hrun _
  obtain rfl : texts.map (fun _ => [Json.Value.bool true]) = vs :=
    Except.ok.inj (congrArg Prod.fst hrun)
  exact List.forall₂_map_right_iff.mpr (List.forall₂_same.mpr fun _ _ => rfl)

theorem Embedder.uniform_repeats {σ : Type} (modelId : String) :
    (uniform (σ := σ) modelId).Repeats := by
  intro texts s s' vs t t' ws hvs hws
  exact Except.ok.inj ((congrArg Prod.fst hvs).symm.trans (congrArg Prod.fst hws))

theorem Embedder.uniform_serves {σ : Type} (modelId : String) :
    (uniform (σ := σ) modelId).Serves := by
  intro texts w
  refine ⟨texts.map fun _ => [.bool true], w, rfl, List.length_map _, fun v hv => ?_⟩
  obtain ⟨t, -, rfl⟩ := List.mem_map.mp hv
  exact ⟨_, rfl⟩

end SourceShelf
