import SourceShelf.Proofs.Chunk.Stream
import SourceShelf.Proofs.Index.Batches
import SourceShelf.Proofs.Index.KnownFiles

/-!
# Units in one sink

Whoever fills a sink with units names each document, hands over its chunks, and
empties the buffer at the end.  `IndexSink.fill` does so, and stops at the first
failure.

A run of `fill` is a run of calls (`triple_fill`): all of them if it succeeds, those in
front if it fails.  So it has an account, and what it stores are records of the chunks
of the documents.  No two of them are taken for each other, since no two chunks of
one document stand at the same place and no two documents have the same path.

* `Account.rows_length`: where chunks are not taken for each other, a store that was
  empty holds as many rows as the sink has counted.
* `consumed_calls`: what is handed over for some documents.
* `nothing_overwritten`: stored, counted by the sink and counted by the emission are
  the same number.
-/

namespace SourceShelf

open SourceShelf.Action

/-! ## Documents -/

/-- The unit of a document was read from a text. -/
def Document.IsParsed (d : Document) : Prop :=
  ∃ text path locals, Java.parse text path locals = .ok d.unit

/-- So is that of a document that was seen. -/
theorem Document.IsParsed.of_known {o : ChunkOptions} {cs : List Candidate} {d : Document}
    (h : Known o cs d) : d.IsParsed := by
  obtain ⟨c, -, hd⟩ := h
  unfold Candidate.document? at hd
  split at hd
  · cases hd
  · split at hd
    · cases hd
    · rename_i t _ _ hparse
      obtain rfl := Option.some.inj hd
      exact ⟨_, _, _, hparse⟩

/-- Chunks of one document stand at different places. -/
theorem Document.records_nodup (o : ChunkOptions) (d : Document) :
    ((d.records o).map (·.ordinal)).Nodup := chunksAt_ordinals_nodup _ _ _

/-- Chunks of documents with different paths are not taken for each other. -/
theorem Document.chunkIds_nodup {o : ChunkOptions} {docs : List Document}
    (hpaths : (docs.map (·.key.path)).Nodup) (hnul : ∀ d ∈ docs, NulFree d.key.path)
    (hfree : ∀ p ∈ docs.flatMap (records o), ∀ q ∈ docs.flatMap (records o),
      p.chunkId = q.chunkId → p.identity = q.identity) :
    ((docs.flatMap (records o)).map (·.chunkId)).Nodup := by
  have hplace : ∀ d ∈ docs, ∀ d' ∈ docs, ∀ p ∈ d.records o, ∀ q ∈ d'.records o,
      p.chunkId = q.chunkId → d.key.path = d'.key.path ∧ p.ordinal = q.ordinal := by
    intro d hd d' hd' p hp q hq hid
    have hdocument := mem_records_document hp
    have hdocument' := mem_records_document hq
    have hidentity := hfree p (List.mem_flatMap_of_mem hd hp) q (List.mem_flatMap_of_mem hd' hq) hid
    have hinj := PendingChunk.identity_inj (hdocument ▸ hnul d hd) (hdocument' ▸ hnul d' hd')
      hidentity
    rwa [hdocument, hdocument'] at hinj
  rw [List.map_flatMap, List.nodup_flatMap]
  constructor
  · intro d hd
    refine List.Nodup.map_on (fun p hp q hq hid => ?_) (List.Nodup.of_map _ (d.records_nodup o))
    exact List.inj_on_of_nodup_map (d.records_nodup o) hp hq (hplace d hd d hd p hp q hq hid).2
  · refine (List.pairwise_map.mp hpaths).imp_of_mem fun {d d'} hd hd' hne => ?_
    refine List.disjoint_left.mpr fun id hid hid' => ?_
    obtain ⟨p, hp, rfl⟩ := List.mem_map.mp hid
    obtain ⟨q, hq, hsame⟩ := List.mem_map.mp hid'
    exact hne (hplace d hd d' hd' p hp q hq hsame.symm).1

/-- The calls that hand over a document. -/
def Document.calls (o : ChunkOptions) (d : Document) : List IndexSink.Call :=
  .setDocument d.key :: (d.unit.chunks o).chunks.map .consume

namespace IndexSink

variable {σ : Type} {e : Embedder σ}

/-! ## Filling a sink -/

/-- Names a document and hands over its chunks, counting them. -/
def emitDocument (e : Embedder σ) (o : ChunkOptions) (d : Document) :
    Action (State σ) EmissionError Nat := do
  modify fun s => { s with sink := s.sink.setDocument d.key }
  (receiver e).emit d.unit.path (d.unit.chunks o)

/-- Hands over the chunks of some documents, counting those of each. -/
def emitAll (e : Embedder σ) (o : ChunkOptions) :
    List Document → Action (State σ) EmissionError (List Nat)
  | [] => return []
  | d :: ds => do
    let n ← emitDocument e o d
    let ns ← emitAll e o ds
    return n :: ns

/-- Hands over the chunks of some documents, and stores what still waits. -/
def fill (e : Embedder σ) (o : ChunkOptions) (docs : List Document) :
    Action (State σ) (EmissionError ⊕ IndexSinkError) (List Nat) := do
  let counts ← (emitAll e o docs).withError .inl
  (close e).withError .inr
  return counts

/-! ## What is handed over -/

theorem consumed_append_consume {calls : List Call} {d : DocumentKey}
    (hd : currentDocument calls = some d) (cs : List Chunk) :
    consumed (calls ++ cs.map .consume) =
      consumed calls ++ chunksAt d (sinceDocument calls) cs := by
  induction cs generalizing calls with
  | nil => simp
  | cons c cs ih =>
    have hcurrent : currentDocument (calls ++ [.consume c]) = some d := by
      rw [currentDocument_append_singleton, hd]
      rfl
    have hadded : added calls (.consume c) = some ⟨d, sinceDocument calls, c⟩ := by
      simp [added, Call.chunk?, hd]
    have hsplit : calls ++ (c :: cs).map Call.consume =
        calls ++ [.consume c] ++ cs.map .consume := by simp
    rw [hsplit, ih hcurrent, consumed_append_singleton, hadded, sinceDocument_append_consume,
      chunksAt_cons]
    simp

/-- Some documents hand over their records, one document after the other. -/
theorem consumed_calls (o : ChunkOptions) (calls : List Call) (docs : List Document) :
    consumed (calls ++ docs.flatMap (·.calls o)) =
      consumed calls ++ docs.flatMap (·.records o) := by
  induction docs generalizing calls with
  | nil => simp
  | cons d docs ih =>
    have hcurrent : currentDocument (calls ++ [.setDocument d.key]) = some d.key := by
      rw [currentDocument_append_singleton]
      rfl
    have hset : consumed (calls ++ [.setDocument d.key]) = consumed calls := by
      rw [consumed_append_singleton]
      exact List.append_nil _
    have hsplit : calls ++ (d :: docs).flatMap (·.calls o) =
        calls ++ [.setDocument d.key] ++ (d.unit.chunks o).chunks.map .consume ++
          docs.flatMap (·.calls o) := by simp [Document.calls]
    rw [hsplit, ih, consumed_append_consume hcurrent, hset, sinceDocument_append_setDocument,
      List.flatMap_cons, Document.records, List.append_assoc]

theorem consumed_of_front {front calls : List Call} (h : front <+: calls) :
    consumed front <+: consumed calls := by
  obtain ⟨rest, rfl⟩ := h
  induction rest using List.reverseRecOn with
  | nil => rw [List.append_nil]
  | append_singleton rest c ih =>
    rw [← List.append_assoc, consumed_append_singleton]
    exact ih.trans (List.prefix_append _ _)

/-! ## A run of calls -/

/-- The calls were made, and none failed. -/
def Made (e : Embedder σ) (start : State σ) (calls : List Call) (s : State σ) : Prop :=
  run e calls start = (List.replicate calls.length (.ok ()), s)

/-- Of the calls, some in front were made. -/
def Begun (e : Embedder σ) (start : State σ) (calls : List Call) (s : State σ) : Prop :=
  ∃ front, front <+: calls ∧ (run e front start).2 = s

section Calls

variable {start : State σ} {calls calls' : List Call} {s : State σ}

theorem Begun.mono (h : Begun e start calls s) (hcalls : calls <+: calls') :
    Begun e start calls' s := by
  obtain ⟨front, hfront, hs⟩ := h
  exact ⟨front, hfront.trans hcalls, hs⟩

theorem Made.begun (h : Made e start calls s) : Begun e start calls s :=
  ⟨calls, List.prefix_refl _, congrArg Prod.snd h⟩

theorem triple_act (c : Call) :
    Triple (Made e start calls) (c.act e) (fun _ => Made e start (calls ++ [c]))
      (Begun e start (calls ++ [c])) := by
  intro s hs
  have hrun := run_append_singleton e calls c start
  rw [hs] at hrun
  rcases hact : (c.act e).runOn s with ⟨err | ⟨⟩, s'⟩
  · exact ⟨calls ++ [c], List.prefix_refl _, by rw [hrun, hact]⟩
  · rw [hact] at hrun
    show run e (calls ++ [c]) start = _
    rw [hrun, List.length_append, List.length_singleton, List.replicate_succ']

theorem triple_handOver_made (path : Option String) (cs : List Chunk) :
    Triple (Made e start calls) ((receiver e).handOver path cs)
      (fun _ => Made e start (calls ++ cs.map .consume))
      (Begun e start (calls ++ cs.map .consume)) := by
  induction cs generalizing calls with
  | nil => exact triple_pure fun s hs => by simpa using hs
  | cons c cs ih =>
    have hsplit : calls ++ (c :: cs).map Call.consume =
        calls ++ [.consume c] ++ cs.map .consume := by simp
    rw [hsplit]
    refine triple_bind (triple_withError (triple_withError ?_)) fun _ => ih
    exact (triple_act (.consume c)).conseq (fun _ h => h) (fun _ _ h => h) fun _ h =>
      h.mono (List.prefix_append _ _)

theorem triple_emitDocument (o : ChunkOptions) (d : Document) :
    Triple (Made e start calls) (emitDocument e o d)
      (fun n s => Made e start (calls ++ d.calls o) s ∧ n = (d.unit.chunks o).chunks.length)
      (Begun e start (calls ++ d.calls o)) := by
  have hsplit : calls ++ d.calls o =
      calls ++ [.setDocument d.key] ++ (d.unit.chunks o).chunks.map .consume := by
    simp [Document.calls]
  have hset : Triple (Made e start calls)
      (modify fun s => { s with sink := s.sink.setDocument d.key } :
        Action (State σ) EmissionError Unit)
      (fun _ => Made e start (calls ++ [.setDocument d.key]))
      (Begun e start (calls ++ d.calls o)) := by
    intro s hs
    exact (triple_act (.setDocument d.key)).of_ok hs rfl
  rw [hsplit] at hset ⊢
  unfold emitDocument Sink.emit
  refine triple_bind hset fun _ => triple_bind (triple_handOver_made _ _) fun _ => ?_
  cases (d.unit.chunks o).stopped with
  | some err => exact triple_throw fun _ h => h.begun
  | none => exact triple_pure fun _ h => ⟨h, rfl⟩

theorem triple_emitAll (o : ChunkOptions) (docs : List Document) :
    Triple (Made e start calls) (emitAll e o docs)
      (fun ns s => Made e start (calls ++ docs.flatMap (·.calls o)) s ∧
        ns = docs.map fun d => (d.unit.chunks o).chunks.length)
      (Begun e start (calls ++ docs.flatMap (·.calls o))) := by
  induction docs generalizing calls with
  | nil => exact triple_pure fun s hs => ⟨by simpa using hs, rfl⟩
  | cons d docs ih =>
    rw [List.flatMap_cons, ← List.append_assoc]
    refine triple_bind ((triple_emitDocument o d).conseq (fun _ h => h) (fun _ _ h => h)
      fun _ h => h.mono (List.prefix_append _ _)) fun n => ?_
    refine triple_bind (Q := fun ns s => (Made e start (calls ++ d.calls o ++
      docs.flatMap (·.calls o)) s ∧ ns = docs.map fun d => (d.unit.chunks o).chunks.length) ∧
        n = (d.unit.chunks o).chunks.length) (ih.and_const _) fun ns => triple_pure fun s hs => ?_
    obtain ⟨⟨hmade, rfl⟩, rfl⟩ := hs
    exact ⟨hmade, rfl⟩

/-- Filling a sink makes one call after the other. -/
theorem triple_fill (o : ChunkOptions) (docs : List Document) :
    Triple (Made e start []) (fill e o docs)
      (fun ns s => Made e start (docs.flatMap (·.calls o) ++ [.close]) s ∧
        ns = docs.map fun d => (d.unit.chunks o).chunks.length)
      (Begun e start (docs.flatMap (·.calls o) ++ [.close])) := by
  unfold fill
  refine triple_bind (triple_withError ((triple_emitAll o docs).conseq (fun _ h => h)
    (fun _ _ h => h) fun _ h => h.mono (List.prefix_append _ _))) fun ns => ?_
  exact triple_bind (triple_withError ((triple_act .close).and_const _)) fun _ =>
    triple_pure fun _ h => h

end Calls

/-! ## What is stored -/

theorem map_chunkId_of_keeps {records : List ChunkRecord} {rows : List Row}
    (h : List.Forall₂ (fun r row => Row.Keeps row r) records rows) :
    rows.map (·.chunkId) = records.map (·.chunkId) := by
  induction h with
  | nil => rfl
  | cons hrow _ ih => rw [List.map_cons, List.map_cons, hrow.chunkId, ih]

/-- The records of chunks with vectors of theirs have their identities. -/
theorem map_chunkId_zipWith {ps : List PendingChunk} {vs : List Embedding}
    (h : vs.length = ps.length) :
    (List.zipWith PendingChunk.record ps vs).map (·.chunkId) = ps.map (·.chunkId) := by
  induction ps generalizing vs with
  | nil => rfl
  | cons p ps ih =>
    cases vs with
    | nil => cases h
    | cons v vs =>
      rw [List.zipWith_cons_cons, List.map_cons, List.map_cons, ih (Nat.succ.inj h)]
      rfl

section Stored

variable {size : Nat} {calls : List Call} {results : List (Except IndexSinkError Unit)}
variable {s : State σ} {batches : List Batch}

/-- A batch that is stored is stored as a whole. -/
theorem Account.map_chunkId {before : Store} (h : Account e size before calls results s batches)
    {b : Batch} (hb : b ∈ batches)
    {records : List ChunkRecord} (hstored : b.outcome = .ok records) :
    b.records.map (·.chunkId) = b.chunks.map (·.chunkId) := by
  obtain ⟨vs, w, w', -, hlength, hcarries⟩ := h.aligned b hb records hstored
  obtain rfl := (eq_zipWith_iff hlength).mpr hcarries
  rw [Batch.records, hstored]
  exact map_chunkId_zipWith hlength

/-- A store that was empty holds as many rows as the sink has counted. -/
theorem Account.rows_length (h : Account e size {} calls results s batches)
    (hdistinct : ((consumed calls).map (·.chunkId)).Nodup) :
    s.shelf.store.rows.length = s.sink.written := by
  obtain ⟨rows, hrows, hstore⟩ := h.store
  have hids := map_chunkId_of_keeps hrows
  have hsub : ((batches.flatMap (·.records)).map (·.chunkId)).Sublist
      ((batches.flatMap (·.chunks)).map (·.chunkId)) := by
    rw [List.map_flatMap, List.map_flatMap]
    refine List.Sublist.flatMap_right _ fun b hb => ?_
    rcases houtcome : b.outcome with err | records
    · rw [Batch.records, houtcome]
      exact List.nil_sublist _
    · rw [h.map_chunkId hb houtcome]
  have hnodup : (rows.map (·.chunkId)).Nodup := by
    rw [hids]
    refine hdistinct.sublist (hsub.trans ?_)
    rw [h.conserved, List.map_append]
    exact List.sublist_append_left _ _
  rw [hstore, Store.foldl_insert_rows_of_new (fun q hq => absurd hq List.not_mem_nil) hnodup,
    List.nil_append, h.written, ← List.length_map (f := fun r : Row => r.chunkId), hids,
    List.length_map]

/-- Where no call fails and nothing waits, every chunk was counted. -/
theorem Account.written_of_ok {before : Store} (h : Account e size before calls results s batches)
    (hok : ∀ r ∈ results, r = .ok ()) (hpending : s.sink.pending = []) :
    s.sink.written = (consumed calls).length := by
  have hids : (batches.flatMap (·.records)).map (·.chunkId) =
      (batches.flatMap (·.chunks)).map (·.chunkId) := by
    rw [List.map_flatMap, List.map_flatMap]
    refine List.flatMap_congr fun b hb => ?_
    have hdone := hok _ (List.mem_of_getElem? (h.result b hb))
    rcases houtcome : b.outcome with err | records
    · rw [houtcome] at hdone
      cases hdone
    · exact h.map_chunkId hb houtcome
  rw [h.written, h.conserved, hpending, List.append_nil,
    ← List.length_map (f := fun r : ChunkRecord => r.chunkId), hids, List.length_map]

end Stored

/-- With nothing in its way, filling a sink succeeds. -/
theorem triple_fill_calm (he : e.Serves) {o : ChunkOptions} {docs : List Document}
    (hdocs : ∀ d ∈ docs, d.Storable o) (k : Option DocumentKey) :
    Triple (Calm k) (fill e o docs) (fun _ _ => True) fun _ => False := by
  have hall : Triple (fun s => ∃ k, Calm k s) (emitAll e o docs) (fun _ s => ∃ k, Calm k s)
      fun _ => False := by
    induction docs with
    | nil => exact triple_pure fun _ h => h
    | cons d docs ih =>
      have hd := hdocs d List.mem_cons_self
      refine triple_bind (Q := fun _ s => ∃ k, Calm k s) ?_ fun n =>
        triple_bind (ih fun d' hd' => hdocs d' (List.mem_cons_of_mem _ hd')) fun _ =>
          triple_pure fun _ h => h
      unfold emitDocument Sink.emit
      refine triple_bind (triple_modify (R := fun _ => Calm (some d.key)) fun s hs =>
        { hs.choose_spec with document := rfl }) fun _ => ?_
      refine triple_bind (triple_handOver_calm he d.unit.path hd.lines) fun _ => ?_
      rw [hd.complete]
      exact triple_pure fun _ h => ⟨_, h⟩
  unfold fill
  refine triple_bind (triple_withError (hall.conseq (fun _ h => ⟨k, h⟩) (fun _ _ h => h)
    fun _ h => h)) fun ns => ?_
  refine triple_bind (Q := fun _ _ => True) (triple_withError (triple_discard ?_)) fun _ =>
    triple_pure fun _ _ => trivial
  rintro s ⟨k, hs⟩
  exact (triple_flush_calm he).conseq (fun _ h => h) (fun _ _ _ => trivial) (fun _ h => h) s hs

/-- No chunk is written over another.  An identity tells the path, the place, the kind,
the symbol and the lines of a record.  So a store that is filled with units under
different paths holds, wherever filling it stops, one row for each record that the sink
has counted; if it succeeds these are as many as chunks were handed over, and with
nothing in its way it succeeds. -/
theorem nothing_overwritten :
    (∀ r q : ChunkRecord, NulFree r.filePath → NulFree q.filePath → NulFree r.kind →
      NulFree q.kind → ∀ a b, r.symbol = some a → q.symbol = some b → r.identity = q.identity →
      r.filePath = q.filePath ∧ r.ordinal = q.ordinal ∧ r.kind = q.kind ∧ a = b ∧
        r.startLine = q.startLine ∧ r.endLine = q.endLine) ∧
    ∀ (σ : Type) (e : Embedder σ) (o : ChunkOptions) (n : Int) (faults : List (Option String))
      (world : Logged σ) (docs : List Document),
      (∀ d ∈ docs, d.IsParsed ∧ NulFree d.key.path) → (docs.map (·.key.path)).Nodup →
      (∀ p ∈ docs.flatMap (·.records o), ∀ q ∈ docs.flatMap (·.records o),
        p.chunkId = q.chunkId → p.identity = q.identity) →
      let filled := (fill e o docs).runOn (opened n { faults } world)
      filled.2.shelf.store.rows.length = filled.2.sink.written ∧
      (∀ counts, filled.1 = .ok counts →
        counts = docs.map (fun d => (d.unit.chunks o).chunks.length) ∧
        filled.2.sink.written = counts.sum) ∧
      ((∀ f ∈ faults, f = none) → e.Serves →
        (∀ d ∈ docs, ∀ c ∈ (d.unit.chunks o).chunks, c.storable = true) →
        ∃ counts, filled.1 = .ok counts) := by
  refine ⟨fun r q hr hq hrkind hqkind a b ha hb h => ?_, ?_⟩
  · have hfields := ChunkRecord.fields_of_identity_eq hr hq hrkind hqkind h
    rw [ha, hb] at hfields
    exact hfields
  intro σ e o n faults world docs hdocs hpaths hfree filled
  have hdistinct := Document.chunkIds_nodup hpaths (fun d hd => (hdocs d hd).2) hfree
  have hconsumed : consumed (docs.flatMap (·.calls o) ++ [.close]) =
      docs.flatMap (·.records o) := by
    have hcalls := consumed_calls o [] docs
    rw [List.nil_append] at hcalls
    rw [consumed_append_singleton, hcalls, added_of_empties _ rfl]
    exact List.append_nil _
  have hfill : Triple (Made e (opened n { faults } world) []) (fill e o docs) _ _ :=
    triple_fill o docs
  have hbegun : Begun e (opened n { faults } world) (docs.flatMap (·.calls o) ++ [.close])
      filled.2 := by
    have hrun := hfill (opened n { faults } world) rfl
    change Begun e _ _ ((fill e o docs).runOn (opened n { faults } world)).2
    rcases hresult : (fill e o docs).runOn (opened n { faults } world) with ⟨err | counts, s⟩
    · rw [hresult] at hrun
      exact hrun
    · rw [hresult] at hrun
      exact hrun.1.begun
  refine ⟨?_, ?_, ?_⟩
  · obtain ⟨front, hfront, hs⟩ := hbegun
    obtain ⟨batches, haccount⟩ := (exists_account e n { faults } world front).2
    rw [hs] at haccount
    refine haccount.rows_length (hdistinct.sublist ?_)
    rw [← hconsumed]
    exact (consumed_of_front hfront).sublist.map _
  · intro counts hcounts
    have hrun : (fill e o docs).runOn (opened n { faults } world) = (.ok counts, filled.2) :=
      Prod.ext hcounts rfl
    obtain ⟨hmade, rfl⟩ := hfill.of_ok rfl hrun
    refine ⟨rfl, ?_⟩
    obtain ⟨batches, haccount⟩ := (exists_account e n { faults } world
      (docs.flatMap (·.calls o) ++ [.close])).2
    rw [hmade] at haccount
    rw [haccount.written_of_ok (fun r hr => List.eq_of_mem_replicate hr)
      (haccount.emptied .close List.getLast?_concat rfl), hconsumed, List.length_flatMap]
    simp [Document.records, chunksAt]
  · intro hfaults he hlines
    have hstorable : ∀ d ∈ docs, d.Storable o := by
      intro d hd
      obtain ⟨text, path, locals, hparse⟩ := (hdocs d hd).1
      exact ⟨by rw [Java.chunks_eq_of_parse hparse], hlines d hd⟩
    have hcalm : Calm none (opened (σ := σ) n { faults } world) :=
      ⟨hfaults, fun p hp => absurd hp List.not_mem_nil, rfl⟩
    have hrun := triple_fill_calm he hstorable none _ hcalm
    change ∃ counts, ((fill e o docs).runOn (opened n { faults } world)).1 = .ok counts
    rcases hresult : (fill e o docs).runOn (opened n { faults } world) with ⟨err | counts, s⟩
    · rw [hresult] at hrun
      exact hrun.elim
    · exact ⟨counts, rfl⟩

/-- Two files with three chunks. -/
def threeChunks : List Document := [.importing, .bare "B.java" "B"]

/-- One method as it was stored from two versions of its file, and a store that is
filled with two files in batches of two chunks. -/
theorem nothing_overwritten_threeChunks :
    let r : ChunkRecord := { filePath := "A.java", symbol := some "A#f", text := "void f();" }
    let q : ChunkRecord := { filePath := "A.java", symbol := some "A#f", text := "int f();" }
    let filled := (fill (.uniform (σ := Unit) "uniform") {} threeChunks).runOn
      (opened 2 {} ⟨(), []⟩)
    (r.identity = q.identity ∧ r.startLine = q.startLine ∧ r.endLine = q.endLine) ∧
      filled.1 = .ok [2, 1] ∧ filled.2.sink.written = 3 ∧
      filled.2.shelf.store.rows.length = filled.2.sink.written := by
  intro r q filled
  have hidentity : r.identity = q.identity := rfl
  have hfields := nothing_overwritten.1 r q (by decide) (by decide) (by decide) (by decide) "A#f"
    "A#f" rfl rfl hidentity
  have hdocs {d : Document} (hd : d ∈ threeChunks) :
      Known {} (KnownFile.samples.map (·.candidate)) d := by
    obtain rfl | rfl : d = _ ∨ d = _ := by simpa [threeChunks] using hd
    · exact ⟨_, by simp [KnownFile.samples, KnownFile.importing], Candidate.document?_importing⟩
    · exact ⟨_, by simp [KnownFile.samples, KnownFile.beside], KnownFile.beside.known⟩
  have hfree := collisionFree_samples (List.Subset.refl _)
  obtain ⟨hrows, hcounts, hserved⟩ := nothing_overwritten.2 Unit (.uniform "uniform") {} 2 []
    ⟨(), []⟩ threeChunks (fun d hd => ⟨.of_known (hdocs hd), hfree.nulFree (hdocs hd)⟩) (by decide)
    (fun p hp p' hp' => by
      obtain ⟨d, hd, hp⟩ := List.mem_flatMap.mp hp
      obtain ⟨d', hd', hp'⟩ := List.mem_flatMap.mp hp'
      exact hfree.chunks d d' (hdocs hd) (hdocs hd') p hp p' hp')
  obtain ⟨counts, hok⟩ := hserved (by simp) (Embedder.uniform_serves _) (by decide)
  obtain ⟨hlengths, hwritten⟩ := hcounts counts hok
  obtain rfl : counts = [2, 1] := hlengths.trans (by decide)
  exact ⟨⟨hidentity, hfields.2.2.2.2⟩, hok, hwritten, hrows⟩

end IndexSink

end SourceShelf
