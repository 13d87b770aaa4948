import Mathlib
import SourceShelf.Proofs.Index.Retry

/-!
# What a run counts

A run counts the files that it replaced, those that it could not read or parse, and the chunks
that the sink stored.

* `Candidate.one_group`: a candidate is skipped, replaced or listed as failed.
* `IndexSink.taken`: the chunks that a sink has stored or still holds, which every step of a
  run keeps up.
* `Index.length_rowsOutside`: the rows of some files and the rows of the others.
* `IndexCall.counts_of_completed`: what a run that came to its end has counted.
-/

namespace SourceShelf

open SourceShelf.Action

/-! ## Groups of candidates -/

/-- True of a candidate whose text is the one in the manifest. -/
def Candidate.isListed (m : Manifest) (c : Candidate) : Bool :=
  match c.loaded with
  | .error _ => false
  | .ok t => m.digest? c.path = some (textDigest t.text)

/-- A candidate whose size has a limit is skipped, replaced or listed as failed: exactly one of
the three. -/
theorem Candidate.one_group {c : Candidate} (hlimit : ∀ e, c.loaded ≠ .error (.limit e))
    (o : ChunkOptions) (m : Manifest) :
    [c.isListed m, (c.stale? o m).isSome, (c.failure? o m).isSome].count true = 1 := by
  rcases hloaded : c.loaded with (f | e) | t
  · simp [isListed, stale?, document?, failure?, hloaded]
  · exact absurd hloaded (hlimit e)
  · by_cases hdigest : m.digest? c.path = some (textDigest t.text)
    · cases hparse : Java.parse t.text (some c.path) o.includeLocalTypes <;>
        simp [isListed, stale?, document?, failure?, hloaded, hdigest, hparse]
    · cases hparse : Java.parse t.text (some c.path) o.includeLocalTypes <;>
        simp [isListed, stale?, document?, failure?, hloaded, hdigest, hparse]

/-- If each item is in exactly one of three groups, the groups have all items. -/
theorem length_eq_of_groups {α : Type} (f g h : α → Bool) {xs : List α}
    (hone : ∀ x ∈ xs, [f x, g x, h x].count true = 1) :
    xs.length = xs.countP f + xs.countP g + xs.countP h := by
  induction xs with
  | nil => rfl
  | cons x xs ih =>
    have hx := hone x List.mem_cons_self
    have hxs := ih fun y hy => hone y (List.mem_cons_of_mem _ hy)
    rw [List.length_cons, List.countP_cons, List.countP_cons, List.countP_cons, hxs]
    cases hf : f x <;> cases hg : g x <;> cases hh : h x <;> simp [hf, hg, hh] at hx ⊢ <;> omega

/-! ## Rows of files -/

/-- The rows of some files and the rows of the others are all rows. -/
theorem length_rowsOutside {paths : List String} (h : paths.Nodup) (rows : List Row) :
    (rowsOutside paths rows).length +
      (paths.map fun p => (rows.filter (·.filePath = p)).length).sum = rows.length := by
  induction paths generalizing rows with
  | nil => simp
  | cons p paths ih =>
    rw [List.nodup_cons] at h
    have hfirst : (rowsOutside [p] rows).length + (rows.filter (·.filePath = p)).length =
        rows.length := by
      have hsplit := List.length_eq_length_filter_add (l := rows) (·.filePath = p)
      rw [rowsOutside_singleton, Nat.add_comm]
      simpa using hsplit.symm
    have hrest := ih h.2 (rowsOutside [p] rows)
    have hother : (paths.map fun q => ((rowsOutside [p] rows).filter (·.filePath = q)).length) =
        paths.map fun q => (rows.filter (·.filePath = q)).length := by
      refine List.map_congr_left fun q hq => ?_
      rw [filter_rowsOutside]
      exact fun hqp => h.1 (List.mem_singleton.mp hqp ▸ hq)
    rw [hother, ← rowsOutside_append, List.singleton_append] at hrest
    rw [List.map_cons, List.sum_cons]
    omega

/-! ## The chunks that a sink takes -/

namespace IndexSink

variable {σ : Type} {e : Embedder σ} {n : Nat}

/-- How many chunks a sink has stored or still holds. -/
def taken (s : IndexSink) : Nat := s.written + s.pending.length

/-- A batch has as many rows as chunks. -/
theorem length_of_rowsOf {ps : List PendingChunk} {vs : List Embedding} {rows : List Row}
    (hlength : vs.length = ps.length)
    (h : Store.rowsOf (List.zipWith PendingChunk.record ps vs) = .ok rows) :
    rows.length = ps.length := by
  have hvs : List.Forall₂ (fun _ _ => True) (ps.map (·.chunk.text)) vs :=
    List.forall₂_iff_get.mpr ⟨by rw [List.length_map, hlength], fun _ _ _ => trivial⟩
  exact (rowsOf_zipWith hvs h).length_eq.symm

/-- Emptying the buffer stores what waits, or fails. -/
theorem triple_flush_taken :
    Triple (fun s : State σ => s.sink.taken = n) (flush e)
      (fun _ s => s.sink.taken = n ∧ s.sink.pending = []) fun _ => True := by
  intro s hs
  rcases flush_cases e s with ⟨hpending, hrun⟩ | ⟨vs, w, rows, faults, -, hcount, hrows, hrun⟩ |
    ⟨err, s', hrun, -, -⟩
  · rw [hrun]
    exact ⟨hs, hpending⟩
  · rw [hrun]
    refine ⟨?_, rfl⟩
    show s.sink.written + rows.length + 0 = n
    rw [length_of_rowsOf hcount hrows]
    exact hs
  · rw [hrun]
    trivial

theorem triple_consume_taken (c : Chunk) :
    Triple (fun s : State σ => s.sink.taken = n) (consume e c)
      (fun _ s => s.sink.taken = n + 1) fun _ => True := by
  intro s hs
  rcases hd : s.sink.document with _ | d
  · have hrun : (consume e c).runOn s = (.error .noDocument, s) := by
      unfold consume
      rw [runOn_bind_of_ok (runOn_get s), hd]
      rfl
    rw [hrun]
    trivial
  have hpush : (push d c s).sink.taken = n + 1 := by
    show s.sink.written + (s.sink.pending ++ _).length = n + 1
    rw [List.length_append, ← Nat.add_assoc]
    exact congrArg (· + 1) hs
  rw [consume_runOn e c hd]
  by_cases hfull : s.sink.batchSize ≤ (push d c s).sink.pending.length
  · rw [if_pos hfull]
    exact triple_discard (triple_flush_taken.conseq (fun _ h => h) (fun _ _ h => h.1)
      fun _ h => h) _ hpush
  · rw [if_neg hfull]
    exact hpush

theorem triple_handOver_taken (path : Option String) (cs : List Chunk) :
    Triple (fun s : State σ => s.sink.taken = n) ((receiver e).handOver path cs)
      (fun _ s => s.sink.taken = n + cs.length) fun _ => True := by
  induction cs generalizing n with
  | nil => exact triple_pure fun _ h => h
  | cons c cs ih =>
    refine triple_bind (triple_withError (triple_withError (triple_consume_taken c))) fun _ => ?_
    rw [List.length_cons, Nat.add_comm cs.length, ← Nat.add_assoc]
    exact ih

/-- The chunks of a document are taken. -/
theorem triple_replace_taken (o : ChunkOptions) (key : DocumentKey) (u : Java.CompilationUnit) :
    Triple (fun s : State σ => s.sink.taken = n) (replace e o key u)
      (fun _ s => s.sink.taken = n + (u.chunks o).chunks.length) fun _ => True := by
  unfold replace
  refine triple_bind (Q := fun _ s => s.sink.taken = n) (triple_discard (triple_withError
    fun s hs => ?_)) fun _ => triple_bind (triple_modify (R := fun _ s => s.sink.taken = n)
      fun _ h => h) fun _ => triple_withError ?_
  · rw [runOn_within]
    rcases (Shelf.deleteFile key.path).runOn s.shelf with ⟨err | m, t⟩
    · trivial
    · exact hs
  · unfold Sink.emit
    refine triple_bind (triple_handOver_taken u.path _) fun _ => ?_
    cases (u.chunks o).stopped with
    | none => exact triple_pure fun _ h => h
    | some err => exact triple_throw fun _ _ => trivial

theorem triple_close_taken :
    Triple (fun s : State σ => s.sink.taken = n) (close e) (fun _ s => s.sink.written = n)
      fun _ => True :=
  triple_discard (triple_flush_taken.conseq (fun _ h => h)
    (fun _ s h => by rw [← h.1, taken, h.2]; rfl) fun _ h => h)

end IndexSink

/-! ## A whole run -/

namespace RunState

variable {σ : Type} {e : Embedder σ} {input : RunInput} {x : Index}

/-- A run up to the point where it saves has written the chunks of the stale documents. -/
theorem triple_update_written (hdistinct : (input.candidates.map (·.path)).Nodup) :
    Triple (Ready x 0) (update e input)
      (fun _ s => s.index.sink.written =
          ((x.stale e.modelId input).map fun d => (d.unit.chunks input.options).chunks.length).sum ∧
        Visited input.options (x.prepared e.modelId input).manifest
          (input.gone (x.opened e.modelId).manifest).length input.candidates s)
      fun _ => True := by
  have hupdate := triple_update_of input (e := e) (x := x)
    (J := fun docs i =>
      i.sink.taken = (docs.map fun d => (d.unit.chunks input.options).chunks.length).sum)
    (D := fun i => i.sink.written =
      ((x.stale e.modelId input).map fun d => (d.unit.chunks input.options).chunks.length).sum)
    (F := fun _ => True) hdistinct
    (fun _ s h => by rw [IndexSink.taken, h.written, h.pending]; rfl) (fun _ _ => trivial)
    (fun _ _ _ _ => trivial)
    (fun done d rest _ => by
      rw [List.map_append, List.sum_append, List.map_singleton, List.sum_singleton]
      exact IndexSink.triple_replace_taken _ _ _)
    (fun _ _ _ h => h) (fun _ _ _ _ _ => trivial) IndexSink.triple_close_taken
  exact hupdate.conseq (fun _ h => h) (fun _ _ h => h) fun _ _ => trivial

end RunState

/-- A candidate is not removed, so a run finds stale what the index lists otherwise once it is
opened. -/
theorem Index.stale_eq_opened (x : Index) (modelId : String) (input : RunInput) :
    x.stale modelId input =
      staleDocuments input.options (x.opened modelId).manifest input.candidates :=
  List.filterMap_congr fun _ hc => Candidate.stale?_congr (Index.prepared_digest?_of_candidate hc)

/-- What a run that came to its end has counted. -/
theorem IndexCall.counts_of_completed {σ : Type} {c : IndexCall σ} {x : Index} {r : RunSummary}
    (hdistinct : (c.input.candidates.map (·.path)).Nodup) (h : (c.runOver x).1 = .ok r) :
    let m := (x.opened c.embedder.modelId).manifest
    r.changed = c.input.candidates.countP (fun k => (k.stale? c.input.options m).isSome) ∧
      r.failed = c.input.candidates.countP (fun k => (k.failure? c.input.options m).isSome) ∧
      r.written = ((staleDocuments c.input.options m c.input.candidates).map fun d =>
        (d.unit.chunks c.input.options).chunks.length).sum := by
  intro m
  obtain ⟨t, hupdate, -, rfl⟩ := runOver_ok h
  have hready := RunState.ready_start x c.faults c.input.batchSize c.world
  obtain ⟨hwritten, hvisited⟩ := (RunState.triple_update_written hdistinct).of_ok hready hupdate
  have hstale := x.stale_eq_opened c.embedder.modelId c.input
  refine ⟨?_, ?_, ?_⟩
  · show t.changed = _
    rw [hvisited.changed, ← List.length_filterMap_eq_countP]
    exact congrArg List.length hstale
  · show t.failures.length = _
    rw [hvisited.failures, ← List.length_filterMap_eq_countP]
    exact congrArg List.length (List.filterMap_congr fun k hk =>
      Candidate.failure?_congr (Index.prepared_digest?_of_candidate hk))
  · rw [← hstale]
    exact hwritten

end SourceShelf
