import Mathlib.Data.List.Forall2
import SourceShelf.Index.Run
import SourceShelf.Proofs.Action
import SourceShelf.Proofs.Index.Record
import SourceShelf.Proofs.Store.Rows

/-!
# How an index fills

A sink takes chunks and stores them batch by batch.  `Filled R kept taken s`
says how far it got: of the chunks `taken` so far those in front are stored
behind the rows `kept`, and the others wait.  Where the embedder or the store
fails, `Torn R paths kept taken s` is left: the rows of some of the files `paths`
are gone, and those of the first chunks are there.

* `flush_cases`: what emptying the buffer can lead to.
* `triple_flush`, `triple_consume`, `triple_emit`: the sink stays filled.
* `triple_replace`: the rows of a file give way to those of its new chunks.
-/

namespace SourceShelf

/-- Chunks of a document in their order, the first one at the place `n`. -/
def chunksAt (d : DocumentKey) (n : Nat) (chunks : List Chunk) : List PendingChunk :=
  (chunks.zipIdx n).map fun c => ⟨d, c.2, c.1⟩

@[simp] theorem chunksAt_nil (d : DocumentKey) (n : Nat) : chunksAt d n [] = [] := rfl

@[simp] theorem chunksAt_cons (d : DocumentKey) (n : Nat) (c : Chunk) (cs : List Chunk) :
    chunksAt d n (c :: cs) = ⟨d, n, c⟩ :: chunksAt d (n + 1) cs := rfl

theorem mem_chunksAt_document {d : DocumentKey} {n : Nat} {cs : List Chunk} {p : PendingChunk}
    (h : p ∈ chunksAt d n cs) : p.document = d := by
  obtain ⟨c, -, rfl⟩ := List.mem_map.mp h
  rfl

theorem chunksAt_ordinals_nodup (d : DocumentKey) (n : Nat) (cs : List Chunk) :
    ((chunksAt d n cs).map (·.ordinal)).Nodup := by
  have hordinals : (chunksAt d n cs).map (·.ordinal) = List.range' n cs.length := by
    rw [chunksAt, List.map_map]
    exact List.zipIdx_map_snd n cs
  rw [hordinals]
  exact List.nodup_range'

/-- Chunks that no row is taken for, and that are not taken for each other. -/
structure Fresh (kept : List Row) (taken : List PendingChunk) : Prop where
  new : ∀ r ∈ kept, ∀ p ∈ taken, r.chunkId ≠ p.chunkId
  distinct : (taken.map (·.chunkId)).Nodup

namespace Fresh

variable {kept kept' : List Row} {taken taken' : List PendingChunk}

theorem of_sublist (h : Fresh kept taken) (hkept : kept'.Sublist kept)
    (htaken : taken'.Sublist taken) : Fresh kept' taken' where
  new r hr p hp := h.new r (hkept.subset hr) p (htaken.subset hp)
  distinct := h.distinct.sublist (htaken.map _)

end Fresh

namespace IndexSink

open SourceShelf.Action

variable {σ : Type} {R : String → Embedding → Prop} {kept kept' : List Row}
variable {taken taken' : List PendingChunk} {paths paths' : List String} {e : Embedder σ}
variable {s : State σ}

/-- How far a sink is filled: the chunks that do not wait are stored behind the
rows that were kept. -/
def Filled (R : String → Embedding → Prop) (kept : List Row) (taken : List PendingChunk)
    (s : State σ) : Prop :=
  ∃ done rows, taken = done ++ s.sink.pending ∧ s.shelf.store.rows = kept ++ rows ∧
    List.Forall₂ (StoredAs R) done rows

/-- What a failure leaves of a sink: some of the files `paths` have lost the rows
that were kept of them, and behind the others stand those of the first chunks. -/
def Torn (R : String → Embedding → Prop) (paths : List String) (kept : List Row)
    (taken : List PendingChunk) (s : State σ) : Prop :=
  ∃ lost done rows, lost ⊆ paths ∧ done <+: taken ∧
    s.shelf.store.rows = rowsOutside lost kept ++ rows ∧ List.Forall₂ (StoredAs R) done rows

namespace Torn

theorem mono (h : Torn R paths kept taken s) (hpaths : paths ⊆ paths') (htaken : taken <+: taken') :
    Torn R paths' kept taken' s := by
  obtain ⟨lost, done, rows, hlost, hdone, hrows⟩ := h
  exact ⟨lost, done, rows, List.Subset.trans hlost hpaths, hdone.trans htaken, hrows⟩

/-- Rows that were removed before count as lost. -/
theorem outside {more : List String} (h : Torn R paths (rowsOutside more kept) taken s)
    (hmore : more ⊆ paths) : Torn R paths kept taken s := by
  obtain ⟨lost, done, rows, hlost, hdone, hrows, hstored⟩ := h
  refine ⟨more ++ lost, done, rows, List.append_subset.mpr ⟨hmore, hlost⟩, hdone, ?_, hstored⟩
  rw [rowsOutside_append, hrows]

end Torn

theorem Filled.torn (h : Filled R kept taken s) : Torn R [] kept taken s := by
  obtain ⟨done, rows, rfl, hrows, hstored⟩ := h
  refine ⟨[], done, rows, List.Subset.refl _, List.prefix_append _ _, ?_, hstored⟩
  rw [rowsOutside_nil, hrows]

theorem onShelf_runOn {α : Type} (a : Action Shelf StoreError α) (s : State σ) :
    (onShelf a).runOn s =
      ((a.runOn s.shelf).1.mapError .store, { s with shelf := (a.runOn s.shelf).2 }) := rfl

theorem onWorld_runOn {ε α : Type} (a : Action (Logged σ) ε α) (s : State σ) :
    (onWorld a).runOn s = ((a.runOn s.world).1, { s with world := (a.runOn s.world).2 }) := rfl

/-- What emptying the buffer leads to.  Its chunks are stored together, or they
are lost and the rows stay as they are. -/
theorem flush_cases (e : Embedder σ) (s : State σ) :
    (s.sink.pending = [] ∧ (flush e).runOn s = (.ok 0, s)) ∨
    (∃ vs w rows faults,
      (e.embed (s.sink.pending.map (·.chunk.text))).runOn s.world = (.ok vs, w) ∧
      vs.length = s.sink.pending.length ∧
      Store.rowsOf (List.zipWith PendingChunk.record s.sink.pending vs) = .ok rows ∧
      (flush e).runOn s =
        (.ok rows.length,
          { sink := { s.sink with pending := [], written := s.sink.written + rows.length }
            shelf := ⟨rows.foldl Store.insert s.shelf.store, faults⟩
            world := w.report (.debug ("Stored " ++ toString rows.length ++
              " embedded chunk(s)")) })) ∨
    ∃ err s', (flush e).runOn s = (.error err, s') ∧
      s'.sink = { s.sink with pending := [] } ∧ s'.shelf.store = s.shelf.store := by
  unfold flush
  rw [runOn_bind_of_ok (runOn_get s)]
  by_cases hpending : s.sink.pending = []
  · refine .inl ⟨hpending, ?_⟩
    rw [hpending]
    rfl
  rw [if_neg (by simpa using hpending), runOn_bind_of_ok (runOn_modify _ _)]
  rcases hembed : (e.embed (s.sink.pending.map (·.chunk.text))).runOn s.world with ⟨err | vs, w⟩
  · refine .inr (.inr ⟨.embed err, { s with sink := { s.sink with pending := [] }, world := w },
      ?_, rfl, rfl⟩)
    refine runOn_bind_of_error ?_ _
    rw [runOn_withError, onWorld_runOn, hembed]
    rfl
  have hworld : ((onWorld (e.embed (s.sink.pending.map (·.chunk.text)))).withError
      IndexSinkError.embed).runOn { s with sink := { s.sink with pending := [] } } =
      (.ok vs, { s with sink := { s.sink with pending := [] }, world := w }) := by
    rw [runOn_withError, onWorld_runOn, hembed]
    rfl
  rw [runOn_bind_of_ok hworld]
  by_cases hcount : vs.length = s.sink.pending.length
  · rw [if_neg (by simpa using hcount)]
    obtain ⟨faults, ⟨rows, hrows, hupsert⟩ | ⟨err, hupsert⟩⟩ :=
      Shelf.upsert_cases (List.zipWith PendingChunk.record s.sink.pending vs) s.shelf
    · refine .inr (.inl ⟨vs, w, rows, faults, hembed, hcount, hrows, ?_⟩)
      have hshelf : (onShelf (Shelf.upsert (List.zipWith PendingChunk.record s.sink.pending
          vs))).runOn { s with sink := { s.sink with pending := [] }, world := w } =
          (.ok rows.length,
            { sink := { s.sink with pending := [] }
              shelf := ⟨rows.foldl Store.insert s.shelf.store, faults⟩
              world := w }) := by
        rw [onShelf_runOn, hupsert]
        rfl
      exact (runOn_bind_of_ok hshelf _).trans rfl
    · have hshelf : (onShelf (Shelf.upsert (List.zipWith PendingChunk.record s.sink.pending
          vs))).runOn { s with sink := { s.sink with pending := [] }, world := w } =
          (.error (.store err),
            { sink := { s.sink with pending := [] }
              shelf := ⟨s.shelf.store, faults⟩
              world := w }) := by
        rw [onShelf_runOn, hupsert]
        rfl
      exact .inr (.inr ⟨_, _, runOn_bind_of_error hshelf _, rfl, rfl⟩)
  · rw [if_pos hcount]
    exact .inr (.inr ⟨_, _, rfl, rfl, rfl⟩)

theorem triple_flush (he : e.Answers R) (hfresh : Fresh kept taken) (d : Option DocumentKey)
    (n : Nat) :
    Triple (fun s => Filled R kept taken s ∧ s.sink.document = d ∧ s.sink.ordinal = n) (flush e)
      (fun _ s => (Filled R kept taken s ∧ s.sink.pending = []) ∧ s.sink.document = d ∧
        s.sink.ordinal = n)
      (Torn R [] kept taken) := by
  rintro s ⟨hfilled, hdocument, hordinal⟩
  rcases flush_cases e s with ⟨hpending, hrun⟩ |
    ⟨vs, w, new, faults, hembed, hcount, hnew, hrun⟩ | ⟨err, s', hrun, -, hstore⟩
  · rw [hrun]
    exact ⟨⟨hfilled, hpending⟩, hdocument, hordinal⟩
  · rw [hrun]
    refine ⟨⟨?_, rfl⟩, hdocument, hordinal⟩
    obtain ⟨done, rows, htaken, hrows, hstored⟩ := hfilled
    have hvs := he _ _ _ _ hembed (by rw [hcount, List.length_map])
    have hpending := rowsOf_zipWith hvs hnew
    have hids := map_chunkId_of_storedAs hpending
    have hdistinct := hfresh.distinct
    rw [htaken, List.map_append, List.nodup_append] at hdistinct
    refine ⟨taken, rows ++ new, (List.append_nil _).symm, ?_,
        htaken ▸ List.rel_append hstored hpending⟩
    rw [← List.append_assoc, ← hrows]
    refine Store.foldl_insert_rows_of_new ?_ (hids ▸ hdistinct.2.1)
    intro q hq r hr
    obtain ⟨p, hp, hpr⟩ := exists_storedAs_of_mem hpending hr
    rw [hpr.chunkId]
    rw [hrows, List.mem_append] at hq
    rcases hq with hq | hq
    · exact hfresh.new q hq p (htaken ▸ List.mem_append_right _ hp)
    · obtain ⟨p', hp', hpq⟩ := exists_storedAs_of_mem hstored hq
      rw [hpq.chunkId]
      exact hdistinct.2.2 _ (List.mem_map_of_mem hp') _ (List.mem_map_of_mem hp)
  · rw [hrun]
    show Torn R [] kept taken s'
    unfold Torn
    rw [hstore]
    exact hfilled.torn

/-- A chunk that was taken waits first. -/
def push (d : DocumentKey) (c : Chunk) (s : State σ) : State σ :=
  { s with sink := { s.sink with
      pending := s.sink.pending ++ [⟨d, s.sink.ordinal, c⟩], ordinal := s.sink.ordinal + 1 } }

theorem consume_runOn (e : Embedder σ) (c : Chunk) {d : DocumentKey}
    (hd : s.sink.document = some d) :
    (consume e c).runOn s =
      if s.sink.batchSize ≤ (push d c s).sink.pending.length then
        (discard (flush e)).runOn (push d c s)
      else (.ok (), push d c s) := by
  unfold consume
  rw [runOn_bind_of_ok (runOn_get s), hd]
  dsimp only
  rw [runOn_bind_of_ok (runOn_modify _ _), runOn_bind_of_ok (runOn_get _)]
  by_cases hfull : s.sink.batchSize ≤ (push d c s).sink.pending.length
  · rw [if_pos hfull]
    exact congrFun (if_pos hfull) _
  · rw [if_neg hfull]
    exact congrFun (if_neg hfull) _

theorem Filled.push (h : Filled R kept taken s) (d : DocumentKey) (c : Chunk) :
    Filled R kept (taken ++ [⟨d, s.sink.ordinal, c⟩]) (push d c s) := by
  obtain ⟨done, rows, rfl, hrows, hstored⟩ := h
  exact ⟨done, rows, List.append_assoc .., hrows, hstored⟩

theorem triple_consume (he : e.Answers R) (d : DocumentKey) (n : Nat) (c : Chunk)
    (hfresh : Fresh kept (taken ++ [⟨d, n, c⟩])) :
    Triple
      (fun s => Filled R kept taken s ∧ s.sink.document = some d ∧ s.sink.ordinal = n)
      (consume e c)
      (fun _ s => Filled R kept (taken ++ [⟨d, n, c⟩]) s ∧ s.sink.document = some d ∧
        s.sink.ordinal = n + 1)
      (Torn R [] kept (taken ++ [⟨d, n, c⟩])) := by
  rintro s ⟨hfilled, hdocument, rfl⟩
  rw [consume_runOn e c hdocument]
  have hpush := hfilled.push d c
  by_cases hfull : s.sink.batchSize ≤ (IndexSink.push d c s).sink.pending.length
  · rw [if_pos hfull]
    have hflush : Triple (fun s' => s' = IndexSink.push d c s) (discard (flush e))
        (fun _ s' => Filled R kept (taken ++ [⟨d, s.sink.ordinal, c⟩]) s' ∧
          s'.sink.document = some d ∧ s'.sink.ordinal = s.sink.ordinal + 1)
        (Torn R [] kept (taken ++ [⟨d, s.sink.ordinal, c⟩])) := by
      refine triple_discard ((triple_flush he hfresh (some d) (s.sink.ordinal + 1)).conseq ?_
        (fun _ _ h => ⟨h.1.1, h.2⟩) fun _ h => h)
      rintro _ rfl
      exact ⟨hpush, hdocument, rfl⟩
    exact hflush _ rfl
  · rw [if_neg hfull]
    exact ⟨hpush, hdocument, rfl⟩

theorem triple_handOver (he : e.Answers R) (path : Option String) (d : DocumentKey) (n : Nat)
    (cs : List Chunk) (hfresh : Fresh kept (taken ++ chunksAt d n cs)) :
    Triple
      (fun s => Filled R kept taken s ∧ s.sink.document = some d ∧ s.sink.ordinal = n)
      ((receiver e).handOver path cs)
      (fun _ => Filled R kept (taken ++ chunksAt d n cs))
      (Torn R [] kept (taken ++ chunksAt d n cs)) := by
  induction cs generalizing taken n with
  | nil =>
    refine triple_pure fun s hs => ?_
    rw [chunksAt_nil, List.append_nil]
    exact hs.1
  | cons c cs ih =>
    have hsplit : taken ++ chunksAt d n (c :: cs) =
        (taken ++ [⟨d, n, c⟩]) ++ chunksAt d (n + 1) cs := by simp
    rw [hsplit] at hfresh ⊢
    have hfirst : Fresh kept (taken ++ [⟨d, n, c⟩]) :=
      hfresh.of_sublist (List.Sublist.refl _) (List.sublist_append_left _ _)
    refine triple_bind (triple_withError ?_) fun _ => ih (n + 1) hfresh
    refine triple_withError ((triple_consume he d n c hfirst).conseq (fun _ h => h)
      (fun _ _ h => h) fun s hs => ?_)
    exact hs.mono (List.Subset.refl _) (List.prefix_append _ _)

theorem triple_emit (he : e.Answers R) (path : Option String) (d : DocumentKey)
    (stream : Java.ChunkStream) (hfresh : Fresh kept (taken ++ chunksAt d 0 stream.chunks)) :
    Triple
      (fun s => Filled R kept taken s ∧ s.sink.document = some d ∧ s.sink.ordinal = 0)
      ((receiver e).emit path stream)
      (fun _ s => stream.stopped = none ∧ Filled R kept (taken ++ chunksAt d 0 stream.chunks) s)
      (Torn R [] kept (taken ++ chunksAt d 0 stream.chunks)) := by
  unfold Sink.emit
  refine triple_bind (triple_handOver he path d 0 stream.chunks hfresh) fun _ => ?_
  rcases hstopped : stream.stopped with _ | err
  · exact triple_pure fun _ h => ⟨rfl, h⟩
  · exact triple_throw fun _ h => h.torn

theorem Filled.deleteFile (h : Filled R kept taken s) {path : String}
    (hother : ∀ p ∈ taken, p.document.path ≠ path) (faults : List (Option String)) :
    Filled R (rowsOutside [path] kept) taken
      { s with shelf := ⟨s.shelf.store.deleteFile path, faults⟩ } := by
  obtain ⟨done, rows, rfl, hrows, hstored⟩ := h
  refine ⟨done, rows, rfl, ?_, hstored⟩
  have hstay : rows.filter (fun r => r.filePath ≠ path) = rows := by
    rw [List.filter_eq_self]
    intro r hr
    obtain ⟨p, hp, hpr⟩ := exists_storedAs_of_mem hstored hr
    rw [hpr.filePath]
    exact decide_eq_true (hother p (List.mem_append_left _ hp))
  rw [Store.deleteFile_rows, hrows, List.filter_append, hstay, rowsOutside_singleton]

/-- The rows of a file give way to those of its new chunks.  Rows of other
chunks that were taken stay. -/
theorem triple_replace (he : e.Answers R) (o : ChunkOptions) (key : DocumentKey)
    (u : Java.CompilationUnit) (hother : ∀ p ∈ taken, p.document.path ≠ key.path)
    (hfresh : Fresh (rowsOutside [key.path] kept)
      (taken ++ chunksAt key 0 (u.chunks o).chunks)) :
    Triple (Filled R kept taken) (replace e o key u)
      (fun _ s => (u.chunks o).stopped = none ∧
        Filled R (rowsOutside [key.path] kept)
          (taken ++ chunksAt key 0 (u.chunks o).chunks) s)
      (Torn R [key.path] kept (taken ++ chunksAt key 0 (u.chunks o).chunks)) := by
  have hdelete : Triple (Filled R kept taken)
      (discard (((Shelf.deleteFile key.path).within State.shelf fun x (s : State σ) =>
        { s with shelf := x }).withError RunError.store))
      (fun _ => Filled R (rowsOutside [key.path] kept) taken)
      (Torn R [key.path] kept (taken ++ chunksAt key 0 (u.chunks o).chunks)) := by
    refine triple_discard (triple_withError fun s hs => ?_)
    obtain ⟨faults, ⟨n, hrun⟩ | ⟨err, hrun⟩⟩ := Shelf.deleteFile_cases key.path s.shelf
    · rw [runOn_within, hrun]
      exact hs.deleteFile hother faults
    · rw [runOn_within, hrun]
      exact hs.torn.mono (List.nil_subset _) (List.prefix_append _ _)
  have hemit := triple_emit he u.path key (u.chunks o) hfresh
  unfold replace
  refine triple_bind hdelete fun _ => triple_bind (triple_modify ?_) fun _ =>
    triple_withError (hemit.conseq (fun _ h => h) (fun _ _ h => h) fun _ h =>
      (h.mono (List.nil_subset _) (List.prefix_refl _)).outside (List.Subset.refl _))
  exact fun s hs => ⟨hs, rfl, rfl⟩

/-- At the end nothing waits: all chunks that were taken are stored. -/
theorem triple_close (he : e.Answers R) (hfresh : Fresh kept taken) :
    Triple (Filled R kept taken) (close e)
      (fun _ s => ∃ rows, s.shelf.store.rows = kept ++ rows ∧
        List.Forall₂ (StoredAs R) taken rows)
      (Torn R [] kept taken) := by
  refine triple_discard fun s hs => ?_
  refine (triple_flush he hfresh s.sink.document s.sink.ordinal).conseq (fun _ h => h) ?_
    (fun _ h => h) s ⟨hs, rfl, rfl⟩
  rintro _ s' ⟨⟨⟨done, rows, htaken, hrows, hstored⟩, hpending⟩, -, -⟩
  rw [hpending, List.append_nil] at htaken
  exact ⟨rows, hrows, htaken ▸ hstored⟩

end IndexSink

end SourceShelf
