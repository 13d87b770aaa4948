import SourceShelf.Proofs.Index.Completion

/-!
# Batches

Whoever fills a sink names documents, hands over chunks and empties the buffer,
in any order, and goes on when a call fails.  `run` makes such calls one after
the other.  `consumed` says of the calls alone which chunks they hand over: each
with the document that is set at that time and its place behind it.

`Account` is the account of a run: the batches that left the buffer, what became
of each, and what still waits.  `chunks_conserved` says that every run has one,
whatever the embedder and the store do.  Since an account cuts the consumed
chunks into pieces without changing their order, what is stored does not depend
on the size of the batches where nothing fails.

* `flush_sends`: what emptying a buffer with something in it leads to.
* `Account.quiet_step`, `Account.sends`: one more call, without and with a batch.
* `account_act`: every call is one of the two.
-/

namespace SourceShelf.IndexSink

open SourceShelf.Action

variable {σ : Type}

/-! ## Calls -/

/-- A call of a sink. -/
inductive Call where
  | setDocument (d : DocumentKey)
  | consume (c : Chunk)
  | flush
  | close
deriving DecidableEq, Repr, Inhabited

namespace Call

/-- What a call does. -/
def act (e : Embedder σ) : Call → Action (State σ) IndexSinkError Unit
  | setDocument d => modify fun s => { s with sink := s.sink.setDocument d }
  | consume c => IndexSink.consume e c
  | flush => discard (IndexSink.flush e)
  | close => IndexSink.close e

/-- The document that a call sets. -/
def document? : Call → Option DocumentKey
  | setDocument d => some d
  | _ => none

/-- The chunk that a call hands over. -/
def chunk? : Call → Option Chunk
  | consume c => some c
  | _ => none

/-- True of the calls that empty the buffer. -/
def empties : Call → Bool
  | flush | close => true
  | _ => false

end Call

/-- Some calls one after the other: the result of each, and the state behind
them.  A call that fails does not keep the next one from being made. -/
def run (e : Embedder σ) : List Call → State σ → List (Except IndexSinkError Unit) × State σ
  | [], s => ([], s)
  | c :: cs, s =>
    let (r, s') := (c.act e).runOn s
    let (rs, t) := run e cs s'
    (r :: rs, t)

/-- The document that was set last. -/
def currentDocument (calls : List Call) : Option DocumentKey :=
  (calls.filterMap Call.document?).getLast?

/-- The number of chunks that were handed over since a document was set. -/
def sinceDocument (calls : List Call) : Nat :=
  ((calls.reverse.takeWhile (·.document?.isNone)).filterMap Call.chunk?).length

/-- The chunk that a call adds behind other calls.  Without a document it adds
none. -/
def added (before : List Call) (c : Call) : Option PendingChunk :=
  match c.chunk?, currentDocument before with
  | some x, some d => some ⟨d, sinceDocument before, x⟩
  | _, _ => none

/-- The chunks that some calls hand over. -/
def consumed (calls : List Call) : List PendingChunk :=
  calls.zipIdx.filterMap fun c => added (calls.take c.2) c.1

/-- A batch that left the buffer: the number of the call that sent it off, its
chunks, and the records that were stored or why none was. -/
structure Batch where
  call : Nat
  chunks : List PendingChunk
  outcome : Except IndexSinkError (List ChunkRecord)

/-- The records of a batch that were stored. -/
def Batch.records (b : Batch) : List ChunkRecord := b.outcome.toOption.getD []

/-- The account of a run with batches of a given size over a store: what became
of the consumed chunks. -/
structure Account (e : Embedder σ) (size : Nat) (before : Store) (calls : List Call)
    (results : List (Except IndexSinkError Unit)) (s : State σ) (batches : List Batch) :
    Prop where
  /-- Every call has a result. -/
  answered : results.length = calls.length
  /-- The consumed chunks, in their order, are those of the batches and those that wait. -/
  conserved : consumed calls = batches.flatMap (·.chunks) ++ s.sink.pending
  /-- A call sends off one batch at most. -/
  ordered : (batches.map (·.call)).Pairwise (· < ·)
  /-- A batch holds something.  One that is sent off by a chunk is full. -/
  sent : ∀ b ∈ batches, b.chunks ≠ [] ∧ ∃ c, calls[b.call]? = some c ∧
    (c.chunk?.isSome → b.chunks.length = size)
  /-- The call that sends off a batch fails if the batch is not stored. -/
  result : ∀ b ∈ batches, results[b.call]? = some (b.outcome.map fun _ => ())
  /-- No other call fails, unless a chunk comes without a document. -/
  quiet : ∀ i c, calls[i]? = some c → (∀ b ∈ batches, b.call ≠ i) →
    results[i]? = some (if c.chunk?.isSome ∧ currentDocument (calls.take i) = none
      then .error .noDocument else .ok ())
  /-- A stored batch is stored as a whole.  The embedder was given the texts of its chunks,
  and each record carries the chunk at its place with the vector at its place. -/
  aligned : ∀ b ∈ batches, ∀ records, b.outcome = .ok records → ∃ vectors w w',
    (e.embed (b.chunks.map (·.chunk.text))).runOn w = (.ok vectors, w') ∧
    vectors.length = b.chunks.length ∧ records.length = b.chunks.length ∧
    ∀ (i : Nat) p v r, b.chunks[i]? = some p → vectors[i]? = some v → records[i]? = some r →
      r.Carries p v
  /-- Nothing but the stored batches is written, and each of them once. -/
  store : ∃ rows,
    List.Forall₂ (fun r row => Row.Keeps row r) (batches.flatMap (·.records)) rows ∧
    s.shelf.store = rows.foldl Store.insert before
  /-- The sink counts what is stored. -/
  written : s.sink.written = (batches.flatMap (·.records)).length
  /-- Less than a batch waits. -/
  bounded : s.sink.pending.length < size
  /-- Nothing waits behind a call that empties the buffer. -/
  emptied : ∀ c, calls.getLast? = some c → c.empties = true → s.sink.pending = []

/-- What the state of a sink keeps of the calls. -/
structure Follows (size : Nat) (calls : List Call) (s : State σ) : Prop where
  size : s.sink.batchSize = size
  document : s.sink.document = currentDocument calls
  ordinal : s.sink.document.isSome → s.sink.ordinal = sinceDocument calls

/-! ## Calls in a row -/

theorem run_append_singleton (e : Embedder σ) (calls : List Call) (c : Call) (s : State σ) :
    run e (calls ++ [c]) s =
      ((run e calls s).1 ++ [((c.act e).runOn (run e calls s).2).1],
        ((c.act e).runOn (run e calls s).2).2) := by
  induction calls generalizing s with
  | nil => rfl
  | cons d calls ih => simp only [List.cons_append, run, ih]

theorem consumed_append_singleton (calls : List Call) (c : Call) :
    consumed (calls ++ [c]) = consumed calls ++ (added calls c).toList := by
  have hbefore : calls.zipIdx.filterMap (fun x => added ((calls ++ [c]).take x.2) x.1) =
      consumed calls := by
    refine List.filterMap_congr fun x hx => ?_
    have hlt : x.2 < calls.length := by
      have := List.snd_lt_add_of_mem_zipIdx hx
      omega
    rw [List.take_append_of_le_length (Nat.le_of_lt hlt)]
  rw [consumed, List.zipIdx_append, List.filterMap_append, hbefore]
  congr 1
  cases h : added calls c <;> simp [h]

theorem currentDocument_append_singleton (calls : List Call) (c : Call) :
    currentDocument (calls ++ [c]) = c.document?.or (currentDocument calls) := by
  rw [currentDocument, List.filterMap_append]
  cases h : c.document? with
  | none => simp [h, currentDocument]
  | some d => simp [h]

theorem sinceDocument_append_setDocument (calls : List Call) (d : DocumentKey) :
    sinceDocument (calls ++ [.setDocument d]) = 0 := by
  simp [sinceDocument, Call.document?]

theorem sinceDocument_append_consume (calls : List Call) (c : Chunk) :
    sinceDocument (calls ++ [.consume c]) = sinceDocument calls + 1 := by
  simp [sinceDocument, Call.document?, Call.chunk?]

theorem sinceDocument_append_empties (calls : List Call) {c : Call} (h : c.empties = true) :
    sinceDocument (calls ++ [c]) = sinceDocument calls := by
  have hnone : c.document?.isNone = true ∧ c.chunk? = none := by
    cases c <;> simp_all [Call.document?, Call.chunk?, Call.empties]
  simp [sinceDocument, hnone]

theorem added_of_empties (calls : List Call) {c : Call} (h : c.empties = true) :
    added calls c = none := by
  cases c <;> simp_all [added, Call.chunk?, Call.empties]

/-! ## One more call -/

section Step

variable {e : Embedder σ} {size : Nat} {before : Store} {calls : List Call}
variable {results : List (Except IndexSinkError Unit)} {s s' : State σ} {batches : List Batch}
variable {c : Call}

theorem Account.call_lt (h : Account e size before calls results s batches) {b : Batch}
    (hb : b ∈ batches) : b.call < calls.length := by
  obtain ⟨-, c, hc, -⟩ := h.sent b hb
  exact (List.getElem?_eq_some_iff.mp hc).1

/-- The records of some chunks and as many vectors are those that carry, each at its place,
the chunk there with the vector there. -/
theorem eq_zipWith_iff {ps : List PendingChunk} {vs : List Embedding} {rs : List ChunkRecord}
    (hvs : vs.length = ps.length) :
    rs = List.zipWith PendingChunk.record ps vs ↔ rs.length = ps.length ∧
      ∀ (i : Nat) p v r, ps[i]? = some p → vs[i]? = some v → rs[i]? = some r → r.Carries p v := by
  have hlength : (List.zipWith PendingChunk.record ps vs).length = ps.length := by
    rw [List.length_zipWith, hvs, Nat.min_self]
  constructor
  · intro hrs
    subst hrs
    refine ⟨hlength, fun i p v r hp hv hr => ?_⟩
    rw [List.getElem?_zipWith, hp, hv] at hr
    obtain rfl := Option.some.inj hr
    exact p.carries_record v
  · intro ⟨hrs, hcarries⟩
    refine List.ext_getElem (hrs.trans hlength.symm) fun i hi hi' => ?_
    rw [List.getElem_zipWith]
    exact (hcarries i _ _ _ (List.getElem?_eq_getElem _) (List.getElem?_eq_getElem _)
      (List.getElem?_eq_getElem hi)).eq_record

/-- What emptying a buffer with something in it leads to: the store takes all its
chunks, each with its vector, or none. -/
theorem flush_sends (e : Embedder σ) (s : State σ) (hpending : s.sink.pending ≠ []) :
    ∃ (outcome : Except IndexSinkError (List ChunkRecord)) (s' : State σ),
      (flush e).runOn s = (outcome.map List.length, s') ∧
      s'.sink = { s.sink with
        pending := [], written := s.sink.written + (outcome.toOption.getD []).length } ∧
      (∃ rows, List.Forall₂ (fun r row => Row.Keeps row r) (outcome.toOption.getD []) rows ∧
        s'.shelf.store = rows.foldl Store.insert s.shelf.store) ∧
      ∀ records, outcome = .ok records → ∃ vectors w w',
        (e.embed (s.sink.pending.map (·.chunk.text))).runOn w = (.ok vectors, w') ∧
        vectors.length = s.sink.pending.length ∧ records.length = s.sink.pending.length ∧
        ∀ (i : Nat) p v r, s.sink.pending[i]? = some p → vectors[i]? = some v →
          records[i]? = some r → r.Carries p v := by
  rcases flush_cases e s with ⟨hnone, -⟩ |
    ⟨vs, w, rows, faults, hembed, hcount, hrows, hrun⟩ | ⟨err, s', hrun, hsink, hstore⟩
  · exact absurd hnone hpending
  · -- as many rows are written as there are chunks
    have hlength : rows.length = (List.zipWith PendingChunk.record s.sink.pending vs).length := by
      have hvs : List.Forall₂ (fun _ _ => True) (s.sink.pending.map (·.chunk.text)) vs :=
        List.forall₂_iff_get.mpr ⟨by rw [List.length_map, hcount], fun _ _ _ => trivial⟩
      rw [← (rowsOf_zipWith hvs hrows).length_eq, List.length_zipWith, hcount, Nat.min_self]
    refine ⟨.ok (List.zipWith PendingChunk.record s.sink.pending vs), _,
      hrun.trans (by rw [hlength]; rfl), ?_, ⟨rows, Store.rowsOf_eq_ok_iff.mp hrows, rfl⟩, ?_⟩
    · simp only [Except.toOption, Option.getD_some]
    · intro records h
      exact ⟨vs, s.world, w, hembed, hcount, (eq_zipWith_iff hcount).mp (Except.ok.inj h).symm⟩
  · exact ⟨.error err, s', hrun, hsink, ⟨[], .nil, hstore⟩, fun _ h => nomatch h⟩

theorem Account.sent_append (h : Account e size before calls results s batches) {b : Batch}
    (hb : b ∈ batches) : b.chunks ≠ [] ∧ ∃ d, (calls ++ [c])[b.call]? = some d ∧
      (d.chunk?.isSome → b.chunks.length = size) := by
  obtain ⟨hne, d, hd, hfull⟩ := h.sent b hb
  exact ⟨hne, d, by rw [List.getElem?_append_left (h.call_lt hb), hd], hfull⟩

theorem Account.result_append (h : Account e size before calls results s batches)
    (r : Except IndexSinkError Unit) {b : Batch} (hb : b ∈ batches) :
    (results ++ [r])[b.call]? = some (b.outcome.map fun _ => ()) := by
  rw [List.getElem?_append_left (h.answered ▸ h.call_lt hb), h.result b hb]

theorem Account.quiet_append (h : Account e size before calls results s batches)
    (r : Except IndexSinkError Unit) {i : Nat} {d : Call} (hi : i < calls.length)
    (hd : (calls ++ [c])[i]? = some d) (hnone : ∀ b ∈ batches, b.call ≠ i) :
    (results ++ [r])[i]? = some (if d.chunk?.isSome ∧
      currentDocument ((calls ++ [c]).take i) = none then .error .noDocument else .ok ()) := by
  rw [List.getElem?_append_left hi] at hd
  rw [List.getElem?_append_left (h.answered ▸ hi), h.quiet i d hd hnone,
    List.take_append_of_le_length (Nat.le_of_lt hi)]

/-- A call that sends off no batch. -/
theorem Account.quiet_step (h : Account e size before calls results s batches)
    {r : Except IndexSinkError Unit}
    (hr : r = if c.chunk?.isSome ∧ currentDocument calls = none
      then .error .noDocument else .ok ())
    (hpending : s'.sink.pending = s.sink.pending ++ (added calls c).toList)
    (hbounded : s'.sink.pending.length < size)
    (hemptied : c.empties = true → s'.sink.pending = [])
    (hwritten : s'.sink.written = s.sink.written) (hstore : s'.shelf.store = s.shelf.store) :
    Account e size before (calls ++ [c]) (results ++ [r]) s' batches where
  answered := by rw [List.length_append, List.length_append, h.answered]; rfl
  conserved := by
    rw [consumed_append_singleton, h.conserved, hpending, List.append_assoc]
  ordered := h.ordered
  sent b hb := h.sent_append hb
  result b hb := h.result_append r hb
  quiet i d hd hnone := by
    rcases Nat.lt_or_ge i calls.length with hi | hi
    · exact h.quiet_append r hi hd hnone
    · obtain ⟨hlt, hd'⟩ := List.getElem?_eq_some_iff.mp hd
      obtain rfl : i = calls.length := by
        rw [List.length_append, List.length_singleton] at hlt
        omega
      rw [List.getElem_append_right (Nat.le_refl _)] at hd'
      rw [← h.answered, List.getElem?_append_right (Nat.le_refl _), h.answered,
        List.take_left, ← hd', hr]
      simp
  aligned := h.aligned
  store := by rw [hstore]; exact h.store
  written := by rw [hwritten, h.written]
  bounded := hbounded
  emptied d hd hempties := by
    rw [List.getLast?_concat] at hd
    exact hemptied (Option.some.inj hd ▸ hempties)

/-- A call that sends off a batch. -/
theorem Account.sends (h : Account e size before calls results s batches) {b : Batch}
    (hcall : b.call = calls.length)
    (hchunks : b.chunks = s.sink.pending ++ (added calls c).toList)
    (hne : b.chunks ≠ []) (hfull : c.chunk?.isSome → b.chunks.length = size)
    (haligned : ∀ records, b.outcome = .ok records → ∃ vectors w w',
      (e.embed (b.chunks.map (·.chunk.text))).runOn w = (.ok vectors, w') ∧
      vectors.length = b.chunks.length ∧ records.length = b.chunks.length ∧
      ∀ (i : Nat) p v r, b.chunks[i]? = some p → vectors[i]? = some v → records[i]? = some r →
        r.Carries p v)
    (hpending : s'.sink.pending = [])
    (hwritten : s'.sink.written = s.sink.written + b.records.length)
    (hstore : ∃ rows, List.Forall₂ (fun r row => Row.Keeps row r) b.records rows ∧
      s'.shelf.store = rows.foldl Store.insert s.shelf.store) :
    Account e size before (calls ++ [c]) (results ++ [b.outcome.map fun _ => ()]) s'
      (batches ++ [b]) where
  answered := by rw [List.length_append, List.length_append, h.answered]; rfl
  conserved := by
    rw [consumed_append_singleton, h.conserved, hpending, List.flatMap_append,
      List.flatMap_singleton, hchunks, List.append_nil, List.append_assoc]
  ordered := by
    rw [List.map_append, List.pairwise_append]
    refine ⟨h.ordered, List.pairwise_singleton _ _, ?_⟩
    intro i hi j hj
    obtain ⟨b', hb', rfl⟩ := List.mem_map.mp hi
    obtain rfl : j = b.call := by simpa using hj
    exact hcall ▸ h.call_lt hb'
  sent b' hb' := by
    rcases List.mem_append.mp hb' with hb' | hb'
    · exact h.sent_append hb'
    · obtain rfl : b' = b := by simpa using hb'
      exact ⟨hne, c, by rw [hcall]; simp, hfull⟩
  result b' hb' := by
    rcases List.mem_append.mp hb' with hb' | hb'
    · exact h.result_append _ hb'
    · obtain rfl : b' = b := by simpa using hb'
      rw [hcall, ← h.answered]
      simp
  quiet i d hd hnone := by
    have hi : i < calls.length := by
      obtain ⟨hlt, -⟩ := List.getElem?_eq_some_iff.mp hd
      have hlast := hnone b (by simp)
      rw [List.length_append, List.length_singleton] at hlt
      omega
    exact h.quiet_append _ hi hd fun b' hb' => hnone b' (List.mem_append_left _ hb')
  aligned b' hb' records hrecords := by
    rcases List.mem_append.mp hb' with hb' | hb'
    · exact h.aligned b' hb' records hrecords
    · obtain rfl : b' = b := by simpa using hb'
      exact haligned records hrecords
  store := by
    obtain ⟨rows, hrows, hbefore⟩ := h.store
    obtain ⟨rows', hrows', hafter⟩ := hstore
    refine ⟨rows ++ rows', ?_, ?_⟩
    · rw [List.flatMap_append, List.flatMap_singleton]
      exact List.rel_append hrows hrows'
    · rw [hafter, hbefore, List.foldl_append]
  written := by
    rw [hwritten, h.written, List.flatMap_append, List.length_append, List.flatMap_singleton]
  bounded := by
    rw [hpending]
    exact Nat.lt_of_le_of_lt (Nat.zero_le _) h.bounded
  emptied _ _ _ := hpending

/-- A call after which the buffer is emptied, with something in it. -/
theorem account_flush (h : Account e size before calls results s batches) {t : State σ}
    (hpending : t.sink.pending = s.sink.pending ++ (added calls c).toList)
    (hne : t.sink.pending ≠ []) (hfull : c.chunk?.isSome → t.sink.pending.length = size)
    (hwritten : t.sink.written = s.sink.written) (hstore : t.shelf.store = s.shelf.store) :
    ∃ batches', Account e size before (calls ++ [c])
      (results ++ [((discard (flush e)).runOn t).1]) ((discard (flush e)).runOn t).2 batches' := by
  obtain ⟨outcome, s', hrun, hsink, hrows, haligned⟩ := flush_sends e t hne
  refine ⟨batches ++ [⟨calls.length, t.sink.pending, outcome⟩], ?_⟩
  have hresult : ((discard (flush e)).runOn t).1 = outcome.map fun _ => () := by
    rw [runOn_discard, hrun]
    cases outcome <;> rfl
  have hstate : ((discard (flush e)).runOn t).2 = s' := by
    rw [runOn_discard, hrun]
  rw [hresult, hstate]
  exact h.sends (b := ⟨calls.length, t.sink.pending, outcome⟩) rfl hpending hne hfull haligned
    (by rw [hsink]) (by rw [hsink, hwritten]; rfl) (by rw [← hstore]; exact hrows)

theorem flush_of_empty (e : Embedder σ) (h : s.sink.pending = []) :
    (flush e).runOn s = (.ok 0, s) := by
  unfold flush
  rw [runOn_bind_of_ok (runOn_get s), h]
  rfl

/-- A call that empties the buffer. -/
theorem account_empties (h : Account e size before calls results s batches)
    (hc : c.empties = true) :
    ∃ batches', Account e size before (calls ++ [c])
      (results ++ [((discard (flush e)).runOn s).1]) ((discard (flush e)).runOn s).2 batches' := by
  have hadded : (added calls c).toList = [] := by rw [added_of_empties calls hc]; rfl
  have hchunk : c.chunk? = none := by
    cases c <;> simp_all [Call.chunk?, Call.empties]
  by_cases hpending : s.sink.pending = []
  · have hrun : (discard (flush e)).runOn s = (.ok (), s) := by
      rw [runOn_discard, flush_of_empty e hpending]
      rfl
    rw [hrun]
    refine ⟨batches, h.quiet_step ?_ ?_ h.bounded (fun _ => hpending) rfl rfl⟩
    · rw [hchunk]
      rfl
    · rw [hadded, List.append_nil]
  · exact account_flush h (by rw [hadded, List.append_nil]) hpending
      (fun hsome => by rw [hchunk] at hsome; cases hsome) rfl rfl

/-- A chunk that is handed over. -/
theorem account_consume (h : Account e size before calls results s batches)
    (hfollows : Follows size calls s) (x : Chunk) :
    ∃ batches', Account e size before (calls ++ [.consume x])
      (results ++ [((consume e x).runOn s).1]) ((consume e x).runOn s).2 batches' := by
  rcases hdocument : s.sink.document with _ | d
  · -- without a document nothing happens
    have hrun : (consume e x).runOn s = (.error .noDocument, s) := by
      unfold consume
      rw [runOn_bind_of_ok (runOn_get s), hdocument]
      rfl
    have hnone : currentDocument calls = none := by rw [← hfollows.document, hdocument]
    rw [hrun]
    refine ⟨batches, h.quiet_step ?_ ?_ h.bounded (fun hc => nomatch hc) rfl rfl⟩
    · rw [if_pos ⟨rfl, hnone⟩]
    · simp [added, Call.chunk?, hnone]
  · have hcurrent : currentDocument calls = some d := by rw [← hfollows.document, hdocument]
    have hordinal : s.sink.ordinal = sinceDocument calls :=
      hfollows.ordinal (by rw [hdocument]; rfl)
    have hpending : (push d x s).sink.pending =
        s.sink.pending ++ (added calls (.consume x)).toList := by
      simp [push, added, Call.chunk?, hcurrent, hordinal]
    have hlength : (push d x s).sink.pending.length = s.sink.pending.length + 1 := by
      simp [push]
    have hbounded := h.bounded
    rw [consume_runOn e x hdocument, hfollows.size]
    by_cases hfull : size ≤ (push d x s).sink.pending.length
    · rw [if_pos hfull]
      refine account_flush h hpending (List.ne_nil_of_length_eq_add_one hlength) (fun _ => ?_)
        rfl rfl
      omega
    · rw [if_neg hfull]
      refine ⟨batches, h.quiet_step ?_ hpending (Nat.lt_of_not_le hfull) (fun hc => nomatch hc)
        rfl rfl⟩
      rw [if_neg (fun hnone => by rw [hcurrent] at hnone; cases hnone.2)]

/-- Every call adds to the account. -/
theorem account_act (h : Account e size before calls results s batches)
    (hfollows : Follows size calls s) (c : Call) :
    ∃ batches', Account e size before (calls ++ [c])
      (results ++ [((c.act e).runOn s).1]) ((c.act e).runOn s).2 batches' := by
  cases c with
  | setDocument d =>
    exact ⟨batches, h.quiet_step rfl (List.append_nil _).symm h.bounded (fun hc => nomatch hc)
      rfl rfl⟩
  | consume x => exact account_consume h hfollows x
  | flush => exact account_empties h rfl
  | close => exact account_empties h rfl

/-- Emptying the buffer leaves the document and the size of the batches. -/
theorem flush_keeps (e : Embedder σ) (s : State σ) :
    ((discard (flush e)).runOn s).2.sink.batchSize = s.sink.batchSize ∧
      ((discard (flush e)).runOn s).2.sink.document = s.sink.document ∧
      ((discard (flush e)).runOn s).2.sink.ordinal = s.sink.ordinal := by
  rw [runOn_discard]
  rcases flush_cases e s with ⟨-, hrun⟩ | ⟨vs, w, rows, faults, -, -, -, hrun⟩ |
    ⟨err, s', hrun, hsink, -⟩
  · rw [hrun]
    exact ⟨rfl, rfl, rfl⟩
  · rw [hrun]
    exact ⟨rfl, rfl, rfl⟩
  · simp [hrun, hsink]

theorem Follows.flush (h : Follows size calls s) (e : Embedder σ) :
    Follows size calls ((discard (IndexSink.flush e)).runOn s).2 := by
  obtain ⟨hsize, hdocument, hordinal⟩ := flush_keeps e s
  exact ⟨hsize.trans h.size, hdocument.trans h.document,
    fun hsome => hordinal.trans (h.ordinal (hdocument ▸ hsome))⟩

theorem Follows.empties (h : Follows size calls s) (hc : c.empties = true) :
    Follows size (calls ++ [c]) s where
  size := h.size
  document := by
    rw [currentDocument_append_singleton, h.document]
    cases c <;> first | rfl | cases hc
  ordinal hsome := by
    rw [sinceDocument_append_empties calls hc]
    exact h.ordinal hsome

theorem Follows.consume (h : Follows size calls s) (e : Embedder σ) (x : Chunk) :
    Follows size (calls ++ [.consume x]) ((consume e x).runOn s).2 := by
  have hcurrent : currentDocument (calls ++ [.consume x]) = s.sink.document := by
    rw [currentDocument_append_singleton, h.document]
    rfl
  rcases hdocument : s.sink.document with _ | d
  · have hrun : (IndexSink.consume e x).runOn s = (.error .noDocument, s) := by
      unfold IndexSink.consume
      rw [runOn_bind_of_ok (runOn_get s), hdocument]
      rfl
    rw [hrun]
    exact ⟨h.size, hcurrent.symm, fun hsome => by rw [hdocument] at hsome; cases hsome⟩
  · have hpush : Follows size (calls ++ [.consume x]) (push d x s) := by
      refine ⟨h.size, hcurrent.symm, fun _ => ?_⟩
      rw [sinceDocument_append_consume, ← h.ordinal (by rw [hdocument]; rfl)]
      rfl
    rw [consume_runOn e x hdocument]
    split
    · exact hpush.flush e
    · exact hpush

theorem Follows.act (h : Follows size calls s) (e : Embedder σ) (c : Call) :
    Follows size (calls ++ [c]) ((c.act e).runOn s).2 := by
  cases c with
  | setDocument d =>
    refine ⟨h.size, ?_, fun _ => ?_⟩
    · rw [currentDocument_append_singleton]
      rfl
    · rw [sinceDocument_append_setDocument]
      rfl
  | consume x => exact h.consume e x
  | flush => exact (h.flush e).empties rfl
  | close => exact (h.flush e).empties rfl

end Step

/-! ## Whole runs -/

/-- A sink before its first call. -/
def opened (n : Int) (shelf : Shelf) (world : Logged σ) : State σ :=
  { sink := .ofBatchSize n, shelf, world }

theorem exists_account (e : Embedder σ) (n : Int) (shelf : Shelf) (world : Logged σ)
    (calls : List Call) :
    Follows (max 1 n).toNat calls (run e calls (opened n shelf world)).2 ∧
      ∃ batches, Account e (max 1 n).toNat shelf.store calls
        (run e calls (opened n shelf world)).1 (run e calls (opened n shelf world)).2 batches := by
  induction calls using List.reverseRecOn with
  | nil =>
    refine ⟨⟨rfl, rfl, fun h => nomatch h⟩, [], ?_⟩
    exact {
      answered := rfl
      conserved := rfl
      ordered := List.Pairwise.nil
      sent := fun _ hb => nomatch hb
      result := fun _ hb => nomatch hb
      quiet := fun _ _ hc => nomatch hc
      aligned := fun _ hb => nomatch hb
      store := ⟨[], .nil, rfl⟩
      written := rfl
      bounded := by
        show 0 < (max 1 n).toNat
        omega
      emptied := fun _ hc => nomatch hc }
  | append_singleton calls c ih =>
    obtain ⟨hfollows, batches, haccount⟩ := ih
    rw [run_append_singleton]
    exact ⟨hfollows.act e c, account_act haccount hfollows c⟩

/-- An embedder that has one vector for each text, whatever stands beside it. -/
def MapsBy (e : Embedder σ) (f : String → Embedding) : Prop :=
  ∀ texts w w' vectors, (e.embed texts).runOn w = (.ok vectors, w') → vectors = texts.map f

/-- The account of a run that is closed at its end and in which no call fails. -/
structure Completed (e : Embedder σ) (n : Int) (shelf : Shelf) (world : Logged σ)
    (calls : List Call) (batches : List Batch) : Prop where
  account : Account e (max 1 n).toNat shelf.store (calls ++ [.close])
    (run e (calls ++ [.close]) (opened n shelf world)).1
    (run e (calls ++ [.close]) (opened n shelf world)).2 batches
  ok : ∀ r ∈ (run e (calls ++ [.close]) (opened n shelf world)).1, r = .ok ()

/-- The records of some chunks, each with the vector of its text. -/
theorem zipWith_record_map (f : String → Embedding) (ps : List PendingChunk) :
    List.zipWith PendingChunk.record ps ((ps.map (·.chunk.text)).map f) =
      ps.map fun p => p.record (f p.chunk.text) := by
  rw [List.map_map, List.zipWith_map_right, List.zipWith_self]
  rfl

/-- Where no call fails, a run that is closed has stored every chunk, each as it would
have been stored alone. -/
theorem Completed.records_eq {e : Embedder σ} {n : Int} {shelf : Shelf} {world : Logged σ}
    {calls : List Call} {batches : List Batch} (h : Completed e n shelf world calls batches)
    {f : String → Embedding} (hf : MapsBy e f) :
    batches.flatMap (·.records) = (consumed calls).map fun p => p.record (f p.chunk.text) := by
  have hrecords : ∀ b ∈ batches, b.records = b.chunks.map fun p => p.record (f p.chunk.text) := by
    intro b hb
    have hresult := h.ok _ (List.mem_of_getElem? (h.account.result b hb))
    rcases houtcome : b.outcome with err | records
    · rw [houtcome] at hresult
      cases hresult
    · obtain ⟨vectors, w, w', hembed, hlength, hcarries⟩ := h.account.aligned b hb records houtcome
      obtain rfl := hf _ _ _ _ hembed
      rw [Batch.records, houtcome, ← zipWith_record_map]
      exact (eq_zipWith_iff hlength).mpr hcarries
  have hpending := h.account.emptied .close List.getLast?_concat rfl
  have hconsumed : consumed (calls ++ [.close]) = consumed calls := by
    rw [consumed_append_singleton, added_of_empties calls rfl]
    exact List.append_nil _
  rw [← hconsumed, h.account.conserved, hpending, List.append_nil, List.map_flatMap]
  exact List.flatMap_congr hrecords

/-- Chunks are conserved, for every size of the batches, every embedder and every
store: each run has an account.  Where no call fails and the embedder has one
vector for each text, a run that is closed at its end has stored one record for each
chunk, in their order, and the same ones for every size of the batches. -/
theorem chunks_conserved (e : Embedder σ) (shelf : Shelf) (world : Logged σ)
    (calls : List Call) :
    (∀ n, ∃ batches, Account e (max 1 n).toNat shelf.store calls
      (run e calls (opened n shelf world)).1 (run e calls (opened n shelf world)).2 batches) ∧
    ∀ f, MapsBy e f → ∀ n batches, Completed e n shelf world calls batches →
      List.Forall₂ (fun p r => ChunkRecord.Carries r p (f p.chunk.text)) (consumed calls)
        (batches.flatMap (·.records)) ∧
      ∀ n' batches', Completed e n' shelf world calls batches' →
        batches'.flatMap (·.records) = batches.flatMap (·.records) := by
  refine ⟨fun n => (exists_account e n shelf world calls).2, ?_⟩
  intro f hf n batches hcompleted
  have hrecords := hcompleted.records_eq hf
  refine ⟨?_, fun n' batches' hcompleted' => ?_⟩
  · rw [hrecords, List.forall₂_map_right_iff, List.forall₂_same]
    exact fun p _ => p.carries_record _
  · rw [hrecords]
    exact hcompleted'.records_eq hf

/-- A document with two chunks. -/
def twoChunks : List Call :=
  [.setDocument ⟨"A.java", "a"⟩, .consume ⟨"class A", .typeHeader, 1, 9, some "A"⟩,
    .consume ⟨"void f()", .method, 2, 3, some "A#f"⟩]

/-- A vector that tells one text from all others. -/
def headerVector (text : String) : Embedding := [.bool (text = "class A")]

/-- An embedder that tells one text from all others. -/
def headerEmbedder : Embedder Unit :=
  .ofTexts "header" fun texts => pure (texts.map headerVector)

/-- Two chunks, one in each batch and both in one. -/
theorem chunks_conserved_twoChunks :
    MapsBy headerEmbedder headerVector ∧
    ∃ single both, Completed headerEmbedder 0 {} ⟨(), []⟩ twoChunks single ∧
      Completed headerEmbedder 2 {} ⟨(), []⟩ twoChunks both ∧
      List.Forall₂ (fun p r => ChunkRecord.Carries r p (headerVector p.chunk.text))
        [⟨⟨"A.java", "a"⟩, 0, ⟨"class A", .typeHeader, 1, 9, some "A"⟩⟩,
          ⟨⟨"A.java", "a"⟩, 1, ⟨"void f()", .method, 2, 3, some "A#f"⟩⟩]
        (single.flatMap (·.records)) ∧
      both.flatMap (·.records) = single.flatMap (·.records) := by
  have hmaps : MapsBy headerEmbedder headerVector := by
    intro texts w w' vectors hrun
    exact (Except.ok.inj (congrArg Prod.fst hrun)).symm
  have hok : ∀ n ∈ [0, 2], ∀ r ∈ (run headerEmbedder (twoChunks ++ [.close])
      (opened n {} ⟨(), []⟩)).1, r = .ok () := by
    have hsingle : (run headerEmbedder (twoChunks ++ [.close])
        (opened 0 {} ⟨(), []⟩)).1 = List.replicate 4 (.ok ()) := rfl
    have hboth : (run headerEmbedder (twoChunks ++ [.close])
        (opened 2 {} ⟨(), []⟩)).1 = List.replicate 4 (.ok ()) := rfl
    intro n hn r hr
    obtain rfl | rfl : n = 0 ∨ n = 2 := by simpa using hn
    · exact List.eq_of_mem_replicate (hsingle ▸ hr)
    · exact List.eq_of_mem_replicate (hboth ▸ hr)
  have hclosed := (chunks_conserved headerEmbedder {} ⟨(), []⟩ (twoChunks ++ [.close])).1
  obtain ⟨single, hsingle⟩ := hclosed 0
  obtain ⟨both, hboth⟩ := hclosed 2
  have hsingle : Completed headerEmbedder 0 {} ⟨(), []⟩ twoChunks single :=
    ⟨hsingle, hok 0 (by decide)⟩
  have hboth : Completed headerEmbedder 2 {} ⟨(), []⟩ twoChunks both :=
    ⟨hboth, hok 2 (by decide)⟩
  obtain ⟨hcarried, hsame⟩ := (chunks_conserved headerEmbedder {} ⟨(), []⟩ twoChunks).2
    headerVector hmaps 0 single hsingle
  exact ⟨hmaps, single, both, hsingle, hboth, hcarried, hsame 2 both hboth⟩

end SourceShelf.IndexSink
