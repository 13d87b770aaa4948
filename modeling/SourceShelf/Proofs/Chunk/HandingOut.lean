import SourceShelf.Proofs.Action
import SourceShelf.Proofs.Chunk.Stream
import SourceShelf.Source.Emission

/-!
# What a sink gets

A sink may refuse any chunk, and its state tells nothing of what it was handed.  So the
calls are counted here: `Sink.noting` keeps a list of the chunks beside the state of any
sink, and `Sink.Emits` says how a run over some chunks may end.  Either all are taken, or
some are taken and the next one is refused; then nothing more is handed out.

There are three groups.

* Arenas.  Where parents stand before their types every type has a name, so the stream of
  chunks goes on to its end (`chunks_of_isArena`).
* Runs.  `runOn_handOver_takes` is the run over the chunks that are taken, and
  `Sink.takes_or_refuses` finds the first that is refused.
* The result.  `runOn_noting_iff` says that a run ends as `Emits` has it, and
  `emission_in_order` is the statement about units, texts and files.
-/

namespace SourceShelf

open SourceShelf.Action

/-! ## Arenas -/

namespace Java

/-- Parents stand before their types. -/
def CompilationUnit.IsArena (u : CompilationUnit) : Prop :=
  ∀ (i : Nat) (t : TypeDeclaration) (p : Int), u.types[i]? = some t → t.parent = some p →
    0 ≤ p ∧ p < i

variable {u : CompilationUnit}

/-- The parents of a type are followed to an end, one place further forward each time. -/
theorem CompilationUnit.IsArena.exists_names (hu : u.IsArena) {i : Nat} {t : TypeDeclaration}
    (ht : u.types[i]? = some t) {fuel : Nat} (hfuel : i < fuel) :
    ∃ names, u.names fuel t = .ok names := by
  induction fuel generalizing i t with
  | zero => omega
  | succ fuel ih =>
    unfold CompilationUnit.names CompilationUnit.parentOf
    cases hp : t.parent with
    | none => exact ⟨[t.name], rfl⟩
    | some p =>
      obtain ⟨hpos, hlt⟩ := hu i t p ht hp
      have hi : i < u.types.length := (List.getElem?_eq_some_iff.mp ht).1
      obtain ⟨k, rfl⟩ : ∃ k, p = Int.ofNat k := Int.eq_ofNat_of_zero_le hpos
      have hki : k < i := Int.ofNat_lt.mp hlt
      have hk : u.types[k]? = some u.types[k] := List.getElem?_eq_getElem (by omega)
      obtain ⟨names, hnames⟩ := ih hk (by omega)
      refine ⟨names ++ [t.name], ?_⟩
      dsimp only
      rw [CompilationUnit.type?_ofNat hk]
      dsimp only [Except.map]
      rw [hnames]

theorem CompilationUnit.IsArena.exists_typeChunks (hu : u.IsArena) (o : ChunkOptions) :
    ∀ t ∈ u.types, ∃ cs, typeChunks o u t = .ok cs := by
  intro t ht
  obtain ⟨i, hi⟩ := List.getElem?_of_mem ht
  have hlt : i < u.types.length := (List.getElem?_eq_some_iff.mp hi).1
  have hfuel : i < u.types.length + 1 := by omega
  obtain ⟨names, hnames⟩ := hu.exists_names hi hfuel
  unfold typeChunks CompilationUnit.qualifiedName
  rw [hnames]
  exact ⟨_, rfl⟩

/-- The unit of every text that can be read is an arena. -/
theorem isArena_of_parse {text : String} {path : Option String} {locals : Bool}
    (h : parse text path locals = .ok u) : u.IsArena := by
  obtain ⟨hsound, rfl⟩ := parse_ok h
  intro i t p ht hp
  have hlt : i < (typeSpots locals (SyntaxTree.ofText text).parts).length := by
    rw [← Outline.length_types]
    exact (List.getElem?_eq_some_iff.mp ht).1
  obtain ⟨k, -, rfl, hk, -⟩ :=
    (Outline.wellFormed_of_sound hsound).parent i t _ p ht (List.getElem?_eq_getElem hlt) hp
  exact ⟨Int.natCast_nonneg k, Int.ofNat_lt.mpr hk⟩

/-- The chunks of an arena go on to the last type. -/
theorem chunks_of_isArena (hu : u.IsArena) (o : ChunkOptions) :
    u.chunks o = { chunks := (u.chunks o).chunks } := by
  unfold CompilationUnit.chunks
  rw [ofTypes_eq (hu.exists_typeChunks o)]

end Java

/-! ## Runs -/

namespace Sink

variable {σ : Type}

/-- The sink with a list of the chunks that it was handed, a refused one included. -/
def noting (sink : Sink σ) : Sink (σ × List Chunk) :=
  ⟨fun c => do
    modify fun s => (s.1, s.2 ++ [c])
    (sink.consume c).within Prod.fst fun t s => (t, s.2)⟩

/-- A sink takes some chunks, one call after another. -/
inductive Takes (sink : Sink σ) : σ → List Chunk → σ → Prop where
  | nil (s : σ) : Takes sink s [] s
  | cons {s t t' : σ} {c : Chunk} {cs : List Chunk} :
      (sink.consume c).runOn s = (.ok (), t) → Takes sink t cs t' → Takes sink s (c :: cs) t'

/-- How a run over some chunks ends, the state that it leaves, and the chunks that were
handed out until then. -/
inductive Emits (sink : Sink σ) (path : Option String) (chunks : List Chunk) (s : σ) :
    Except EmissionError Nat → σ → List Chunk → Prop where
  /-- All chunks are taken and counted. -/
  | all {t : σ} (taken : sink.Takes s chunks t) :
      Emits sink path chunks s (.ok chunks.length) t chunks
  /-- A chunk is refused with a failure of the sink's own, which stays as it is. -/
  | failed {k : Nat} {c : Chunk} {t t' : σ} {message : String} {p symbol : Option String}
      (chunk : chunks[k]? = some c) (taken : sink.Takes s (chunks.take k) t)
      (refusal : (sink.consume c).runOn t = (.error (.failure message p symbol), t')) :
      Emits sink path chunks s (.error (.failure (.emit message p symbol))) t'
        (chunks.take (k + 1))
  /-- A chunk is refused for another reason, and the failure names path and symbol. -/
  | refused {k : Nat} {c : Chunk} {t t' : σ} {message : String}
      (chunk : chunks[k]? = some c) (taken : sink.Takes s (chunks.take k) t)
      (refusal : (sink.consume c).runOn t = (.error (.other message), t')) :
      Emits sink path chunks s
        (.error (.failure (.emit ("Sink failed on chunk " ++ symbolText c.symbol ++ ": " ++ message)
          path c.symbol))) t' (chunks.take (k + 1))

variable {sink : Sink σ} {path : Option String} {s t t' : σ} {done chunks : List Chunk}

theorem runOn_consume_noting (sink : Sink σ) (c : Chunk) (s : σ) (done : List Chunk) :
    (sink.noting.consume c).runOn (s, done) =
      (((sink.consume c).runOn s).1, (((sink.consume c).runOn s).2, done ++ [c])) := rfl

/-- Beside its list a sink does what it does without one. -/
theorem runOn_handOver_noting (sink : Sink σ) (path : Option String) (chunks : List Chunk) (s : σ)
    (done : List Chunk) :
    (sink.handOver path chunks).runOn s =
      (((sink.noting.handOver path chunks).runOn (s, done)).1,
        ((sink.noting.handOver path chunks).runOn (s, done)).2.1) := by
  induction chunks generalizing s done with
  | nil => rfl
  | cons c chunks ih =>
    unfold handOver
    rw [runOn_bind, runOn_bind, runOn_withError, runOn_withError, runOn_consume_noting]
    rcases (sink.consume c).runOn s with ⟨r | ⟨⟩, t⟩
    · rfl
    · exact ih t (done ++ [c])

theorem runOn_handOver_cons {c : Chunk} (h : (sink.consume c).runOn s = (.ok (), t))
    (chunks : List Chunk) :
    (sink.noting.handOver path (c :: chunks)).runOn (s, done) =
      (sink.noting.handOver path chunks).runOn (t, done ++ [c]) := by
  show (_ >>= fun _ => sink.noting.handOver path chunks).runOn (s, done) = _
  rw [runOn_bind, runOn_withError, runOn_consume_noting, h]
  rfl

/-- The chunk that is refused is the last one that is handed out. -/
theorem runOn_handOver_refused {c : Chunk} {r : Refusal}
    (h : (sink.consume c).runOn t = (.error r, t')) (chunks : List Chunk) :
    (sink.noting.handOver path (c :: chunks)).runOn (t, done) =
      (.error (.failure (r.toFailure path c)), (t', done ++ [c])) := by
  show (_ >>= fun _ => sink.noting.handOver path chunks).runOn (t, done) = _
  rw [runOn_bind, runOn_withError, runOn_consume_noting, h]
  rfl

/-- Chunks that are taken have been handed out, each once, before the others. -/
theorem runOn_handOver_takes (h : sink.Takes s chunks t) (others : List Chunk) :
    (sink.noting.handOver path (chunks ++ others)).runOn (s, done) =
      (sink.noting.handOver path others).runOn (t, done ++ chunks) := by
  induction h generalizing done with
  | nil s => rw [List.nil_append, List.append_nil]
  | cons hc _ ih =>
    rw [List.cons_append, runOn_handOver_cons hc, ih, List.append_assoc, List.singleton_append]

/-- A sink takes all chunks, or there is a first one that it refuses. -/
theorem takes_or_refuses (sink : Sink σ) (chunks : List Chunk) (s : σ) :
    (∃ t, sink.Takes s chunks t) ∨
      ∃ k c t r t', chunks[k]? = some c ∧ sink.Takes s (chunks.take k) t ∧
        (sink.consume c).runOn t = (.error r, t') := by
  induction chunks generalizing s with
  | nil => exact .inl ⟨s, .nil s⟩
  | cons c chunks ih =>
    rcases hc : (sink.consume c).runOn s with ⟨r | ⟨⟩, t⟩
    · exact .inr ⟨0, c, s, r, t, rfl, .nil s, hc⟩
    · rcases ih t with ⟨t', htakes⟩ | ⟨k, c', t', r, t'', hk, htakes, hrefused⟩
      · exact .inl ⟨t', .cons hc htakes⟩
      · exact .inr ⟨k + 1, c', t', r, t'', hk, .cons hc htakes, hrefused⟩

theorem exists_emits (sink : Sink σ) (path : Option String) (chunks : List Chunk) (s : σ) :
    ∃ r t handed, sink.Emits path chunks s r t handed := by
  rcases sink.takes_or_refuses chunks s with ⟨t, htakes⟩ | ⟨k, c, t, r, t', hk, htakes, hrefused⟩
  · exact ⟨_, _, _, .all htakes⟩
  · cases r with
    | failure message p symbol => exact ⟨_, _, _, .failed hk htakes hrefused⟩
    | other message => exact ⟨_, _, _, .refused hk htakes hrefused⟩

/-- The run up to the chunk that is refused. -/
theorem runOn_handOver_stopped {k : Nat} {c : Chunk} {r : Refusal} (hk : chunks[k]? = some c)
    (htakes : sink.Takes s (chunks.take k) t)
    (hrefused : (sink.consume c).runOn t = (.error r, t')) :
    (sink.noting.handOver path chunks).runOn (s, []) =
      (.error (.failure (r.toFailure path c)), (t', chunks.take (k + 1))) := by
  obtain ⟨hlt, hget⟩ := List.getElem?_eq_some_iff.mp hk
  have hdrop : chunks.drop k = c :: chunks.drop (k + 1) := by
    rw [List.drop_eq_getElem_cons hlt, hget]
  have htake : chunks.take (k + 1) = chunks.take k ++ [c] := by
    rw [List.take_succ_eq_append_getElem hlt, hget]
  have hrun : (sink.noting.handOver path (chunks.take k ++ chunks.drop k)).runOn (s, []) = _ :=
    runOn_handOver_takes htakes (chunks.drop k)
  rw [List.take_append_drop, hdrop, runOn_handOver_refused hrefused, List.nil_append] at hrun
  rw [hrun, htake]

theorem runOn_of_emits {r : Except EmissionError Nat} {handed : List Chunk}
    (h : sink.Emits path chunks s r t handed) :
    (sink.noting.emit path { chunks := chunks }).runOn (s, []) = (r, (t, handed)) := by
  unfold emit
  rw [runOn_bind]
  cases h with
  | all htakes =>
    have hrun : (sink.noting.handOver path (chunks ++ [])).runOn (s, []) = _ :=
      runOn_handOver_takes htakes []
    rw [List.append_nil, List.nil_append] at hrun
    rw [hrun]
    rfl
  | failed hk htakes hrefused =>
    rw [runOn_handOver_stopped hk htakes hrefused]
    rfl
  | refused hk htakes hrefused =>
    rw [runOn_handOver_stopped hk htakes hrefused]
    rfl

/-- A run over chunks ends in just one way. -/
theorem runOn_noting_iff {r : Except EmissionError Nat} {handed : List Chunk} :
    (sink.noting.emit path { chunks := chunks }).runOn (s, []) = (r, (t, handed)) ↔
      sink.Emits path chunks s r t handed := by
  refine ⟨fun hrun => ?_, runOn_of_emits⟩
  obtain ⟨r', t', handed', hemits⟩ := sink.exists_emits path chunks s
  have heq := (runOn_of_emits hemits).symm.trans hrun
  cases heq
  exact hemits

theorem runOn_emit_noting (sink : Sink σ) (path : Option String) (stream : Java.ChunkStream)
    (s : σ) (done : List Chunk) :
    (sink.emit path stream).runOn s =
      (((sink.noting.emit path stream).runOn (s, done)).1,
        ((sink.noting.emit path stream).runOn (s, done)).2.1) := by
  unfold emit
  rw [runOn_bind, runOn_bind, runOn_handOver_noting sink path stream.chunks s done]
  rcases (sink.noting.handOver path stream.chunks).runOn (s, done) with ⟨e | ⟨⟩, t, handed⟩
  · rfl
  · cases stream.stopped <;> rfl

/-! ## The result -/

/-- A run over a source: nothing is handed out if it cannot be read, else the chunks of its
unit, which is an arena. -/
def HandsOut (sink : Sink σ) (o : ChunkOptions) (s : σ)
    (source : Except Failure Java.CompilationUnit)
    (run : Except EmissionError Nat × σ × List Chunk) : Prop :=
  match source with
  | .error f => run = (.error (.failure f), (s, []))
  | .ok u => u.IsArena ∧ run = (sink.noting.emit u.path (u.chunks o)).runOn (s, [])

theorem handsOut_emitText (sink : Sink σ) (o : ChunkOptions) (s : σ) (text : String)
    (path : Option String) :
    sink.HandsOut o s (Java.parse text path o.includeLocalTypes)
      ((sink.noting.emitText o text path).runOn (s, [])) := by
  unfold emitText
  rw [runOn_bind, runOn_ofExcept]
  cases hparse : Java.parse text path o.includeLocalTypes with
  | error f => rfl
  | ok u => exact ⟨Java.isArena_of_parse hparse, rfl⟩

theorem handsOut_emitFile {α : Type} (sink : Sink σ) (o : ChunkOptions) (s : σ)
    (bytesOf : α → ByteArray) (disk : Files.Disk α) (p : Files.Path) :
    sink.HandsOut o s
      ((SourceText.load bytesOf disk p).bind fun source =>
        Java.parse source.text (some p.text) o.includeLocalTypes)
      ((sink.noting.emitFile o bytesOf disk p).runOn (s, [])) := by
  unfold emitFile
  rw [runOn_bind, runOn_ofExcept]
  cases SourceText.load bytesOf disk p with
  | error f => rfl
  | ok source => exact sink.handsOut_emitText o s source.text (some p.text)

end Sink

/-- Whatever a sink does with chunks, it is handed the first ones of a unit, in their order
and each once, up to the one that it refuses.  Those before stay with it, and the failure
tells the chunk that was refused, unless it is one of the sink's own.  A sink that refuses
none gets all.  Of a text or a file that is no Java it gets nothing. -/
theorem emission_in_order {σ : Type} (sink : Sink σ) (o : ChunkOptions) (s : σ) :
    (∀ u : Java.CompilationUnit, u.IsArena →
      (u.chunks o).stopped = none ∧
      (∀ r t handed,
        (sink.noting.emit u.path (u.chunks o)).runOn (s, []) = (r, (t, handed)) ↔
          sink.Emits u.path (u.chunks o).chunks s r t handed) ∧
      ∀ r t, (sink.emit u.path (u.chunks o)).runOn s = (r, t) ↔
        ∃ handed, sink.Emits u.path (u.chunks o).chunks s r t handed) ∧
    (∀ text path, sink.HandsOut o s (Java.parse text path o.includeLocalTypes)
      ((sink.noting.emitText o text path).runOn (s, []))) ∧
    ∀ (α : Type) (bytesOf : α → ByteArray) (disk : Files.Disk α) (p : Files.Path),
      sink.HandsOut o s
        ((SourceText.load bytesOf disk p).bind fun source =>
          Java.parse source.text (some p.text) o.includeLocalTypes)
        ((sink.noting.emitFile o bytesOf disk p).runOn (s, [])) := by
  refine ⟨fun u hu => ?_, sink.handsOut_emitText o s,
    fun α bytesOf disk p => sink.handsOut_emitFile o s bytesOf disk p⟩
  have hstream := Java.chunks_of_isArena hu o
  have hnoting : ∀ r t handed,
      (sink.noting.emit u.path (u.chunks o)).runOn (s, []) = (r, (t, handed)) ↔
        sink.Emits u.path (u.chunks o).chunks s r t handed := by
    intro r t handed
    rw [← Sink.runOn_noting_iff, ← hstream]
  refine ⟨congrArg Java.ChunkStream.stopped hstream, hnoting, fun r t => ?_⟩
  rw [sink.runOn_emit_noting u.path (u.chunks o) s []]
  constructor
  · intro hrun
    cases hrun
    exact ⟨_, (hnoting _ _ _).mp rfl⟩
  · rintro ⟨handed, hemits⟩
    rw [(hnoting r t handed).mpr hemits]

/-- A type and another one in its body. -/
def nestedUnit : Java.CompilationUnit where
  types := [{ index := 0, parent := none, name := "Outer", kind := .classType, nested := [1] },
    { index := 1, parent := some 0, name := "Inner", kind := .classType }]
  path := some "Outer.java"

/-- A sink with room for one chunk. -/
def roomForOne : Sink (List Chunk) :=
  ⟨fun c => do
    if (← get) ≠ [] then throw (.other "disk full")
    modify (· ++ [c])⟩

/-- The second chunk is refused. -/
theorem emission_in_order_roomForOne :
    nestedUnit.IsArena ∧
      roomForOne.Emits nestedUnit.path (nestedUnit.chunks).chunks []
        (.error (.failure (.emit "Sink failed on chunk Outer.Inner: disk full"
          (some "Outer.java") (some "Outer.Inner"))))
        ((nestedUnit.chunks).chunks.take 1) ((nestedUnit.chunks).chunks.take 2) := by
  have harena : nestedUnit.IsArena := by
    intro i t p ht hp
    rcases i with _ | _ | i
    · cases ht
      cases hp
    · cases ht
      cases hp
      exact ⟨by decide, by decide⟩
    · cases ht
  exact ⟨harena, (((emission_in_order roomForOne {} []).1 nestedUnit harena).2.1 _ _ _).mp rfl⟩

end SourceShelf
