import SourceShelf.Proofs.Index.History

/-!
# Runs with other options

The options of a run may change from run to run.  They say what is written into a chunk, but
not which chunks there are: runs that agree on the types inside of bodies read the same
documents from the same files, and cut each into chunks with the same identities.  So what is
relied on in a history does not depend on which of such options it is stated for.

* `Document.records_withoutText`: the chunks of a document, apart from their texts.
* `CollisionFree.alike`, `KnownRows.alike`: what was seen, with other options.
* `KnownRows.step`: what one run makes of an index whose rows are known.
* `knownRows_replay`: behind a history with such options all rows are known.
-/

namespace SourceShelf

/-- Options that lead to the same chunks, apart from their texts. -/
def ChunkOptions.Alike (o o' : ChunkOptions) : Prop :=
  o.includeLocalTypes = o'.includeLocalTypes

/-- A chunk apart from its text. -/
def Chunk.withoutText (c : Chunk) : Chunk := { c with text := "" }

/-- A chunk that waits, apart from its text. -/
def PendingChunk.withoutText (p : PendingChunk) : PendingChunk :=
  { p with chunk := p.chunk.withoutText }

@[simp] theorem PendingChunk.identity_withoutText (p : PendingChunk) :
    p.withoutText.identity = p.identity := rfl

@[simp] theorem PendingChunk.chunkId_withoutText (p : PendingChunk) :
    p.withoutText.chunkId = p.chunkId := rfl

/-! ## The chunks of a document -/

theorem Java.typeChunks_withoutText (o o' : ChunkOptions) (u : CompilationUnit)
    (t : TypeDeclaration) :
    (typeChunks o u t).map (List.map Chunk.withoutText) =
      (typeChunks o' u t).map (List.map Chunk.withoutText) := by
  unfold typeChunks
  cases u.qualifiedName t with
  | error e => rfl
  | ok name => simp [Except.map, memberChunk, Chunk.withoutText, Function.comp_def]

theorem Java.ChunkStream.ofTypes_withoutText (o o' : ChunkOptions) (u : CompilationUnit)
    (ts : List TypeDeclaration) :
    (ofTypes o u ts).chunks.map Chunk.withoutText =
      (ofTypes o' u ts).chunks.map Chunk.withoutText := by
  induction ts with
  | nil => rfl
  | cons t ts ih =>
    have htype := typeChunks_withoutText o o' u t
    unfold ofTypes
    rcases h : typeChunks o u t with e | cs
    · rcases h' : typeChunks o' u t with e' | cs'
      · rfl
      · rw [h, h'] at htype
        cases htype
    · rcases h' : typeChunks o' u t with e' | cs' <;> rw [h, h'] at htype
      · cases htype
      · dsimp only
        rw [List.map_append, List.map_append, ih]
        exact congrArg (· ++ _) (Except.ok.inj htype)

theorem chunksAt_withoutText (d : DocumentKey) (n : Nat) (cs : List Chunk) :
    (chunksAt d n cs).map PendingChunk.withoutText = chunksAt d n (cs.map Chunk.withoutText) := by
  induction cs generalizing n with
  | nil => rfl
  | cons c cs ih => rw [List.map_cons, chunksAt_cons, chunksAt_cons, List.map_cons, ih]; rfl

/-- The options make a difference to nothing but the texts of chunks. -/
theorem Document.records_withoutText (o o' : ChunkOptions) (d : Document) :
    (d.records o).map PendingChunk.withoutText = (d.records o').map PendingChunk.withoutText := by
  rw [records, records, chunksAt_withoutText, chunksAt_withoutText]
  exact congrArg (chunksAt d.key 0) (Java.ChunkStream.ofTypes_withoutText o o' d.unit d.unit.types)

/-- How many chunks a document has, whatever the options. -/
theorem Document.length_chunks (o o' : ChunkOptions) (d : Document) :
    (d.unit.chunks o).chunks.length = (d.unit.chunks o').chunks.length := by
  have hlength := congrArg List.length
    (Java.ChunkStream.ofTypes_withoutText o o' d.unit d.unit.types)
  rwa [List.length_map, List.length_map] at hlength

/-- A chunk has the identity of one that is cut with other options. -/
theorem Document.exists_record {o : ChunkOptions} (o' : ChunkOptions) {d : Document}
    {p : PendingChunk} (h : p ∈ d.records o) :
    ∃ q ∈ d.records o', q.identity = p.identity ∧ q.chunkId = p.chunkId := by
  have hmem : p.withoutText ∈ (d.records o').map PendingChunk.withoutText :=
    d.records_withoutText o o' ▸ List.mem_map_of_mem h
  obtain ⟨q, hq, hsame⟩ := List.mem_map.mp hmem
  refine ⟨q, hq, ?_, ?_⟩
  · rw [← q.identity_withoutText, hsame, p.identity_withoutText]
  · rw [← q.chunkId_withoutText, hsame, p.chunkId_withoutText]

/-! ## What was seen -/

section Alike

variable {σ : Type} {o o' : ChunkOptions} {cs : List Candidate} {x : Index} {d : Document}
variable {c : IndexCall σ}

theorem ChunkOptions.Alike.symm (h : o.Alike o') : o'.Alike o := Eq.symm h

theorem Candidate.document?_alike (h : o.Alike o') (c : Candidate) :
    c.document? o = c.document? o' := by
  unfold document?
  rw [h]

theorem Known.alike (hd : Known o cs d) (h : o.Alike o') : Known o' cs d := by
  obtain ⟨c, hc, hdoc⟩ := hd
  exact ⟨c, hc, c.document?_alike h ▸ hdoc⟩

theorem CollisionFree.alike (hfree : CollisionFree o cs) (h : o.Alike o') :
    CollisionFree o' cs where
  paths := hfree.paths
  texts := hfree.texts
  chunks d d' hd hd' p hp p' hp' hid := by
    obtain ⟨q, hq, hidentity, hchunkId⟩ := Document.exists_record o hp
    obtain ⟨q', hq', hidentity', hchunkId'⟩ := Document.exists_record o hp'
    rw [← hidentity, ← hidentity']
    exact hfree.chunks d d' (hd.alike h.symm) (hd'.alike h.symm) q hq q' hq'
      (by rw [hchunkId, hchunkId', hid])

theorem KnownRows.alike (hrows : KnownRows o cs x) (h : o.Alike o') : KnownRows o' cs x := by
  intro r hr
  obtain ⟨d, hd, p, hp, hid, hrow⟩ := hrows r hr
  obtain ⟨q, hq, -, hchunkId⟩ := Document.exists_record o' hp
  exact ⟨d, hd.alike h, q, hq, hid.trans hchunkId.symm, hrow⟩

/-! ## One run -/

/-- What is relied on in a run where vectors do not matter: it looks at no file twice (see
`filesOf_ownPaths`), and its options lead to the same chunks as `o` (all those of
`IndexOptions.chunkOptions` do). -/
structure IndexCall.Regular (o : ChunkOptions) (c : IndexCall σ) : Prop where
  options : o.Alike c.input.options
  distinct : (c.input.candidates.map (·.path)).Nodup

theorem IndexOptions.chunkOptions_alike (o : IndexOptions) :
    ChunkOptions.Alike {} o.chunkOptions := rfl

theorem IndexCall.Regular.fits (h : c.Regular o) : c.Fits c.input.options fun _ _ _ => True :=
  ⟨rfl, h.distinct, c.embedder.answers_any⟩

/-- The rows behind a run are known, wherever it ends. -/
theorem KnownRows.after_alike (hrows : KnownRows o cs x) (hc : c.Regular o)
    (hfree : CollisionFree o cs) (hcs : c.input.candidates ⊆ cs) : KnownRows o cs (c.after x) :=
  ((hrows.alike hc.options).after hc.fits (hfree.alike hc.options) hcs).alike hc.options.symm

/-- What a run that saves makes of an index whose rows are known, and that they are known
behind it. -/
theorem KnownRows.step (hrows : KnownRows o cs x) (hc : c.Regular o) (hfree : CollisionFree o cs)
    (hcs : c.input.candidates ⊆ cs) (hsaves : c.Saves x) :
    x.Updated (fun _ _ => True) c.embedder.modelId c.input (c.after x) ∧
      KnownRows o cs (c.after x) := by
  obtain ⟨-, hupdated⟩ := ((hrows.alike hc.options).after_cases hc.fits (hfree.alike hc.options)
    hcs).resolve_left fun h => h.1 hsaves
  exact ⟨hupdated, hrows.after_alike hc hfree hcs⟩

/-- Every row that a history leaves is known, wherever its runs end. -/
theorem knownRows_replay {es : List (Event σ)} (hruns : ∀ c, .run c ∈ es → c.Regular o)
    (hfree : CollisionFree o (seen es)) : KnownRows o (seen es) (replay es) := by
  induction es using List.reverseRecOn with
  | nil => exact knownRows_empty o _
  | append_singleton es e ih =>
    rw [seen_append] at hfree
    have hbefore := ih (fun c hc => hruns c (List.mem_append_left _ hc))
      (hfree.mono (List.subset_append_left _ _))
    rw [replay_append_singleton]
    cases e with
    | reset => exact knownRows_empty o _
    | run c =>
      rw [seen_singleton_run] at hfree
      rw [seen_append, seen_singleton_run]
      exact (hbefore.mono (List.subset_append_left _ _)).after_alike
        (hruns c (List.mem_append_right _ (List.mem_singleton_self _))) hfree
        (List.subset_append_right _ _)

end Alike

end SourceShelf
