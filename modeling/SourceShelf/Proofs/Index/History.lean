import Mathlib.Data.List.Induction
import SourceShelf.Proofs.Index.Files

/-!
# Histories of an index

An index is emptied and run over again and again (`replay`).  The runs look at
candidates (`seen`), come to an end or not, and leave rows of documents that
were seen.

* `CollisionFree`: names and digests tell apart what was seen.
* `Sound`: what is relied on in a history.
* `KnownRows.after_cases`: what one run makes of an index whose rows are known.
* `Sound.knownRows`: every row is that of a chunk of a document that was seen.
-/

namespace SourceShelf

/-- A run as it is asked for, with what will go wrong in the store. -/
structure IndexCall (σ : Type) where
  embedder : Embedder σ
  input : RunInput
  faults : List (Option String) := []
  world : Logged σ

/-- What happens to an index. -/
inductive Event (σ : Type) where
  | run (c : IndexCall σ)
  | reset

namespace IndexCall

variable {σ : Type}

/-- How a run over an index ends, and its last state. -/
def runOver (c : IndexCall σ) (x : Index) : Except RunError RunSummary × RunState σ :=
  x.run c.embedder c.input c.faults c.world

/-- The index behind a run. -/
def after (c : IndexCall σ) (x : Index) : Index := x.keep (c.runOver x).2

/-- A run that comes to an end. -/
def Completes (c : IndexCall σ) (x : Index) : Prop := ∃ r, (c.runOver x).1 = .ok r

/-- A run that saves its manifest. -/
def Saves (c : IndexCall σ) (x : Index) : Prop := (c.runOver x).2.saved ≠ none

theorem Completes.saves {c : IndexCall σ} {x : Index} (h : c.Completes x) : c.Saves x := by
  obtain ⟨r, hr⟩ := h
  exact Index.saved_of_run_ok hr

/-- The same run, while other things go wrong. -/
def tried (c : IndexCall σ) (faults : List (Option String)) (world : Logged σ) : IndexCall σ :=
  { c with faults, world }

/-- What is relied on in a run: its options, that it looks at no file twice (see
`filesOf_ownPaths`), and that its embedder gives the vectors that `R` allows under
its name. -/
structure Fits (o : ChunkOptions) (R : String → String → Embedding → Prop) (c : IndexCall σ) :
    Prop where
  options : c.input.options = o
  distinct : (c.input.candidates.map (·.path)).Nodup
  answers : c.embedder.Answers (R c.embedder.modelId)

end IndexCall

namespace Event

variable {σ : Type}

/-- The index behind an event. -/
def after : Event σ → Index → Index
  | run c, x => c.after x
  | reset, _ => {}

/-- The files that an event looks at. -/
def candidates : Event σ → List Candidate
  | run c => c.input.candidates
  | reset => []

end Event

/-- The index behind a history that starts from an empty one. -/
def replay {σ : Type} (es : List (Event σ)) : Index := es.foldl (fun x e => e.after x) {}

/-- The files that a history looks at. -/
def seen {σ : Type} (es : List (Event σ)) : List Candidate := es.flatMap Event.candidates

/-- A document that was seen. -/
def Known (o : ChunkOptions) (cs : List Candidate) (d : Document) : Prop :=
  ∃ c ∈ cs, c.document? o = some d

/-- Among the files that were seen, paths have no NUL characters (see
`filesOf_ownPaths`), texts of one digest are the same, and so are descriptions of
chunks of one digest. -/
structure CollisionFree (o : ChunkOptions) (cs : List Candidate) : Prop where
  paths : ∀ c ∈ cs, NulFree c.path
  texts : ∀ c ∈ cs, ∀ c' ∈ cs, ∀ t t', c.loaded = .ok t → c'.loaded = .ok t' →
    textDigest t.text = textDigest t'.text → t.text = t'.text
  chunks : ∀ d d', Known o cs d → Known o cs d' → ∀ p ∈ d.records o, ∀ p' ∈ d'.records o,
    p.chunkId = p'.chunkId → p.identity = p'.identity

/-- What is relied on in a history. -/
structure Sound {σ : Type} (o : ChunkOptions) (R : String → String → Embedding → Prop)
    (es : List (Event σ)) : Prop where
  fits : ∀ c, .run c ∈ es → c.Fits o R
  free : CollisionFree o (seen es)

/-- Every row is that of a chunk of a document that was seen. -/
def KnownRows (o : ChunkOptions) (cs : List Candidate) (x : Index) : Prop :=
  ∀ r ∈ x.store.rows, ∃ d, Known o cs d ∧ ∃ p ∈ d.records o, r.chunkId = p.chunkId ∧
    r.filePath = d.key.path ∧ r.fileSha256 = d.key.digest

section Replay

variable {σ : Type} {o : ChunkOptions} {R : String → String → Embedding → Prop}
variable {cs cs' : List Candidate} {x : Index} {c : IndexCall σ} {d d' : Document}

@[simp] theorem replay_append_singleton (es : List (Event σ)) (e : Event σ) :
    replay (es ++ [e]) = e.after (replay es) := by
  rw [replay, List.foldl_append]
  rfl

@[simp] theorem seen_append (es es' : List (Event σ)) : seen (es ++ es') = seen es ++ seen es' :=
  List.flatMap_append

@[simp] theorem seen_singleton_run (c : IndexCall σ) : seen [.run c] = c.input.candidates :=
  List.append_nil _

/-! ## What was seen -/

theorem Known.mono (h : Known o cs d) (hcs : cs ⊆ cs') : Known o cs' d := by
  obtain ⟨c, hc, hd⟩ := h
  exact ⟨c, hcs hc, hd⟩

theorem known_of_stale {id : String} {input : RunInput} (hoptions : input.options = o)
    (hcs : input.candidates ⊆ cs) (hd : d ∈ x.stale id input) : Known o cs d := by
  obtain ⟨k, hk, hdoc, -⟩ := Index.exists_candidate_of_mem_stale hd
  exact ⟨k, hcs hk, hoptions ▸ hdoc⟩

theorem CollisionFree.mono (h : CollisionFree o cs') (hcs : cs ⊆ cs') : CollisionFree o cs where
  paths c hc := h.paths c (hcs hc)
  texts c hc c' hc' := h.texts c (hcs hc) c' (hcs hc')
  chunks d d' hd hd' := h.chunks d d' (hd.mono hcs) (hd'.mono hcs)

theorem KnownRows.mono (h : KnownRows o cs x) (hcs : cs ⊆ cs') : KnownRows o cs' x := by
  intro r hr
  obtain ⟨d, hd, hrow⟩ := h r hr
  exact ⟨d, hd.mono hcs, hrow⟩

theorem CollisionFree.nulFree (h : CollisionFree o cs) (hd : Known o cs d) :
    NulFree d.key.path := by
  obtain ⟨c, hc, hdoc⟩ := hd
  rw [Candidate.document?_path hdoc]
  exact h.paths c hc

/-- Chunks with one identity stand at the same place of the same file. -/
theorem CollisionFree.chunkId_inj (h : CollisionFree o cs) (hd : Known o cs d)
    (hd' : Known o cs d') {p p' : PendingChunk} (hp : p ∈ d.records o) (hp' : p' ∈ d'.records o)
    (hid : p.chunkId = p'.chunkId) : d.key.path = d'.key.path ∧ p.ordinal = p'.ordinal := by
  have hdoc := Document.mem_records_document hp
  have hdoc' := Document.mem_records_document hp'
  have hinj := PendingChunk.identity_inj (hdoc ▸ h.nulFree hd) (hdoc' ▸ h.nulFree hd')
    (h.chunks d d' hd hd' p hp p' hp' hid)
  rwa [hdoc, hdoc'] at hinj

/-- A document is known by its path and its digest. -/
theorem CollisionFree.document_unique (h : CollisionFree o cs) (hd : Known o cs d)
    (hd' : Known o cs d') (hkey : d.key = d'.key) : d = d' := by
  obtain ⟨c, hc, hdoc⟩ := hd
  obtain ⟨c', hc', hdoc'⟩ := hd'
  have hpath : c.path = c'.path := by
    rw [← Candidate.document?_path hdoc, ← Candidate.document?_path hdoc', hkey]
  unfold Candidate.document? at hdoc hdoc'
  rcases hloaded : c.loaded with e | t <;> rw [hloaded] at hdoc
  · cases hdoc
  rcases hloaded' : c'.loaded with e | t' <;> rw [hloaded'] at hdoc'
  · cases hdoc'
  dsimp only at hdoc hdoc'
  have hdigest : textDigest t.text = textDigest t'.text := by
    have hkey' := congrArg DocumentKey.digest hkey
    split at hdoc <;> cases hdoc
    split at hdoc' <;> cases hdoc'
    exact hkey'
  rw [h.texts c hc c' hc' t t' hloaded hloaded' hdigest, hpath] at hdoc
  exact Option.some.inj (hdoc.symm.trans hdoc')

/-! ## One run -/

private theorem records_pairwise {docs : List Document}
    (hdistinct : (docs.map (·.key.path)).Nodup) :
    (docs.flatMap (·.records o)).Pairwise fun p q =>
      p.document.path ≠ q.document.path ∨ p.ordinal ≠ q.ordinal := by
  rw [List.pairwise_flatMap]
  refine ⟨fun d _ => ?_, ?_⟩
  · have hordinals := chunksAt_ordinals_nodup d.key 0 (d.unit.chunks o).chunks
    exact (List.pairwise_map.mp hordinals).imp fun h => .inr h
  · refine (List.pairwise_map.mp hdistinct).imp fun h p hp q hq => .inl ?_
    rwa [Document.mem_records_document hp, Document.mem_records_document hq]

/-- No chunk of a stale document is taken for a row of another file. -/
theorem KnownRows.apart (hrows : KnownRows o cs x) (hfits : c.Fits o R)
    (hfree : CollisionFree o cs) (hcs : c.input.candidates ⊆ cs) :
    Apart (x.prepared c.embedder.modelId c.input).store.rows
      ((x.stale c.embedder.modelId c.input).flatMap (·.records c.input.options)) where
  rows r hr p hp hpath hid := by
    obtain ⟨d, hd, hp⟩ := List.mem_flatMap.mp hp
    rw [hfits.options] at hp
    obtain ⟨d', hd', p', hp', hrow, hfile, -⟩ :=
      hrows r ((x.prepared_rows_sublist _ _).subset hr)
    have hinj := hfree.chunkId_inj hd' (known_of_stale hfits.options hcs hd) hp' hp
      (hrow.symm.trans hid)
    rw [Document.mem_records_document hp, hfile] at hpath
    exact hpath hinj.1
  distinct := by
    rw [hfits.options]
    refine List.pairwise_map.mpr ((records_pairwise (o := o)
      (Index.stale_paths_nodup hfits.distinct)).imp_of_mem fun {p q} hp hq hne hid => ?_)
    obtain ⟨d, hd, hp⟩ := List.mem_flatMap.mp hp
    obtain ⟨d', hd', hq⟩ := List.mem_flatMap.mp hq
    obtain ⟨hpath, hordinal⟩ := hfree.chunkId_inj (known_of_stale hfits.options hcs hd)
      (known_of_stale hfits.options hcs hd') hp hq hid
    rw [Document.mem_records_document hp, Document.mem_records_document hq] at hne
    exact hne.elim (fun h => h hpath) fun h => h hordinal

/-- What a run makes of an index whose rows are known. -/
theorem KnownRows.after_cases (hrows : KnownRows o cs x) (hfits : c.Fits o R)
    (hfree : CollisionFree o cs) (hcs : c.input.candidates ⊆ cs) :
    (¬ c.Saves x ∧ (c.after x).manifest = x.manifest ∧
      x.Spilled (R c.embedder.modelId) c.embedder.modelId c.input (c.after x)) ∨
    (c.Saves x ∧
      x.Updated (R c.embedder.modelId) c.embedder.modelId c.input (c.after x)) := by
  rcases Index.keep_run c.faults c.world hfits.answers hfits.distinct
    (hrows.apart hfits hfree hcs) with ⟨hsaved, hmanifest, hspilled⟩ | ⟨hsaved, hupdated⟩
  · exact .inl ⟨fun h => h hsaved, hmanifest, hspilled⟩
  · exact .inr ⟨hsaved, hupdated⟩

theorem knownRow_of_storedAs {S : String → Embedding → Prop} (hd : Known o cs d)
    {p : PendingChunk} {r : Row} (hp : p ∈ d.records o) (hr : StoredAs S p r) :
    ∃ d, Known o cs d ∧ ∃ p ∈ d.records o, r.chunkId = p.chunkId ∧
      r.filePath = d.key.path ∧ r.fileSha256 = d.key.digest := by
  have hdoc := Document.mem_records_document hp
  exact ⟨d, hd, p, hp, hr.chunkId, hdoc ▸ hr.filePath, hdoc ▸ hr.fileSha256⟩

/-- The rows behind a run are known, wherever it ends. -/
theorem KnownRows.after (hrows : KnownRows o cs x) (hfits : c.Fits o R)
    (hfree : CollisionFree o cs) (hcs : c.input.candidates ⊆ cs) :
    KnownRows o cs (c.after x) := by
  intro r hr
  rcases hrows.after_cases hfits hfree hcs with ⟨-, -, hspilled⟩ | ⟨-, hupdated⟩
  · rcases hspilled.mem_rows hr with hold | ⟨d, hd, p, hp, hpr⟩
    · exact hrows r hold
    · exact knownRow_of_storedAs (known_of_stale hfits.options hcs hd) (hfits.options ▸ hp) hpr
  · rcases hupdated.mem_rows hr with ⟨hold, -⟩ | ⟨d, hd, p, hp, hpr⟩
    · exact hrows r ((x.prepared_rows_sublist _ _).subset hold)
    · exact knownRow_of_storedAs (known_of_stale hfits.options hcs hd) (hfits.options ▸ hp) hpr

/-! ## Whole histories -/

theorem knownRows_empty (o : ChunkOptions) (cs : List Candidate) : KnownRows o cs {} :=
  fun _ hr => absurd hr List.not_mem_nil

namespace Sound

variable {es before : List (Event σ)}

theorem of_prefix (h : Sound o R es) (hbefore : before <+: es) : Sound o R before where
  fits c hc := h.fits c (hbefore.subset hc)
  free := by
    obtain ⟨rest, rfl⟩ := hbefore
    exact h.free.mono (by rw [seen_append]; exact List.subset_append_left _ _)

theorem init {e : Event σ} (h : Sound o R (es ++ [e])) : Sound o R es :=
  h.of_prefix (List.prefix_append _ _)

theorem last (h : Sound o R (es ++ [.run c])) : c.Fits o R :=
  h.fits c (List.mem_append_right _ (List.mem_singleton_self _))

theorem free_last (h : Sound o R (es ++ [.run c])) :
    CollisionFree o (seen es ++ c.input.candidates) := by
  have hfree := h.free
  rwa [seen_append, seen_singleton_run] at hfree

/-- Every row that a history leaves is known. -/
theorem knownRows (h : Sound o R es) : KnownRows o (seen es) (replay es) := by
  induction es using List.reverseRecOn with
  | nil => exact knownRows_empty o _
  | append_singleton es e ih =>
    rw [replay_append_singleton]
    cases e with
    | reset => exact knownRows_empty o _
    | run c =>
      rw [seen_append, seen_singleton_run]
      exact ((ih h.init).mono (List.subset_append_left _ _)).after h.last h.free_last
        (List.subset_append_right _ _)

/-- What the last run of a history makes of the index. -/
theorem after_cases (h : Sound o R (es ++ [.run c])) :
    (¬ c.Saves (replay es) ∧ (c.after (replay es)).manifest = (replay es).manifest ∧
      (replay es).Spilled (R c.embedder.modelId) c.embedder.modelId c.input
        (c.after (replay es))) ∨
    (c.Saves (replay es) ∧
      (replay es).Updated (R c.embedder.modelId) c.embedder.modelId c.input
        (c.after (replay es))) :=
  (h.init.knownRows.mono (List.subset_append_left _ _)).after_cases h.last h.free_last
    (List.subset_append_right _ _)

/-- What the last run of a history makes of the index when it saves. -/
theorem updated (h : Sound o R (es ++ [.run c])) (hsaves : c.Saves (replay es)) :
    (replay es).Updated (R c.embedder.modelId) c.embedder.modelId c.input
      (c.after (replay es)) :=
  (h.after_cases.resolve_left fun hcase => hcase.1 hsaves).2

end Sound

end Replay

end SourceShelf
