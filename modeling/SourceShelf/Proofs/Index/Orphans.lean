import SourceShelf.Proofs.Index.Faithful

/-!
# Rows that outlive their files

An orphan is a row of a file that is no candidate of the last run, or a row that
is not of the version in the manifest.  A run finds the files that are gone in
the manifest.  Rows that were stored before a run failed are not listed there,
so they can outlive their files.

* `Updated.orphanFree_iff`: a run over a folder leaves no orphans exactly if
  each row is settled by the run.
* `Covered`: every row is of the version in the manifest.  Runs that save keep
  it so, and then no orphans are left.
* `orphanFree_after_iff`: the same behind any history.
-/

namespace SourceShelf

namespace Index

/-- Every row belongs to a file among some candidates, in the version that the
manifest lists. -/
def OrphanFree (cs : List Candidate) (x : Index) : Prop :=
  ∀ r ∈ x.store.rows,
    (∃ c ∈ cs, c.path = r.filePath) ∧ x.manifest.digest? r.filePath = some r.fileSha256

/-- Every row is of the version that the manifest lists. -/
def Covered (x : Index) : Prop :=
  ∀ r ∈ x.store.rows, x.manifest.digest? r.filePath = some r.fileSha256

/-- A row that a run over a folder removes with its file, or replaces, or that
is of the listed version of a candidate. -/
inductive Settled (x : Index) (input : RunInput) (r : Row) : Prop where
  | removed (listed : x.manifest.digest? r.filePath ≠ none)
      (absent : ∀ c ∈ input.candidates, c.path ≠ r.filePath)
  | replaced (c : Candidate) (d : Document) (candidate : c ∈ input.candidates)
      (path : c.path = r.filePath) (document : c.document? input.options = some d)
      (stale : x.manifest.digest? c.path ≠ some d.key.digest)
  | current (candidate : ∃ c ∈ input.candidates, c.path = r.filePath)
      (listed : x.manifest.digest? r.filePath = some r.fileSha256)

theorem Covered.settled {x : Index} (hx : x.Covered) (input : RunInput) {r : Row}
    (hr : r ∈ x.store.rows) : x.Settled input r := by
  have hlisted := hx r hr
  by_cases hcandidate : ∃ c ∈ input.candidates, c.path = r.filePath
  · exact .current hcandidate hlisted
  · refine .removed (hlisted ▸ Option.some_ne_none _) fun c hc hpath => ?_
    exact hcandidate ⟨c, hc, hpath⟩

namespace Updated

variable {S : String → Embedding → Prop} {x y : Index} {id : String} {input : RunInput}

/-- The rows that a run writes are of the versions that it lists. -/
private theorem listed_of_stored (h : x.Updated S id input y)
    (hdistinct : (input.candidates.map (·.path)).Nodup) {d : Document}
    (hd : d ∈ x.stale id input) {p : PendingChunk} (hp : p ∈ d.records input.options) {r : Row}
    (hr : StoredAs S p r) :
    r.filePath = d.key.path ∧ y.manifest.digest? r.filePath = some r.fileSha256 := by
  have hdoc := Document.mem_records_document hp
  have hpath : r.filePath = d.key.path := hdoc ▸ hr.filePath
  have hdigest : r.fileSha256 = d.key.digest := hdoc ▸ hr.fileSha256
  exact ⟨hpath, by rw [hpath, hdigest, h.manifest, relisted_digest?_of_stale hdistinct hd]⟩

/-- What is listed of an old row that a run leaves, and that it is not of an
index of another embedder. -/
private theorem old_row (h : x.Updated S id input y) {r : Row}
    (hr : r ∈ (x.prepared id input).store.rows)
    (hstale : r.filePath ∉ (x.stale id input).map (·.key.path)) :
    ¬ RunState.isOutdated x.manifest id = true ∧ r ∈ x.store.rows ∧
      r.filePath ∉ input.gone x.manifest ∧
      y.manifest.digest? r.filePath = x.manifest.digest? r.filePath := by
  obtain ⟨hopened, hgone⟩ := mem_prepared_rows.mp hr
  rw [h.manifest, relisted_digest?_of_not_stale hstale, prepared_digest?, if_neg hgone]
  by_cases hout : RunState.isOutdated x.manifest id = true
  · rw [opened_of_outdated hout] at hopened
    exact absurd hopened List.not_mem_nil
  · rw [opened_of_current hout] at hopened hgone ⊢
    exact ⟨hout, hopened, hgone, rfl⟩

/-- A run over a folder leaves no orphans exactly if it empties the index or
settles every row. -/
theorem orphanFree_iff (h : x.Updated S id input y) (hremoves : input.removesMissing = true)
    (hdistinct : (input.candidates.map (·.path)).Nodup) :
    y.OrphanFree input.candidates ↔
      RunState.isOutdated x.manifest id = true ∨ ∀ r ∈ x.store.rows, x.Settled input r := by
  constructor
  · intro hfree
    by_cases hout : RunState.isOutdated x.manifest id = true
    · exact .inl hout
    refine .inr fun r hr => ?_
    have hopened : x.opened id =
        { x with manifest := { x.manifest with embedder := id } } := opened_of_current hout
    by_cases hgone : r.filePath ∈ input.gone (x.opened id).manifest
    · rw [hopened] at hgone
      obtain ⟨-, hlisted, habsent⟩ := mem_gone.mp hgone
      exact .removed hlisted habsent
    have hprepared : r ∈ (x.prepared id input).store.rows :=
      mem_prepared_rows.mpr ⟨by rw [hopened]; exact hr, hgone⟩
    by_cases hstale : r.filePath ∈ (x.stale id input).map (·.key.path)
    · obtain ⟨d, hd, hpath⟩ := List.mem_map.mp hstale
      obtain ⟨c, hc, hdoc, hne⟩ := mem_staleDocuments.mp hd
      rw [prepared_digest?_of_candidate hc, hopened] at hne
      exact .replaced c d hc ((Candidate.document?_path hdoc).symm.trans hpath) hdoc hne
    · obtain ⟨hcandidate, hlisted⟩ := hfree r (h.mem_rows_of_not_stale hprepared hstale)
      obtain ⟨-, -, -, hsame⟩ := h.old_row hprepared hstale
      exact .current hcandidate (hsame ▸ hlisted)
  · intro hsettled r hr
    rcases h.mem_rows hr with ⟨hprepared, hstale⟩ | ⟨d, hd, p, hp, hpr⟩
    · obtain ⟨hout, hold, hgone, hsame⟩ := h.old_row hprepared hstale
      rw [hsame]
      cases hsettled.resolve_left hout r hold with
      | removed hlisted habsent => exact absurd (mem_gone.mpr ⟨hremoves, hlisted, habsent⟩) hgone
      | replaced c d hc hpath hdoc hne =>
        refine absurd (List.mem_map.mpr ⟨d, mem_staleDocuments.mpr ⟨c, hc, hdoc, ?_⟩, ?_⟩) hstale
        · rw [prepared_digest?_of_candidate hc, opened_of_current hout]
          exact hne
        · rw [Candidate.document?_path hdoc, hpath]
      | current hcandidate hlisted => exact ⟨hcandidate, hlisted⟩
    · obtain ⟨hpath, hlisted⟩ := h.listed_of_stored hdistinct hd hp hpr
      obtain ⟨c, hc, -, hcpath⟩ := exists_candidate_of_mem_stale hd
      exact ⟨⟨c, hc, hcpath.trans hpath.symm⟩, hlisted⟩

/-- A run that saves leaves every row listed if every row was. -/
theorem covered (h : x.Updated S id input y)
    (hdistinct : (input.candidates.map (·.path)).Nodup) (hx : x.Covered) : y.Covered := by
  intro r hr
  rcases h.mem_rows hr with ⟨hprepared, hstale⟩ | ⟨d, hd, p, hp, hpr⟩
  · obtain ⟨-, hold, -, hsame⟩ := h.old_row hprepared hstale
    rw [hsame]
    exact hx r hold
  · exact (h.listed_of_stored hdistinct hd hp hpr).2

end Updated

end Index

section History

variable {σ : Type} {o : ChunkOptions} {R : String → String → Embedding → Prop}
variable {es : List (Event σ)} {c : IndexCall σ}

/-- If every run of a history saved its manifest, every row is listed. -/
theorem covered_replay (hsound : Sound o R es)
    (hsaves : ∀ before c, before ++ [.run c] <+: es → c.Saves (replay before)) :
    (replay es).Covered := by
  induction es using List.reverseRecOn with
  | nil => exact fun _ h => absurd h List.not_mem_nil
  | append_singleton es e ih =>
    rw [replay_append_singleton]
    cases e with
    | reset => exact fun _ h => absurd h List.not_mem_nil
    | run c =>
      have hbefore := ih hsound.init fun before c' h =>
        hsaves before c' (h.trans (List.prefix_append _ _))
      exact (hsound.updated (hsaves es c (List.prefix_refl _))).covered hsound.last.distinct
        hbefore

/-- Behind any history, a run over a folder that comes to an end leaves no
orphans exactly if it empties the index or settles every row, and it does so if
every run before it saved its manifest. -/
theorem orphanFree_after_iff (hsound : Sound o R (es ++ [.run c]))
    (hremoves : c.input.removesMissing = true) (hcompletes : c.Completes (replay es)) :
    ((c.after (replay es)).OrphanFree c.input.candidates ↔
      RunState.isOutdated (replay es).manifest c.embedder.modelId = true ∨
        ∀ r ∈ (replay es).store.rows, (replay es).Settled c.input r) ∧
    ((∀ before c', before ++ [.run c'] <+: es → c'.Saves (replay before)) →
      (c.after (replay es)).OrphanFree c.input.candidates) := by
  have hiff := (hsound.updated hcompletes.saves).orphanFree_iff hremoves hsound.last.distinct
  refine ⟨hiff, fun hsaves => hiff.mpr (.inr fun r hr => ?_)⟩
  exact (covered_replay hsound.init hsaves).settled c.input hr

end History

/-- Two files are indexed, but the store fails at the last of their three chunks. -/
def unsavedRuns : List KnownRun :=
  [{ files := [.beside, .importing]
     faults := [none, none, none, none, some "disk I/O error"] }]

/-- Two files are indexed. -/
def savedRuns : List KnownRun := [{ files := [.beside, .bare] }]

/-- A run over one of the two files removes the other one if it is listed, and leaves it as an
orphan if it is not. -/
theorem orphanFree_after_unsavedRuns :
    let x := replay (KnownRun.history unsavedRuns)
    let y := replay (KnownRun.history savedRuns)
    let c := KnownRun.call { files := [.importing] }
    x.store.rows.map (·.filePath) = ["B.java", "A.java"] ∧ x.manifest.digest? "B.java" = none ∧
      ((c.after x).OrphanFree c.input.candidates ↔
        RunState.isOutdated x.manifest c.embedder.modelId = true ∨
          ∀ r ∈ x.store.rows, x.Settled c.input r) ∧
      ¬ (c.after x).OrphanFree c.input.candidates ∧
      y.store.rows.map (·.filePath) = ["B.java", "A.java"] ∧
      (c.after y).OrphanFree c.input.candidates := by
  intro x y c
  have hsound (rs : List KnownRun) (hrs : ∀ r ∈ rs, r.files ⊆ KnownFile.samples ∧
      (r.files.map (·.candidate.path)).Nodup) :
      Sound {} (fun _ _ v => v = [.bool true]) (KnownRun.history rs ++ [.run c]) := by
    have hhistory : KnownRun.history rs ++ [.run c] =
        KnownRun.history (rs ++ [{ files := [.importing] }]) := by
      simp [KnownRun.history, c]
    rw [hhistory]
    refine KnownRun.sound_history fun r hr => ?_
    rcases List.mem_append.mp hr with hr | hr
    · exact hrs r hr
    · obtain rfl := List.mem_singleton.mp hr
      exact ⟨by simp [KnownFile.samples], List.nodup_singleton _⟩
  have hcompletes (z : Index) : c.Completes z :=
    (KnownRun.undisturbed fun f hf => absurd hf List.not_mem_nil).completes z
  have hfiles : x.store.rows.map (·.filePath) = ["B.java", "A.java"] := by
    rw [show x = _ from KnownRun.replay_history _]
    decide +kernel
  have hmanifest : x.manifest.digest? "B.java" = none ∧ x.manifest.embedder = "" := by
    rw [show x = _ from KnownRun.replay_history _]
    decide +kernel
  have hfiles' : y.store.rows.map (·.filePath) = ["B.java", "A.java"] := by
    rw [show y = _ from KnownRun.replay_history _]
    decide +kernel
  have hknown := hsound unsavedRuns fun r hr => by
    obtain rfl := List.mem_singleton.mp hr
    exact ⟨by simp [KnownFile.samples], by decide⟩
  have hknown' := hsound savedRuns fun r hr => by
    obtain rfl := List.mem_singleton.mp hr
    exact ⟨by simp [KnownFile.samples], by decide⟩
  have hunsaved := orphanFree_after_iff hknown rfl (hcompletes _)
  have hsaved := orphanFree_after_iff hknown' rfl (hcompletes _)
  refine ⟨hfiles, hmanifest.1, hunsaved.1, fun hfree => ?_, hfiles', hsaved.2 ?_⟩
  · rcases hunsaved.1.mp hfree with houtdated | hsettled
    · rw [RunState.isOutdated, show (replay (KnownRun.history unsavedRuns)).manifest.embedder = ""
        from hmanifest.2] at houtdated
      cases houtdated
    · obtain ⟨r, hr, hpath⟩ : ∃ r ∈ x.store.rows, r.filePath = "B.java" :=
        List.mem_map.mp (hfiles ▸ List.mem_cons_self)
      -- the row of the other file is none of a candidate, and it is not listed
      have hother : ∀ k ∈ c.input.candidates, k.path ≠ r.filePath := by
        intro k hk
        obtain rfl := List.mem_singleton.mp hk
        rw [hpath]
        decide
      cases hsettled r hr with
      | removed hlisted _ => exact hlisted (hpath ▸ hmanifest.1)
      | replaced k _ hk hkpath => exact hother k hk hkpath
      | current hcandidate _ =>
        obtain ⟨k, hk, hkpath⟩ := hcandidate
        exact hother k hk hkpath
  · intro before c' hc'
    have hmem : .run c' ∈ KnownRun.history savedRuns := hc'.subset (by simp)
    obtain ⟨r, hr, rfl⟩ := KnownRun.call_of_mem_history hmem
    obtain rfl := List.mem_singleton.mp hr
    exact ((KnownRun.undisturbed fun f hf => absurd hf List.not_mem_nil).completes _).saves

end SourceShelf
