import SourceShelf.Proofs.Index.KnownFiles

/-!
# Indexing a single file

A run may look at one file of a folder whose index has many.  It removes no file
that it does not see, so the others stay as they are, unless the index is of
another embedder: then it is emptied before the run looks at its one file, and
nothing is put in place of the others.

* `Updated.other_file`: what a run leaves of a file that it does not look at.
* `other_files_kept_iff`: when the other files are still there.
-/

namespace SourceShelf

/-- A run over a single file. -/
structure IndexCall.OverFile {σ : Type} (c : IndexCall σ) (path : String) : Prop where
  keepsMissing : c.input.removesMissing = false
  candidates : c.input.candidates.map (·.path) = [path]

/-- A row apart from its vector. -/
def Row.withoutVector (r : Row) : Row := { r with vector := default }

/-- A file has the same entry in two indexes, and the same rows apart from their
vectors. -/
def Index.SameFile (x y : Index) (path : String) : Prop :=
  y.manifest.digest? path = x.manifest.digest? path ∧
    (y.store.rowsOfFile path).map Row.withoutVector =
      (x.store.rowsOfFile path).map Row.withoutVector

section

variable {σ : Type} {S : String → Embedding → Prop} {x y : Index} {id path : String}
variable {input : RunInput} {c : IndexCall σ}

/-- Of a file that it does not look at, a run that removes none leaves what there is
once the vectors of another embedder are gone. -/
theorem Index.Updated.other_file (h : x.Updated S id input y)
    (hkeeps : input.removesMissing = false) (hother : ∀ k ∈ input.candidates, k.path ≠ path) :
    y.manifest.digest? path = (x.opened id).manifest.digest? path ∧
      y.store.rowsOfFile path = (x.opened id).store.rowsOfFile path := by
  have hgone : path ∉ input.gone (x.opened id).manifest := by
    intro hpath
    rw [(mem_gone.mp hpath).1] at hkeeps
    cases hkeeps
  have hstale : path ∉ (x.stale id input).map (·.key.path) := by
    intro hpath
    obtain ⟨d, hd, rfl⟩ := List.mem_map.mp hpath
    obtain ⟨k, hk, -, hsame⟩ := Index.exists_candidate_of_mem_stale hd
    exact hother k hk hsame
  constructor
  · rw [h.manifest, Index.relisted_digest?_of_not_stale hstale, Index.prepared_digest?,
      if_neg hgone]
  · rw [h.rowsOfFile_of_not_stale hstale, Index.prepared_rowsOfFile_of_not_gone hgone]

namespace IndexCall

/-- The stale documents of a run over a single file are none or that of the file. -/
theorem OverFile.stale_cases (h : c.OverFile path) (x : Index) (id : String) :
    x.stale id c.input = [] ∨ ∃ k ∈ c.input.candidates, ∃ d,
      k.document? c.input.options = some d ∧ x.stale id c.input = [d] := by
  obtain ⟨k, hk, -⟩ := List.map_eq_singleton_iff.mp h.candidates
  rw [Index.stale, staleDocuments, hk]
  rcases hd : k.stale? c.input.options (x.prepared id c.input).manifest with _ | d
  · exact .inl (List.filterMap_cons_none hd)
  · refine .inr ⟨k, List.mem_cons_self, d, (Candidate.stale?_eq_some.mp hd).1, ?_⟩
    exact List.filterMap_cons_some hd

/-- What a completed run over a single file makes of an index, if the chunks of
the file are not taken for those of other files. -/
theorem OverFile.updated (h : c.OverFile path) (hcompletes : c.Completes x)
    (hapart : ∀ k ∈ c.input.candidates, ∀ d, k.document? c.input.options = some d →
      Apart x.store.rows (d.records c.input.options)) :
    x.Updated (fun _ _ => True) c.embedder.modelId c.input (c.after x) := by
  have hrows : Apart (x.prepared c.embedder.modelId c.input).store.rows
      ((x.stale c.embedder.modelId c.input).flatMap (·.records c.input.options)) := by
    rcases h.stale_cases x c.embedder.modelId with hstale | ⟨k, hk, d, hd, hstale⟩
    · rw [hstale]
      exact ⟨fun _ _ _ hp => absurd hp List.not_mem_nil, List.nodup_nil⟩
    · rw [hstale, List.flatMap_singleton]
      have hfile := hapart k hk d hd
      exact ⟨fun r hr => hfile.rows r ((x.prepared_rows_sublist _ _).subset hr), hfile.distinct⟩
  have hdistinct : (c.input.candidates.map (·.path)).Nodup := by
    rw [h.candidates]
    exact List.nodup_singleton path
  exact ((Index.keep_run c.faults c.world c.embedder.answers_any hdistinct hrows).resolve_left
    fun hunsaved => hcompletes.saves hunsaved.1).2

end IndexCall

/-- Whatever an index holds, a completed run over a single file leaves the other
files as they are if the index is of its embedder, and else drops them.  So it
keeps all listed files exactly if the embedder is the same or no other file is
listed. -/
theorem other_files_kept_iff (hover : c.OverFile path) (hcompletes : c.Completes x)
    (hapart : ∀ k ∈ c.input.candidates, ∀ d, k.document? c.input.options = some d →
      Apart x.store.rows (d.records c.input.options)) :
    (∀ other, other ≠ path →
      if RunState.isOutdated x.manifest c.embedder.modelId then
        (c.after x).manifest.digest? other = none ∧ (c.after x).store.rowsOfFile other = []
      else
        (c.after x).manifest.digest? other = x.manifest.digest? other ∧
          (c.after x).store.rowsOfFile other = x.store.rowsOfFile other) ∧
    ((∀ other, other ≠ path → x.manifest.digest? other ≠ none → x.SameFile (c.after x) other) ↔
      RunState.isOutdated x.manifest c.embedder.modelId = false ∨
        ∀ other, other ≠ path → x.manifest.digest? other = none) := by
  have hupdated := hover.updated hcompletes hapart
  generalize c.after x = y at *
  have hother : ∀ other, other ≠ path →
      y.manifest.digest? other = (x.opened c.embedder.modelId).manifest.digest? other ∧
        y.store.rowsOfFile other = (x.opened c.embedder.modelId).store.rowsOfFile other := by
    intro other hne
    refine hupdated.other_file hover.keepsMissing fun k hk hpath => hne ?_
    have hmem : k.path ∈ c.input.candidates.map (·.path) := List.mem_map_of_mem hk
    rw [hover.candidates, List.mem_singleton] at hmem
    exact hpath.symm.trans hmem
  by_cases hout : RunState.isOutdated x.manifest c.embedder.modelId = true
  · simp only [Index.opened_of_outdated hout] at hother
    simp only [hout, if_true]
    refine ⟨fun other hne => hother other hne, fun hsame => .inr fun other hne => ?_, ?_⟩
    · by_contra hlisted
      exact hlisted ((hsame other hne hlisted).1.symm.trans (hother other hne).1)
    · rintro (h | hnone)
      · cases h
      · exact fun other hne hlisted => absurd (hnone other hne) hlisted
  · simp only [Index.opened_of_current hout] at hother
    simp only [hout]
    refine ⟨fun other hne => hother other hne, fun _ => .inl trivial, fun _ other hne _ => ?_⟩
    exact ⟨(hother other hne).1, by rw [(hother other hne).2]⟩

end

/-! ## A file beside one of another embedder -/

/-- An index of a folder with one file. -/
def Index.ofOtherFile : Index where
  store := { rows := [{ (default : Row) with chunkId := "0", filePath := "Other.java" }] }
  manifest := { embedder := "another", files := [("Other.java", "0")] }

/-- A run over nothing but a file with two chunks. -/
def IndexCall.overSingleFile : IndexCall Unit :=
  { KnownRun.call { files := [.importing] } with
    input := { candidates := [.importing], removesMissing := false } }

theorem other_files_kept_ofOtherFile :
    (Document.importing.records {}).length = 2 ∧
      Index.ofOtherFile.manifest.digest? "Other.java" = some "0" ∧
      (IndexCall.overSingleFile.after .ofOtherFile).manifest.digest? "Other.java" = none ∧
      (IndexCall.overSingleFile.after .ofOtherFile).store.rowsOfFile "Other.java" = [] ∧
      ¬ ∀ other, other ≠ "A.java" → Index.ofOtherFile.manifest.digest? other ≠ none →
        Index.ofOtherFile.SameFile (IndexCall.overSingleFile.after .ofOtherFile) other := by
  have hcall : (KnownRun.call { files := [.importing] }).Undisturbed :=
    KnownRun.undisturbed fun f hf => absurd hf List.not_mem_nil
  have hundisturbed : IndexCall.overSingleFile.Undisturbed :=
    ⟨hcall.faults, hcall.serves, hcall.limits, hcall.storable⟩
  have hids : ("0" :: (Document.importing.records {}).map (·.chunkId)).Nodup := by
    decide +kernel
  rw [List.nodup_cons] at hids
  have hover : IndexCall.overSingleFile.OverFile "A.java" := ⟨rfl, rfl⟩
  have hother := other_files_kept_iff (x := .ofOtherFile) hover (hundisturbed.completes _)
    fun k hk d hd => by
      obtain rfl := List.mem_singleton.mp hk
      obtain rfl := Option.some.inj (hd.symm.trans Candidate.document?_importing)
      refine ⟨fun r hr p hp _ hid => ?_, hids.2⟩
      obtain rfl := List.mem_singleton.mp hr
      have hid : "0" = p.chunkId := hid
      exact hids.1 (hid ▸ List.mem_map_of_mem hp)
  have hdropped := hother.1 "Other.java" (by decide)
  rw [if_pos (by decide)] at hdropped
  refine ⟨by decide, by decide, hdropped.1, hdropped.2, fun hkept => ?_⟩
  rcases hother.2.mp hkept with hcurrent | hnone
  · exact absurd hcurrent (by decide)
  · exact absurd (hnone "Other.java" (by decide)) (by decide)

end SourceShelf
