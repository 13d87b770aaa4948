import SourceShelf.Proofs.Index.KnownFiles

/-!
# When a manifest can be trusted

A manifest is faithful if the rows of every file that it lists are those of the
text with the listed digest, with vectors of the embedder that it names.  A file
whose digest is in the manifest is skipped, so this is what makes it searchable.

A run that saves its manifest keeps it faithful, unless the vectors that were
there have no embedder's name.  A run that does not save leaves the old
manifest over rows that it may have dropped or replaced.

* `Faithful.after`: a harmless run keeps the manifest faithful.
* `Faithful.harmless`: no other run does.
* `faithful_prefixes_iff`: the same for every point of a history.
-/

namespace SourceShelf

/-- The rows of a file are those of the document that was seen there with a
digest, with vectors that `S` allows. -/
def Backs (S : String → Embedding → Prop) (o : ChunkOptions) (cs : List Candidate) (s : Store)
    (path digest : String) : Prop :=
  ∃ d, Known o cs d ∧ d.key = ⟨path, digest⟩ ∧ (d.unit.chunks o).stopped = none ∧
    List.Forall₂ (StoredAs S) (d.records o) (s.rowsOfFile path)

/-- Every entry of the manifest is backed by rows of the embedder that it
names. -/
def Index.Faithful (R : String → String → Embedding → Prop) (o : ChunkOptions)
    (cs : List Candidate) (x : Index) : Prop :=
  ∀ path digest, x.manifest.digest? path = some digest →
    Backs (R x.manifest.embedder) o cs x.store path digest

/-- A run that does not make a manifest lie: if it does not save, the listed files
whose rows it was going to drop or to replace still have them; if it does, and the
vectors so far have no embedder's name, then those of the files that stay listed
as they were are also its own embedder's. -/
structure IndexCall.Harmless {σ : Type} (R : String → String → Embedding → Prop)
    (o : ChunkOptions) (cs : List Candidate) (c : IndexCall σ) (x : Index) : Prop where
  unsaved : ¬ c.Saves x → ∀ path, x.manifest.digest? path ≠ none →
    x.AtRisk c.embedder.modelId c.input path →
    (c.after x).store.rowsOfFile path = x.store.rowsOfFile path
  unnamed : c.Saves x → x.manifest.embedder = "" → ∀ path digest,
    x.manifest.digest? path = some digest → (c.after x).manifest.digest? path = some digest →
    Backs (R c.embedder.modelId) o cs x.store path digest

section

variable {σ : Type} {o : ChunkOptions} {R : String → String → Embedding → Prop}
variable {S : String → Embedding → Prop} {cs cs' : List Candidate} {x y : Index}
variable {c : IndexCall σ} {s s' : Store} {path digest id : String} {input : RunInput}

theorem Backs.mono (h : Backs S o cs s path digest) (hcs : cs ⊆ cs') :
    Backs S o cs' s path digest := by
  obtain ⟨d, hd, hkey, hstopped, hrows⟩ := h
  exact ⟨d, hd.mono hcs, hkey, hstopped, hrows⟩

theorem Backs.congr (h : Backs S o cs s path digest)
    (hrows : s'.rowsOfFile path = s.rowsOfFile path) : Backs S o cs s' path digest := by
  obtain ⟨d, hd, hkey, hstopped, hstored⟩ := h
  exact ⟨d, hd, hkey, hstopped, hrows ▸ hstored⟩

/-- Where a text has one vector, an entry is backed by one list of rows. -/
theorem Backs.unique (hS : ∀ t v v', S t v → S t v' → v = v') (hfree : CollisionFree o cs)
    (h : Backs S o cs s path digest) (h' : Backs S o cs s' path digest) :
    s.rowsOfFile path = s'.rowsOfFile path := by
  obtain ⟨d, hd, hkey, -, hstored⟩ := h
  obtain ⟨d', hd', hkey', -, hstored'⟩ := h'
  obtain rfl := hfree.document_unique hd hd' (hkey.trans hkey'.symm)
  exact forall₂_storedAs_unique hS hstored hstored'

/-- An entry that a run leaves as it was, over rows that it leaves as they
were. -/
theorem Index.Updated.kept (h : x.Updated S id input y)
    (hpath : path ∉ (x.stale id input).map (·.key.path))
    (hdigest : y.manifest.digest? path = some digest) :
    ¬ RunState.isOutdated x.manifest id = true ∧ x.manifest.digest? path = some digest ∧
      y.store.rowsOfFile path = x.store.rowsOfFile path := by
  rw [h.manifest, Index.relisted_digest?_of_not_stale hpath, Index.prepared_digest?] at hdigest
  rw [h.rowsOfFile_of_not_stale hpath]
  by_cases hgone : path ∈ input.gone (x.opened id).manifest
  · rw [if_pos hgone] at hdigest
    cases hdigest
  rw [if_neg hgone] at hdigest
  rw [Index.prepared_rowsOfFile_of_not_gone hgone]
  by_cases hout : RunState.isOutdated x.manifest id = true
  · rw [Index.opened_of_outdated hout] at hdigest
    cases hdigest
  · rw [Index.opened_of_current hout] at hdigest ⊢
    exact ⟨hout, hdigest, rfl⟩

/-- An entry that a run finds and leaves is not that of a stale document. -/
theorem Index.Updated.not_stale_of_same (h : x.Updated S id input y)
    (hdistinct : (input.candidates.map (·.path)).Nodup)
    (hcurrent : ¬ RunState.isOutdated x.manifest id = true)
    (hold : x.manifest.digest? path = some digest) (hnew : y.manifest.digest? path = some digest) :
    path ∉ (x.stale id input).map (·.key.path) := by
  intro hpath
  obtain ⟨d, hd, rfl⟩ := List.mem_map.mp hpath
  rw [h.manifest, Index.relisted_digest?_of_stale hdistinct hd] at hnew
  obtain ⟨k, hk, hdoc, hne⟩ := mem_staleDocuments.mp hd
  rw [Index.prepared_digest?_of_candidate hk, Index.opened_of_current hcurrent,
    ← Candidate.document?_path hdoc] at hne
  exact hne (hold.trans hnew.symm)

/-- A stale document is backed by the rows that the run wrote for it. -/
theorem Index.Updated.backs_of_stale (h : x.Updated S id input y)
    (hdistinct : (input.candidates.map (·.path)).Nodup) {d : Document}
    (hd : d ∈ x.stale id input) :
    Backs S input.options input.candidates y.store d.key.path d.key.digest := by
  obtain ⟨k, hk, hdoc, -⟩ := Index.exists_candidate_of_mem_stale hd
  exact ⟨d, ⟨k, hk, hdoc⟩, rfl, h.complete d hd, h.rowsOfFile_of_stale hdistinct hd⟩

theorem not_isOutdated {m : Manifest} (h : ¬ RunState.isOutdated m id = true) :
    m.embedder = "" ∨ m.embedder = id := by
  unfold RunState.isOutdated at h
  simp only [Bool.and_eq_true, decide_eq_true_eq, not_and, Decidable.not_not] at h
  by_cases hempty : m.embedder = ""
  · exact .inl hempty
  · exact .inr (h hempty)

/-- A run that saves keeps the manifest faithful, if the vectors so far have a
name or are its own. -/
theorem Index.Faithful.updated (hx : x.Faithful R o cs) (h : x.Updated (R id) id input y)
    (hoptions : input.options = o) (hdistinct : (input.candidates.map (·.path)).Nodup)
    (hunnamed : x.manifest.embedder = "" → ∀ path digest, x.manifest.digest? path = some digest →
      y.manifest.digest? path = some digest → Backs (R id) o cs x.store path digest) :
    y.Faithful R o (cs ++ input.candidates) := by
  intro path digest hdigest
  rw [h.embedder]
  by_cases hpath : path ∈ (x.stale id input).map (·.key.path)
  · obtain ⟨d, hd, rfl⟩ := List.mem_map.mp hpath
    have hnew : y.manifest.digest? d.key.path = some d.key.digest := by
      rw [h.manifest, Index.relisted_digest?_of_stale hdistinct hd]
    obtain rfl : d.key.digest = digest := Option.some.inj (hnew.symm.trans hdigest)
    exact hoptions ▸ (h.backs_of_stale hdistinct hd).mono (List.subset_append_right _ _)
  · obtain ⟨hout, hold, hrows⟩ := h.kept hpath hdigest
    have hbacks : Backs (R id) o cs x.store path digest := by
      rcases not_isOutdated hout with hempty | hsame
      · exact hunnamed hempty path digest hold hdigest
      · exact hsame ▸ hx path digest hold
    exact (hbacks.congr hrows).mono (List.subset_append_left _ _)

/-- A harmless run keeps the manifest faithful, wherever it ends. -/
theorem Index.Faithful.after (hx : x.Faithful R o cs) (hrows : KnownRows o cs x)
    (hfits : c.Fits o R) (hfree : CollisionFree o (cs ++ c.input.candidates))
    (hharmless : c.Harmless R o cs x) :
    (c.after x).Faithful R o (cs ++ c.input.candidates) := by
  rcases (hrows.mono (List.subset_append_left _ _)).after_cases hfits hfree
    (List.subset_append_right _ _) with ⟨hsaves, hmanifest, hspilled⟩ | ⟨hsaves, hupdated⟩
  · intro path digest hdigest
    rw [hmanifest] at hdigest ⊢
    have hsame : (c.after x).store.rowsOfFile path = x.store.rowsOfFile path := by
      by_cases hrisk : x.AtRisk c.embedder.modelId c.input path
      · exact hharmless.unsaved hsaves path (by rw [hdigest]; exact Option.some_ne_none _) hrisk
      · exact hspilled.rowsOfFile_of_not_atRisk hrisk
    exact ((hx path digest hdigest).congr hsame).mono (List.subset_append_left _ _)
  · exact hx.updated hupdated hfits.options hfits.distinct (hharmless.unnamed hsaves)

/-- A run over a faithful manifest that leaves a faithful one is harmless, where
a text has one vector. -/
theorem Index.Faithful.harmless (hR : ∀ id t v v', R id t v → R id t v' → v = v')
    (hx : x.Faithful R o cs) (hrows : KnownRows o cs x) (hfits : c.Fits o R)
    (hfree : CollisionFree o (cs ++ c.input.candidates))
    (hafter : (c.after x).Faithful R o (cs ++ c.input.candidates)) : c.Harmless R o cs x := by
  have hcases := (hrows.mono (List.subset_append_left _ _)).after_cases hfits hfree
    (List.subset_append_right cs c.input.candidates)
  refine ⟨fun hsaves path hlisted _ => ?_, fun hsaves hempty path digest hold hnew => ?_⟩
  · obtain ⟨-, hmanifest, -⟩ := hcases.resolve_right fun h => hsaves h.1
    obtain ⟨digest, hdigest⟩ := Option.ne_none_iff_exists'.mp hlisted
    have hbefore := (hx path digest hdigest).mono (List.subset_append_left cs c.input.candidates)
    have hbehind := hafter path digest (by rw [hmanifest, hdigest])
    rw [hmanifest] at hbehind
    exact hbehind.unique (hR _) hfree hbefore
  · obtain ⟨-, hupdated⟩ := hcases.resolve_left fun h => h.1 hsaves
    have hcurrent : ¬ RunState.isOutdated x.manifest c.embedder.modelId = true := by
      simp [RunState.isOutdated, hempty]
    have hpath := hupdated.not_stale_of_same hfits.distinct hcurrent hold hnew
    obtain ⟨-, -, hrows⟩ := hupdated.kept hpath hnew
    obtain ⟨d, hd, hkey, hstopped, -⟩ := hx path digest hold
    obtain ⟨d', hd', hkey', -, hstored⟩ := hafter path digest hnew
    obtain rfl := hfree.document_unique (hd.mono (List.subset_append_left _ _)) hd'
      (hkey.trans hkey'.symm)
    rw [hupdated.embedder, hrows] at hstored
    exact ⟨d, hd, hkey, hstopped, hstored⟩

/-! ## Whole histories -/

theorem faithful_empty (R : String → String → Embedding → Prop) (o : ChunkOptions)
    (cs : List Candidate) : ({} : Index).Faithful R o cs := fun _ _ h => nomatch h

/-- If no run of a history makes the manifest lie, it is faithful in the end. -/
theorem faithful_replay {es : List (Event σ)} (hsound : Sound o R es)
    (hharmless : ∀ before c, before ++ [.run c] <+: es →
      c.Harmless R o (seen before) (replay before)) :
    (replay es).Faithful R o (seen es) := by
  induction es using List.reverseRecOn with
  | nil => exact faithful_empty R o _
  | append_singleton es e ih =>
    rw [replay_append_singleton]
    cases e with
    | reset => exact faithful_empty R o _
    | run c =>
      have hbefore := ih hsound.init fun before c' h =>
        hharmless before c' (h.trans (List.prefix_append _ _))
      rw [seen_append, seen_singleton_run]
      exact hbefore.after hsound.init.knownRows hsound.last hsound.free_last
        (hharmless es c (List.prefix_refl _))

/-- The manifest is faithful at every point of a history if no run makes it lie,
and only if so where a text has one vector.  Runs may end anywhere, and switch
between embedders. -/
theorem faithful_prefixes_iff {es : List (Event σ)} (hsound : Sound o R es) :
    ((∀ before c, before ++ [.run c] <+: es → c.Harmless R o (seen before) (replay before)) →
      ∀ before, before <+: es → (replay before).Faithful R o (seen before)) ∧
    ((∀ id t v v', R id t v → R id t v' → v = v') →
      (∀ before, before <+: es → (replay before).Faithful R o (seen before)) →
      ∀ before c, before ++ [.run c] <+: es →
        c.Harmless R o (seen before) (replay before)) := by
  constructor
  · intro hharmless before hbefore
    exact faithful_replay (hsound.of_prefix hbefore) fun before' c h =>
      hharmless before' c (h.trans hbefore)
  · intro hR hfaithful before c hc
    have hlast := hsound.of_prefix hc
    have hbehind := hfaithful _ hc
    rw [replay_append_singleton, seen_append, seen_singleton_run] at hbehind
    exact (hfaithful before ((List.prefix_append _ _).trans hc)).harmless hR
      hlast.init.knownRows hlast.last hlast.free_last hbehind

end

/-- A file is indexed.  Then it has two chunks, and the store fails at the second of them. -/
def stoppedRuns : List KnownRun :=
  [{ files := [.bare] }, { files := [.importing], faults := [none, none, some "disk I/O error"] }]

/-- The rows of the first version are lost, while the manifest still lists it. -/
theorem faithful_prefixes_stoppedRuns :
    let es := KnownRun.history stoppedRuns
    let R : String → String → Embedding → Prop := fun _ _ v => v = [.bool true]
    (replay es).manifest.digest? "A.java" = some (textDigest "class A\x7b\x7d") ∧
      ((replay es).store.rowsOfFile "A.java").map (·.fileSha256) =
        [textDigest "import a;class A\x7bA()\x7b\x7d\x7d"] ∧
      ((∀ before, before <+: es → (replay before).Faithful R {} (seen before)) ↔
        ∀ before c, before ++ [.run c] <+: es →
          c.Harmless R {} (seen before) (replay before)) ∧
      ¬ (replay es).Faithful R {} (seen es) ∧
      ∃ before c, before ++ [.run c] <+: es ∧
        ¬ c.Harmless R {} (seen before) (replay before) := by
  intro es R
  have hsound : Sound {} R es := by
    refine KnownRun.sound_history fun r hr => ?_
    simp only [stoppedRuns, List.mem_cons, List.not_mem_nil, or_false] at hr
    rcases hr with rfl | rfl
    · exact ⟨by simp [KnownFile.samples], List.nodup_singleton _⟩
    · exact ⟨by simp [KnownFile.samples], List.nodup_singleton _⟩
  have hlisted : (replay es).manifest.digest? "A.java" =
      some (textDigest "class A\x7b\x7d") := by
    rw [KnownRun.replay_history]
    decide +kernel
  have hrows : ((replay es).store.rowsOfFile "A.java").map (·.fileSha256) =
      [textDigest "import a;class A\x7bA()\x7b\x7d\x7d"] := by
    rw [KnownRun.replay_history]
    decide +kernel
  have hunfaithful : ¬ (replay es).Faithful R {} (seen es) := by
    intro hfaithful
    obtain ⟨d, -, hkey, -, hstored⟩ := hfaithful "A.java" _ hlisted
    obtain ⟨r, hr, hdigest⟩ := List.map_eq_singleton_iff.mp hrows
    obtain ⟨p, hp, hpr⟩ := exists_storedAs_of_mem hstored (hr ▸ List.mem_singleton_self r)
    have hsame : textDigest "import a;class A\x7bA()\x7b\x7d\x7d" =
        textDigest "class A\x7b\x7d" := by
      rw [← hdigest, hpr.fileSha256, Document.mem_records_document hp, hkey]
    exact absurd hsame (by decide +kernel)
  obtain ⟨hfaithful, hharmless⟩ := faithful_prefixes_iff hsound
  have hiff := Iff.intro (hharmless fun _ _ _ _ h h' => h.trans h'.symm) hfaithful
  refine ⟨hlisted, hrows, hiff, hunfaithful, ?_⟩
  by_contra hnone
  refine hunfaithful (hfaithful (fun before c hc => ?_) es (List.prefix_refl _))
  by_contra hharm
  exact hnone ⟨before, c, hc, hharm⟩

end SourceShelf
