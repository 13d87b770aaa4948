import SourceShelf.Proofs.Index.Orphans

/-!
# Indexing step by step and indexing at once

An index that was brought up to date again and again holds what a single run
over an empty index gives, as long as every run came to an end and every
embedder had a name: the same rows and the same digests for every file that can
be read and parsed, and nothing for files that are gone.

* `completed_faithful`: the manifest is faithful behind runs that saved it.
* `incremental_eq_fresh`: the comparison with a single run.
-/

namespace SourceShelf

/-- Every run of a history saves its manifest. -/
def AllSave {σ : Type} (es : List (Event σ)) : Prop :=
  ∀ before c, before ++ [.run c] <+: es → c.Saves (replay before)

/-- Every run of a history comes to an end. -/
def AllComplete {σ : Type} (es : List (Event σ)) : Prop :=
  ∀ before c, before ++ [.run c] <+: es → c.Completes (replay before)

/-- Every embedder of a history has a name. -/
def AllNamed {σ : Type} (es : List (Event σ)) : Prop :=
  ∀ c, .run c ∈ es → c.embedder.modelId ≠ ""

section

variable {σ : Type} {o : ChunkOptions} {R : String → String → Embedding → Prop}
variable {es : List (Event σ)} {c f : IndexCall σ}

theorem AllComplete.allSave (h : AllComplete es) : AllSave es :=
  fun before c hc => (h before c hc).saves

/-- Runs with nothing in their way come to an end. -/
theorem allComplete_of_undisturbed (h : ∀ c, .run c ∈ es → c.Undisturbed) : AllComplete es :=
  fun before c hc => (h c (hc.subset (by simp))).completes (replay before)

theorem AllSave.of_prefix {before : List (Event σ)} (h : AllSave es) (hbefore : before <+: es) :
    AllSave before := fun before' c hc => h before' c (hc.trans hbefore)

theorem AllNamed.of_prefix {before : List (Event σ)} (h : AllNamed es) (hbefore : before <+: es) :
    AllNamed before := fun c hc => h c (hbefore.subset hc)

/-- Behind runs that saved a name, only an empty index names no embedder. -/
theorem replay_eq_empty_of_unnamed (hsound : Sound o R es) (hsaves : AllSave es)
    (hnamed : AllNamed es) (h : (replay es).manifest.embedder = "") : replay es = {} := by
  induction es using List.reverseRecOn with
  | nil => rfl
  | append_singleton es e _ =>
    rw [replay_append_singleton] at h ⊢
    cases e with
    | reset => rfl
    | run c =>
      have hupdated := hsound.updated (hsaves es c (List.prefix_refl _))
      have hname := hnamed c (List.mem_append_right _ (List.mem_singleton_self _))
      exact absurd (hupdated.embedder.symm.trans h) hname

/-- Behind runs that saved it under a name, the manifest is faithful. -/
theorem completed_faithful (hsound : Sound o R es) (hsaves : AllSave es) (hnamed : AllNamed es) :
    (replay es).Faithful R o (seen es) := by
  refine faithful_replay hsound fun before c hc => ⟨fun h => absurd (hsaves before c hc) h, ?_⟩
  intro _ hempty path digest hdigest
  have hbefore : before <+: es := (List.prefix_append _ _).trans hc
  rw [replay_eq_empty_of_unnamed (hsound.of_prefix hbefore) (hsaves.of_prefix hbefore)
    (hnamed.of_prefix hbefore) hempty] at hdigest
  cases hdigest

theorem Index.Covered.rowsOfFile_eq_nil {x : Index} (h : x.Covered) {path : String}
    (hpath : x.manifest.digest? path = none) : x.store.rowsOfFile path = [] := by
  rw [List.eq_nil_iff_forall_not_mem]
  intro r hr
  obtain ⟨hmem, rfl⟩ := mem_rowsOfFile.mp hr
  rw [h r hmem] at hpath
  cases hpath

/-- Behind a run over an empty index that saves, the manifest is faithful. -/
theorem faithful_after_empty (hf : f.Fits o R) (hfree : CollisionFree o f.input.candidates)
    (hsaves : f.Saves {}) :
    ({} : Index).Updated (R f.embedder.modelId) f.embedder.modelId f.input (f.after {}) ∧
      (f.after {}).Faithful R o f.input.candidates := by
  obtain ⟨-, hupdated⟩ := ((knownRows_empty o f.input.candidates).after_cases hf hfree
    (List.Subset.refl _)).resolve_left fun h => h.1 hsaves
  have hfaithful := (faithful_empty R o []).updated hupdated hf.options hf.distinct
    fun _ path digest h => nomatch h
  exact ⟨hupdated, hfaithful⟩

/-- A listed candidate that cannot be read and parsed is backed by an earlier
version. -/
theorem Index.Faithful.earlier {x : Index} {cs cs' : List Candidate} {k : Candidate}
    {digest : String} (h : x.Faithful R o (cs ++ cs')) (hdistinct : (cs'.map (·.path)).Nodup)
    (hk : k ∈ cs') (hnone : k.document? o = none)
    (hdigest : x.manifest.digest? k.path = some digest) :
    ∃ d, Known o cs d ∧ d.key.path = k.path ∧ x.manifest.digest? k.path = some d.key.digest ∧
      List.Forall₂ (StoredAs (R x.manifest.embedder)) (d.records o)
        (x.store.rowsOfFile k.path) := by
  obtain ⟨d, ⟨k', hk', hdoc⟩, hkey, -, hstored⟩ := h k.path digest hdigest
  refine ⟨d, ⟨k', ?_, hdoc⟩, by rw [hkey], by rw [hkey, hdigest], hstored⟩
  rcases List.mem_append.mp hk' with hk' | hk'
  · exact hk'
  · have hpath : k'.path = k.path := by rw [← Candidate.document?_path hdoc, hkey]
    obtain rfl := List.inj_on_of_nodup_map hdistinct hk' hk hpath
    rw [hnone] at hdoc
    cases hdoc

/-- An index after completed runs and resets, and at last a completed run over a
folder, compared with one that a single run with the same candidates filled: the
files that can be read and parsed have the same rows and digests; files that are
no candidates have none; a candidate that cannot be read or parsed has none
either, or those of an earlier version. -/
theorem incremental_eq_fresh {V : String → String → Embedding}
    (hsound : Sound o (fun id t v => v = V id t) (es ++ [.run c]))
    (hcompletes : AllComplete (es ++ [.run c])) (hnamed : AllNamed (es ++ [.run c]))
    (hremoves : c.input.removesMissing = true)
    (hfits : f.Fits o fun id t v => v = V id t) (hid : f.embedder.modelId = c.embedder.modelId)
    (hinput : f.input = c.input) (hfresh : f.Completes {}) :
    (∀ k ∈ c.input.candidates, ∀ d, k.document? o = some d →
      (c.after (replay es)).manifest.digest? k.path = some d.key.digest ∧
      (f.after {}).manifest.digest? k.path = some d.key.digest ∧
      (c.after (replay es)).store.rowsOfFile k.path = (f.after {}).store.rowsOfFile k.path) ∧
    (∀ path, (∀ k ∈ c.input.candidates, k.path ≠ path) →
      (c.after (replay es)).manifest.digest? path = none ∧
      (c.after (replay es)).store.rowsOfFile path = []) ∧
    ∀ k ∈ c.input.candidates, k.document? o = none →
      ((c.after (replay es)).manifest.digest? k.path = none ∧
        (c.after (replay es)).store.rowsOfFile k.path = []) ∨
      ∃ d, Known o (seen es) d ∧ d.key.path = k.path ∧
        (c.after (replay es)).manifest.digest? k.path = some d.key.digest ∧
        List.Forall₂ (StoredAs fun t v => v = V c.embedder.modelId t) (d.records o)
          ((c.after (replay es)).store.rowsOfFile k.path) := by
  have hsaves := hcompletes.allSave
  have hupdated := hsound.updated (hsaves es c (List.prefix_refl _))
  have hlast := hsound.last
  have hfree := hsound.free_last
  have hfaithful := completed_faithful hsound hsaves hnamed
  have hcovered := covered_replay hsound hsaves
  rw [replay_append_singleton, seen_append, seen_singleton_run] at hfaithful
  rw [replay_append_singleton] at hcovered
  change (c.after (replay es)).Faithful _ o _ at hfaithful
  change (c.after (replay es)).Covered at hcovered
  have hname := hupdated.embedder
  generalize c.after (replay es) = y at *
  have hseen : f.input.candidates ⊆ seen es ++ c.input.candidates := by
    rw [hinput]
    exact List.subset_append_right _ _
  obtain ⟨hupdatedF, hfaithfulF⟩ := faithful_after_empty hfits (hfree.mono hseen) hfresh.saves
  have hnameF := hupdatedF.embedder
  generalize f.after {} = z at *
  refine ⟨fun k hk d hd => ?_, fun path habsent => ?_, fun k hk hnone => ?_⟩
  · rw [← hlast.options] at hd
    have hy : y.manifest.digest? k.path = some d.key.digest := by
      rw [hupdated.manifest, Index.relisted_digest?_of_document hlast.distinct hk hd]
    have hz : z.manifest.digest? k.path = some d.key.digest := by
      rw [hupdatedF.manifest, hinput, Index.relisted_digest?_of_document hlast.distinct hk hd]
    have hbacks := hfaithful k.path _ hy
    have hbacksF := (hfaithfulF k.path _ hz).mono hseen
    rw [hname] at hbacks
    rw [hnameF, hid] at hbacksF
    refine ⟨hy, hz, hbacks.unique ?_ hfree hbacksF⟩
    rintro t v v' rfl rfl
    rfl
  · have hnone : y.manifest.digest? path = none := by
      rw [hupdated.manifest, Index.relisted_digest?_of_absent hremoves habsent]
    exact ⟨hnone, hcovered.rowsOfFile_eq_nil hnone⟩
  · rcases hdigest : y.manifest.digest? k.path with _ | digest
    · exact .inl ⟨rfl, hcovered.rowsOfFile_eq_nil hdigest⟩
    · have hearlier := hfaithful.earlier hlast.distinct hk hnone hdigest
      rw [hname, hdigest] at hearlier
      exact .inr hearlier

end

/-- Two files are indexed.  Then one of them is changed, the other one removed, and there is a
new file that cannot be read. -/
theorem incremental_eq_fresh_changedFile :
    let x := replay (KnownRun.history [{ files := [.beside, .bare] }])
    let c := KnownRun.call { files := [.importing, .unreadable] }
    x.store.rows.map (fun r => (r.filePath, r.kind)) =
        [("B.java", "type-header"), ("A.java", "type-header")] ∧
      ((c.after {}).store.rowsOfFile "A.java").map (·.kind) = ["type-header", "constructor"] ∧
      (c.after x).manifest.digest? "A.java" = some Document.importing.key.digest ∧
      (c.after {}).manifest.digest? "A.java" = some Document.importing.key.digest ∧
      (c.after x).store.rowsOfFile "A.java" = (c.after {}).store.rowsOfFile "A.java" ∧
      (c.after x).manifest.digest? "B.java" = none ∧
      (c.after x).store.rowsOfFile "B.java" = [] ∧
      (((c.after x).manifest.digest? "C.java" = none ∧
          (c.after x).store.rowsOfFile "C.java" = []) ∨
        ∃ d, Known {} (seen (KnownRun.history [{ files := [.beside, .bare] }])) d ∧
          d.key.path = "C.java" ∧ (c.after x).manifest.digest? "C.java" = some d.key.digest ∧
          List.Forall₂ (StoredAs fun _ v => v = [.bool true]) (d.records {})
            ((c.after x).store.rowsOfFile "C.java")) := by
  intro x c
  let rs : List KnownRun :=
    [{ files := [.beside, .bare] }, { files := [.importing, .unreadable] }]
  have hhistory : KnownRun.history [{ files := [.beside, .bare] }] ++ [.run c] =
      KnownRun.history rs := rfl
  have hsound : Sound {} (fun _ _ v => v = [.bool true]) (KnownRun.history rs) := by
    refine KnownRun.sound_history fun r hr => ?_
    simp only [rs, List.mem_cons, List.not_mem_nil, or_false] at hr
    rcases hr with rfl | rfl
    · exact ⟨by simp [KnownFile.samples], by decide⟩
    · exact ⟨by simp [KnownFile.samples], by decide⟩
  have hundisturbed (d : IndexCall Unit) (hd : .run d ∈ KnownRun.history rs) :
      d.Undisturbed ∧ d.embedder.modelId ≠ "" := by
    obtain ⟨r, hr, rfl⟩ := KnownRun.call_of_mem_history hd
    refine ⟨KnownRun.undisturbed fun f hf => ?_, (by decide : "uniform" ≠ "")⟩
    simp only [rs, List.mem_cons, List.not_mem_nil, or_false] at hr
    rcases hr with rfl | rfl
    · cases hf
    · cases hf
  have hc : c.Undisturbed := (hundisturbed c (by simp [KnownRun.history, rs, c])).1
  have hrows : x.store.rows.map (fun r => (r.filePath, r.kind)) =
      [("B.java", "type-header"), ("A.java", "type-header")] := by
    rw [show x = _ from KnownRun.replay_history _]
    decide +kernel
  have hkinds : ((c.after {}).store.rowsOfFile "A.java").map (·.kind) =
      ["type-header", "constructor"] := by
    rw [KnownRun.after_call]
    decide +kernel
  obtain ⟨hread, habsent, hfailed⟩ := incremental_eq_fresh (c := c) (f := c)
    (V := fun _ _ => [.bool true]) (hhistory ▸ hsound)
    (allComplete_of_undisturbed fun d hd => (hundisturbed d hd).1)
    (fun d hd => (hundisturbed d hd).2) rfl
    ⟨rfl, by decide, Embedder.uniform_answers _⟩ rfl rfl (hc.completes _)
  obtain ⟨hlisted, hlisted', hsame⟩ :=
    hread .importing List.mem_cons_self _ Candidate.document?_importing
  obtain ⟨hnone, hgone⟩ := habsent "B.java" fun k hk => by
    simp only [c, KnownRun.call, List.map_cons, List.map_nil, List.mem_cons, List.not_mem_nil,
      or_false] at hk
    rcases hk with rfl | rfl <;> decide
  have hunread := hfailed KnownFile.unreadable.candidate (by simp [c, KnownRun.call]) rfl
  exact ⟨hrows, hkinds, hlisted, hlisted', hsame, hnone, hgone, hunread⟩

end SourceShelf
