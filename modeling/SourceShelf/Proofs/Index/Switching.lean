import SourceShelf.Proofs.Index.Alike
import SourceShelf.Proofs.Index.Faithful

/-!
# Runs that switch the options

The manifest says which text of a file was indexed, and not with which options its chunks were
cut.  So a run with other options writes the files that are new or changed, and leaves all
others with the texts that an earlier run gave them.

* `Updated.textsOf_candidate`: the texts of a candidate behind one run.
* `texts_behind_switch`: two runs in a row, compared with a single one.
* `switch_without_effect`: a folder where the second run does not do what the single one does.
-/

namespace SourceShelf

/-- The texts of the chunks that are stored of a file. -/
def Store.textsOf (s : Store) (path : String) : List String := (s.rowsOfFile path).map (·.text)

/-- The texts of the chunks of a document. -/
def Document.texts (o : ChunkOptions) (d : Document) : List String :=
  (d.unit.chunks o).chunks.map (·.text)

theorem Document.map_text_records (o : ChunkOptions) (d : Document) :
    (d.records o).map (·.chunk.text) = d.texts o := by
  rw [records, chunksAt, List.map_map, texts]
  conv_rhs => rw [← List.zipIdx_map_fst 0 (d.unit.chunks o).chunks, List.map_map]
  rfl

section Switch

variable {σ : Type} {S : String → Embedding → Prop} {o : ChunkOptions} {x y : Index}
variable {id : String} {input : RunInput} {k : Candidate} {d : Document}
variable {es : List (Event σ)} {c₁ c₂ f : IndexCall σ}

theorem Index.opened_digest?_of_same (h : x.manifest.embedder = id) (path : String) :
    (x.opened id).manifest.digest? path = x.manifest.digest? path := by
  rw [opened_of_current (by simp [RunState.isOutdated, h])]
  rfl

/-- A run leaves the texts of a candidate that is listed as it is, whatever its options, and
writes those of its own options for every other one that can be read and parsed. -/
theorem Index.Updated.textsOf_candidate (h : x.Updated S id input y)
    (hdistinct : (input.candidates.map (·.path)).Nodup) (hk : k ∈ input.candidates)
    (hd : k.document? input.options = some d) :
    y.store.textsOf k.path =
      if (x.opened id).manifest.digest? k.path = some d.key.digest then x.store.textsOf k.path
      else d.texts input.options := by
  have hprepared : (x.prepared id input).manifest.digest? k.path =
      (x.opened id).manifest.digest? k.path := prepared_digest?_of_candidate hk
  split
  · rename_i hlisted
    have hpath : k.path ∉ (x.stale id input).map (·.key.path) := by
      intro hstale
      obtain ⟨d', -, hdoc, hne⟩ := document?_of_mem_stale hdistinct hk hstale
      obtain rfl := Option.some.inj (hdoc.symm.trans hd)
      exact hne (hprepared.trans hlisted)
    have hdigest : y.manifest.digest? k.path = some d.key.digest := by
      rw [h.manifest, relisted_digest?_of_document hdistinct hk hd]
    rw [Store.textsOf, (h.kept hpath hdigest).2.2, Store.textsOf]
  · rename_i hlisted
    have hstale : d ∈ x.stale id input :=
      mem_staleDocuments.mpr ⟨k, hk, hd, fun hsame => hlisted (hprepared.symm.trans hsame)⟩
    rw [Store.textsOf, ← Candidate.document?_path hd,
      map_text_of_storedAs (h.rowsOfFile_of_stale hdistinct hstale), Document.map_text_records]

/-- Behind any history, two runs come to their ends one after the other, with one embedder and
any options for the texts of chunks.  A file that the first run has seen is listed as it was
seen, with the texts of the first run's options unless it was listed before.  Of a file that
the second run sees as it is listed, the texts stay; of any other one they become those that a
single run with the second run's options gives it over an empty index. -/
theorem texts_behind_switch (hruns : ∀ c, .run c ∈ es ++ [.run c₁, .run c₂] → c.Regular o)
    (hfree : CollisionFree o (seen (es ++ [.run c₁, .run c₂])))
    (hfirst : c₁.Completes (replay es)) (hsecond : c₂.Completes (c₁.after (replay es)))
    (hname : c₁.embedder.modelId = c₂.embedder.modelId) (hinput : f.input = c₂.input)
    (hsingle : f.Completes {}) (hk : k ∈ c₂.input.candidates) (hd : k.document? o = some d) :
    (k ∈ c₁.input.candidates →
      (c₁.after (replay es)).manifest.digest? k.path = some d.key.digest ∧
      (c₁.after (replay es)).store.textsOf k.path =
        if ((replay es).opened c₁.embedder.modelId).manifest.digest? k.path = some d.key.digest then
          (replay es).store.textsOf k.path
        else d.texts c₁.input.options) ∧
    (c₂.after (c₁.after (replay es))).store.textsOf k.path =
      (if (c₁.after (replay es)).manifest.digest? k.path = some d.key.digest then
        (c₁.after (replay es)).store.textsOf k.path
      else (f.after {}).store.textsOf k.path) ∧
    (f.after {}).store.textsOf k.path = d.texts c₂.input.options := by
  have hregular₁ : c₁.Regular o := hruns c₁ (by simp)
  have hregular₂ : c₂.Regular o := hruns c₂ (by simp)
  have hregular : f.Regular o := ⟨hinput ▸ hregular₂.options, hinput ▸ hregular₂.distinct⟩
  have hseen : seen (es ++ [.run c₁, .run c₂]) =
      seen es ++ (c₁.input.candidates ++ c₂.input.candidates) := by simp [seen, Event.candidates]
  have hseen₁ : c₁.input.candidates ⊆ seen (es ++ [.run c₁, .run c₂]) := by
    rw [hseen]
    exact List.subset_append_of_subset_right _ (List.subset_append_left _ _)
  have hseen₂ : c₂.input.candidates ⊆ seen (es ++ [.run c₁, .run c₂]) := by
    rw [hseen]
    exact List.subset_append_of_subset_right _ (List.subset_append_right _ _)
  have hbefore : seen es ⊆ seen (es ++ [.run c₁, .run c₂]) := by
    rw [hseen]
    exact List.subset_append_left _ _
  have hrows := (knownRows_replay (fun c hc => hruns c (List.mem_append_left _ hc))
    (hfree.mono hbefore)).mono hbefore
  obtain ⟨hupdated₁, hrows₁⟩ := hrows.step hregular₁ hfree hseen₁ hfirst.saves
  obtain ⟨hupdated₂, -⟩ := hrows₁.step hregular₂ hfree hseen₂ hsecond.saves
  obtain ⟨hupdated, -⟩ := (knownRows_empty o _).step hregular hfree (hinput ▸ hseen₂) hsingle.saves
  have hdoc {c : IndexCall σ} (hc : c.Regular o) : k.document? c.input.options = some d := by
    rw [← k.document?_alike hc.options, hd]
  have htexts : (f.after {}).store.textsOf k.path = d.texts c₂.input.options := by
    have hopened : (({} : Index).opened f.embedder.modelId).manifest.digest? k.path = none := by
      unfold Index.opened
      split <;> rfl
    rw [hupdated.textsOf_candidate hregular.distinct (hinput ▸ hk) (hdoc hregular), hopened,
      if_neg (Option.some_ne_none _).symm, hinput]
  refine ⟨fun hk₁ => ⟨?_, ?_⟩, ?_, htexts⟩
  · rw [hupdated₁.manifest, Index.relisted_digest?_of_document hregular₁.distinct hk₁
      (hdoc hregular₁)]
  · exact hupdated₁.textsOf_candidate hregular₁.distinct hk₁ (hdoc hregular₁)
  · rw [hupdated₂.textsOf_candidate hregular₂.distinct hk (hdoc hregular₂), htexts,
      Index.opened_digest?_of_same (hupdated₁.embedder.trans hname)]

end Switch

/-! ## A file with an import -/

/-- A run over a folder with nothing but this file, with or without imports in members. -/
def IndexCall.overImporting (memberImports : Bool) : IndexCall Unit where
  embedder := .uniform "uniform"
  input :=
    { candidates := [.importing]
      removesMissing := true
      options := ({ memberImports } : IndexOptions).chunkOptions }
  world := { inner := () }

namespace IndexCall

theorem overImporting_regular (b : Bool) : (overImporting b).Regular {} :=
  ⟨IndexOptions.chunkOptions_alike _, List.nodup_singleton _⟩

theorem document?_overImporting (b : Bool) :
    Candidate.importing.document? (overImporting b).input.options = some .importing :=
  (Candidate.importing.document?_alike (overImporting_regular b).options).symm.trans
    Candidate.document?_importing

theorem overImporting_undisturbed (b : Bool) : (overImporting b).Undisturbed where
  faults f hf := absurd hf List.not_mem_nil
  serves := Embedder.uniform_serves _
  limits k hk e h := by
    obtain rfl := List.mem_singleton.mp hk
    cases h
  storable k hk d hd := by
    obtain rfl := List.mem_singleton.mp hk
    obtain rfl := Option.some.inj ((document?_overImporting b).symm.trans hd)
    clear hd hk
    cases b <;> exact ⟨by decide, by decide⟩

end IndexCall

/-- Only the text of the constructor depends on the option. -/
theorem Document.texts_importing (b : Bool) :
    importing.texts (IndexCall.overImporting b).input.options =
      ["import a;\n\n// enclosing: A\nclass A \x7b\n\n\x7d\n",
        (if b then "import a;\n\n" else "") ++ "class A \x7b\n\nA()\x7b\x7d\n\x7d\n"] := by
  cases b <;> decide +kernel

/-- The two chunks of the file are told apart. -/
theorem collisionFree_importing {cs : List Candidate} (h : ∀ k ∈ cs, k = .importing) :
    CollisionFree {} cs := by
  refine collisionFree_samples fun k hk => ?_
  rw [h k hk]
  exact List.mem_map_of_mem (f := KnownFile.candidate)
    (by simp [KnownFile.samples] : KnownFile.importing ∈ KnownFile.samples)

/-- What such a run makes of an index of the folder. -/
theorem KnownRows.overImporting {x : Index} (h : KnownRows {} [.importing] x) (b : Bool) :
    x.Updated (fun _ _ => True) "uniform" (IndexCall.overImporting b).input
        ((IndexCall.overImporting b).after x) ∧
      KnownRows {} [.importing] ((IndexCall.overImporting b).after x) :=
  h.step (IndexCall.overImporting_regular b)
    (collisionFree_importing fun _ hk => List.mem_singleton.mp hk) (List.Subset.refl _)
    ((IndexCall.overImporting_undisturbed b).completes x).saves

/-- The folder is indexed without imports in members, and again with them. -/
theorem texts_behind_switch_importing :
    ((IndexCall.overImporting true).after ((IndexCall.overImporting false).after {})).store.textsOf
        "A.java" =
      ["import a;\n\n// enclosing: A\nclass A \x7b\n\n\x7d\n",
        "class A \x7b\n\nA()\x7b\x7d\n\x7d\n"] ∧
    ((IndexCall.overImporting true).after {}).store.textsOf "A.java" =
      ["import a;\n\n// enclosing: A\nclass A \x7b\n\n\x7d\n",
        "import a;\n\nclass A \x7b\n\nA()\x7b\x7d\n\x7d\n"] := by
  have hruns (c : IndexCall Unit) (hc : Event.run c ∈
      [] ++ [.run (.overImporting false), .run (.overImporting true)]) : c.Regular {} := by
    simp only [List.nil_append, List.mem_cons, Event.run.injEq, List.not_mem_nil, or_false] at hc
    rcases hc with rfl | rfl <;> exact IndexCall.overImporting_regular _
  obtain ⟨hfirst, hsecond, hsingle⟩ := texts_behind_switch (f := .overImporting true) hruns
    (collisionFree_importing fun k hk => by
      simpa [seen, Event.candidates, IndexCall.overImporting] using hk)
    ((IndexCall.overImporting_undisturbed false).completes _)
    ((IndexCall.overImporting_undisturbed true).completes _) rfl rfl
    ((IndexCall.overImporting_undisturbed true).completes _)
    (List.mem_singleton_self Candidate.importing) Candidate.document?_importing
  obtain ⟨hlisted, htexts⟩ := hfirst (List.mem_singleton_self Candidate.importing)
  rw [if_pos hlisted, htexts] at hsecond
  exact ⟨hsecond.trans (Document.texts_importing false),
    hsingle.trans (Document.texts_importing true)⟩

/-- Runs over one folder, first without imports in members and then with them, do not leave the
texts that a single run with them leaves. -/
theorem switch_without_effect :
    let first := IndexCall.overImporting false
    let second := IndexCall.overImporting true
    first.input.candidates = second.input.candidates ∧
      first.embedder.modelId = second.embedder.modelId ∧
      first.Completes {} ∧ second.Completes (first.after {}) ∧ second.Completes {} ∧
      ∃ k ∈ second.input.candidates, ∃ d, k.document? second.input.options = some d ∧
        (second.after (first.after {})).store.textsOf k.path ≠
          (second.after {}).store.textsOf k.path := by
  have hcompletes (b : Bool) (x : Index) : (IndexCall.overImporting b).Completes x :=
    (IndexCall.overImporting_undisturbed b).completes x
  have hmem : Candidate.importing ∈ [Candidate.importing] := List.mem_singleton_self _
  have hdoc := IndexCall.document?_overImporting
  have hempty := knownRows_empty {} [.importing]
  obtain ⟨hfirst, hrows⟩ := hempty.overImporting false
  obtain ⟨hsecond, -⟩ := hrows.overImporting true
  obtain ⟨hsingle, -⟩ := hempty.overImporting true
  have hlisted : (((IndexCall.overImporting false).after {}).opened "uniform").manifest.digest?
      Candidate.importing.path = some Document.importing.key.digest := by
    rw [Index.opened_digest?_of_same hfirst.embedder, hfirst.manifest,
      Index.relisted_digest?_of_document (IndexCall.overImporting_regular false).distinct hmem
        (hdoc false)]
  refine ⟨rfl, rfl, hcompletes false _, hcompletes true _, hcompletes true _, _, hmem, _,
    hdoc true, ?_⟩
  rw [hsecond.textsOf_candidate (List.nodup_singleton _) hmem (hdoc true), if_pos hlisted,
    hfirst.textsOf_candidate (List.nodup_singleton _) hmem (hdoc false), if_neg (by decide),
    hsingle.textsOf_candidate (List.nodup_singleton _) hmem (hdoc true), if_neg (by decide),
    Document.texts_importing, Document.texts_importing]
  decide

end SourceShelf
