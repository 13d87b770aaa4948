import Mathlib.Data.List.Dedup
import SourceShelf.Proofs.Index.Completion
import SourceShelf.Proofs.Java.Ladders

/-!
# Runs over known files

A run reads and parses its files.  Where it is known what comes of that, the run can be
computed without a reader (`KnownRun.runOver_call`), and so can a history of such runs
(`KnownRun.replay_history`).  What is relied on in a history then only takes a list of
digests that are different (`collisionFree_of_digests`).

There are three groups.

* The files.  A `KnownFile` is a candidate with the document that it is read as, or with why
  it is not read.
* The runs.  A `KnownRun` is a run over such files in a folder, with an embedder that serves.
* Some files: two versions of one file, a file beside them, and one that cannot be read.
-/

namespace SourceShelf

open SourceShelf.Action

/-! ## The files -/

/-- What comes of reading a candidate. -/
def Candidate.Found (o : ChunkOptions) (c : Candidate) : Except Failure Document → Prop
  | .error f => c.loaded = .error (.failure f)
  | .ok d => c.document? o = some d

/-- A file of which it is known what comes of reading it. -/
structure KnownFile (o : ChunkOptions) where
  candidate : Candidate
  found : Except Failure Document
  known : candidate.Found o found
  storable : ∀ d, found = .ok d → d.Storable o

namespace KnownFile

variable {o : ChunkOptions}

/-- The chunks of a file. -/
def records (f : KnownFile o) : List PendingChunk :=
  match f.found with
  | .error _ => []
  | .ok d => d.records o

/-- The text of a file. -/
def text? (f : KnownFile o) : Option String := f.candidate.loaded.toOption.map (·.text)

theorem found_eq_ok {f : KnownFile o} {d : Document} (h : f.candidate.document? o = some d) :
    f.found = .ok d := by
  have hknown := f.known
  rcases hfound : f.found with e | d'
  · rw [hfound] at hknown
    have hloaded : f.candidate.loaded = .error (.failure e) := hknown
    rw [Candidate.document?, hloaded] at h
    cases h
  · rw [hfound] at hknown
    have hdoc : f.candidate.document? o = some d' := hknown
    rw [hdoc] at h
    rw [Option.some.inj h]

theorem records_eq {f : KnownFile o} {d : Document} (h : f.candidate.document? o = some d) :
    f.records = d.records o := by
  rw [records, found_eq_ok h]

theorem loaded_ne_limit (f : KnownFile o) (x : LimitError) :
    f.candidate.loaded ≠ .error (.limit x) := by
  intro hloaded
  have hknown := f.known
  rcases hfound : f.found with e | d
  · rw [hfound] at hknown
    have hfailed : f.candidate.loaded = .error (.failure e) := hknown
    rw [hloaded] at hfailed
    cases hfailed
  · rw [hfound] at hknown
    have hdoc : f.candidate.document? o = some d := hknown
    rw [Candidate.document?, hloaded] at hdoc
    cases hdoc

end KnownFile

/-- Two items of a list whose images are different are the same if their images are. -/
theorem eq_of_nodup_map_dedup {α β : Type} [DecidableEq α] {f : α → β} {xs : List α}
    (h : (xs.dedup.map f).Nodup) {x y : α} (hx : x ∈ xs) (hy : y ∈ xs) (hf : f x = f y) : x = y :=
  List.inj_on_of_nodup_map h (List.mem_dedup.mpr hx) (List.mem_dedup.mpr hy) hf

/-- Known files can be told apart if the digests of their texts and of what their chunks are
known by are different. -/
theorem collisionFree_of_digests {o : ChunkOptions} {fs : List (KnownFile o)}
    (hpaths : ∀ f ∈ fs, NulFree f.candidate.path)
    (htexts : ((fs.filterMap KnownFile.text?).dedup.map textDigest).Nodup)
    (hids : ((fs.flatMap KnownFile.records).map (·.identity) |>.dedup.map fun s =>
      Digest.sha1 s.toUTF8).Nodup) : CollisionFree o (fs.map (·.candidate)) where
  paths c hc := by
    obtain ⟨f, hf, rfl⟩ := List.mem_map.mp hc
    exact hpaths f hf
  texts c hc c' hc' t t' ht ht' hdigest := by
    have hmem {k : Candidate} (hk : k ∈ fs.map (·.candidate)) {u : SourceText}
        (hu : k.loaded = .ok u) : u.text ∈ fs.filterMap KnownFile.text? := by
      obtain ⟨f, hf, rfl⟩ := List.mem_map.mp hk
      refine List.mem_filterMap.mpr ⟨f, hf, ?_⟩
      rw [KnownFile.text?, hu]
      rfl
    exact eq_of_nodup_map_dedup htexts (hmem hc ht) (hmem hc' ht') hdigest
  chunks d d' hd hd' p hp p' hp' hid := by
    have hmem {e : Document} (he : Known o (fs.map (·.candidate)) e) {q : PendingChunk}
        (hq : q ∈ e.records o) : q.identity ∈ (fs.flatMap KnownFile.records).map (·.identity) := by
      obtain ⟨k, hk, hdoc⟩ := he
      obtain ⟨f, hf, rfl⟩ := List.mem_map.mp hk
      refine List.mem_map_of_mem (List.mem_flatMap_of_mem hf ?_)
      rw [KnownFile.records_eq hdoc]
      exact hq
    exact eq_of_nodup_map_dedup hids (hmem hd hp) (hmem hd' hp') hid

/-! ## The runs -/

namespace RunState

variable {σ : Type} {e : Embedder σ} {o : ChunkOptions}

/-- Brings the index up to date with what was found. -/
def visitFound (e : Embedder σ) (o : ChunkOptions) :
    Except Failure Document → Action (RunState σ) RunError Unit
  | .error f => fail f
  | .ok d => do
    if (← get).manifest.digest? d.key.path = some d.key.digest then return
    report (unitRecord d.unit)
    replaceFile e o d.key d.unit

theorem visit_of_found {c : Candidate} {found : Except Failure Document} (h : c.Found o found) :
    visit e o c = visitFound e o found := by
  cases found with
  | error f =>
    have hloaded : c.loaded = .error (.failure f) := h
    rw [visit, hloaded]
    rfl
  | ok d =>
    have hdoc : c.document? o = some d := h
    unfold Candidate.document? at hdoc
    rcases hloaded : c.loaded with x | t
    · rw [hloaded] at hdoc
      cases hdoc
    rw [hloaded] at hdoc
    dsimp only at hdoc
    rcases hparse : Java.parse t.text (some c.path) o.includeLocalTypes with f | u
    · rw [hparse] at hdoc
      cases hdoc
    rw [hparse] at hdoc
    obtain rfl := Option.some.inj hdoc
    rw [visit, hloaded]
    dsimp only
    rw [visitText, hparse]
    rfl

end RunState

/-- A run over known files in a folder, one chunk at a time, with what will go wrong in the
store. -/
structure KnownRun where
  files : List (KnownFile {})
  faults : List (Option String) := []

namespace KnownRun

/-- The run as it is asked for. -/
def call (r : KnownRun) : IndexCall Unit where
  embedder := .uniform "uniform"
  input := { candidates := r.files.map (·.candidate), removesMissing := true, batchSize := 1 }
  faults := r.faults
  world := ⟨(), []⟩

/-- The run as it can be computed. -/
def runOver (r : KnownRun) (x : Index) : Except RunError RunSummary × RunState Unit :=
  Action.runOn
    (do
      RunState.discardOutdated r.call.embedder.modelId
      RunState.removeMissing r.call.input
      r.files.forM fun f => RunState.visitFound r.call.embedder {} f.found
      RunState.finish r.call.embedder ""
      RunState.save
      RunState.summarize r.files.length)
    (RunState.start x.manifest { store := x.store, faults := r.faults } 1 ⟨(), []⟩)

theorem forM_visit (e : Embedder Unit) (fs : List (KnownFile {})) :
    (fs.map (·.candidate)).forM (RunState.visit e {}) =
      fs.forM fun f => RunState.visitFound e {} f.found := by
  induction fs with
  | nil => rfl
  | cons f fs ih =>
    rw [List.map_cons, List.forM, List.forM, RunState.visit_of_found f.known, ih]

/-- Where the files are known, a run is what is computed. -/
theorem runOver_call (r : KnownRun) (x : Index) : r.call.runOver x = r.runOver x := by
  unfold IndexCall.runOver Index.run RunState.run RunState.update runOver
  simp only [bind_assoc]
  rw [← forM_visit]
  simp only [call, List.length_map]

/-- The history of some runs. -/
def history (rs : List KnownRun) : List (Event Unit) := rs.map fun r => .run r.call

/-- The index behind a run. -/
def after (r : KnownRun) (x : Index) : Index := x.keep (r.runOver x).2

theorem after_call (r : KnownRun) (x : Index) : r.call.after x = r.after x := by
  rw [IndexCall.after, runOver_call, after]

/-- Where the files are known, what a history leaves is what is computed. -/
theorem replay_history (rs : List KnownRun) :
    replay (history rs) = rs.foldl (fun x r => r.after x) {} := by
  rw [replay, history, List.foldl_map]
  congr 1
  funext x r
  exact r.after_call x

theorem undisturbed {r : KnownRun} (h : ∀ f ∈ r.faults, f = none) : r.call.Undisturbed where
  faults := h
  serves := Embedder.uniform_serves _
  limits k hk := by
    obtain ⟨f, -, rfl⟩ := List.mem_map.mp hk
    exact f.loaded_ne_limit
  storable k hk d hd := by
    obtain ⟨f, -, rfl⟩ := List.mem_map.mp hk
    exact f.storable d (KnownFile.found_eq_ok hd)

theorem call_of_mem_history {rs : List KnownRun} {c : IndexCall Unit}
    (h : .run c ∈ history rs) : ∃ r ∈ rs, c = r.call := by
  obtain ⟨r, hr, hc⟩ := List.mem_map.mp h
  exact ⟨r, hr, (Event.run.inj hc).symm⟩

theorem seen_history (rs : List KnownRun) :
    seen (history rs) = (rs.flatMap (·.files)).map (·.candidate) := by
  rw [seen, history, List.flatMap_map, List.map_flatMap]
  rfl

end KnownRun

/-! ## Some files -/

/-- A file with an import and a constructor. -/
def Candidate.importing : Candidate :=
  ⟨"A.java", .ok ⟨"import a;class A\x7bA()\x7b\x7d\x7d", .utf8⟩⟩

/-- What the file declares. -/
def Document.importing : Document where
  key := ⟨"A.java", textDigest "import a;class A\x7bA()\x7b\x7d\x7d"⟩
  unit :=
    { imports := [{ path := "a", text := "import a;" }]
      types := [
        { index := 0
          parent := none
          name := "A"
          kind := .classType
          constructors := [
            { name := "A"
              kind := .constructor
              text := "A()\x7b\x7d"
              owner := 0
              startLine := 1
              endLine := 1 }]
          startLine := 1
          endLine := 1 }]
      topLevel := [0]
      path := some "A.java" }

theorem Candidate.document?_importing : importing.document? {} = some .importing := by
  refine document?_of_parse (t := ⟨"import a;class A\x7bA()\x7b\x7d\x7d", .utf8⟩) rfl ?_
  exact Java.Ladder.parse_of_parse? (by decide +kernel)

/-- A file with an empty class. -/
def Candidate.bare (path name : String) : Candidate :=
  ⟨path, .ok ⟨"class " ++ name ++ "\x7b\x7d", .utf8⟩⟩

/-- What such a file declares. -/
def Document.bare (path name : String) : Document where
  key := ⟨path, textDigest ("class " ++ name ++ "\x7b\x7d")⟩
  unit :=
    { types := [
        { index := 0
          parent := none
          name := name
          kind := .classType
          startLine := 1
          endLine := 1 }]
      topLevel := [0]
      path := some path }

theorem Candidate.document?_bare {path name : String}
    (h : Java.Ladder.parse? ("class " ++ name ++ "\x7b\x7d") (some path) true =
      some (Document.bare path name).unit) :
    (bare path name).document? {} = some (.bare path name) :=
  document?_of_parse (t := ⟨"class " ++ name ++ "\x7b\x7d", .utf8⟩) rfl
    (Java.Ladder.parse_of_parse? h)

namespace KnownFile

/-- The first version of a file. -/
def bare : KnownFile {} where
  candidate := .bare "A.java" "A"
  found := .ok (.bare "A.java" "A")
  known := Candidate.document?_bare (by decide +kernel)
  storable d h := by
    obtain rfl := Except.ok.inj h
    exact ⟨by decide, by decide⟩

/-- The second version of it. -/
def importing : KnownFile {} where
  candidate := .importing
  found := .ok .importing
  known := Candidate.document?_importing
  storable d h := by
    obtain rfl := Except.ok.inj h
    exact ⟨by decide, by decide⟩

/-- Another file. -/
def beside : KnownFile {} where
  candidate := .bare "B.java" "B"
  found := .ok (.bare "B.java" "B")
  known := Candidate.document?_bare (by decide +kernel)
  storable d h := by
    obtain rfl := Except.ok.inj h
    exact ⟨by decide, by decide⟩

/-- A file that cannot be read. -/
def unreadable : KnownFile {} where
  candidate := ⟨"C.java", .error (.failure (.read "Permission denied" (some "C.java")))⟩
  found := .error (.read "Permission denied" (some "C.java"))
  known := rfl
  storable _ h := nomatch h

/-- All of them. -/
def samples : List (KnownFile {}) := [bare, importing, beside, unreadable]

end KnownFile

/-- The files and their chunks can be told apart. -/
theorem collisionFree_samples {cs : List Candidate}
    (h : cs ⊆ KnownFile.samples.map (·.candidate)) : CollisionFree {} cs := by
  refine (collisionFree_of_digests ?_ ?_ ?_).mono h
  · intro f hf
    simp only [KnownFile.samples, List.mem_cons, List.not_mem_nil, or_false] at hf
    rcases hf with rfl | rfl | rfl | rfl <;> decide
  · decide +kernel
  · decide +kernel

/-- What is relied on in a history of runs over the files, whatever goes wrong in them. -/
theorem KnownRun.sound_history {rs : List KnownRun}
    (h : ∀ r ∈ rs, r.files ⊆ KnownFile.samples ∧ (r.files.map (·.candidate.path)).Nodup) :
    Sound {} (fun _ _ v => v = [.bool true]) (history rs) where
  fits c hc := by
    obtain ⟨r, hr, rfl⟩ := call_of_mem_history hc
    refine ⟨rfl, ?_, Embedder.uniform_answers _⟩
    rw [call, List.map_map]
    exact (h r hr).2
  free := by
    refine collisionFree_samples ?_
    rw [seen_history]
    refine List.map_subset _ fun f hf => ?_
    obtain ⟨r, hr, hf⟩ := List.mem_flatMap.mp hf
    exact (h r hr).1 hf

end SourceShelf
