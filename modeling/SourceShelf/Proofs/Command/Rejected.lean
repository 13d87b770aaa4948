import Mathlib
import SourceShelf.Command.Actions
import SourceShelf.Command.Backend
import SourceShelf.Proofs.Command.Kept
import SourceShelf.Proofs.Index.Failing
import SourceShelf.Proofs.Source.Candidates

/-!
# Calls that are rejected

A call to index a folder or a file fails for what it was asked, for the embedder, or for the
store.  In the first case the index stays as it was, unless the call lost its rows
(`LosesRows`): the limit on sizes of a single file is looked at when the file is read, and by
then the index of another embedder is empty.  In a folder the limit is looked at before.

* `candidateFiles_of_no_limit`: without a limit in bytes, a folder has no candidates.
* `indexTarget_cases`: how far a call came that failed.
* `run_input_error`, `runOver_error`: how its run failed, and what the run left.
* `indexTarget_rejected`: what is kept of the index.
-/

namespace SourceShelf

open Files SourceShelf.Action

variable {τ : Type}

/-! ## A limit that is no number of bytes -/

section Limit

variable {α : Type} {bytesOf : α → ByteArray} {t : Disk α} {folder : Path} {rules : Ignore.Rules}
variable {o : IndexOptions} {files : List (List String)} {err : LimitError}

/-- No file is kept if the limit on sizes is no number of bytes. -/
theorem keeps_of_no_limit (hlimit : o.maxFileBytes = .error err) (names : List String) :
    keeps (judge bytesOf t folder rules o names) = false := by
  unfold judge
  dsimp only
  split
  · rfl
  · rcases isLink t (below folder names) with e | link
    · rfl
    · dsimp only
      split
      · rfl
      · split
        · rfl
        · rw [hlimit]
          rfl

/-- A scan with a limit that is no number of bytes finds nothing, if it does not fail. -/
theorem candidateFiles_of_no_limit (hlimit : o.maxFileBytes = .error err) {log : List LogRecord}
    (h : ((candidateFiles bytesOf t folder o).runOn log).1 = .ok files) : files = [] := by
  unfold candidateFiles at h
  rcases hrules : scanRules bytesOf t folder o with e | rules
  · rw [hrules, runOn_bind_of_error (by rw [runOn_ofExcept])] at h
    cases h
  · rw [hrules, runOn_bind_of_ok (x := rules) (by rw [runOn_ofExcept])] at h
    have hkept := keptFiles_cases (judge bytesOf t folder rules o)
      (filesBelow t folder rules o.followSymlinks) log
    rcases hrun : (keptFiles (judge bytesOf t folder rules o)
      (filesBelow t folder rules o.followSymlinks)).runOn log with ⟨e | kept, log'⟩
    · rw [runOn_bind_of_error hrun] at h
      cases h
    · rw [hrun] at hkept
      rw [runOn_bind_of_ok hrun] at h
      rcases hkept with ⟨-, heq⟩ | ⟨_, _, _, _, heq⟩
      · cases heq
        cases h
        rw [List.filter_eq_nil_iff.mpr fun names _ => by rw [keeps_of_no_limit hlimit]; simp,
          List.mergeSort_nil]
      · cases heq

end Limit

/-! ## The steps before the run -/

/-- The options and the embedder that a request leads to. -/
def IndexRequest.prepare (choose : Action (Session τ) CommandError (Embedder τ)) (r : IndexRequest)
    (w : Workspace) : Action (Session τ) CommandError (IndexOptions × Embedder τ) := do
  let o := r.override (← Session.loadOptions w.root)
  let e ← choose
  return (o, e)

theorem leavesDisk_filesOf (w : Workspace) (o : IndexOptions) :
    LeavesDisk (filesOf w o : Action (Session τ) _ _) := by
  unfold filesOf
  split
  · exact leavesDisk_pure _
  · exact leavesDisk_bind (Session.leavesDisk_printLine _) fun _ =>
      leavesDisk_bind leavesDisk_get fun _ _ => ⟨rfl, rfl⟩

section Input

variable {l : IndexLocation} {w : Workspace} {t : Disk FileContent} {o : IndexOptions}
variable {files : List (List String)} {s s' : Session τ} {err : LimitError}

theorem filesOf_of_single (h : w.isSingleFile = true) (o : IndexOptions) (s : Session τ) :
    (filesOf w o).runOn s = (.ok [[w.target.name]], s) := by
  rw [filesOf, if_pos h]
  rfl

theorem filesOf_of_no_limit (hfolder : ¬ w.isSingleFile = true)
    (hlimit : o.maxFileBytes = .error err)
    (h : (filesOf w o).runOn s = (.ok files, s')) : files = [] := by
  have hprint : (Session.printLine "Scanning for Java files...").runOn s =
      (.ok (), { s with printed := s.printed ++ [.out "Scanning for Java files..."] }) := rfl
  rw [filesOf, if_neg hfolder, runOn_bind_of_ok hprint, runOn_bind_of_ok (runOn_get _),
    runOn_within, runOn_withError] at h
  rcases hscan : ((candidateFiles FileContent.toBytes s.disk w.root o).runOn s.log).1 with e | kept
  · have hfailed := (congrArg (Except.mapError _) hscan).symm.trans (congrArg Prod.fst h)
    cases hfailed
  · have hkept := (congrArg (Except.mapError _) hscan).symm.trans (congrArg Prod.fst h)
    cases hkept
    exact candidateFiles_of_no_limit hlimit hscan

/-- A candidate has no limit only if the options have none. -/
theorem candidateOf_loaded {names : List String}
    (h : (candidateOf t w.root o.maxFileBytes names).loaded = .error (.limit err)) :
    o.maxFileBytes = .error err := by
  unfold candidateOf at h
  dsimp only at h
  split at h
  · rename_i err' herr
    cases h
    exact herr
  · rcases hload : SourceText.load FileContent.toBytes t (below w.root names) _ with _ | _ <;>
      rw [hload] at h <;> cases h

end Input

/-! ## Choosing an embedder -/

namespace Backends

theorem leavesDisk_serverAnswers (host : String) : LeavesDisk (serverAnswers host) :=
  fun _ => ⟨rfl, rfl⟩

/-- No file is changed when an embedder is chosen. -/
theorem leavesDisk_make (o : BackendOptions) : LeavesDisk (make o) := by
  refine leavesDisk_bind leavesDisk_get fun _ => ?_
  split
  · exact leavesDisk_bind (leavesDisk_ofExcept _) fun _ =>
      leavesDisk_bind (leavesDisk_modify fun _ => ⟨rfl, rfl⟩) fun _ => leavesDisk_pure _
  · split
    · dsimp only
      split
      · exact leavesDisk_throw _
      · exact leavesDisk_bind (leavesDisk_modify fun _ => ⟨rfl, rfl⟩) fun _ => leavesDisk_pure _
    · exact leavesDisk_throw _

theorem leavesDisk_makeForIndex (o : BackendOptions) : LeavesDisk (makeForIndex o) := by
  unfold makeForIndex
  split
  · refine leavesDisk_bind (leavesDisk_serverAnswers _) fun answers => ?_
    split
    · exact leavesDisk_bind (Session.leavesDisk_printLine _) fun _ => leavesDisk_make o
    · exact leavesDisk_make o
  · exact leavesDisk_make o

end Backends

/-! ## The run -/

/-- True of an error of the embedder, or of a call of the store. -/
def CommandError.IsInner (x : CommandError) : Prop :=
  ∃ y : RunError, y.IsInner ∧ x = y.toCommandError

section RunOver

variable {l : IndexLocation} {e : Embedder τ} {m : Manifest} {store : Store} {input : RunInput}
variable {s s' : Session τ} {x : CommandError}

/-- The run of an index that was opened fails, or the manifest cannot be written at the end.  If
nothing was saved, the rows that the run leaves are kept. -/
theorem runOver_error (limit : Json.NestingLimit) (hopen : ∃ t : Disk FileContent,
      t.write (Session.storePath l).text (.store store) = .ok s.disk)
    (hrun : (runOver e l m store input).runOn s = (.error x, s')) :
    (∃ y, x = .file y l.manifestPath.text ∧
      (l.keptIn limit s'.disk).manifest = (l.keptIn limit s.disk).manifest) ∨
    ∃ y result, Index.run ⟨store, m⟩ e input [] ⟨s.world, s.log⟩ = (.error y, result) ∧
      x = y.toCommandError ∧ (result.saved = none →
        l.keptIn limit s'.disk =
          ⟨.ok result.index.shelf.store, (l.keptIn limit s.disk).manifest⟩) := by
  obtain ⟨t, ht⟩ := hopen
  have hthere : (l.keptIn limit s.disk).store = .ok store := by
    rw [IndexLocation.keptIn, Session.storeIn, Disk.find_write ht]
  unfold runOver at hrun
  rw [runOn_bind_of_ok (runOn_get s)] at hrun
  rcases hresult : Index.run ⟨store, m⟩ e input [] ⟨s.world, s.log⟩ with ⟨r, result⟩
  rw [hresult] at hrun
  dsimp only at hrun
  rw [runOn_bind_of_ok (runOn_modify _ _)] at hrun
  obtain ⟨t₁, ht₁⟩ := Disk.write_again ht (.store result.index.shelf.store)
  have hkept := IndexLocation.keptIn_write_store hthere ht₁
  let s₁ : Session τ :=
    { s with disk := t₁, world := result.index.world.inner, log := result.index.world.log }
  have hkeep : (Session.writeFile (Session.storePath l).text
      (.store result.index.shelf.store)).runOn
      { s with world := result.index.world.inner, log := result.index.world.log } = (.ok (), s₁) :=
    Session.runOn_writeFile_ok ht₁
  rw [Session.keepStore, runOn_bind_of_ok hkeep] at hrun
  have hcheck {s₁ : Session τ} (hrun : (do
      let summary ← Session.check RunError.toCommandError r
      return (summary, result.failures) : Action (Session τ) _ _).runOn s₁ = (.error x, s')) :
      ∃ y, r = .error y ∧ x = y.toCommandError ∧ s' = s₁ := by
    rcases r with y | summary
    · rw [runOn_bind_of_error (Session.runOn_check_error _ y s₁)] at hrun
      cases hrun
      exact ⟨y, rfl, rfl, rfl⟩
    · rw [runOn_bind_of_ok (Session.runOn_check_ok _ summary s₁)] at hrun
      cases hrun
  rcases hsaved : result.saved with _ | saved
  · rw [hsaved] at hrun
    obtain ⟨y, rfl, rfl, rfl⟩ := hcheck hrun
    exact .inr ⟨y, result, rfl, rfl, fun _ => hkept⟩
  · rw [hsaved] at hrun
    dsimp only at hrun
    rcases hwrite : t₁.write l.manifestPath.text (.bytes saved.text.toUTF8) with err | t₂
    · rw [runOn_bind_of_error (Session.runOn_writeFile_error (s := s₁) hwrite)] at hrun
      obtain ⟨hx, rfl⟩ := Prod.mk.inj hrun
      refine .inl ⟨err, (Except.error.inj hx).symm, ?_⟩
      rw [show s₁.disk = t₁ from rfl, hkept]
    · rw [runOn_bind_of_ok (Session.runOn_writeFile_ok (s := s₁) hwrite)] at hrun
      obtain ⟨y, rfl, rfl, -⟩ := hcheck hrun
      exact .inr ⟨y, result, rfl, rfl, fun hunsaved => absurd (hsaved.symm.trans hunsaved)
        (Option.some_ne_none saved)⟩

end RunOver

/-- What a run is to work on. -/
def IndexLocation.input (l : IndexLocation) (t : Disk FileContent) (o : IndexOptions)
    (files : List (List String)) : RunInput where
  candidates := files.map (candidateOf t l.workspace.root o.maxFileBytes)
  removesMissing := !l.workspace.isSingleFile
  options := o.chunkOptions
  batchSize := o.batchSize
  place := l.path.text

/-- The run of a request fails with an error of the embedder or the store; or a single file was
asked for and the limit is no number of bytes.  Then the index was opened, and no more. -/
theorem run_input_error {l : IndexLocation} {o : IndexOptions} {files : List (List String)}
    {t : Disk FileContent} {s s' : Session τ} {x : Index} {e : Embedder τ} {world : Logged τ}
    {y : RunError} {result : RunState τ}
    (hfiles : (filesOf l.workspace o).runOn s = (.ok files, s'))
    (hrun : x.run e (l.input t o files) [] world = (.error y, result)) :
    y.IsInner ∨ l.workspace.isSingleFile = true ∧ (∃ err, o.maxFileBytes = .error err) ∧
      result.saved = none ∧ result.index.shelf.store = (x.opened e.modelId).store := by
  rcases hlimit : o.maxFileBytes with err | limit
  · by_cases hsingle : l.workspace.isSingleFile = true
    · rw [filesOf_of_single hsingle] at hfiles
      cases hfiles
      have hloaded : (candidateOf t l.workspace.root o.maxFileBytes
          [l.workspace.target.name]).loaded = .error (.limit err) := by
        unfold candidateOf
        rw [hlimit]
      have hkeeps : (l.input t o [[l.workspace.target.name]]).removesMissing = false := by
        rw [IndexLocation.input, hsingle]
        rfl
      obtain ⟨-, hsaved, hstore⟩ := x.run_no_limit e world hkeeps rfl hloaded
      rw [hrun] at hsaved hstore
      exact .inr ⟨hsingle, ⟨err, rfl⟩, hsaved, hstore⟩
    · obtain rfl := filesOf_of_no_limit hsingle hlimit hfiles
      refine .inl ((RunState.raises_run e _ _ _ _ hrun).resolve_right ?_)
      rintro ⟨c, hc, -⟩
      exact absurd hc List.not_mem_nil
  · refine .inl ((RunState.raises_run e _ _ _ _ hrun).resolve_right ?_)
    rintro ⟨c, hc, err, hloaded, -⟩
    obtain ⟨names, -, rfl⟩ := List.mem_map.mp hc
    rw [candidateOf_loaded hloaded] at hlimit
    cases hlimit

section Call

variable {choose : Action (Session τ) CommandError (Embedder τ)} {r : IndexRequest}
variable {l : IndexLocation} {s s₁ s' : Session τ} {x : CommandError}

/-- A line may be printed before an action goes on. -/
theorem exists_runOn_of_printLine {α : Type} {c : Bool} {line : String}
    {f : Unit → Action (Session τ) CommandError α} {res : Except CommandError α × Session τ}
    (h : (if c = true then (Session.printLine line >>= f) else f ()).runOn s = res) :
    ∃ s₁, s₁.disk = s.disk ∧ (f ()).runOn s₁ = res := by
  cases c with
  | false => exact ⟨s, rfl, h⟩
  | true => exact ⟨{ s with printed := s.printed ++ [.out line] }, rfl, h⟩

/-- The manifest is read, unless it is beyond a limit, and no file is changed. -/
theorem runOn_loadManifest (l : IndexLocation) (s : Session τ) :
    ∃ s₁, s₁.disk = s.disk ∧ (Session.loadManifest l).runOn s =
      ((l.keptIn s.nesting s.disk).manifest.mapError .number, s₁) := by
  unfold Session.loadManifest IndexLocation.keptIn manifestAt
  rw [runOn_bind_of_ok (runOn_get s)]
  rcases Manifest.load FileContent.toBytes s.disk l.manifestPath s.nesting with e | ⟨m, log⟩
  · exact ⟨s, rfl, runOn_bind_of_error (Session.runOn_check_error _ e s) _⟩
  · exact ⟨{ s with log := s.log ++ log }, rfl, rfl⟩

/-- A call that fails changed no file, or it opened the index and failed in its run. -/
theorem indexTarget_cases (hchoose : LeavesDisk choose)
    (hlocate : (Session.locate r.path r.localStore r.name).runOn s = (.ok l, s₁))
    (hrun : (indexTarget choose r).runOn s = (.error x, s')) :
    (s'.disk = s₁.disk ∧ ((∃ y, x = .store y) ∨
      (∃ err, (l.keptIn s₁.nesting s₁.disk).manifest = .error err) ∨ ∀ o e s₂,
      (r.prepare choose l.workspace).runOn s₁ = (.ok (o, e), s₂) →
        ¬ l.workspace.isSingleFile = true)) ∨
    ∃ o e s₂ files s₃ m store s₄,
      (r.prepare choose l.workspace).runOn s₁ = (.ok (o, e), s₂) ∧
      (filesOf l.workspace o).runOn s₂ = (.ok files, s₃) ∧
      (l.keptIn s₁.nesting s₁.disk).manifest = .ok m ∧
      (l.keptIn s₁.nesting s₁.disk).store = .ok store ∧
      s₁.disk.write (Session.storePath l).text (.store store) = .ok s₄.disk ∧
      (runOver e l m store (l.input s₄.disk o files)).runOn s₄ = (.error x, s') := by
  unfold indexTarget at hrun
  rw [runOn_bind_of_ok hlocate] at hrun
  dsimp only at hrun
  rcases hoptions : (Session.loadOptions l.workspace.root).runOn s₁ with ⟨y | o, t₁⟩
  · rw [runOn_bind_of_error hoptions] at hrun
    cases hrun
    refine .inl ⟨((Session.leavesDisk_loadOptions _).of_run hoptions).1,
      .inr (.inr fun o e s₂ hprepare => ?_)⟩
    rw [IndexRequest.prepare, runOn_bind_of_error hoptions] at hprepare
    cases hprepare
  rw [runOn_bind_of_ok hoptions] at hrun
  rcases hembedder : choose.runOn t₁ with ⟨y | e, t₂⟩
  · rw [runOn_bind_of_error hembedder] at hrun
    cases hrun
    refine .inl ⟨?_, .inr (.inr fun o e s₂ hprepare => ?_)⟩
    · rw [(hchoose.of_run hembedder).1, ((Session.leavesDisk_loadOptions _).of_run hoptions).1]
    · rw [IndexRequest.prepare, runOn_bind_of_ok hoptions,
        runOn_bind_of_error hembedder] at hprepare
      cases hprepare
  have hprepare : (r.prepare choose l.workspace).runOn s₁ = (.ok (r.override o, e), t₂) := by
    rw [IndexRequest.prepare, runOn_bind_of_ok hoptions, runOn_bind_of_ok hembedder]
    rfl
  have hunchanged : t₂.disk = s₁.disk ∧ t₂.nesting = s₁.nesting := by
    have hafter := (Session.leavesDisk_loadOptions _).of_run hoptions
    have hchosen := hchoose.of_run hembedder
    exact ⟨hchosen.1.trans hafter.1, hchosen.2.trans hafter.2⟩
  rw [runOn_bind_of_ok hembedder] at hrun
  rcases hfiles : (filesOf l.workspace (r.override o)).runOn t₂ with ⟨y | files, t₃⟩
  · rw [runOn_bind_of_error hfiles] at hrun
    cases hrun
    refine .inl ⟨?_, .inr (.inr fun o e s₂ _ hsingle => ?_)⟩
    · rw [((leavesDisk_filesOf _ _).of_run hfiles).1, hunchanged.1]
    · rw [filesOf_of_single hsingle] at hfiles
      cases hfiles
  have hlisted := (leavesDisk_filesOf _ _).of_run hfiles
  rw [runOn_bind_of_ok hfiles] at hrun
  obtain ⟨t₄, hdisk₄, hmanifest⟩ := runOn_loadManifest l t₃
  rw [hlisted.1, hlisted.2, hunchanged.1, hunchanged.2] at hmanifest
  rw [hlisted.1, hunchanged.1] at hdisk₄
  rcases hm : (l.keptIn s₁.nesting s₁.disk).manifest with err | m
  · rw [hm] at hmanifest
    rw [runOn_bind_of_error hmanifest] at hrun
    cases hrun
    exact .inl ⟨hdisk₄, .inr (.inl ⟨err, rfl⟩)⟩
  rw [hm] at hmanifest
  rw [runOn_bind_of_ok hmanifest] at hrun
  rcases Session.openStore_cases l t₄ with
    ⟨y, t₅, hopen, hdisk₅⟩ | ⟨store, t, hopen, hstore, hwrite⟩
  · rw [runOn_bind_of_error hopen] at hrun
    cases hrun
    exact .inl ⟨hdisk₅.trans hdisk₄, .inl ⟨y, rfl⟩⟩
  rw [hdisk₄] at hwrite
  have hrows := hstore s₁.nesting
  rw [hdisk₄] at hrows
  rw [runOn_bind_of_ok hopen] at hrun
  obtain ⟨s₄, hdisk, hrun⟩ := exists_runOn_of_printLine hrun
  rw [runOn_bind_of_ok (runOn_get _)] at hrun
  rcases hover : (runOver e l m store (l.input s₄.disk (r.override o) files)).runOn s₄ with
    ⟨y | summary, s₅⟩
  · have heq := (runOn_bind_of_error hover _).symm.trans hrun
    cases heq
    exact .inr ⟨_, e, t₂, files, t₃, m, store, s₄, hprepare, hfiles, rfl, hrows, hdisk ▸ hwrite,
      hover⟩
  · -- what is printed at the end does not fail
    have hrest := (runOn_bind_of_ok hover _).symm.trans hrun
    refine ((?_ : Raises _ fun _ => False) _ _ _ hrest).elim
    refine raises_bind (raises_modify _) fun _ => raises_bind (raises_modify _) fun _ =>
      raises_bind (raises_modify _) fun _ => raises_bind (raises_modify _) fun _ => ?_
    split
    · exact raises_bind (raises_modify _) fun _ => raises_pure _
    · exact raises_pure _

/-- What loses the rows of an index: a single file is asked for, with an embedder other than that
of the index and a limit that is no number of bytes. -/
structure IndexRequest.LosesRows (choose : Action (Session τ) CommandError (Embedder τ))
    (r : IndexRequest) (l : IndexLocation) (k : Kept) (s : Session τ) : Prop where
  singleFile : l.workspace.isSingleFile = true
  noLimit : ∃ o e s', (r.prepare choose l.workspace).runOn s = (.ok (o, e), s') ∧
    (∃ err, o.maxFileBytes = .error err) ∧
      ∃ m, k.manifest = .ok m ∧ RunState.isOutdated m e.modelId = true
  rows : ∃ store, k.store = .ok store ∧ store.rows ≠ []

/-- A call that fails, but not for the embedder or the store, leaves the disk alone if it found no
index.  Else it leaves the manifest as it was, and the rows as well unless it is one that loses
them; or the run was over and the manifest could not be written.  The path of the index is to
lead to a folder already, or to be one without `..`: what is made for such a path can make the
index of another folder appear below it. -/
theorem indexTarget_rejected (hchoose : LeavesDisk choose)
    (hrun : (indexTarget choose r).runOn s = (.error x, s')) (hinner : ¬ x.IsInner) :
    (∀ y s₁, (Session.locate r.path r.localStore r.name).runOn s = (.error y, s₁) →
      s'.disk = s.disk) ∧
    ∀ l s₁, (Session.locate r.path r.localStore r.name).runOn s = (.ok l, s₁) →
      (s.disk.isFolder l.path = true ∨ ∀ c ∈ l.path.names, PathName c) →
      (l.keptIn s.nesting s'.disk).manifest = (l.keptIn s.nesting s.disk).manifest ∧
      ((∀ e, x ≠ .file e l.manifestPath.text) →
        ((l.keptIn s.nesting s'.disk).store = (l.keptIn s.nesting s.disk).store ↔
          ¬ r.LosesRows choose l (l.keptIn s.nesting s.disk) s₁)) := by
  refine ⟨fun y s₁ hlocate => ?_, fun l s₁ hlocate hpath => ?_⟩
  · have heq := (runOn_bind_of_error hlocate _).symm.trans hrun
    cases heq
    rcases Session.locate_cases r.path r.localStore r.name s with ⟨_, _, h, hdisk⟩ | ⟨_, _, h, -⟩
    · rw [hlocate] at h
      cases h
      exact hdisk
    · rw [hlocate] at h
      cases h
  have hlocated : s₁.nesting = s.nesting ∧
      l.keptIn s.nesting s₁.disk = l.keptIn s.nesting s.disk := by
    rcases Session.locate_cases r.path r.localStore r.name s with ⟨_, _, h, -⟩ | ⟨_, t, h, hmade⟩
    · rw [hlocate] at h
      cases h
    · rw [hlocate] at h
      cases h
      exact ⟨rfl, IndexLocation.keptIn_makeFolders hmade hpath⟩
  have hcases := indexTarget_cases hchoose hlocate hrun
  rw [← hlocated.2]
  rw [hlocated.1] at hcases
  rcases hcases with ⟨hdisk, hearly⟩ |
    ⟨o, e, s₂, files, s₃, m, store, s₄, hprepare, hfiles, hm, hstore, hwrite, hover⟩
  · rw [hdisk]
    refine ⟨rfl, fun _ => iff_of_true rfl fun hloses => ?_⟩
    obtain ⟨o, e, s₂, hprepare, -, m, hm, -⟩ := hloses.noLimit
    rcases hearly with ⟨y, rfl⟩ | ⟨err, herr⟩ | hfolder
    · exact hinner ⟨.store y, trivial, rfl⟩
    · rw [herr] at hm
      cases hm
    · exact hfolder o e s₂ hprepare hloses.singleFile
  have hopen := IndexLocation.keptIn_write_store hstore hwrite
  rcases runOver_error s.nesting ⟨_, hwrite⟩ hover with
    ⟨y, rfl, hmanifest⟩ | ⟨y, result, hresult, rfl, hkept⟩
  · rw [hmanifest, hopen]
    exact ⟨rfl, fun hfile => absurd rfl (hfile y)⟩
  obtain ⟨hsingle, hlimit, hsaved, hrows⟩ :=
    (run_input_error hfiles hresult).resolve_left fun hy => hinner ⟨y, hy, rfl⟩
  rw [hkept hsaved, hopen, hrows, hstore]
  refine ⟨rfl, fun _ => ?_⟩
  by_cases hout : RunState.isOutdated m e.modelId = true
  · rw [Index.opened_of_outdated hout]
    obtain ⟨rows⟩ := store
    constructor
    · intro hsame hloses
      obtain ⟨_, hstore', hrows'⟩ := hloses.rows
      cases hstore.symm.trans hstore'
      cases hsame
      exact hrows' rfl
    · intro hkeeps
      by_cases hnone : rows = []
      · rw [hnone]
      · exact absurd ⟨hsingle, ⟨o, e, s₂, hprepare, hlimit, m, hm, hout⟩, _, hstore, hnone⟩ hkeeps
  · rw [Index.opened_of_current hout]
    refine iff_of_true rfl fun hloses => ?_
    obtain ⟨o', e', s₂', hprepare', -, m', hm', hout'⟩ := hloses.noLimit
    rw [hprepare] at hprepare'
    cases hprepare'
    cases hm.symm.trans hm'
    exact hout hout'

end Call

/-! ## An unknown embedder -/

section Example

/-- The index of the folder at the root, for a file in it. -/
def indexAtRoot : IndexLocation where
  baseDir := ⟨.root, [storeFolderName]⟩
  workspace := { root := ⟨.root, []⟩, target := ⟨.root, ["A.java"]⟩, isSingleFile := true }

/-- A disk with an empty file at the root and an index with a row. -/
def indexedDisk : Disk FileContent where
  root := .folder
    [("A.java", .file (.bytes .empty)),
      (storeFolderName, .folder [("workspaces", .folder [(indexAtRoot.workspace.id, .folder
        [(Handle.fileName, .file (.store { rows := [default] }))])])])]

theorem find_indexedDisk {names : List String} {n : Node FileContent}
    (hn : indexedDisk.root.at? names = some n) (hnames : ∀ s ∈ names, PathName s) (hne : names ≠ [])
    (htext : PathText (Files.Path.mk .root names).text) (hlink : ∀ target, n ≠ .link target) :
    indexedDisk.find (Files.Path.mk .root names).text = .ok n := by
  have hroot : indexedDisk.find (Files.Path.mk .root []).text = .ok indexedDisk.root := by
    have hsteps : stepsOf "/" = ["", ""] := by cbv
    have hspot : indexedDisk.spotOf "/" = .ok (.present []) := by
      rw [Disk.spotOf_of_pathText (by decide), hsteps, if_pos (by cbv), maxLinks, resolveSteps]
      simp [follow, indexedDisk, Node.at?]
    rw [show (Files.Path.mk .root []).text = "/" from by decide, Disk.find, hspot]
    rfl
  exact Disk.find_below hroot hn hnames hne htext (.inr hlink)

theorem storeFolderName_ne : (storeFolderName == "A.java") = false := by decide

theorem isFolder_indexAtRoot : indexedDisk.isFolder indexAtRoot.path = true := by
  have hplace : indexedDisk.root.at? [storeFolderName, "workspaces", indexAtRoot.workspace.id] =
      some (.folder [(Handle.fileName, .file (.store { rows := [default] }))]) := by
    simp [indexedDisk, Node.at?, Node.child?, List.lookup_cons, storeFolderName_ne]
  have hnames : ∀ s ∈ [storeFolderName, "workspaces", indexAtRoot.workspace.id], PathName s := by
    decide +kernel
  rw [Disk.isFolder, show indexAtRoot.path =
    ⟨.root, [storeFolderName, "workspaces", indexAtRoot.workspace.id]⟩ from rfl,
    find_indexedDisk hplace hnames (List.cons_ne_nil _ _) (by decide +kernel)
      fun target h => by cases h]

theorem locate_indexedDisk {τ : Type} (home : Path) (world : τ) :
    (Session.locate "/A.java" true).runOn { disk := indexedDisk, home, world } =
      (.ok indexAtRoot, { disk := indexedDisk, home, world }) := by
  have hpath : Path.ofString "/A.java" = ⟨.root, ["A.java"]⟩ := by
    have hsplit : "/A.java".splitOn "/" = ["", "A.java"] := by
      rw [show "/A.java".splitOn "/" = stepsOf "/A.java" from rfl, stepsOf_eq]
      decide +kernel
    rw [Path.ofString, hsplit]
    decide +kernel
  have hplace : indexedDisk.root.at? ["A.java"] = some (.file (.bytes .empty)) := by
    simp [indexedDisk, Node.at?, Node.child?]
  have hfile : indexedDisk.find (Files.Path.mk .root ["A.java"]).text =
      .ok (.file (.bytes .empty)) := by
    exact find_indexedDisk hplace (by decide) (List.cons_ne_nil _ _) (by decide)
      fun target h => by cases h
  have hreal : indexedDisk.realPath ⟨.root, ["A.java"]⟩ = .ok ⟨.root, ["A.java"]⟩ := by
    have hsteps : Disk.realSteps indexedDisk.root (4096 + 1) [] [] [.name "A.java"] =
        ["A.java"] := by
      rw [Disk.realSteps]
      simp [hplace, Disk.realSteps]
    have hreal' : (if Anchor.root = .relative then indexedDisk.cwd else []) = [] := rfl
    unfold Disk.realPath
    dsimp only
    rw [hreal', show ["A.java"].map Disk.RealStep.name = [.name "A.java"] from rfl,
      show ["A.java"].length = 1 from rfl, hsteps, hfile]
  have hlook : indexedDisk.look ⟨.root, ["A.java"]⟩ = .ok (some (.file (.bytes .empty))) := by
    rw [Disk.look, hfile]
  have hworkspace : Workspace.ofPath indexedDisk home "/A.java" = .ok indexAtRoot.workspace := by
    rw [Workspace.ofPath, hpath, show Path.expandHome ⟨.root, ["A.java"]⟩ home = .ok _ from rfl]
    dsimp only
    rw [hreal]
    dsimp only
    rw [Disk.isFile, hlook]
    rfl
  have hmade := Disk.makeFolders_of_isFolder isFolder_indexAtRoot
  have hthere : indexedDisk.hasPath indexAtRoot.workspace.target = .ok true := by
    rw [Disk.hasPath, show indexAtRoot.workspace.target = ⟨.root, ["A.java"]⟩ from rfl, hlook]
    rfl
  unfold Session.locate
  rw [runOn_bind_of_ok (runOn_get _)]
  dsimp only
  rw [hworkspace, runOn_bind_of_ok (Session.runOn_check_ok _ _ _), hthere,
    runOn_bind_of_ok (Session.runOn_check_ok _ _ _), Bool.not_true, if_neg Bool.false_ne_true,
    show IndexLocation.ofWorkspace home indexAtRoot.workspace true = indexAtRoot from rfl, hmade]
  rfl

/-- A call with an embedder that is not known leaves the index as it was. -/
theorem indexTarget_rejected_unknownEmbedder :
    ∃ x s', (indexTarget (Backends.makeForIndex { embedder := "none" })
        { path := "/A.java", localStore := true }).runOn
          { disk := indexedDisk, home := ⟨.root, []⟩, world := {} } = (.error x, s') ∧
      (indexAtRoot.keptIn .standard s'.disk).store =
        (indexAtRoot.keptIn .standard indexedDisk).store := by
  set s : Session Backends := { disk := indexedDisk, home := ⟨.root, []⟩, world := {} }
  have hlocate : (Session.locate "/A.java" true none).runOn s = (.ok indexAtRoot, s) :=
    locate_indexedDisk ⟨.root, []⟩ ({} : Backends)
  have hoptions : (Session.loadOptions indexAtRoot.workspace.root).runOn s = (.ok {}, s) := by
    have hplace : indexedDisk.root.at? [storeFolderName] = some (.folder [("workspaces", .folder
        [(indexAtRoot.workspace.id, .folder
          [(Handle.fileName, .file (.store { rows := [default] }))])])]) := by
      simp [indexedDisk, Node.at?, Node.child?, List.lookup_cons, storeFolderName_ne]
    have hfolder := find_indexedDisk hplace (by decide) (List.cons_ne_nil _ _) (by decide)
      fun target h => by cases h
    have hnone : indexedDisk.find (settingsPath indexAtRoot.workspace.root).text =
        .error .notFound :=
      Disk.find_below_missing hfolder (by decide : PathName settingsFileName) (by decide)
        (by decide)
    have hload : IndexOptions.load FileContent.toBytes indexedDisk indexAtRoot.workspace.root =
        { options := {} } := by
      rw [IndexOptions.load, Disk.contentAt, Disk.look, hnone]
    rw [Session.loadOptions, runOn_bind_of_ok (runOn_get s), show s.disk = indexedDisk from rfl,
      hload]
    rfl
  have hchoose : (Backends.makeForIndex { embedder := "none" }).runOn s =
      (.error (.badParameter "Unknown embedder: none (expected ollama or sbert)"), s) := by
    rfl
  have hrun : (indexTarget (Backends.makeForIndex { embedder := "none" })
      { path := "/A.java", localStore := true }).runOn s =
      (.error (.badParameter "Unknown embedder: none (expected ollama or sbert)"), s) := by
    unfold indexTarget
    rw [runOn_bind_of_ok hlocate]
    dsimp only
    rw [runOn_bind_of_ok hoptions, runOn_bind_of_error hchoose]
  refine ⟨_, s, hrun, ?_⟩
  have hkept := (indexTarget_rejected (Backends.leavesDisk_makeForIndex _) hrun ?_).2 indexAtRoot s
    hlocate (.inl isFolder_indexAtRoot)
  · refine (hkept.2 fun e h => by cases h).mpr fun hloses => ?_
    obtain ⟨o, e, s', hprepare, -⟩ := hloses.noLimit
    unfold IndexRequest.prepare at hprepare
    rw [runOn_bind_of_ok hoptions, runOn_bind_of_error hchoose] at hprepare
    cases hprepare
  · rintro ⟨y, -, hy⟩
    cases y <;> cases hy

end Example

end SourceShelf
