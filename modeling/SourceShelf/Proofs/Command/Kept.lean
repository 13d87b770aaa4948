import SourceShelf.Command.Session
import SourceShelf.Proofs.Action
import SourceShelf.Proofs.Files.Folders
import SourceShelf.Proofs.Index.Saved
import SourceShelf.Proofs.Json.Nesting
import SourceShelf.Store.Handle

/-!
# What is kept of an index on a disk

An index is kept in two files of one folder: the rows in the file of a store, and the
manifest.  A store is written when it is opened, with the rows that it holds already.

* `LeavesDisk`: actions that change no file.
* `locate_cases`, `openStore_cases`: the steps that do.
* `keptIn_makeFolders`, `keptIn_write_store`: what the changes do to what is kept.
-/

namespace SourceShelf

open Files SourceShelf.Action

variable {τ : Type}

/-- What is kept of an index: its rows, if a store can be opened there, and its manifest, unless
that is beyond a limit. -/
structure Kept where
  store : Except StoreError Store
  manifest : Except LimitError Manifest

/-- The manifest that a path leads to. -/
def manifestAt (t : Disk FileContent) (p : Path) (limit : Json.NestingLimit) :
    Except LimitError Manifest := (Manifest.load FileContent.toBytes t p limit).map Prod.fst

/-- What a disk keeps of an index, as far as can be nested. -/
def IndexLocation.keptIn (l : IndexLocation) (limit : Json.NestingLimit) (t : Disk FileContent) :
    Kept where
  store := Session.storeIn t (Session.storePath l)
  manifest := manifestAt t l.manifestPath limit

namespace IndexLocation

variable {l : IndexLocation} {limit : Json.NestingLimit} {t t' : Disk FileContent}
variable {store store' : Store}

/-- What is not found, or is no file, is an empty manifest, unless the path is too long. -/
theorem manifestAt_eq (t : Disk FileContent) (p : Path) (limit : Json.NestingLimit) :
    manifestAt t p limit =
      match t.find p.text with
      | .error .nameTooLong => .error (.longPath p.text)
      | .ok (.file content) =>
        match Manifest.ofBytes content.toBytes limit with
        | .ok m => .ok m
        | .error e => e.reported.map fun _ => {}
      | _ => .ok {} := by
  rw [manifestAt, Manifest.load_eq, Disk.contentAt, Disk.look]
  rcases t.find p.text with e | (content | _ | _)
  · cases e <;> rfl
  · dsimp only
    rcases Manifest.ofBytes content.toBytes limit with e | m
    · dsimp only
      cases e.reported <;> rfl
    · rfl
  · rfl
  · rfl

/-! ## Folders -/

/-- An index that has no folder is empty before its folder is made and afterwards. -/
theorem keptIn_makeFolders (h : t.makeFolders l.path = .ok t')
    (hpath : t.isFolder l.path = true ∨ ∀ s ∈ l.path.names, PathName s) :
    l.keptIn limit t' = l.keptIn limit t := by
  rcases Disk.find_makeFolders h hpath with rfl | hnothing
  · rfl
  · obtain ⟨_, hstore, hstore'⟩ := hnothing Handle.fileName (by decide)
    obtain ⟨_, hmanifest, hmanifest'⟩ := hnothing "manifest.json" (by decide)
    rw [keptIn, keptIn, manifestAt_eq, manifestAt_eq, Session.storeIn, Session.storeIn,
      Session.storePath, manifestPath, hstore, hstore', hmanifest, hmanifest']

/-! ## The file of the store -/

/-- True of bytes without brackets that are no manifest. -/
def IsNoManifest (b : ByteArray) : Bool :=
  match decodeUtf8 b, Manifest.ofBytes b with
  | .ok s, .error e => Json.brackets s.toList = 0 && e.reported.toBool
  | _, _ => false

theorem manifest_of_isNoManifest {p : Path} {content : FileContent}
    (h : t.find p.text = .ok (.file content)) (hcontent : IsNoManifest content.toBytes = true) :
    manifestAt t p limit = .ok {} := by
  unfold IsNoManifest at hcontent
  split at hcontent
  · rename_i s e hs he
    rw [Bool.and_eq_true, decide_eq_true_eq] at hcontent
    -- without brackets, all readers read the same
    have hsame : Manifest.ofBytes content.toBytes limit = Manifest.ofBytes content.toBytes := by
      rw [Manifest.ofBytes, Manifest.ofBytes, Json.readDocument_of_brackets_le hs
        (hcontent.1 ▸ Nat.zero_le _) (hcontent.1 ▸ Nat.zero_le _)]
    rw [manifestAt_eq, h]
    dsimp only
    rw [hsame, he]
    dsimp only
    rcases hreported : e.reported with x | text <;> rw [hreported] at hcontent
    · cases hcontent.2
    · rfl
  · cases hcontent

/-- A store is no manifest. -/
theorem manifest_of_store {p : Path} (h : t.find p.text = .ok (.file (.store store))) :
    manifestAt t p limit = .ok {} :=
  manifest_of_isNoManifest h (by decide +kernel : IsNoManifest storeMark = true)

/-- Where a store can be opened there is no manifest: there is a store, or nothing, or an empty
file. -/
theorem manifest_of_storeIn {p : Path} (h : Session.storeIn t p = .ok store) :
    manifestAt t p limit = .ok {} := by
  unfold Session.storeIn at h
  split at h
  · rename_i hfind
    exact manifest_of_store hfind
  · rename_i b hfind
    split at h
    · rename_i hempty
      obtain rfl : b = .empty := ByteArray.size_eq_zero_iff.mp (beq_iff_eq.mp hempty)
      exact manifest_of_isNoManifest hfind (by decide +kernel : IsNoManifest .empty = true)
    · cases h
  · cases h
  · rename_i hfind
    rw [manifestAt_eq, hfind]
  · cases h

/-- The same files are read as the same manifest. -/
theorem manifest_congr {p : Path}
    (hlong : t'.find p.text = .error .nameTooLong ↔ t.find p.text = .error .nameTooLong)
    (h : ∀ c, t'.find p.text = .ok (.file c) ↔ t.find p.text = .ok (.file c)) :
    manifestAt t' p limit = manifestAt t p limit := by
  have hempty {t : Disk FileContent} (hshort : t.find p.text ≠ .error .nameTooLong)
      (hnone : ∀ c, t.find p.text ≠ .ok (.file c)) : manifestAt t p limit = .ok {} := by
    rw [manifestAt_eq]
    split
    · rename_i he
      exact absurd he hshort
    · rename_i c hc
      exact absurd hc (hnone c)
    · rfl
  by_cases hfile : ∃ c, t.find p.text = .ok (.file c)
  · obtain ⟨c, hc⟩ := hfile
    rw [manifestAt_eq, manifestAt_eq, (h c).mpr hc, hc]
  by_cases htoo : t.find p.text = .error .nameTooLong
  · rw [manifestAt_eq, manifestAt_eq, hlong.mpr htoo, htoo]
  · rw [hempty htoo (not_exists.mp hfile), hempty (mt hlong.mp htoo)
      fun c hc => hfile ⟨c, (h c).mp hc⟩]

/-- Writing the file of a store that is there, or a new one, changes the rows alone. -/
theorem keptIn_write_store (hstore : (l.keptIn limit t).store = .ok store)
    (h : t.write (Session.storePath l).text (.store store') = .ok t') :
    l.keptIn limit t' = ⟨.ok store', (l.keptIn limit t).manifest⟩ := by
  have hfound := Disk.find_write h
  have hrows : Session.storeIn t' (Session.storePath l) = .ok store' := by
    rw [Session.storeIn, hfound]
  have hmanifest : manifestAt t' l.manifestPath limit = manifestAt t l.manifestPath limit := by
    rcases Disk.find_write_other h l.manifestPath.text with ⟨hafter, hbefore⟩ | ⟨hlong, hsame⟩
    · -- both files are one
      have hthere : Session.storeIn t l.manifestPath = .ok store := by
        rw [Session.storeIn, hbefore]
        exact hstore
      rw [manifest_of_store hafter, manifest_of_storeIn hthere]
    · exact manifest_congr hlong hsame
  rw [keptIn, hrows, hmanifest]
  rfl

end IndexLocation

/-! ## Actions that change no file -/

/-- An action that changes no file and no limit, whether it fails or not. -/
def LeavesDisk {ε α : Type} (a : Action (Session τ) ε α) : Prop :=
  ∀ s, (a.runOn s).2.disk = s.disk ∧ (a.runOn s).2.nesting = s.nesting

section LeavesDisk

variable {ε ε' α β : Type}

theorem leavesDisk_pure (x : α) : LeavesDisk (pure x : Action (Session τ) ε α) :=
  fun _ => ⟨rfl, rfl⟩

theorem leavesDisk_throw (e : ε) : LeavesDisk (throw e : Action (Session τ) ε α) :=
  fun _ => ⟨rfl, rfl⟩

theorem leavesDisk_ofExcept (r : Except ε α) :
    LeavesDisk (Action.ofExcept r : Action (Session τ) ε α) := fun _ => ⟨rfl, rfl⟩

theorem leavesDisk_get : LeavesDisk (get : Action (Session τ) ε (Session τ)) :=
  fun _ => ⟨rfl, rfl⟩

theorem leavesDisk_modify {f : Session τ → Session τ}
    (h : ∀ s, (f s).disk = s.disk ∧ (f s).nesting = s.nesting) :
    LeavesDisk (modify f : Action (Session τ) ε Unit) := h

theorem leavesDisk_bind {a : Action (Session τ) ε α} {f : α → Action (Session τ) ε β}
    (ha : LeavesDisk a) (hf : ∀ x, LeavesDisk (f x)) : LeavesDisk (a >>= f) := by
  intro s
  have hfirst := ha s
  rcases h : a.runOn s with ⟨e | x, s'⟩
  · rw [h] at hfirst
    rw [runOn_bind_of_error h]
    exact hfirst
  · rw [h] at hfirst
    rw [runOn_bind_of_ok h, (hf x s').1, (hf x s').2]
    exact hfirst

theorem LeavesDisk.of_run {a : Action (Session τ) ε α} (h : LeavesDisk a) {s s' : Session τ}
    {r : Except ε α} (hrun : a.runOn s = (r, s')) : s'.disk = s.disk ∧ s'.nesting = s.nesting := by
  have hs := h s
  rw [hrun] at hs
  exact hs

end LeavesDisk

namespace Session

theorem leavesDisk_printLine (line : String) :
    LeavesDisk (printLine line : Action (Session τ) _ _) :=
  leavesDisk_modify fun _ => ⟨rfl, rfl⟩

theorem leavesDisk_loadOptions (folder : Path) :
    LeavesDisk (loadOptions folder : Action (Session τ) _ _) :=
  leavesDisk_bind leavesDisk_get fun _ =>
    leavesDisk_bind (leavesDisk_modify fun _ => ⟨rfl, rfl⟩) fun _ => leavesDisk_ofExcept _

/-! ## Actions that write -/

theorem runOn_check_ok {ε α : Type} (wrap : ε → CommandError) (x : α) (s : Session τ) :
    (check wrap (.ok x)).runOn s = (.ok x, s) := rfl

theorem runOn_check_error {ε α : Type} (wrap : ε → CommandError) (e : ε) (s : Session τ) :
    (check wrap (.error e : Except ε α)).runOn s = (.error (wrap e), s) := rfl

theorem runOn_writeFile_ok {path : String} {content : FileContent} {t : Disk FileContent}
    (h : s.disk.write path content = .ok t) :
    (writeFile path content).runOn s = (.ok (), { s with disk := t }) := by
  rw [writeFile, runOn_bind_of_ok (runOn_get s), h]
  exact runOn_bind_of_ok (runOn_check_ok _ t s) _

theorem runOn_writeFile_error {path : String} {content : FileContent} {e : FileError}
    (h : s.disk.write path content = .error e) :
    (writeFile path content).runOn s = (.error (.file e path), s) := by
  rw [writeFile, runOn_bind_of_ok (runOn_get s), h]
  exact runOn_bind_of_error (runOn_check_error _ e s) _

/-- The folder of an index is made, or no file is changed. -/
theorem locate_cases (path : String) (isLocal : Bool) (name : Option String) (s : Session τ) :
    (∃ y s₁, (locate path isLocal name).runOn s = (.error y, s₁) ∧ s₁.disk = s.disk) ∨
      ∃ l t, (locate path isLocal name).runOn s = (.ok l, { s with disk := t }) ∧
        s.disk.makeFolders l.path = .ok t := by
  unfold locate
  rw [runOn_bind_of_ok (runOn_get s)]
  rcases hw : Workspace.ofPath s.disk s.home path name with e | w
  · exact .inl ⟨_, s, runOn_bind_of_error (runOn_check_error _ e s) _, rfl⟩
  rw [runOn_bind_of_ok (runOn_check_ok _ w s)]
  rcases hthere : s.disk.hasPath w.target with e | there
  · exact .inl ⟨_, s, runOn_bind_of_error (runOn_check_error _ e s) _, rfl⟩
  rw [runOn_bind_of_ok (runOn_check_ok _ there s)]
  cases there with
  | false => exact .inl ⟨_, s, rfl, rfl⟩
  | true =>
    dsimp only
    rw [Bool.not_true, if_neg Bool.false_ne_true]
    rcases hmade : s.disk.makeFolders (IndexLocation.ofWorkspace s.home w isLocal).path with e | t
    · exact .inl ⟨_, s, runOn_bind_of_error (runOn_check_error _ e s) _, rfl⟩
    · exact .inr ⟨_, t, runOn_bind_of_ok (runOn_check_ok _ t s) _, hmade⟩

/-- A store is opened and written with the rows that it holds, or no file is changed. -/
theorem openStore_cases (l : IndexLocation) (s : Session τ) :
    (∃ y s₁, (openStore l).runOn s = (.error (.store y), s₁) ∧ s₁.disk = s.disk) ∨
      ∃ store t, (openStore l).runOn s = (.ok store, { s with disk := t }) ∧
        (∀ limit, (l.keptIn limit s.disk).store = .ok store) ∧
        s.disk.write (storePath l).text (.store store) = .ok t := by
  unfold openStore
  rw [runOn_bind_of_ok (runOn_get s)]
  rcases hstore : storeIn s.disk (storePath l) with e | store
  · exact .inl ⟨e, s, runOn_bind_of_error (runOn_check_error _ e s) _, rfl⟩
  rw [runOn_bind_of_ok (runOn_check_ok _ store s), runOn_bind_of_ok (runOn_get s)]
  rcases hwrite : s.disk.write (storePath l).text (.store store) with e | t
  · exact .inl ⟨_, s, runOn_bind_of_error (runOn_check_error _ e s) _, rfl⟩
  · exact .inr ⟨store, t, runOn_bind_of_ok (runOn_check_ok _ t s) _, fun _ => hstore, hwrite⟩

end Session

end SourceShelf
