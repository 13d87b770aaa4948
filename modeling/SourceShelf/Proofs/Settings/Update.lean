import SourceShelf.Proofs.Decimal.Overflow
import SourceShelf.Proofs.Files.Links
import SourceShelf.Proofs.Json.Nesting

/-!
# What a settings file does

An update sets every field for which a payload has a value of the right type, and reports
all others (`IndexOptions.merged`, `warnings`).  There is one exception: a limit on sizes
that is a whole number too large for a `Float` stops it, after the two fields before the
limit have been set.  A settings file comes to such an update, or is reported, unless it
nests too deep or its path is too long (`settingsBeyond`).

* `setFields`, `setFields_refused`: a run over fields, and one that a field stops.
* `IndexOptions.update_eq`: the options and the log after an update.
* `IndexOptions.load_exact`: what a settings file comes to, whatever bytes it holds.
-/

namespace SourceShelf

open Files

/-! ## Fields -/

section Fields

variable {payload : List (String × Json.Value)} {f : OptionField} {fs : List OptionField}

/-- What a payload asks for under a name, if it is of the right type. -/
def asked {β : Type} (payload : List (String × Json.Value)) (name : String)
    (read : Json.Value → Option β) : Option β :=
  (payload.lookup name).bind read

namespace OptionField

/-- The change that a payload asks of a field. -/
def wanted (payload : List (String × Json.Value)) (f : OptionField) : Option OptionChange :=
  asked payload f.name f.change?

/-- Options with what a payload asks of a field. -/
def applied (payload : List (String × Json.Value)) (o : IndexOptions) (f : OptionField) :
    IndexOptions :=
  match f.wanted payload with
  | some (.ok change) => change o
  | _ => o

/-- The report of a value that is not of the right type. -/
def report? (payload : List (String × Json.Value)) (f : OptionField) : Option LogRecord :=
  (payload.lookup f.name).bind fun v =>
    if (f.change? v).isSome then none
    else some (.warning
      ("Ignoring setting " ++ f.name ++ "=" ++ Json.shown v ++ ": expected " ++ f.expected))

end OptionField

namespace OptionUpdate

variable {u : OptionUpdate}

theorem setField_stopped (h : u.stopped.isSome) : u.setField (.obj payload) f = u := by
  rw [setField, if_pos h]

/-- One field that is not refused. -/
theorem setField_going (h : u.stopped = none) (hf : ∀ e, f.wanted payload ≠ some (.error e)) :
    u.setField (.obj payload) f =
      { options := f.applied payload u.options, log := u.log ++ (f.report? payload).toList } := by
  obtain ⟨options, log, stopped⟩ := u
  obtain rfl : stopped = none := h
  unfold setField OptionField.applied OptionField.report? OptionField.wanted asked at *
  rw [if_neg (by simp), Json.Value.get?]
  rcases hlookup : payload.lookup f.name with _ | v
  · simp
  · rw [hlookup] at hf
    rw [Option.bind_some] at hf ⊢
    rcases hchange : f.change? v with _ | (e | change)
    · simp [hchange]
    · exact absurd hchange (hf e)
    · simp [hchange]

theorem setField_refused (h : u.stopped = none) {e : LimitError}
    (hf : f.wanted payload = some (.error e)) :
    u.setField (.obj payload) f = { u with stopped := some e } := by
  obtain ⟨v, hv, hchange⟩ := Option.bind_eq_some_iff.mp hf
  rw [setField, h, if_neg (by simp), Json.Value.get?, hv]
  dsimp only
  rw [hchange]

/-- All fields, if none is refused. -/
theorem setFields (h : u.stopped = none)
    (hfs : ∀ f ∈ fs, ∀ e, f.wanted payload ≠ some (.error e)) :
    fs.foldl (setField (.obj payload)) u =
      { options := fs.foldl (OptionField.applied payload) u.options
        log := u.log ++ fs.filterMap (OptionField.report? payload) } := by
  induction fs generalizing u with
  | nil =>
    obtain ⟨options, log, stopped⟩ := u
    obtain rfl : stopped = none := h
    simp
  | cons f fs ih =>
    rw [List.foldl_cons, setField_going h (hfs f List.mem_cons_self),
      ih rfl fun f' hf' => hfs f' (List.mem_cons_of_mem _ hf'), List.foldl_cons,
      List.append_assoc]
    cases hreport : f.report? payload <;> simp [hreport]

/-- Nothing is set once an update has stopped. -/
theorem setFields_stopped (h : u.stopped.isSome) : fs.foldl (setField (.obj payload)) u = u := by
  induction fs with
  | nil => rfl
  | cons f fs ih => rw [List.foldl_cons, setField_stopped h, ih]

end OptionUpdate

/-! ## Updates -/

/-- True of a payload with a limit that is a whole number too large for a `Float`. -/
def Oversized (payload : List (String × Json.Value)) : Prop :=
  ∃ n, payload.lookup "max_file_mb" = some (.int n) ∧ Decimal.overflowBound ≤ n.natAbs

/-- Options with all that a payload asks for. -/
def IndexOptions.merged (o : IndexOptions) (payload : List (String × Json.Value)) :
    IndexOptions where
  includeExt := (asked payload "include_ext" OptionField.strings?).getD o.includeExt
  excludeGlobs := (asked payload "exclude_globs" OptionField.strings?).getD o.excludeGlobs
  maxFileMb :=
    ((asked payload "max_file_mb" OptionField.number?).bind Except.toOption).getD o.maxFileMb
  followSymlinks := (asked payload "follow_symlinks" Json.Value.bool?).getD o.followSymlinks
  useGitignore := (asked payload "use_gitignore" Json.Value.bool?).getD o.useGitignore
  batchSize := max 1 ((asked payload "batch_size" Json.Value.int?).getD o.batchSize)
  memberImports := (asked payload "member_imports" Json.Value.bool?).getD o.memberImports

/-- The reports of values that are not of the right type, and of keys that are no fields. -/
def warnings (payload : List (String × Json.Value)) : List LogRecord :=
  OptionField.all.filterMap (OptionField.report? payload) ++
    (OptionUpdate.unknownKeys payload).map fun k =>
      .warning ("Unknown setting " ++ quoted k ++ " ignored")

/-- Options with the two fields that stand before the limit. -/
def IndexOptions.mergedToLimit (o : IndexOptions) (payload : List (String × Json.Value)) :
    IndexOptions :=
  { o with
    includeExt := (asked payload "include_ext" OptionField.strings?).getD o.includeExt
    excludeGlobs := (asked payload "exclude_globs" OptionField.strings?).getD o.excludeGlobs }

namespace OptionField

variable {name : String} {o : IndexOptions}

/-- What a field asks for is set in place of what there is. -/
theorem applied_of_wanted {β : Type} {x : Option β} {set : β → IndexOptions → IndexOptions}
    (hf : f.wanted payload = x.map fun a => .ok (set a)) (get : IndexOptions → β)
    (hset : set (get o) o = o) : f.applied payload o = set (x.getD (get o)) o := by
  unfold applied
  rw [hf]
  cases x with
  | none => exact hset.symm
  | some a => rfl

theorem wanted_ofStrings (set : List String → IndexOptions → IndexOptions) :
    (ofStrings name set).wanted payload =
      (asked payload name strings?).map fun x => .ok (set x) := by
  rw [wanted, asked, asked, Option.map_bind]
  rfl

theorem wanted_ofBool (set : Bool → IndexOptions → IndexOptions) :
    (ofBool name set).wanted payload =
      (asked payload name Json.Value.bool?).map fun x => .ok (set x) := by
  rw [wanted, asked, asked, Option.map_bind]
  rfl

theorem wanted_ofInt (set : Int → IndexOptions → IndexOptions) :
    (ofInt name set).wanted payload =
      (asked payload name Json.Value.int?).map fun x => .ok (set x) := by
  rw [wanted, asked, asked, Option.map_bind]
  rfl

theorem wanted_ofNumber (set : Float → IndexOptions → IndexOptions) :
    (ofNumber name set).wanted payload =
      (asked payload name number?).map fun x => x.map set := by
  rw [wanted, asked, asked, Option.map_bind]
  rfl

theorem applied_ofNumber {set : Float → IndexOptions → IndexOptions} (get : IndexOptions → Float)
    (hset : set (get o) o = o) :
    (ofNumber name set).applied payload o =
      set (((asked payload name number?).bind Except.toOption).getD (get o)) o := by
  unfold applied
  rw [wanted_ofNumber]
  rcases asked payload name number? with _ | (e | x)
  · exact hset.symm
  · exact hset.symm
  · rfl

/-- A number is refused if it is whole and too large. -/
theorem asked_number_eq_error {e : LimitError} :
    asked payload "max_file_mb" number? = some (.error e) ↔ e = .tooLarge ∧ Oversized payload := by
  rw [asked, Option.bind_eq_some_iff]
  constructor
  · rintro ⟨v, hv, hnumber⟩
    cases v with
    | int n =>
      obtain ⟨rfl, hn⟩ := floatOfInt_eq_error_iff.mp (Option.some_inj.mp hnumber)
      exact ⟨rfl, n, hv, hn⟩
    | _ => cases hnumber
  · rintro ⟨rfl, n, hv, hn⟩
    exact ⟨_, hv, congrArg some (floatOfInt_eq_error_iff.mpr ⟨rfl, hn⟩)⟩

/-- Only the limit can be refused. -/
theorem wanted_eq_error (hf : f ∈ all) {e : LimitError} (h : f.wanted payload = some (.error e)) :
    f.name = "max_file_mb" ∧ Oversized payload := by
  have hplain {β : Type} {x : Option β} {set : β → IndexOptions → IndexOptions}
      (hx : (x.map fun a => (.ok (set a) : OptionChange)) = some (.error e)) : False := by
    obtain ⟨_, -, ha⟩ := Option.map_eq_some_iff.mp hx
    cases ha
  simp only [all, List.mem_cons, List.not_mem_nil, or_false] at hf
  obtain rfl | rfl | rfl | rfl | rfl | rfl | rfl := hf
  · exact (hplain ((wanted_ofStrings _).symm.trans h)).elim
  · exact (hplain ((wanted_ofStrings _).symm.trans h)).elim
  · obtain ⟨x, hx, hmap⟩ := Option.map_eq_some_iff.mp ((wanted_ofNumber _).symm.trans h)
    cases x with
    | error e' => exact ⟨rfl, (asked_number_eq_error.mp hx).2⟩
    | ok x => cases hmap
  · exact (hplain ((wanted_ofBool _).symm.trans h)).elim
  · exact (hplain ((wanted_ofBool _).symm.trans h)).elim
  · exact (hplain ((wanted_ofInt _).symm.trans h)).elim
  · exact (hplain ((wanted_ofBool _).symm.trans h)).elim

end OptionField

namespace IndexOptions

/-- An update sets and reports all there is to set and to report. -/
theorem update_eq (o : IndexOptions) (h : ¬ Oversized payload) :
    o.update payload = { options := o.merged payload, log := warnings payload } := by
  unfold IndexOptions.update
  rw [OptionUpdate.setFields rfl fun f hf e he => h (OptionField.wanted_eq_error hf he).2]
  unfold OptionUpdate.finish OptionField.all
  rw [if_neg (by simp)]
  rw [List.foldl_cons,
    OptionField.applied_of_wanted (OptionField.wanted_ofStrings _) includeExt rfl, List.foldl_cons,
    OptionField.applied_of_wanted (OptionField.wanted_ofStrings _) excludeGlobs rfl,
    List.foldl_cons, OptionField.applied_ofNumber maxFileMb rfl, List.foldl_cons,
    OptionField.applied_of_wanted (OptionField.wanted_ofBool _) followSymlinks rfl, List.foldl_cons,
    OptionField.applied_of_wanted (OptionField.wanted_ofBool _) useGitignore rfl, List.foldl_cons,
    OptionField.applied_of_wanted (OptionField.wanted_ofInt _) batchSize rfl, List.foldl_cons,
    OptionField.applied_of_wanted (OptionField.wanted_ofBool _) memberImports rfl, List.foldl_nil]
  rfl

/-- A limit that is too large stops an update halfway. -/
theorem update_of_oversized (o : IndexOptions) (h : Oversized payload) :
    o.update payload =
      { options := o.mergedToLimit payload
        log := (OptionField.all.take 2).filterMap (OptionField.report? payload)
        stopped := some .tooLarge } := by
  have hbefore : ∀ f ∈ OptionField.all.take 2, ∀ e, f.wanted payload ≠ some (.error e) := by
    intro f hf e he
    have hname := (OptionField.wanted_eq_error (List.mem_of_mem_take hf) he).1
    simp only [OptionField.all, List.take_succ_cons, List.take_zero, List.mem_cons,
      List.not_mem_nil, or_false] at hf
    obtain rfl | rfl := hf <;> exact absurd hname (by decide)
  have hrefused : (OptionField.ofNumber "max_file_mb" fun x o => { o with maxFileMb := x }).wanted
      payload = some (.error .tooLarge) := by
    rw [OptionField.wanted_ofNumber, OptionField.asked_number_eq_error.mpr ⟨rfl, h⟩]
    rfl
  have hset : (OptionField.all.take 2).foldl (OptionField.applied payload) o =
      o.mergedToLimit payload := by
    unfold OptionField.all
    rw [List.take_succ_cons, List.take_succ_cons, List.take_zero, List.foldl_cons,
      OptionField.applied_of_wanted (OptionField.wanted_ofStrings _) includeExt rfl,
      List.foldl_cons,
      OptionField.applied_of_wanted (OptionField.wanted_ofStrings _) excludeGlobs rfl,
      List.foldl_nil]
    rfl
  have hrun : OptionField.all.foldl (OptionUpdate.setField (.obj payload)) { options := o } =
      { options := o.mergedToLimit payload
        log := (OptionField.all.take 2).filterMap (OptionField.report? payload)
        stopped := some .tooLarge } := by
    have hsplit : OptionField.all = OptionField.all.take 2 ++
        OptionField.ofNumber "max_file_mb" (fun x o => { o with maxFileMb := x }) ::
          OptionField.all.drop 3 := rfl
    rw [hsplit, List.foldl_append, OptionUpdate.setFields rfl hbefore, List.foldl_cons,
      OptionUpdate.setField_refused rfl hrefused, OptionUpdate.setFields_stopped rfl, hset]
    rfl
  rw [IndexOptions.update, hrun, OptionUpdate.finish, if_pos Option.isSome_some]

end IndexOptions

end Fields

/-! ## Settings files -/

section Files

variable {α : Type} {bytesOf : α → ByteArray} {t : Disk α} {folder : Path}

variable {limit : Json.NestingLimit}

/-- The object that the settings file of a folder holds. -/
def settingsAt (bytesOf : α → ByteArray) (t : Disk α) (folder : Path) (limit : Json.NestingLimit) :
    Option (List (String × Json.Value)) :=
  match t.find (settingsPath folder).text with
  | .ok (.file content) => (readDocument (bytesOf content) limit).toOption.bind Json.Value.obj?
  | _ => none

/-- The limit that the settings file of a folder is beyond: its path is too long, or its text nests
too deep. -/
def settingsBeyond (bytesOf : α → ByteArray) (t : Disk α) (folder : Path)
    (limit : Json.NestingLimit) : Option LimitError :=
  match t.find (settingsPath folder).text with
  | .ok (.file content) =>
    match readDocument (bytesOf content) limit with
    | .error (.content (.tooDeep n)) => some (.tooDeep n)
    | _ => none
  | .error .nameTooLong => some (.longPath (settingsPath folder).text)
  | _ => none

namespace IndexOptions

/-- What a settings file comes to, by what stands at its path. -/
theorem load_eq (bytesOf : α → ByteArray) (t : Disk α) (folder : Path) (limit : Json.NestingLimit) :
    load bytesOf t folder limit =
      match t.find (settingsPath folder).text with
      | .ok (.file content) =>
        match readDocument (bytesOf content) limit with
        | .ok (.obj payload) => IndexOptions.update {} payload
        | .ok _ => { options := {}, log := [.warning ("Ignoring settings file " ++
            (settingsPath folder).text ++ ": expected a JSON object")] }
        | .error (.content (.tooDeep n)) => { options := {}, stopped := some (.tooDeep n) }
        | .error e => { options := {}, log := [.warning ("Ignoring unreadable settings file " ++
            (settingsPath folder).text ++ ": " ++ e.message)] }
      | .error .nameTooLong =>
        { options := {}, stopped := some (.longPath (settingsPath folder).text) }
      | _ => { options := {} } := by
  unfold load Disk.contentAt Disk.look
  dsimp only
  rcases t.find (settingsPath folder).text with e | (content | _ | _)
  · cases e <;> rfl
  · dsimp only
    rcases readDocument (bytesOf content) limit with (f | (m | n)) | v
    · rfl
    · rfl
    · rfl
    · cases v <;> rfl
  · rfl
  · rfl

theorem load_of_settings {payload : List (String × Json.Value)}
    (h : settingsAt bytesOf t folder limit = some payload) :
    load bytesOf t folder limit = IndexOptions.update {} payload := by
  unfold settingsAt at h
  rw [load_eq]
  rcases hfind : t.find (settingsPath folder).text with e | (content | _ | _) <;> rw [hfind] at h
  case ok.file =>
    dsimp only at h ⊢
    obtain ⟨v, hv, hobj⟩ := Option.bind_eq_some_iff.mp h
    rcases hread : readDocument (bytesOf content) limit with e | w <;> rw [hread] at hv <;> cases hv
    cases v with
    | obj es =>
      cases hobj
      rfl
    | _ => cases hobj
  all_goals cases h

/-- A file that is beyond a limit stops the loading, and nothing is reported. -/
theorem load_of_beyond {e : LimitError} (h : settingsBeyond bytesOf t folder limit = some e) :
    load bytesOf t folder limit = { options := {}, stopped := some e } := by
  unfold settingsBeyond at h
  rw [load_eq]
  rcases hfind : t.find (settingsPath folder).text with e' | (content | _ | _) <;> rw [hfind] at h
  · cases e' <;> cases h
    rfl
  · dsimp only at h ⊢
    rcases hread : readDocument (bytesOf content) limit with (f | (m | n)) | v <;>
      rw [hread] at h <;> cases h
    rfl
  · cases h
  · cases h

/-- Without an object to follow, there are the defaults; a file that is there is reported. -/
theorem load_of_no_settings (h : settingsAt bytesOf t folder limit = none)
    (hbeyond : settingsBeyond bytesOf t folder limit = none) :
    (load bytesOf t folder limit).options = {} ∧ (load bytesOf t folder limit).stopped = none ∧
      ((load bytesOf t folder limit).log = [] ↔
        ∀ content, t.find (settingsPath folder).text ≠ .ok (.file content)) := by
  unfold settingsAt at h
  unfold settingsBeyond at hbeyond
  rw [load_eq]
  rcases hfind : t.find (settingsPath folder).text with e | (content | _ | _) <;>
    rw [hfind] at h hbeyond
  case ok.file =>
    dsimp only at h hbeyond ⊢
    have hthere : ¬ ∀ content', (.ok (.file content) : Except FileError (Node α)) ≠
        .ok (.file content') := fun hall => hall content rfl
    rcases hread : readDocument (bytesOf content) limit with (f | (m | n)) | v <;>
      rw [hread] at h hbeyond
    · exact ⟨rfl, rfl, iff_of_false (List.cons_ne_nil _ _) hthere⟩
    · exact ⟨rfl, rfl, iff_of_false (List.cons_ne_nil _ _) hthere⟩
    · cases hbeyond
    · cases v with
      | obj es => cases h
      | _ => exact ⟨rfl, rfl, iff_of_false (List.cons_ne_nil _ _) hthere⟩
  case error =>
    cases e
    case nameTooLong => cases hbeyond
    all_goals exact ⟨rfl, rfl, iff_of_true rfl fun _ heq => by cases heq⟩
  all_goals exact ⟨rfl, rfl, iff_of_true rfl fun _ heq => by cases heq⟩

/-- A file with no more brackets than can be nested is beyond no limit. -/
theorem settingsBeyond_of_brackets_le {content : α} {s : String}
    (hfind : t.find (settingsPath folder).text = .ok (.file content))
    (hs : decodeUtf8 (bytesOf content) = .ok s) (h : Json.brackets s.toList ≤ limit.levels) :
    settingsBeyond bytesOf t folder limit = none := by
  have hnot := Json.readDocument_ne_tooDeep hs h
  rw [settingsBeyond, hfind]
  dsimp only
  rcases hread : readDocument (bytesOf content) limit with (f | (m | n)) | v
  · rfl
  · rfl
  · exact absurd hread (hnot n)
  · rfl

/-- A file that opens with more of them is beyond the limit. -/
theorem settingsBeyond_of_opened {content : α} {rest : List Char}
    (hfind : t.find (settingsPath folder).text = .ok (.file content))
    (hbytes : bytesOf content =
      (String.ofList (List.replicate (limit.levels + 1) '[' ++ rest)).toUTF8) :
    settingsBeyond bytesOf t folder limit = some (.tooDeep .list) := by
  rw [settingsBeyond, hfind]
  dsimp only
  rw [hbytes, Json.readDocument_opened]

theorem one_le_batchSize_merged (o : IndexOptions) (payload : List (String × Json.Value)) :
    1 ≤ (o.merged payload).batchSize :=
  le_max_left _ _

/-- The limit is a number of bytes just when it is finite. -/
theorem maxFileBytes_isOk_iff (o : IndexOptions) :
    (∃ limit, o.maxFileBytes = .ok limit) ↔ ∃ negative mantissa exponent,
      Decimal.Binary.ofFloat (o.maxFileMb * 1024 * 1024) = .finite negative mantissa exponent := by
  unfold maxFileBytes truncateFloat
  cases Decimal.Binary.ofFloat (o.maxFileMb * 1024 * 1024) <;> simp

/-- What a settings file comes to, whatever bytes it holds and however much can be nested, and what
an update of any options comes to.  The options are complete and have batches of one chunk at
least, unless the limit on sizes is a whole number too large for a `Float`: then only the two
fields before it are set.  Nothing is loaded, and nothing reported, of a file whose path is too long
or whose text nests too deep; one with no more brackets than can be nested does not, and one that
opens with more of them does.  The limit of complete options can still be no number of bytes. -/
theorem load_exact (bytesOf : α → ByteArray) (t : Disk α) (folder : Path)
    (limit : Json.NestingLimit) :
    (∀ (o : IndexOptions) payload,
      (¬ Oversized payload →
        o.update payload = { options := o.merged payload, log := warnings payload } ∧
          1 ≤ (o.merged payload).batchSize) ∧
      (Oversized payload →
        o.update payload =
          { options := o.mergedToLimit payload
            log := (OptionField.all.take 2).filterMap (OptionField.report? payload)
            stopped := some .tooLarge })) ∧
    (∀ payload, settingsAt bytesOf t folder limit = some payload →
      load bytesOf t folder limit = IndexOptions.update {} payload) ∧
    (∀ e, settingsBeyond bytesOf t folder limit = some e →
      load bytesOf t folder limit = { options := {}, stopped := some e }) ∧
    (settingsAt bytesOf t folder limit = none → settingsBeyond bytesOf t folder limit = none →
      (load bytesOf t folder limit).options = {} ∧ (load bytesOf t folder limit).stopped = none ∧
        ((load bytesOf t folder limit).log = [] ↔
          ∀ content, t.find (settingsPath folder).text ≠ .ok (.file content))) ∧
    (∀ content, t.find (settingsPath folder).text = .ok (.file content) →
      (∀ s, decodeUtf8 (bytesOf content) = .ok s → Json.brackets s.toList ≤ limit.levels →
        settingsBeyond bytesOf t folder limit = none) ∧
      ∀ rest, bytesOf content =
          (String.ofList (List.replicate (limit.levels + 1) '[' ++ rest)).toUTF8 →
        settingsBeyond bytesOf t folder limit = some (.tooDeep .list)) ∧
    ∀ o : IndexOptions, (∃ limit, o.maxFileBytes = .ok limit) ↔ ∃ negative mantissa exponent,
      Decimal.Binary.ofFloat (o.maxFileMb * 1024 * 1024) = .finite negative mantissa exponent :=
  ⟨fun o payload => ⟨fun h => ⟨o.update_eq h, o.one_le_batchSize_merged payload⟩,
      o.update_of_oversized⟩,
    fun _ => load_of_settings, fun _ => load_of_beyond, load_of_no_settings,
    fun _ hfind => ⟨fun _ => settingsBeyond_of_brackets_le hfind,
      fun _ => settingsBeyond_of_opened hfind⟩, maxFileBytes_isOk_iff⟩

/-- A folder with a settings file. -/
def settingsDisk (content : ByteArray) : Disk ByteArray where
  root := .folder [(storeFolderName, .folder [(settingsFileName, .file content)])]

theorem find_settingsDisk (content : ByteArray) :
    (settingsDisk content).find (settingsPath {}).text = .ok (.file content) := by
  have hfolder : (settingsDisk content).find (Path.text {}) = .ok (settingsDisk content).root := by
    cbv
  have hat : (settingsDisk content).root.at? [storeFolderName, settingsFileName] =
      some (.file content) := by
    rfl
  exact Disk.find_below hfolder hat (by decide) (by simp) (by decide) (.inr fun _ h => by cases h)

/-- A limit of ten to the four hundredth stops an update behind the suffixes that stand in
the same payload, and its batch size is not set.  A settings file of a thousand brackets stops its
loading. -/
theorem load_exact_hugeLimit :
    IndexOptions.update {} [("include_ext", .arr [.str "kt"]), ("max_file_mb", .int (10 ^ 400)),
        ("batch_size", .int 7)] =
      { options := { includeExt := ["kt"] }, log := [], stopped := some .tooLarge } ∧
    load id (settingsDisk (String.ofList (List.replicate 1000 '[')).toUTF8) {} =
      { options := {}, stopped := some (.tooDeep .list) } := by
  have hlarge : Oversized [("include_ext", .arr [.str "kt"]), ("max_file_mb", .int (10 ^ 400)),
      ("batch_size", .int 7)] := ⟨10 ^ 400, rfl, by decide +kernel⟩
  have hopened : List.replicate 1000 '[' =
      List.replicate (Json.NestingLimit.standard.levels + 1) '[' ++ List.replicate 9 '[' := by
    rw [List.replicate_append_replicate]
    rfl
  obtain ⟨hupdate, -, hstopped, -, hbeyond, -⟩ := load_exact id
    (settingsDisk (String.ofList (List.replicate 1000 '[')).toUTF8) {} .standard
  exact ⟨(hupdate {} _).2 hlarge,
    hstopped _ ((hbeyond _ (find_settingsDisk _)).2
      (List.replicate 9 '[') (by rw [← hopened]; rfl))⟩

end IndexOptions

end Files

end SourceShelf
