import SourceShelf.Chunk.Basic
import SourceShelf.Limits
import SourceShelf.Decimal.Binary
import SourceShelf.Json.Shown
import SourceShelf.Log

/-!
# Index options

Which files are indexed and how.  The options of a folder can be set by a JSON
object: `IndexOptions.update` takes each field that has a value of the right
type and reports every other value, and every key that is no field.
-/

namespace SourceShelf

/-- A number without its fraction. -/
def truncateFloat (x : Float) : Except NumberError Int :=
  match Decimal.Binary.ofFloat x with
  | .nan => .error .notANumber
  | .infinite _ => .error .infinite
  | .finite negative mantissa exponent => .ok (Decimal.truncate negative mantissa exponent)

/-- A whole number as a floating point number. -/
def floatOfInt (n : Int) : Except NumberError Float :=
  let x := Decimal.nearestInt n
  match Decimal.Binary.ofFloat x with
  | .infinite _ => .error .tooLarge
  | _ => .ok x

/-- The folder that holds indexes and settings. -/
def storeFolderName : String := ".javachunk"

/-- The name of the settings file. -/
def settingsFileName : String := "settings.json"

/-- Folders that are not looked into unless a user says so. -/
def defaultExcludeGlobs : List String :=
  ["target/", "build/", "out/", "bin/", "generated-sources/", "node_modules/", ".gradle/", ".idea/",
    ".vscode/", ".git/", ".svn/", ".hg/", storeFolderName ++ "/"]

/-- Which files are indexed and how. -/
structure IndexOptions where
  includeExt : List String := ["java"]
  excludeGlobs : List String := defaultExcludeGlobs
  maxFileMb : Float := 2.0
  followSymlinks : Bool := false
  useGitignore : Bool := true
  batchSize : Int := 32
  memberImports : Bool := false
deriving Repr, Inhabited

namespace IndexOptions

/-- The most bytes of a file. -/
def maxFileBytes (o : IndexOptions) : Except NumberError Int :=
  truncateFloat (o.maxFileMb * 1024 * 1024)

/-- How chunks are written. -/
def chunkOptions (o : IndexOptions) : ChunkOptions := { memberImports := o.memberImports }

end IndexOptions

/-! ## Fields -/

/-- A change of options, or why there is none. -/
abbrev OptionChange := Except NumberError (IndexOptions → IndexOptions)

/-- A field: its name, what its values are, and what a value sets. -/
structure OptionField where
  name : String
  expected : String
  change? : Json.Value → Option OptionChange

namespace OptionField

/-- The strings of a list of strings. -/
def strings? : Json.Value → Option (List String)
  | .arr items => items.mapM Json.Value.str?
  | _ => none

/-- A number as a floating point number. -/
def number? : Json.Value → Option (Except NumberError Float)
  | .int n => some (floatOfInt n)
  | .float x => some (.ok x)
  | _ => none

/-- A field whose values are lists of strings. -/
def ofStrings (name : String) (set : List String → IndexOptions → IndexOptions) : OptionField :=
  ⟨name, "list", fun v => (strings? v).map fun x => .ok (set x)⟩

/-- A field whose values are truth values. -/
def ofBool (name : String) (set : Bool → IndexOptions → IndexOptions) : OptionField :=
  ⟨name, "bool", fun v => v.bool?.map fun x => .ok (set x)⟩

/-- A field whose values are whole numbers. -/
def ofInt (name : String) (set : Int → IndexOptions → IndexOptions) : OptionField :=
  ⟨name, "int", fun v => v.int?.map fun x => .ok (set x)⟩

/-- A field whose values are numbers. -/
def ofNumber (name : String) (set : Float → IndexOptions → IndexOptions) : OptionField :=
  ⟨name, "float", fun v => (number? v).map fun x => x.map set⟩

/-- All fields, in order. -/
def all : List OptionField :=
  [ofStrings "include_ext" fun x o => { o with includeExt := x },
    ofStrings "exclude_globs" fun x o => { o with excludeGlobs := x },
    ofNumber "max_file_mb" fun x o => { o with maxFileMb := x },
    ofBool "follow_symlinks" fun x o => { o with followSymlinks := x },
    ofBool "use_gitignore" fun x o => { o with useGitignore := x },
    ofInt "batch_size" fun x o => { o with batchSize := x },
    ofBool "member_imports" fun x o => { o with memberImports := x }]

end OptionField

/-- Options after an update, what was reported, and why it stopped. -/
structure OptionUpdate where
  options : IndexOptions
  log : List LogRecord := []
  stopped : Option LimitError := none

namespace OptionUpdate

/-- The options, if the update came to its end. -/
def toExcept (u : OptionUpdate) : Except LimitError IndexOptions :=
  match u.stopped with
  | some e => .error e
  | none => .ok u.options

/-- An update that goes on with one field. -/
def setField (payload : Json.Value) (u : OptionUpdate) (f : OptionField) : OptionUpdate :=
  if u.stopped.isSome then u
  else
    match payload.get? f.name with
    | none => u
    | some v =>
      match f.change? v with
      | some (.ok change) => { u with options := change u.options }
      | some (.error e) => { u with stopped := some e }
      | none =>
        let report :=
          "Ignoring setting " ++ f.name ++ "=" ++ Json.shown v ++ ": expected " ++ f.expected
        { u with log := u.log ++ [.warning report] }

/-- The keys of a payload that are no fields, sorted. -/
def unknownKeys (payload : List (String × Json.Value)) : List String :=
  let keys := (payload.map Prod.fst).filter fun k => !OptionField.all.any (·.name = k)
  keys.mergeSort fun a b => !(b < a)

/-- The last step: a batch has one chunk at least, and unknown keys are
reported. -/
def finish (payload : List (String × Json.Value)) (u : OptionUpdate) : OptionUpdate :=
  if u.stopped.isSome then u
  else
    { u with
      options := { u.options with batchSize := max 1 u.options.batchSize }
      log := u.log ++
        (unknownKeys payload).map fun k => .warning ("Unknown setting " ++ quoted k ++ " ignored") }

end OptionUpdate

/-- Sets the fields for which a payload has values. -/
def IndexOptions.update (o : IndexOptions) (payload : List (String × Json.Value)) : OptionUpdate :=
  (OptionField.all.foldl (OptionUpdate.setField (.obj payload)) { options := o }).finish payload

end SourceShelf
