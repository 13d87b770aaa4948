import SourceShelf.Command.Actions
import SourceShelf.Command.Arguments
import SourceShelf.Command.Backend

/-!
# Command lines

A command line names a command and its arguments.  A line that names a source
file instead of a command asks for the chunks of that file.

`CommandLine.run` does what a line asks for.  Wrong arguments end with the
status 2, all other failures with the status 1.
-/

namespace SourceShelf

open Files

/-- What a command line asks for. -/
inductive Request where
  | help
  | chunk (r : ChunkRequest)
  | index (r : IndexRequest) (b : BackendOptions)
  | search (r : SearchRequest) (b : BackendOptions)
  | status (path : String) (localStore : Bool)
  | reset (path : String) (localStore : Bool)
deriving Repr, Inhabited

namespace CommandLine

/-! ## The options of each command -/

/-- The option that asks for help. -/
def helpOption : OptionSpelling := ⟨"--help", "help", .on⟩

/-- The options in front of a command. -/
def commonOptions : List OptionSpelling :=
  [⟨"--verbose", "verbose", .on⟩, ⟨"-v", "verbose", .on⟩, helpOption]

/-- The options that choose an embedder. -/
def backendOptions : List OptionSpelling :=
  [⟨"--embedder", "embedder", .value⟩, ⟨"--embed-model", "embed_model", .value⟩,
    ⟨"--ollama-host", "ollama_host", .value⟩]

/-- The option that says where the index is. -/
def localOption : OptionSpelling := ⟨"--local-store", "local_store", .on⟩

/-- The options of each command. -/
def optionsOf : String → Option (List OptionSpelling)
  | "chunk" =>
    some [⟨"--format", "format", .value⟩, ⟨"-f", "format", .value⟩, ⟨"--output", "output", .value⟩,
      ⟨"-o", "output", .value⟩, ⟨"--member-imports", "member_imports", .on⟩, helpOption]
  | "index" =>
    some ([⟨"--name", "name", .value⟩, localOption, ⟨"--exclude-globs", "exclude_globs", .value⟩,
      ⟨"--max-file-mb", "max_file_mb", .value⟩, ⟨"--member-imports", "member_imports", .on⟩,
      ⟨"--no-member-imports", "member_imports", .off⟩] ++ backendOptions ++ [helpOption])
  | "search" =>
    some ([localOption, ⟨"--top-k", "top_k", .value⟩, ⟨"--show-text", "show_text", .on⟩] ++
      backendOptions ++ [helpOption])
  | "status" => some [localOption, helpOption]
  | "reset" => some [localOption, helpOption]
  | _ => none

/-! ## Reading a line -/

/-- The values of a command with one argument. -/
def oneValue : List String → Except UsageError String
  | [] => .error (.missingArgument "PATH")
  | [v] => .ok v
  | _ :: vs => .error (.extraArguments vs)

/-- The values of a command with two arguments. -/
def twoValues : List String → Except UsageError (String × String)
  | [] => .error (.missingArgument "PATH")
  | [_] => .error (.missingArgument "QUERY")
  | [v, w] => .ok (v, w)
  | _ :: _ :: vs => .error (.extraArguments vs)

/-- The number that an option has. -/
def realValue (a : Arguments) (option : String) : Except UsageError (Option Float) :=
  match a.value? option with
  | none => .ok none
  | some s =>
    match Decimal.real? s with
    | some x => .ok (some x)
    | none => .error (.noNumber s)

/-- The whole number that an option has. -/
def wholeValue (a : Arguments) (option : String) (default : Int) : Except UsageError Int :=
  match a.value? option with
  | none => .ok default
  | some s => (Decimal.whole? s).mapError fun _ => .noNumber s

/-- The embedder that some options choose. -/
def backendOf (a : Arguments) : BackendOptions :=
  let standard : BackendOptions := {}
  { embedder := (a.value? "embedder").getD standard.embedder
    embedModel := a.value? "embed_model"
    ollamaHost := (a.value? "ollama_host").getD standard.ollamaHost }

/-- What a command asks for with its arguments. -/
def requestOf (command : String) (a : Arguments) : Except UsageError Request := do
  if a.has "help" then return .help
  let localStore := (a.switch? "local_store").getD false
  match command with
  | "chunk" =>
    return .chunk
      { path := ← oneValue a.values
        format := (a.value? "format").getD "text"
        output := a.value? "output"
        memberImports := (a.switch? "member_imports").getD false }
  | "index" =>
    let path ← oneValue a.values
    let maxFileMb ← realValue a "max_file_mb"
    return .index
      { path, localStore, maxFileMb
        excludeGlobs := a.value? "exclude_globs"
        memberImports := a.switch? "member_imports"
        name := a.value? "name" }
      (backendOf a)
  | "search" =>
    let (path, query) ← twoValues a.values
    let topK ← wholeValue a "top_k" 8
    return .search { path, query, localStore, topK, showText := (a.switch? "show_text").getD false }
      (backendOf a)
  | "status" => return .status (← oneValue a.values) localStore
  | "reset" => return .reset (← oneValue a.values) localStore
  | _ => throw (.unknownCommand command)

/-- Puts the command `chunk` in front of the first argument that is no option,
if it names a source file. -/
def route (isSource : String → Bool) : List String → List String
  | [] => []
  | arg :: rest =>
    if arg.startsWith "-" then arg :: route isSource rest
    else if (optionsOf arg).isNone && isSource arg then "chunk" :: arg :: rest
    else arg :: rest

/-- A line: whether details are reported, and the rest of it. -/
structure Head where
  verbose : Bool
  help : Bool
  rest : List String
deriving DecidableEq, Repr, Inhabited

/-- Reads the options in front of a command. -/
def readHead (args : List String) : Except UsageError Head :=
  (Arguments.read commonOptions false args).map fun a =>
    { verbose := (a.switch? "verbose").getD false
      help := a.has "help" || a.values.isEmpty
      rest := a.values }

/-- Reads a command and its arguments. -/
def readRequest (h : Head) : Except UsageError Request :=
  if h.help then .ok .help
  else
    match h.rest with
    | [] => .ok .help
    | command :: args =>
      match optionsOf command with
      | none => .error (.unknownCommand command)
      | some known =>
        match Arguments.read known true args with
        | .error e => .error e
        | .ok a => requestOf command a

/-! ## Doing what a line asks for -/

/-- How a line ends.  `level` is the least level of what is reported. -/
inductive Outcome where
  | done
  | usage
  | wrongUsage (e : UsageError)
  | failed (f : Failure)
  | crashed (e : CommandError)
deriving Repr, Inhabited

/-- The status with which a program ends. -/
def Outcome.status : Outcome → Nat
  | done | usage => 0
  | wrongUsage _ => 2
  | failed _ | crashed _ => 1

/-- What a request does. -/
def perform : Request → Action (Session Backends) CommandError Unit
  | .help => pure ()
  | .chunk r => discard (chunkFile r)
  | .index r b => discard (indexTarget (Backends.makeForIndex b) r)
  | .search r b => searchIndex (Backends.make b) r
  | .status path localStore => discard (showStatus path localStore)
  | .reset path localStore => resetIndex path localStore

/-- How a request ends. -/
def outcomeOf (r : Request) : Except CommandError Unit → Outcome
  | .ok _ => if r matches .help then .usage else .done
  | .error (.failure f) => .failed f
  | .error (.badParameter m) => .wrongUsage (.badParameter m)
  | .error e => .crashed e

/-- A line that ended, and what is reported of it. -/
structure Ending where
  outcome : Outcome
  level : LogLevel := .warning
deriving Inhabited

/-- True for the name of a source file. -/
def isSource (t : Disk FileContent) (arg : String) : Except FileError Bool :=
  if arg.endsWith ".java" then .ok true else t.isFile (Path.ofString arg)

/-- The first argument that is no option. -/
def firstValue (args : List String) : Option String := args.find? fun a => !a.startsWith "-"

/-- Does what a command line asks for. -/
def run (args : List String) (s : Session Backends) : Ending × Session Backends :=
  match (firstValue args).elim (.ok false) fun a => (isSource s.disk a).mapError (·, a) with
  | .error (e, a) => ({ outcome := .crashed (.file e a) }, s)
  | .ok source =>
    match readHead (route (fun _ => source) args) with
    | .error e => ({ outcome := .wrongUsage e }, s)
    | .ok head =>
      let level := if head.verbose then .debug else .warning
      match readRequest head with
      | .error e => ({ outcome := .wrongUsage e, level }, s)
      | .ok r =>
        let (result, s) := (perform r).runOn s
        let outcome := outcomeOf r result
        match outcome with
        | .failed f =>
          ({ outcome, level },
            { s with printed := s.printed ++ [.err ("Error: " ++ f.describe)] })
        | _ => ({ outcome, level }, s)

end CommandLine

end SourceShelf
