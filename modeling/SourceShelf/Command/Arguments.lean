/-!
# Arguments

Arguments that start with a dash are options, all others are values of the
command.  A long option may have its value behind `=`; short options may stand
together behind one dash, and the last of them may have its value right behind
it.  An option that wants a value and has none yet takes the next argument,
whatever it is.  Behind `--` there are no more options.
-/

namespace SourceShelf

/-- What an option does when it is given. -/
inductive OptionEffect where
  | on
  | off
  | value
deriving DecidableEq, Repr, Inhabited

/-- A way to write an option: the spelling, the option that it stands for, and
what it does. -/
structure OptionSpelling where
  spelling : String
  option : String
  effect : OptionEffect
deriving DecidableEq, Repr, Inhabited

/-- What is wrong with arguments. -/
inductive UsageError where
  | unknownOption (spelling : String)
  | missingValue (spelling : String)
  | unwantedValue (spelling : String)
  | missingArgument (name : String)
  | extraArguments (arguments : List String)
  | noNumber (value : String)
  | unknownCommand (name : String)
  | badParameter (message : String)
deriving DecidableEq, Repr, Inhabited

/-- The text of the error. -/
def UsageError.message : UsageError → String
  | unknownOption s => "No such option: " ++ s
  | missingValue s => "Option " ++ s ++ " requires an argument."
  | unwantedValue s => "Option " ++ s ++ " does not take a value."
  | missingArgument s => "Missing argument: " ++ s
  | extraArguments as => "Got unexpected extra arguments: " ++ " ".intercalate as
  | noNumber s => "No valid number: " ++ s
  | unknownCommand s => "No such command: " ++ s
  | badParameter m => "Invalid value: " ++ m

/-- An option that was given, with its value if it has one. -/
structure GivenOption where
  option : String
  effect : OptionEffect
  value : String := ""
deriving DecidableEq, Repr, Inhabited

/-- Arguments that were read: the options in order, and the other arguments. -/
structure Arguments where
  options : List GivenOption := []
  values : List String := []
deriving DecidableEq, Repr, Inhabited

namespace Arguments

/-- The last value of an option. -/
def value? (a : Arguments) (option : String) : Option String :=
  (a.options.reverse.find? (·.option = option)).map (·.value)

/-- Whether an option was switched on or off last. -/
def switch? (a : Arguments) (option : String) : Option Bool :=
  (a.options.reverse.find? (·.option = option)).map (·.effect = .on)

/-- True if an option was given. -/
def has (a : Arguments) (option : String) : Bool := a.options.any (·.option = option)

/-- Arguments with one more value in front. -/
def addValue (v : String) (a : Arguments) : Arguments := { a with values := v :: a.values }

/-- An option as it was written: complete, or without the value that it
wants. -/
inductive Written where
  | complete (options : List GivenOption)
  | incomplete (options : List GivenOption) (last : OptionSpelling)
deriving DecidableEq, Repr, Inhabited

/-- A long option, if there is one with this spelling. -/
def long? (known : List OptionSpelling) (arg : String) : Option (Except UsageError Written) :=
  let name := arg.toList.takeWhile (· ≠ '=')
  let value := if name.length = arg.length then none else some (arg.toList.drop (name.length + 1))
  (known.find? (·.spelling = String.ofList name)).bind fun o =>
    if o.spelling.length ≤ 2 then none
    else
      match o.effect, value with
      | .value, some v => some (.ok (.complete [⟨o.option, .value, String.ofList v⟩]))
      | .value, none => some (.ok (.incomplete [] o))
      | _, some _ => some (.error (.unwantedValue o.spelling))
      | effect, none => some (.ok (.complete [⟨o.option, effect, ""⟩]))

/-- Short options behind one dash. -/
def shorts (known : List OptionSpelling) (before : List GivenOption) :
    List Char → Except UsageError Written
  | [] => .ok (.complete before)
  | c :: cs =>
    let spelling := String.ofList ['-', c]
    match known.find? (·.spelling = spelling) with
    | none => .error (.unknownOption spelling)
    | some o =>
      if o.effect = .value then
        if cs.isEmpty then .ok (.incomplete before o)
        else .ok (.complete (before ++ [⟨o.option, .value, String.ofList cs⟩]))
      else shorts known (before ++ [⟨o.option, o.effect, ""⟩]) cs

/-- The options that an argument writes. -/
def written (known : List OptionSpelling) (arg : String) : Except UsageError Written :=
  match long? known arg with
  | some r => r
  | none =>
    if arg.startsWith "--" then .error (.unknownOption arg) else shorts known [] (arg.toList.drop 1)

/-- True for an argument that writes options. -/
def isOption (arg : String) : Bool := arg.startsWith "-" && arg.length > 1

/-- Reads arguments.  Unless options may stand behind values, all arguments
from the first value on are values. -/
def read (known : List OptionSpelling) (mixed : Bool) : List String → Except UsageError Arguments
  | [] => .ok {}
  | arg :: rest =>
    if arg = "--" then .ok { values := rest }
    else if isOption arg then
      match written known arg with
      | .error e => .error e
      | .ok (.complete options) =>
        (read known mixed rest).map fun a => { a with options := options ++ a.options }
      | .ok (.incomplete options last) =>
        match rest with
        | [] => .error (.missingValue last.spelling)
        | v :: rest =>
          (read known mixed rest).map fun a =>
            { a with options := options ++ ⟨last.option, .value, v⟩ :: a.options }
    else if mixed then (read known mixed rest).map (addValue arg)
    else .ok { values := arg :: rest }

end Arguments

end SourceShelf
