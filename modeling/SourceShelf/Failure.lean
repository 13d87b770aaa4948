/-!
# Failures

A file is chunked completely or not at all.  A `Failure` tells at which stage
and why: the file could not be read, its text is no Java, or the chunks could
not be delivered.
-/

namespace SourceShelf

/-- Why a file could not be chunked. -/
inductive Failure where
  | general (message : String) (path : Option String)
  | read (message : String) (path : Option String)
  | parse (message : String) (path : Option String) (line column : Option Int)
  | emit (message : String) (path : Option String) (symbol : Option String)
deriving DecidableEq, Repr, Inhabited

namespace Failure

/-- The stage at which it happened. -/
def stage : Failure → String
  | general .. => "chunk"
  | read .. => "read"
  | parse .. => "parse"
  | emit .. => "emit"

/-- What happened. -/
def message : Failure → String
  | general m _ => m
  | read m _ => m
  | parse m _ _ _ => m
  | emit m _ _ => m

/-- The file it happened with. -/
def path : Failure → Option String
  | general _ p => p
  | read _ p => p
  | parse _ p _ _ => p
  | emit _ p _ => p

/-- The line and the column, if the failure has a line. -/
def position : Failure → Option (Int × Option Int)
  | parse _ _ line column => line.map (·, column)
  | _ => none

/-- The failure in one line: stage, message, file and position. -/
def describe (f : Failure) : String :=
  let file := match f.path with
    | some p => if p.isEmpty then "" else " (" ++ p ++ ")"
    | none => ""
  let place := match f.position with
    | some (line, column) =>
      " at line " ++ toString line ++ ", column " ++ column.elim "None" toString
    | none => ""
  "[" ++ f.stage ++ "] " ++ f.message ++ file ++ place

end Failure

end SourceShelf
