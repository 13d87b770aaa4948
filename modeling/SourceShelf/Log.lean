/-!
# Log records

What a run reports besides its result.
-/

namespace SourceShelf

/-- How much a record matters. -/
inductive LogLevel where
  | debug | info | warning
deriving DecidableEq, Repr, Inhabited

namespace LogLevel

/-- The name of a level. -/
def name : LogLevel → String
  | debug => "DEBUG"
  | info => "INFO"
  | warning => "WARNING"

/-- The rank of a level. -/
def rank : LogLevel → Nat
  | debug => 0
  | info => 1
  | warning => 2

end LogLevel

/-- A record. -/
structure LogRecord where
  level : LogLevel
  message : String
deriving DecidableEq, Repr, Inhabited

namespace LogRecord

/-- A record of level `DEBUG`. -/
def debug (message : String) : LogRecord := ⟨.debug, message⟩

/-- A record of level `INFO`. -/
def info (message : String) : LogRecord := ⟨.info, message⟩

/-- A record of level `WARNING`. -/
def warning (message : String) : LogRecord := ⟨.warning, message⟩

/-- The record in one line. -/
def text (r : LogRecord) : String := r.level.name ++ " " ++ r.message

/-- The records of a level or above. -/
def atLeast (l : LogLevel) (log : List LogRecord) : List LogRecord :=
  log.filter fun r => l.rank ≤ r.level.rank

end LogRecord

/-- A state with what was reported on the way to it. -/
structure Logged (σ : Type) where
  inner : σ
  log : List LogRecord := []
deriving Repr, Inhabited

namespace Logged

variable {σ : Type}

/-- Adds a record. -/
def report (s : Logged σ) (r : LogRecord) : Logged σ := { s with log := s.log ++ [r] }

end Logged

end SourceShelf
