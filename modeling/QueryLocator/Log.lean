/-! # Log entries

What an operation tells whoever runs the program, beside the result that it gives to its caller.  An
entry is kept as data; when and where it arose is added by the log that writes it.

Entries that only serve to follow the program step by step are not kept, as a log leaves them out
unless it is asked for them.
-/
namespace QueryLocator

/-- How grave an entry is. -/
inductive LogLevel where
  | warning
  | error
  deriving DecidableEq, Repr

/-- The name of a level. -/
def LogLevel.label : LogLevel → String
  | warning => "WARN"
  | error => "ERROR"

/-- A message with some named values. -/
structure LogEntry where
  level : LogLevel
  message : String
  fields : List (String × String)
  deriving DecidableEq, Repr

/-- An entry on a line of its own. -/
def LogEntry.line (entry : LogEntry) : String :=
  let fields := String.join (entry.fields.map fun (name, value) => s!" {name}={value}")
  s!"{entry.level.label} {entry.message}{fields}\n"

end QueryLocator
