import QueryLocator.Path

/-! # Invocations of the console

What the arguments of the command line ask for.  The options of the program stand in front of the
command, those of the command behind it.  An option has its value attached, or takes the next
argument; that argument must not look like an option.  Behind two hyphens nothing is an option.
-/
namespace QueryLocator.Console

/-- How results are written. -/
inductive OutputFormat where
  | human
  | json
  deriving DecidableEq, Repr

/-- The format that a word names. -/
def OutputFormat.ofWord? : String → Option OutputFormat
  | "human" => some human
  | "json" => some json
  | _ => none

/-- What is to be done with a document. -/
inductive Action where
  /-- Find the definition at a position. -/
  | inspect (line column : Nat)
  /-- List all definitions. -/
  | outline
  deriving DecidableEq, Repr

/-- What the arguments ask for. -/
structure Invocation where
  config : Option Path
  project : Option String
  file : Path
  action : Action
  format : OutputFormat
  deriving DecidableEq, Repr

/-- Why arguments make no sense. -/
inductive UsageFault where
  | missingCommand
  | unknownCommand (name : String)
  | unexpectedArgument (argument : String)
  | repeatedOption (name : String)
  | missingValue (name : String)
  | invalidValue (name value : String)
  | missingArgument (name : String)
  deriving DecidableEq, Repr

/-- The wording of a fault.  Only the code of a run is settled by a fault of usage; the wording is this
library's own. -/
def UsageFault.message : UsageFault → String
  | missingCommand => "a command is required"
  | unknownCommand name => s!"unrecognized command '{name}'"
  | unexpectedArgument argument => s!"unexpected argument '{argument}' found"
  | repeatedOption name => s!"the argument '{name}' cannot be used multiple times"
  | missingValue name => s!"a value is required for '{name}' but none was supplied"
  | invalidValue name value => s!"invalid value '{value}' for '{name}'"
  | missingArgument name => s!"the required argument '{name}' was not provided"

/-- What ends the reading of arguments before an invocation is complete. -/
inductive Halt where
  | usage (fault : UsageFault)
  | version
  | help
  deriving DecidableEq, Repr

/-! ## Single arguments -/

/-- How an argument looks. -/
inductive Word where
  /-- Two hyphens. -/
  | separator
  /-- A long name behind two hyphens, and a value behind an equals sign. -/
  | long (name : String) (value : Option String)
  /-- A letter behind one hyphen, and what is attached to it. -/
  | short (letter : Char) (attached : List Char)
  | plain (text : String)
  deriving DecidableEq, Repr

/-- Looks at an argument.  A single hyphen is plain. -/
def Word.ofArgument (argument : String) : Word :=
  match argument.toList with
  | ['-', '-'] => .separator
  | '-' :: '-' :: rest =>
    let value :=
      match rest.dropWhile (· ≠ '=') with
      | _ :: value => some (String.ofList value)
      | [] => none
    .long (String.ofList (rest.takeWhile (· ≠ '='))) value
  | '-' :: letter :: attached => .short letter attached
  | _ => .plain argument

/-- The value that is attached to a letter.  An equals sign in front is dropped. -/
def attachedValue : List Char → Option String
  | [] => none
  | '=' :: value => some (String.ofList value)
  | value => some (String.ofList value)

/-- A number of 64 bits in decimal, perhaps with a plus sign in front. -/
def count? (text : String) : Option Nat :=
  let digits :=
    match text.toList with
    | '+' :: rest => rest
    | rest => rest
  if digits.isEmpty || !digits.all Char.isDigit then none
  else
    let value := digits.foldl (fun value c => value * 10 + (c.toNat - 0x30)) 0
    if value < Nat.pow 2 64 then some value else none

/-- A path that is not empty. -/
def path? (text : String) : Option Path :=
  if text.isEmpty then none else some ⟨text⟩

/-- Sets what has not been set yet to a value that can be read. -/
def setOnce {α : Type} (name : String) (read? : String → Option α) (old : Option α)
    (value : String) : Except Halt (Option α) :=
  match old, read? value with
  | some _, _ => .error (.usage (.repeatedOption name))
  | none, none => .error (.usage (.invalidValue name value))
  | none, some value => .ok (some value)

/-! ## The command -/

/-- The commands. -/
inductive CommandName where
  | inspect
  | outline
  deriving DecidableEq, Repr

/-- The options of the commands. -/
inductive CommandOption where
  | line
  | column
  | format
  deriving DecidableEq, Repr

namespace CommandOption

/-- The long name of an option. -/
def name : CommandOption → String
  | line => "--line"
  | column => "--column"
  | format => "--format"

/-- The option of a command with a long name. -/
def ofName? (command : CommandName) (name : String) : Option CommandOption :=
  match command, name with
  | .inspect, "line" => some line
  | .inspect, "column" => some column
  | _, "format" => some format
  | _, _ => none

/-- The option of a command with a letter. -/
def ofLetter? (command : CommandName) (letter : Char) : Option CommandOption :=
  match command, letter with
  | .inspect, 'l' => some line
  | .inspect, 'C' => some column
  | _, 'f' => some format
  | _, _ => none

end CommandOption

/-- The arguments of a command that have been read. -/
structure CommandDraft where
  file : Option Path := none
  line : Option Nat := none
  column : Option Nat := none
  format : Option OutputFormat := none

namespace CommandDraft

/-- Sets the file, which is the only argument that is not an option. -/
def setFile (draft : CommandDraft) (text : String) : Except Halt CommandDraft :=
  match draft.file with
  | some _ => .error (.usage (.unexpectedArgument text))
  | none => (setOnce "<FILE>" path? none text).map fun file => { draft with file }

/-- Sets an option. -/
def set (draft : CommandDraft) (option : CommandOption) (value : String) :
    Except Halt CommandDraft :=
  match option with
  | .line => (setOnce option.name count? draft.line value).map fun line => { draft with line }
  | .column =>
    (setOnce option.name count? draft.column value).map fun column => { draft with column }
  | .format =>
    (setOnce option.name OutputFormat.ofWord? draft.format value).map fun format =>
      { draft with format }

/-- Reads the arguments of a command.  An option may be waiting for its value. -/
def read (command : CommandName) :
    Option CommandOption → CommandDraft → List String → Except Halt CommandDraft
  | some option, _, [] => .error (.usage (.missingValue option.name))
  | none, draft, [] => .ok draft
  | waiting, draft, argument :: rest =>
    match waiting, Word.ofArgument argument with
    | some option, .plain text => do read command none (← draft.set option text) rest
    | some option, _ => .error (.usage (.missingValue option.name))
    | none, .plain text => do read command none (← draft.setFile text) rest
    | none, .separator => rest.foldlM setFile draft
    | none, .long "help" none => .error .help
    | none, .long name value =>
      match CommandOption.ofName? command name, value with
      | none, _ => .error (.usage (.unexpectedArgument argument))
      | some option, none => read command (some option) draft rest
      | some option, some value => do read command none (← draft.set option value) rest
    | none, .short 'h' _ => .error .help
    | none, .short letter attached =>
      match CommandOption.ofLetter? command letter, attachedValue attached with
      | none, _ => .error (.usage (.unexpectedArgument argument))
      | some option, none => read command (some option) draft rest
      | some option, some value => do read command none (← draft.set option value) rest

/-- A part of a draft that a command cannot do without. -/
def require {α : Type} (name : String) (part : Option α) : Except Halt α :=
  match part with
  | some value => .ok value
  | none => .error (.usage (.missingArgument name))

/-- The action of a complete draft. -/
def action (command : CommandName) (draft : CommandDraft) : Except Halt Action :=
  match command with
  | .inspect => return .inspect (← require "--line" draft.line) (← require "--column" draft.column)
  | .outline => .ok .outline

end CommandDraft

/-! ## The program -/

/-- The options of the program. -/
inductive ProgramOption where
  | config
  | project
  deriving DecidableEq, Repr

namespace ProgramOption

/-- The long name of an option. -/
def name : ProgramOption → String
  | config => "--config"
  | project => "--project"

/-- The option with a long name. -/
def ofName? : String → Option ProgramOption
  | "config" => some config
  | "project" => some project
  | _ => none

/-- The option with a letter. -/
def ofLetter? : Char → Option ProgramOption
  | 'c' => some config
  | 'p' => some project
  | _ => none

end ProgramOption

/-- The options of the program that have been read. -/
structure ProgramDraft where
  config : Option Path := none
  project : Option String := none

namespace ProgramDraft

/-- Sets an option. -/
def set (draft : ProgramDraft) (option : ProgramOption) (value : String) :
    Except Halt ProgramDraft :=
  match option with
  | .config => (setOnce option.name path? draft.config value).map fun config => { draft with config }
  | .project =>
    (setOnce option.name some draft.project value).map fun project => { draft with project }

/-- Reads the arguments of a command and completes the invocation. -/
def complete (draft : ProgramDraft) (command : CommandName) (arguments : List String) :
    Except Halt Invocation := do
  let details ← CommandDraft.read command none {} arguments
  let file ← CommandDraft.require "<FILE>" details.file
  let action ← details.action command
  return { draft with file, action, format := details.format.getD .human }

/-- Reads the arguments of the program.  An option may be waiting for its value. -/
def read : Option ProgramOption → ProgramDraft → List String → Except Halt Invocation
  | some option, _, [] => .error (.usage (.missingValue option.name))
  | none, _, [] => .error (.usage .missingCommand)
  | waiting, draft, argument :: rest =>
    match waiting, Word.ofArgument argument with
    | some option, .plain text => do read none (← draft.set option text) rest
    | some option, _ => .error (.usage (.missingValue option.name))
    | none, .plain "inspect" => draft.complete .inspect rest
    | none, .plain "outline" => draft.complete .outline rest
    | none, .plain "help" => .error .help
    | none, .plain text => .error (.usage (.unknownCommand text))
    | none, .separator => .error (.usage .missingCommand)
    | none, .long "version" none => .error .version
    | none, .long "help" none => .error .help
    | none, .long name value =>
      match ProgramOption.ofName? name, value with
      | none, _ => .error (.usage (.unexpectedArgument argument))
      | some option, none => read (some option) draft rest
      | some option, some value => do read none (← draft.set option value) rest
    | none, .short 'V' _ => .error .version
    | none, .short 'h' _ => .error .help
    | none, .short letter attached =>
      match ProgramOption.ofLetter? letter, attachedValue attached with
      | none, _ => .error (.usage (.unexpectedArgument argument))
      | some option, none => read (some option) draft rest
      | some option, some value => do read none (← draft.set option value) rest

end ProgramDraft

/-- The invocation that arguments ask for. -/
def Invocation.ofArguments (arguments : List String) : Except Halt Invocation :=
  ProgramDraft.read none {} arguments

end QueryLocator.Console
