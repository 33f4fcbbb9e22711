/-!
# Command line arguments

The command `graph` takes a step map and draws it; `resolve` takes a selector and
field values and chooses a key. Options have a long name and most a short one.

A value can be attached to its option, after `=` or, with a short name, directly;
otherwise it is the next argument that does not look like an option. A value in an
argument of its own is checked when the next option is read or the arguments end,
and never when an unknown argument comes first.

* `Command.ofArguments`: the command that the arguments give.
-/

namespace FormRouting

/-- How a graph is written. -/
inductive GraphFormat where
  | json
  | dot
deriving DecidableEq, Inhabited

inductive Command where
  | graph (file : String) (format : GraphFormat)
  | resolve (file values : String)
deriving DecidableEq, Inhabited

/-- Why arguments do not give a command. -/
inductive UsageError where
  | help
  | version
  /-- There is no argument at all. -/
  | noArguments
  | unknownCommand
  | unknownArgument
  /-- A value is missing or not one of the possible ones. -/
  | invalidValue
  /-- A value is attached to an option that takes none. -/
  | unexpectedValue
  | repeatedOption
  | missingOption
deriving DecidableEq, Inhabited

/-- The options that take a value. -/
inductive Parameter where
  | file
  | format
  | values
deriving DecidableEq, Inhabited

namespace GraphFormat

def ofName? (name : String) : Option GraphFormat :=
  if name = "json" then some .json else if name = "dot" then some .dot else none

end GraphFormat

namespace Parameter

def longName : Parameter → String
  | .file => "file"
  | .format => "format"
  | .values => "values"

def shortName? : Parameter → Option Char
  | .file => some 'f'
  | .format => none
  | .values => some 'v'

/-- The value is possible for the option. -/
def admits (p : Parameter) (value : String) : Bool :=
  p != .format || (GraphFormat.ofName? value).isSome

end Parameter

/-- An argument by its shape. -/
inductive Argument where
  /-- Two dashes; nothing after them is an option. -/
  | separator
  | long (name : String) (value : Option String)
  /-- One dash, a letter, and what follows the letter. -/
  | short (letter : Char) (rest : List Char)
  | word (text : String)
deriving DecidableEq, Inhabited

def Argument.ofText (text : String) : Argument :=
  match text.toList with
  | ['-', '-'] => .separator
  | '-' :: '-' :: cs =>
    let name := cs.takeWhile (· != '=')
    let value := cs.dropWhile (· != '=')
    .long (String.ofList name) (value.head?.map fun _ => String.ofList (value.drop 1))
  | '-' :: c :: cs => .short c cs
  | _ => .word text

/-- The options that have been read. -/
structure Given where
  settled : List (Parameter × String) := []
  /-- The last option, with its value if that has been read. -/
  pending : Option (Parameter × Option String) := none
deriving Inhabited

namespace Given

/-- Add an option. A missing value counts before a repetition, and that before a wrong value. -/
def add (g : Given) (p : Parameter) : Option String → Except UsageError Given
  | none => .error .invalidValue
  | some value =>
    if g.settled.any (·.1 == p) then .error .repeatedOption
    else if !p.admits value then .error .invalidValue
    else .ok { g with settled := g.settled ++ [(p, value)] }

/-- Add the option that is pending. -/
def settle (g : Given) : Except UsageError Given :=
  match g.pending with
  | none => .ok g
  | some (p, value) => ({ g with pending := none }).add p value

/-- Begin an option, whose value may be attached. -/
def start (g : Given) (p : Parameter) (value : Option String) : Except UsageError Given := do
  let g ← g.settle
  match value with
  | some _ => g.add p value
  | none => return { g with pending := some (p, none) }

/-- The value of an option. -/
def value? (g : Given) (p : Parameter) : Option String := g.settled.lookup p

end Given

/-- A value directly after a short name; a sign of equality before it does not count. -/
def attachedValue? : List Char → Option String
  | [] => none
  | '=' :: cs => some (String.ofList cs)
  | cs => some (String.ofList cs)

/-- The options of a command. -/
def readOptions (allowed : List Parameter) : Given → List String → Except UsageError Given
  | g, [] => g.settle
  | g, arg :: rest =>
    match Argument.ofText arg with
    | .separator => if rest.isEmpty then g.settle else .error .unknownArgument
    | .long "help" (some _) => .error .unexpectedValue
    | .long "help" none | .short 'h' _ => do
      let _ ← g.settle
      throw .help
    | .long name value =>
      match allowed.find? fun p => p.longName == name with
      | some p => do readOptions allowed (← g.start p value) rest
      | none => .error .unknownArgument
    | .short c cs =>
      match allowed.find? fun p => p.shortName? == some c with
      | some p => do readOptions allowed (← g.start p (attachedValue? cs)) rest
      | none => .error .unknownArgument
    | .word text =>
      match g.pending with
      | some (p, none) => readOptions allowed { g with pending := some (p, some text) } rest
      | _ => .error .unknownArgument

/-- The commands by their names; `help` is one of them. -/
def commandNames : List String := ["graph", "resolve", "help"]

namespace Command

def graphOfArguments (args : List String) : Except UsageError Command := do
  let g ← readOptions [.file, .format] {} args
  match g.value? .file with
  | some file => return .graph file (((g.value? .format).bind GraphFormat.ofName?).getD .json)
  | none => throw .missingOption

def resolveOfArguments (args : List String) : Except UsageError Command := do
  let g ← readOptions [.file, .values] {} args
  match g.value? .file, g.value? .values with
  | some file, some values => return .resolve file values
  | _, _ => throw .missingOption

/-- What the words after `help` ask for: at most one command. -/
def helpOn : List String → UsageError
  | [] => .help
  | [name] => if commandNames.contains name then .help else .unknownCommand
  | _ => .unknownCommand

def ofArguments : List String → Except UsageError Command
  | [] => .error .noArguments
  | "graph" :: rest => graphOfArguments rest
  | "resolve" :: rest => resolveOfArguments rest
  | "help" :: rest => .error (helpOn rest)
  | arg :: rest =>
    match Argument.ofText arg with
    | .separator =>
      match rest with
      | [] => .error .noArguments
      | name :: _ =>
        .error (if commandNames.contains name then .unknownArgument else .unknownCommand)
    | .long "help" none | .short 'h' _ => .error .help
    | .long "version" none | .short 'V' _ => .error .version
    | .long "help" (some _) | .long "version" (some _) => .error .unexpectedValue
    | .long _ _ | .short _ _ => .error .unknownArgument
    | .word _ => .error .unknownCommand

end Command

end FormRouting
