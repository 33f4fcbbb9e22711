import FormRouting.CommandLine.Arguments
import FormRouting.Load
import FormRouting.Compilation
import FormRouting.Resolution
import FormRouting.Graph.Dot
import FormRouting.Graph.Json
import FormRouting.Json.Printer

/-!
# Running a command

A command reads its files through a function that it is given, so the same
definition runs on real files and on texts in memory. Rules from files have no
predicates and no context.

* `Command.run`: what a command prints, with the notices it writes.
-/

namespace FormRouting

/-- Why a file cannot be read. -/
inductive FileError where
  | notFound
  | other (message : String)
deriving DecidableEq, Inhabited

def FileError.message : FileError → String
  | .notFound => "No such file or directory"
  | .other message => message

/-- What a file is loaded as. -/
inductive Content where
  | steps
  | selector
  | values
deriving DecidableEq, Inhabited

def Content.name : Content → String
  | .steps => "steps"
  | .selector => "selector"
  | .values => "values"

inductive LoadFailure where
  | file (error : FileError)
  | text (error : LoadError)
deriving DecidableEq, Inhabited

/-- The words of a failure; a text that cannot be read has only its place. -/
def LoadFailure.message : LoadFailure → String
  | .file error => error.message
  | .text error => error.message?.getD "invalid YAML"

/-- A command failed because a file could not be loaded. -/
structure RunError where
  content : Content
  file : String
  cause : LoadFailure
deriving DecidableEq, Inhabited

def RunError.message (e : RunError) : String :=
  "Failed to load " ++ e.content.name ++ " from " ++ e.file

/-- What a command prints, or why it fails, with the notices written up to there. -/
structure Report where
  output : Except RunError String
  notices : List Notice := []

/-- Reads the text of a file. -/
abbrev FileReader (m : Type → Type) := String → m (Except FileError String)

variable {m : Type → Type} [Monad m] {α : Type}

/-- Read a file and load it. -/
def FileReader.load (read : FileReader m) (content : Content) (file : String)
    (load : String → Loaded α) : m (Except RunError α) := do
  match ← read file with
  | .error e => return .error ⟨content, file, .file e⟩
  | .ok text =>
    match load text with
    | .error e => return .error ⟨content, file, .text e⟩
    | .ok result => return .ok result

/-- A graph as text that ends with a line break. -/
def Graph.render (g : Graph) : GraphFormat → String
  | .json => g.toJson.pretty ++ "\n"
  | .dot => g.toDot

namespace Command

def runGraph (read : FileReader m) (file : String) (format : GraphFormat) : m Report := do
  match ← read.load .steps file (StepMap.load (C := Unit)) with
  | .error e => return { output := .error e }
  | .ok steps =>
    return { output := .ok (steps.compile.graph.render format)
             notices := steps.loadNotices ++ steps.compileNotices }

/-- The selector is loaded before the values. -/
def runResolve (read : FileReader m) (file valuesFile : String) : m Report := do
  match ← read.load .selector file (Selector.load (C := Unit)) with
  | .error e => return { output := .error e }
  | .ok selector =>
    match ← read.load .values valuesFile FieldValues.load with
    | .error e => return { output := .error e }
    | .ok values =>
      let key := selector.resolve values.source ()
      return { output := .ok (key.value.getD "(none)" ++ "\n")
               notices := FormRouting.notices key.trace }

def run (read : FileReader m) : Command → m Report
  | .graph file format => runGraph read file format
  | .resolve file values => runResolve read file values

end Command

end FormRouting
