import Configurable.Problem
import Configurable.Text.Position

/-!
# Diagnostics

A diagnostic is a problem with its severity and, where a document is at fault, the place in
it. A log is the list of diagnostics in the order in which they were made.
-/

namespace Configurable

open Text (Span LineRange)

inductive Severity where
  | error
  | warning
deriving DecidableEq, Repr

def Severity.name : Severity → String
  | .error => "error"
  | .warning => "warning"

/-- A place in a text. The end may lie before the start; the place is then empty. -/
structure Location where
  source : Text.Named
  span : Span
deriving DecidableEq, Repr

namespace Location

def range (l : Location) : LineRange := .ofOffsets l.source.text l.span.start l.span.stop

/-- The place in brackets, with the file if it has a name. -/
def render (l : Location) : String :=
  match l.source.name with
  | some name => s!"[{name}:{l.range.render}]"
  | none => s!"[{l.range.render}]"

end Location

structure Diagnostic where
  severity : Severity
  problem : Problem
  location : Option Location
deriving DecidableEq, Repr

namespace Diagnostic

def error (problem : Problem) (location : Option Location) : Diagnostic :=
  ⟨.error, problem, location⟩

def warning (problem : Problem) (location : Option Location) : Diagnostic :=
  ⟨.warning, problem, location⟩

def message (d : Diagnostic) : String := d.problem.message

def isError (d : Diagnostic) : Bool := d.severity == .error

/-- The form on one line: severity, place and message. -/
def render (d : Diagnostic) : String :=
  let place := (d.location.map fun l => l.render ++ " ").getD ""
  d.severity.name ++ ": " ++ place ++ d.message

end Diagnostic

abbrev Log := List Diagnostic

namespace Log

def errors (log : Log) : Log := log.filter Diagnostic.isError

def warnings (log : Log) : Log := log.filter (!·.isError)

def hasErrors (log : Log) : Bool := log.any Diagnostic.isError

end Log

end Configurable
