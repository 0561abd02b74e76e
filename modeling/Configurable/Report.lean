import Configurable.Diagnostic
import Configurable.Text.Excerpt
import Configurable.Text.Wrap

/-!
# Reports

Diagnostics as they are shown to people: the code, the message, the lines that are at fault
and what to do about it. The span of the fault is underlined if it lies on one line, and
drawn in the gutter if it takes several.
-/

namespace Configurable

open Text (Span NumberedLine)

namespace Report

/-- The columns of a report. -/
def width : Nat := 158

/-- Text on several lines, with a mark of four columns before the first and another before
all others. -/
def paragraph (first rest : String) (text : String) : String :=
  match Text.wrap (width - 4) text with
  | [] => ""
  | line :: lines =>
    first ++ line ++ "\n" ++ String.join (lines.map fun line => rest ++ line ++ "\n")

def repeated (n : Nat) (c : Char) : String := String.ofList (List.replicate n c)

/-! ## How a span lies to a line -/

/-- Whether the span, taken as one byte if it is empty, starts on the line. -/
def startsOn (s : Span) (l : NumberedLine) : Bool :=
  l.span.start ≤ s.start && s.start < l.span.stop

def endsOn (s : Span) (l : NumberedLine) : Bool :=
  let stop := s.start + max s.length 1
  l.span.start < stop && stop ≤ l.span.stop

def passes (s : Span) (l : NumberedLine) : Bool :=
  s.start < l.span.start && l.span.stop < s.start + s.length

/-- Whether something of the span is to be seen at the line. -/
def touches (s : Span) (l : NumberedLine) : Bool :=
  startsOn s l || endsOn s l ||
    (s.start < l.span.start && l.span.stop < s.start + max s.length 1)

/-- Whether the span lies on this line alone. -/
def liesOn (s : Span) (l : NumberedLine) : Bool :=
  l.span.start ≤ s.start && s.start + s.length ≤ l.span.stop

/-- Whether the span is drawn in the gutter of the line. -/
def inGutter (s : Span) (l : NumberedLine) : Bool :=
  touches s l && !(startsOn s l && endsOn s l)

def isLastOf (s : Span) (l : NumberedLine) : Bool :=
  let stop := s.start + s.length
  l.span.start ≤ stop && stop ≤ l.span.stop

/-! ## Lines -/

/-- The gutter of a line, for a span that takes several. -/
def gutter (s : Span) (l : NumberedLine) : String :=
  if !inGutter s l then "    "
  else if l.span.start ≤ s.start then "╭─▶ "
  else if isLastOf s l then "├─▶ "
  else if passes s l then "│   "
  else "    "

/-- The start of a line that shows no text of the document. -/
def margin (digits : Nat) : String := " " ++ repeated digits ' ' ++ " · "

/-- The line under a span, and where its label hangs. -/
def underline (s : Span) (l : NumberedLine) : String × Nat :=
  let start := Text.cellAt l.text (s.start - l.span.start) true
  let stop :=
    if s.length = 0 then start + 1
    else max (Text.cellAt l.text (s.start + s.length - l.span.start) false) (start + 1)
  let middle := (start + stop) / 2
  let hook := if s.length = 0 then "▲" else "┬"
  (repeated start ' ' ++ repeated (middle - start) '─' ++ hook ++ repeated (stop - middle - 1) '─',
    middle)

/-- What stands below a line of the document. -/
def below (digits : Nat) (severity : Severity) (s : Span) (l : NumberedLine) : String :=
  if !touches s l then ""
  else if liesOn s l then
    let (line, middle) := underline s l
    margin digits ++ line ++ "\n" ++
      margin digits ++ repeated middle ' ' ++ "╰── " ++ severity.name ++ "\n"
  else if isLastOf s l && s.start < l.span.start then
    margin digits ++ "╰──── " ++ severity.name ++ "\n"
  else ""

/-- A line of the document with what stands below it. -/
def numbered (digits : Nat) (drawn : Bool) (severity : Severity) (s : Span)
    (l : NumberedLine) : String :=
  let number := toString l.number
  " " ++ repeated (digits - number.length) ' ' ++ number ++ " │ " ++
    (if drawn then gutter s l else "") ++ String.ofList (Text.withoutTabs l.text) ++ "\n" ++
    below digits severity s l

/-- The lines at a location. -/
def snippet (severity : Severity) (l : Location) : String :=
  let s := l.span
  match Text.excerpt? l.source.text s with
  | none =>
    "  [Failed to read contents for label \x60" ++ severity.name ++ "\x60 (offset: " ++
      toString s.start ++ ", length: " ++ toString s.length ++ "): OutOfBounds]\n"
  | some lines =>
    let last := (lines.getLast?.map (·.number)).getD 0
    let digits := (toString last).length
    let drawn := lines.any fun line => inGutter s line && !liesOn s line
    let place := Text.startPosition l.source.text s
    let name := l.source.name.getD "<config>"
    repeated (digits + 2) ' ' ++ "╭─[" ++ name ++ ":" ++ toString place.line ++ ":" ++
      toString place.column ++ "]\n" ++
      String.join (lines.map (numbered digits drawn severity s)) ++
      repeated (digits + 2) ' ' ++ "╰────\n"

def icon : Severity → String
  | .error => "  × "
  | .warning => "  ⚠ "

end Report

def Diagnostic.report (d : Diagnostic) : String :=
  d.problem.code ++ "\n\n" ++ Report.paragraph (Report.icon d.severity) "  │ " d.render ++
    ((d.location.map (Report.snippet d.severity)).getD "") ++
    ((d.problem.help?.map fun help => "  help: " ++ help ++ "\n").getD "")

/-- The reports of all diagnostics, one after the other. -/
def Log.report (log : Log) : String := String.join (log.map Diagnostic.report)

end Configurable
