import Configurable.Toml.Literal
import Configurable.Toml.Table

/-!
# Documents

A document is read statement by statement: pairs, headers, comments and empty lines. What a
statement says is put into the root table at once, so the first statement that cannot be
read or does not agree with those before it decides the failure.
-/

namespace Configurable.Toml

open Text (Span)

/-- What the statements so far have made, and the path of the last header. -/
structure Progress where
  root : Table
  current : List Key

namespace Progress

open Reader

def start : Progress := ⟨.empty .root, []⟩

def commentLine : Reader Unit := do comment; lineEnd

def pair (p : Progress) : Reader Progress :=
  let statement := do
    let key ← Key.dotted
    commit do
      Key.equals
      spaces
      let value ← Literal.value
      lineRest
      pure (key, value)
  checked statement fun ((path, key), value) =>
    (p.root.insertPair p.current path key value).map fun root => { p with root }

/-- A header between brackets, with the rest of its line. -/
def headerLine (opening closing : String) : Reader ((List Key × Key) × Span) := do
  let header ← spanned do
    word opening
    let key ← commit Key.dotted
    let _ ← expecting (.text closing) <| expecting (.text ".") <| commit (word closing)
    pure key
  commit lineRest
  pure header

def header (p : Progress) : Reader Progress := within .tableHeader do
  let next := (← upcoming).take 2
  if next = ['[', '['] then
    checked (headerLine "[[" "]]") fun ((path, key), span) =>
      (p.root.appendTable path key (Key.written key.name) span).map fun root =>
        ⟨root, path ++ [key]⟩
  else if next.length < 2 then refuse
  else
    checked (headerLine "[" "]") fun ((path, key), span) =>
      (p.root.openTable path key (Key.written key.name) span).map fun root =>
        ⟨root, path ++ [key]⟩

def statement (p : Progress) : Reader Progress := do
  let p' ← match ← peek? with
    | none => refuse
    | some '#' => do commit commentLine; pure p
    | some '[' => commit p.header
    | some '\n' | some '\r' => do newline; pure p
    | some _ => commit p.pair
  spaces
  pure p'

/-- A byte order mark at the start is skipped. -/
def document : Reader Table := do
  let _ ← optional (char '\ufeff')
  spaces
  let p ← iterate statement start
  endOfText
  pure p.root

end Progress

/-- The root table of a text, or why it is refused. -/
def read (text : String) : Except Failure Table :=
  match Progress.document (Cursor.ofText text) with
  | .done root _ => .ok root
  | .refused failure => .error failure
  | .broken failure => .error failure

end Configurable.Toml
