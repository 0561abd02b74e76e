import Configurable.Toml.Quoted
import Configurable.Toml.Syntax

/-!
# Keys

A key is bare or quoted. Dotted keys have less than 80 parts.
-/

namespace Configurable.Toml

/-- How deep values may be nested, and how many parts a dotted key may have, one less than
this number each. -/
def depthLimit : Nat := 80

def isBareKeyChar (c : Char) : Bool := c.isAlphanum || c == '-' || c == '_'

namespace Key

open Reader

def bareName : Reader String := do pure (String.ofList (← run1 isBareKeyChar))

def simpleName : Reader String := do
  match ← peek? with
  | some '"' => Quoted.basic
  | some '\'' => Quoted.literal
  | _ => bareName

def part : Reader Key := do
  spaces
  let (name, span) ← spanned simpleName
  spaces
  pure ⟨name, span⟩

/-- The parts of a dotted key: those that lead to a table, and the last one. -/
def dotted : Reader (List Key × Key) :=
  let parts := within .key do
    let first ← part
    let more ← many (do let _ ← char '.'; part)
    pure (first, more)
  checked parts fun (first, more) =>
    if more.length + 1 < depthLimit then
      .ok ((first :: more).dropLast, (more.getLast?).getD first)
    else .error .tooDeep

/-- Between a key and its value. The key could have gone on with a point. -/
def equals : Reader Unit :=
  expecting (.text "=") <| expecting (.text ".") do
    let _ ← char '='

/-! ## Keys as text -/

def hexDigits (n : Nat) : String :=
  let ds := (Nat.toDigits 16 n).map Char.toUpper
  String.ofList (List.replicate (4 - ds.length) '0' ++ ds)

def escaped (c : Char) : String :=
  match Quoted.simpleEscapes.find? fun pair => pair.2 == c with
  | some (letter, _) => "\\" ++ letter.toString
  | none => if c.toNat < 0x20 || c.toNat == 0x7F then "\\u" ++ hexDigits c.toNat else c.toString

/-- A key as it would be written: bare if possible, else in double quotes if nothing has to
be escaped, else in single quotes if possible. -/
def written (name : String) : String :=
  let cs := name.toList
  let hasControl := cs.any fun c => c != '\t' && (c.toNat < 0x20 || c.toNat == 0x7F)
  if !cs.isEmpty && cs.all isBareKeyChar then name
  else if !hasControl && !cs.contains '"' && !cs.contains '\\' then
    "\"" ++ String.join (cs.map escaped) ++ "\""
  else if !hasControl && !cs.contains '\'' then "'" ++ name ++ "'"
  else "\"" ++ String.join (cs.map escaped) ++ "\""

end Key

end Configurable.Toml
