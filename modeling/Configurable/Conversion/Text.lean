import Configurable.Diagnostic
import Configurable.Kind
import Configurable.Markup
import Configurable.Number.Integer
import Configurable.TypeGraph.Render
import Configurable.Value
import Configurable.Variable

/-!
# Values from text

A command line gives values as text. Every primitive has its own notation; a union takes
the first member whose notation the text is. Arrays, records and tables have none.
-/

namespace Configurable.Conversion

/-! ## Notations -/

/-- A decimal integer of 64 bits, with or without a sign. -/
def int64? (text : String) : Option Int64 :=
  let (negative, digits) := FloatText.splitSign text.toList
  if digits.isEmpty || !digits.all Char.isDigit then none
  else Integer.ofMagnitude? negative (FloatText.natOfDigits digits)

/-- `true` or `false` in any case. -/
def boolean? (text : String) : Option Bool :=
  let word := String.ofList (text.toList.map Char.toLower)
  if word = "true" then some true else if word = "false" then some false else none

def byte? (n : Int64) : Option UInt8 :=
  if 0 ≤ n.toInt ∧ n.toInt < 256 then some (UInt8.ofNat n.toInt.toNat) else none

def xml? (text : String) : Option Value :=
  if Markup.isBalanced text then some (.xml text) else none

/-- The text as a value of a primitive type. -/
def ofText? (p : Primitive) (text : String) : Option Value :=
  match p with
  | .int => (int64? text).map .int
  | .byte => ((int64? text).bind byte?).map .byte
  | .boolean => (boolean? text).map .boolean
  | .float => (FloatText.parse? text).map .float
  | .decimal => (Decimal.parse? text).map .decimal
  | .string => some (.string text)
  | .xml => xml? text

/-! ## Values of a variable -/

variable (g : TypeGraph) (v : Variable)

def textMismatch (text : String) : Diagnostic :=
  .error (.typeMismatch v.name (g.render v.type) text) none

/-- The first member of the union that takes the text. Members that are no primitives take
none. -/
def memberOfText? (text : String) : Option Value :=
  match g.effectiveDef v.type with
  | .union members =>
    members.findSome? fun m => (g.primitive? m).bind fun p => ofText? p text
  | _ => none

/-- The text as a value of a kind. An integer that is no byte is a problem of its own. -/
def ofText (kind : Kind) (text : String) : Except Diagnostic Value :=
  let orMismatch := fun (value : Option Value) =>
    match value with
    | some value => .ok value
    | none => .error (textMismatch g v text)
  match kind with
  | .primitive .byte =>
    match int64? text with
    | none => .error (textMismatch g v text)
    | some n =>
      match byte? n with
      | some b => .ok (.byte b)
      | none => .error (.error (.byteOutOfRange v.name text) none)
  | .primitive p => orMismatch (ofText? p text)
  | .union => orMismatch (memberOfText? g v text)
  | .array | .record | .table =>
    .error (.error (.unsupportedArgument v.name (g.render (g.effective v.type))) none)

end Configurable.Conversion
