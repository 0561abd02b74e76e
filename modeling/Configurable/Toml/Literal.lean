import Configurable.Toml.DottedKey
import Configurable.Toml.Moment

/-!
# Values

Strings, numbers, moments, booleans, arrays and inline tables. Arrays and inline tables
contain values again, up to the depth limit.
-/

namespace Configurable.Toml

open Text (Span)

namespace Literal

/-! ## Inline tables

A dotted key makes the tables on its way where they are missing. Only tables that were made
in this way may be on the way: one that was written out is complete. -/

/-- Puts a value under a new key at the end of a path. `seen` is how the path began. -/
def insertAt (key : Key) (value : Literal) : (seen : List String) → (path : List Key) →
    List (Key × Literal) → Except Cause (List (Key × Literal))
  | _, [], es =>
    alterEntry key (fun
      | none => .ok value
      | some _ => .error (.duplicateKey key.name none)) es
  | seen, k :: path, es =>
    alterEntry k (fun
      | none => (insertAt key value (seen ++ [k.name]) path []).map (inline none)
      | some (inline none inner) =>
        (insertAt key value (seen ++ [k.name]) path inner).map (inline none)
      | some (inline (some _) _) => .error (.duplicateKey k.name none)
      | some other => .error (.notATable (seen ++ [k.name]) other.kind)) es

/-- The entries that a list of pairs makes, in their order. -/
def entriesOf (pairs : List ((List Key × Key) × Literal)) :
    Except Cause (List (Key × Literal)) :=
  pairs.foldlM (fun es ((path, key), value) => insertAt key value [] path es) []

open Reader

/-- A pair inside braces. -/
def inlinePair (value : Reader Literal) : Reader ((List Key × Key) × Literal) := do
  let key ← Key.dotted
  commit do
    Key.equals
    spaces
    let v ← value
    spaces
    pure (key, v)

def inlineEntries (value : Reader Literal) : Reader (List (Key × Literal)) := do
  let _ ← char '\x7b'
  let pairs := do
    let ps ← separated (inlinePair value) (char ',')
    spaces
    pure ps
  let entries ← commit (checked pairs entriesOf)
  let _ ← within .inlineTable <| expecting (.text "\x7d") <| commit (char '\x7d')
  pure entries

/-! ## Arrays -/

/-- The inside of an array. A comma may stand behind the last value. -/
def arrayItems (value : Reader Literal) : Reader (List Literal) := do
  match ← peek? with
  | some ']' => pure []
  | _ =>
    let items ← separated (do blanks; let v ← value; blanks; pure v) (char ',')
    if !items.isEmpty then
      let _ ← optional (char ',')
    blanks
    pure items

def arrayOf (value : Reader Literal) : Reader (List Literal) := do
  let _ ← char '['
  let items ← commit (arrayItems value)
  let _ ← within .array <| expecting (.text "]") <| commit (char ']')
  pure items

/-! ## Values by their first character -/

def asString (r : Reader Scalar) : Reader Scalar :=
  expecting (.text "'") <| expecting (.text "\"") <| within .string r

def numeric : Reader Scalar :=
  let moment := do pure (Scalar.datetime (← Moment.moment))
  let float := do pure (Scalar.float (← Number.float))
  let integer := do pure (Scalar.integer (← Number.integer))
  orElse moment <| orElse float integer

/-- A value that contains no others. What cannot start a value is refused as a string that
lacks its quotes, digits without their first as a number. -/
def scalarValue : Reader Scalar := do
  match ← peek? with
  | none => refuse
  | some '"' | some '\'' => pure (Scalar.string (← Quoted.text))
  | some '_' => expecting .leadingDigit do pure (Scalar.integer (← Number.integer))
  | some '.' => expecting .leadingDigit do pure (Scalar.float (← Number.float))
  | some 't' => asString do commit (word "true"); pure (Scalar.boolean true)
  | some 'f' => asString do commit (word "false"); pure (Scalar.boolean false)
  | some 'i' => asString do word "inf"; pure (Scalar.float (Binary64.infinity false))
  | some 'n' => asString do word "nan"; pure (Scalar.float FloatText.nan)
  | some c => if c.isDigit || c == '+' || c == '-' then numeric else asString refuse

/-- Breaks off where values are nested too deeply. -/
def tooDeep {α : Type} : Reader α := fun c => .broken (.because c.position .tooDeep)

/-- A value whose parts, if it has any, are read by `inner`. -/
def readWith (inner : Option (Reader Literal)) : Reader Literal := do
  match ← peek? with
  | some '[' =>
    let (items, span) ← spanned (match inner with
      | some value => arrayOf value
      | none => tooDeep)
    pure (.array span items)
  | some '\x7b' =>
    let (entries, span) ← spanned (match inner with
      | some value => inlineEntries value
      | none => tooDeep)
    pure (.inline (some span) entries)
  | _ =>
    let (value, span) ← spanned scalarValue
    pure (.scalar span value)

/-- A value with at most `depth` arrays and inline tables inside one another. -/
def reader : (depth : Nat) → Reader Literal
  | 0 => readWith none
  | depth + 1 => readWith (some (reader depth))

/-- A value that a document may contain. -/
def value : Reader Literal := reader (depthLimit - 1)

end Literal

end Configurable.Toml
