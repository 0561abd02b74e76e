import Configurable.Entries
import Configurable.Number.Decimal

/-!
# Configuration values

A value that was read against a declared type. Records keep the name of the type they were
read against, and tables the names of their key columns.

Values are compared as the program's own equality does: doubles by number, so that a NaN
differs from itself; decimals by number, whatever their scales; fields without regard to
their order.
-/

namespace Configurable

structure RecordOf (α : Type) where
  typeName : String
  fields : List (String × α)

structure TableOf (α : Type) where
  keys : List String
  rows : List (RecordOf α)

inductive Value where
  | int (n : Int64)
  | byte (n : UInt8)
  | boolean (b : Bool)
  | float (x : Float)
  | decimal (d : Decimal)
  | string (s : String)
  | xml (text : String)
  | array (items : List Value)
  | record (r : RecordOf Value)
  | table (t : TableOf Value)
  | map (entries : List (String × Value))

abbrev Record := RecordOf Value

abbrev Table := TableOf Value

namespace Value

/-! ## Reading a value as something -/

def asInt? : Value → Option Int64
  | .int n => some n
  | .byte n => some (Int64.ofNat n.toNat)
  | _ => none

def asString? : Value → Option String
  | .string s => some s
  | .xml text => some text
  | _ => none

def asBool? : Value → Option Bool
  | .boolean b => some b
  | _ => none

def asArray? : Value → Option (List Value)
  | .array items => some items
  | _ => none

def asRecord? : Value → Option Record
  | .record r => some r
  | _ => none

def asTable? : Value → Option Table
  | .table t => some t
  | _ => none

/-! ## Text -/

/-- Field texts in braces. -/
def braced (fields : List String) : String := "\x7b" ++ String.intercalate ", " fields ++ "\x7d"

def bracketed (items : List String) : String := "[" ++ String.intercalate ", " items ++ "]"

mutual

def render : Value → String
  | .int n => toString n.toInt
  | .byte n => toString n.toNat
  | .boolean b => if b then "true" else "false"
  | .float x => FloatText.positional x
  | .decimal d => d.render
  | .string s => s
  | .xml text => text
  | .array items => bracketed (renderItems items)
  | .record ⟨_, fields⟩ => braced (renderFields fields)
  | .table ⟨_, rows⟩ => bracketed (renderRows rows)
  | .map entries => braced (renderFields entries)

def renderItems : List Value → List String
  | [] => []
  | v :: vs => v.render :: renderItems vs

def renderFields : List (String × Value) → List String
  | [] => []
  | (name, v) :: fs => (name ++ ": " ++ v.render) :: renderFields fs

def renderRows : List (RecordOf Value) → List String
  | [] => []
  | ⟨_, fields⟩ :: rows => braced (renderFields fields) :: renderRows rows

end

/-! ## Equality -/

mutual

def same : Value → Value → Bool
  | .int a, .int b => a == b
  | .byte a, .byte b => a == b
  | .boolean a, .boolean b => a == b
  | .float a, .float b => a == b
  | .decimal a, .decimal b => a.sameNumber b
  | .string a, .string b => a == b
  | .xml a, .xml b => a == b
  | .array as, .array bs => sameItems as bs
  | .record ⟨name, as⟩, .record ⟨name', bs⟩ =>
    name == name' && as.length == bs.length && sameFields as bs
  | .table ⟨keys, as⟩, .table ⟨keys', bs⟩ => keys == keys' && sameRows as bs
  | .map as, .map bs => as.length == bs.length && sameFields as bs
  | _, _ => false

def sameItems : List Value → List Value → Bool
  | [], [] => true
  | a :: as, b :: bs => same a b && sameItems as bs
  | _, _ => false

/-- Every field of the first is among the fields of the second. -/
def sameFields : List (String × Value) → List (String × Value) → Bool
  | [], _ => true
  | (name, a) :: as, bs =>
    (match Entries.get? bs name with
      | some b => same a b
      | none => false) && sameFields as bs

def sameRows : List (RecordOf Value) → List (RecordOf Value) → Bool
  | [], [] => true
  | ⟨name, as⟩ :: rows, ⟨name', bs⟩ :: rows' =>
    name == name' && as.length == bs.length && sameFields as bs && sameRows rows rows'
  | _, _ => false

end

end Value

namespace RecordOf

def get? (r : Record) (field : String) : Option Value := Entries.get? r.fields field

end RecordOf

namespace TableOf

/-- The row whose first key column holds `key`. -/
def get? (t : Table) (key : Value) : Option Record :=
  match t.keys with
  | [] => none
  | column :: _ => t.rows.find? fun row => (row.get? column).any (·.same key)

end TableOf

end Configurable
