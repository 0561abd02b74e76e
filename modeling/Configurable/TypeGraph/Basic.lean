import Configurable.ModuleId

/-!
# Declared types

The types of the language whose programs are configured. A type refers to others by
reference, and the definitions live in one graph, so that a tuple can contain itself
and a definition can be used before it is complete.

A reference is to one of the types every program has or to a definition by its index.
A reference to a definition that is not there reads as the bare `readonly` type, which
no value has; graphs built with `add` contain none.
-/

namespace Configurable

inductive Primitive where
  | int | byte | boolean | float | decimal | string | xml
deriving DecidableEq, Repr

def Primitive.name : Primitive → String
  | .int => "int"
  | .byte => "byte"
  | .boolean => "boolean"
  | .float => "float"
  | .decimal => "decimal"
  | .string => "string"
  | .xml => "xml"

inductive TypeRef where
  | primitive (p : Primitive)
  | readonly
  | defined (index : Nat)
deriving DecidableEq, Repr

/-- A record field. A required field has to be given, having no default. -/
structure Field where
  name : String
  type : TypeRef
  required : Bool
deriving DecidableEq, Repr

/-- `rest` is the type of the fields that are not listed; a closed record has none. A
record without a name is written out where it is shown. -/
structure RecordType where
  name : String
  module : ModuleId
  fields : List Field
  rest : Option TypeRef
deriving DecidableEq, Repr

namespace RecordType

def field? (r : RecordType) (name : String) : Option Field :=
  r.fields.find? (·.name = name)

/-- The type an entry called `name` has to have, if the record admits one. -/
def typeOf? (r : RecordType) (name : String) : Option TypeRef :=
  match r.field? name with
  | some field => some field.type
  | none => r.rest

/-- The name with the module that declares it. -/
def title (r : RecordType) : String := s!"{r.module.name}:{r.name}"

end RecordType

structure TupleType where
  name : Option String
  members : List TypeRef
  rest : Option TypeRef
  readonly : Bool
deriving DecidableEq, Repr

/-- `effective` is the shape that values of an intersection have. -/
inductive TypeDef where
  | primitive (p : Primitive)
  | readonly
  | array (element : TypeRef)
  | record (r : RecordType)
  | table (constraint : TypeRef) (keys : List String)
  | map (constraint : TypeRef) (readonly : Bool)
  | union (members : List TypeRef)
  | intersection (constituents : List TypeRef) (effective : TypeRef)
  | tuple (t : TupleType)
deriving DecidableEq, Repr

structure TypeGraph where
  defs : Array TypeDef
deriving Repr

namespace TypeGraph

def empty : TypeGraph := ⟨#[]⟩

/-- The number of types every program has. -/
def builtinCount : Nat := 8

/-- The number of types there are to refer to. -/
def size (g : TypeGraph) : Nat := builtinCount + g.defs.size

def get (g : TypeGraph) : TypeRef → TypeDef
  | .primitive p => .primitive p
  | .readonly => .readonly
  | .defined i => g.defs.getD i .readonly

/-- What is none of the types that every program has is a definition of the graph. -/
theorem exists_index {g : TypeGraph} {t : TypeRef} (hprimitive : ∀ p, g.get t ≠ .primitive p)
    (hreadonly : g.get t ≠ .readonly) : ∃ i < g.defs.size, t = .defined i := by
  cases t with
  | primitive p => exact absurd rfl (hprimitive p)
  | readonly => exact absurd rfl hreadonly
  | defined i =>
      by_cases hi : i < g.defs.size
      · exact ⟨i, hi, rfl⟩
      · simp [get, Array.getD, hi] at hreadonly

/-! ## Building -/

/-- The graph with one more definition, and the reference to it. -/
def add (g : TypeGraph) (d : TypeDef) : TypeGraph × TypeRef :=
  (⟨g.defs.push d⟩, .defined g.defs.size)

/-- `T & readonly`, whose values have the shape of `T`. -/
def readonlyOf (t : TypeRef) : TypeDef := .intersection [t, .readonly] t

/-- A tuple to which members are added afterwards, so that they can refer to it. -/
def declaredTuple (name : Option String) : TypeDef := .tuple ⟨name, [], none, false⟩

/-- Appends a member to a tuple. A tuple is never its own direct member, and nothing else
has members to add to: both are refused. -/
def addTupleMember? (g : TypeGraph) (tuple member : TypeRef) : Option TypeGraph :=
  if tuple = member then none
  else
    match tuple, g.get tuple with
    | .defined i, .tuple t =>
      some ⟨g.defs.setIfInBounds i (.tuple { t with members := t.members ++ [member] })⟩
    | _, _ => none

end TypeGraph

end Configurable
