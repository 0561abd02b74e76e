import Configurable.TypeGraph.Basic

/-!
# The shape behind a type, and what can be configured

An intersection says which of its constituents gives values their shape; following
those links leads to the effective type. The number of steps is bounded by the size of
the graph, which is no restriction on a chain that ends: a longer one repeats a type.

A variable can be configured if its effective type is a primitive, an array of
primitives, of unions of primitives or of records, a record, a table or a union of
primitives. A record field can also be a map of primitives.
-/

namespace Configurable.TypeGraph

/-- The type `steps` links behind `t`, or the first on the way that is no intersection. -/
def follow (g : TypeGraph) : Nat → TypeRef → TypeRef
  | 0, t => t
  | steps + 1, t =>
    match g.get t with
    | .intersection _ effective => if effective = t then t else g.follow steps effective
    | _ => t

def effective (g : TypeGraph) (t : TypeRef) : TypeRef := g.follow g.size t

def effectiveDef (g : TypeGraph) (t : TypeRef) : TypeDef := g.get (g.effective t)

/-- The fields of a record, seen through intersections. -/
def record? (g : TypeGraph) (t : TypeRef) : Option RecordType :=
  match g.effectiveDef t with
  | .record r => some r
  | _ => none

def primitive? (g : TypeGraph) (t : TypeRef) : Option Primitive :=
  match g.effectiveDef t with
  | .primitive p => some p
  | _ => none

def isPrimitive (g : TypeGraph) (t : TypeRef) : Bool := (g.primitive? t).isSome

def isPrimitiveUnion (g : TypeGraph) (t : TypeRef) : Bool :=
  match g.effectiveDef t with
  | .union members => !members.isEmpty && members.all g.isPrimitive
  | _ => false

/-- Whether values of this type can be given, with or without maps among them. -/
def isConfigurableWith (g : TypeGraph) (maps : Bool) (t : TypeRef) : Bool :=
  match g.effectiveDef t with
  | .primitive _ => true
  | .array element =>
    g.isPrimitive element || g.isPrimitiveUnion element || (g.record? element).isSome
  | .record _ => true
  | .table _ _ => true
  | .union _ => g.isPrimitiveUnion t
  | .map constraint _ => maps && g.isPrimitive constraint
  | .readonly | .intersection _ _ | .tuple _ => false

/-- Whether a configurable variable can be declared with this type. -/
def isConfigurable (g : TypeGraph) (t : TypeRef) : Bool := g.isConfigurableWith false t

/-- Whether a record field of this type can be given a value. -/
def isConfigurableField (g : TypeGraph) (t : TypeRef) : Bool := g.isConfigurableWith true t

end Configurable.TypeGraph
