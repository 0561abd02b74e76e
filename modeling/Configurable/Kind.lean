import Configurable.TypeGraph.Effective

/-!
# Kinds of values

What a source can be asked for: a value of a primitive type, an array, a record, a table or
a value of a union. The effective type of a variable decides; for maps and for what cannot
be configured at all there is no kind.
-/

namespace Configurable

inductive Kind where
  | primitive (p : Primitive)
  | array
  | record
  | table
  | union
deriving DecidableEq, Repr

namespace Kind

def ofDef? : TypeDef → Option Kind
  | .primitive p => some (.primitive p)
  | .array _ => some .array
  | .record _ => some .record
  | .table _ _ => some .table
  | .union _ => some .union
  | .map _ _ | .readonly | .intersection _ _ | .tuple _ => none

/-- The kind of the values of a type. -/
def ofType? (g : TypeGraph) (t : TypeRef) : Option Kind := ofDef? (g.effectiveDef t)

end Kind

end Configurable
