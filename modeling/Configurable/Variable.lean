import Configurable.TypeGraph.Basic

/-!
# Configurable variables

A variable is identified by its module and its name. What it is declared with, a type and
whether a value is required, takes no part in its identity.
-/

namespace Configurable

structure VariableId where
  module : ModuleId
  name : String
deriving DecidableEq, Repr

namespace VariableId

def render (v : VariableId) : String := s!"{v.module.org}/{v.module.name}:{v.name}"

/-- The form under which every module may name the variable. -/
def qualifiedName (v : VariableId) : String := s!"{v.module.qualifiedName}.{v.name}"

end VariableId

structure Declaration where
  name : String
  type : TypeRef
  required : Bool
deriving DecidableEq, Repr

/-- A declaration in its module. -/
structure Variable extends VariableId where
  type : TypeRef
  required : Bool
deriving DecidableEq, Repr

namespace Variable

abbrev id (v : Variable) : VariableId := v.toVariableId

def ofDeclaration (module : ModuleId) (d : Declaration) : Variable :=
  ⟨⟨module, d.name⟩, d.type, d.required⟩

end Variable

end Configurable
