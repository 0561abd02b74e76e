import Configurable.Diagnostic
import Configurable.FileTree
import Configurable.Kind
import Configurable.Value
import Configurable.Variable

/-!
# Sources of values

A source is initialized, asked for values one variable at a time, and completed. An entry
that was found for a variable counts as used, whether or not its text is a value of the
variable's type; an entry that was not found for any is reported at the end.

A source answers with a value, with nothing, or with the diagnostic that says why what it
has is no value. What it keeps between calls is its own.
-/

namespace Configurable

/-- What a source has for a variable. -/
abbrev Answer := Except Diagnostic (Option Value)

class Source (σ : Type) where
  /-- Reads what the source is made from, anew at every call. -/
  start : FileTree → σ → Log × σ
  /-- Whether there are entries that were not used. -/
  hasUnused : σ → Bool
  /-- Looks for the variable, and reads what is found as a value of a kind. -/
  read : TypeGraph → Kind → Variable → σ → Answer × σ
  /-- Uses what there is for the variable without reading it. -/
  mark : Variable → σ → σ
  /-- Reports the entries that were not used, each of them once. -/
  complete : σ → Log × σ

/-- One call to a source. -/
inductive Action where
  | start
  | read (kind : Kind) (id : VariableId)
  | mark (id : VariableId)
  | complete
deriving DecidableEq, Repr

namespace Source

variable {σ : Type} [Source σ]

/-- Reads the variable as a value of the kind that its type has. A variable whose type has
none is only marked. -/
def lookup (g : TypeGraph) (v : Variable) (s : σ) : Answer × σ :=
  match Kind.ofType? g v.type with
  | some kind => read g kind v s
  | none => (.ok none, mark v s)

/-- The call that looking a variable up amounts to. -/
def lookupAction (g : TypeGraph) (v : Variable) : Action :=
  match Kind.ofType? g v.type with
  | some kind => .read kind v.id
  | none => .mark v.id

end Source

end Configurable
