import Configurable.TypeGraph.Basic

/-!
# Types as they are written

The text of a type in messages, such as `int[] & readonly`. A type that contains itself
is written once: while it is being written, another mention of it is only its name, or
`...` if it has none. Every mention that is written out adds an index to the list of those
being written, and there are finitely many, so the writing ends.
-/

namespace Configurable

/-- A definition as it is mentioned inside itself. -/
def TypeDef.mention : TypeDef → String
  | .tuple ⟨some name, _, _, _⟩ => name
  | .record r => if r.name.isEmpty then "..." else r.title
  | _ => "..."

/-- Unions and intersections are put in parentheses as element of an array. -/
def TypeDef.isJoined : TypeDef → Bool
  | .union _ | .intersection _ _ => true
  | _ => false

/-- One level of a type: `part` writes the types it mentions, and `joined` says which of
those are unions or intersections. -/
def TypeDef.renderWith (joined : TypeRef → Bool) (part : TypeRef → String) : TypeDef → String
  | .primitive p => p.name
  | .readonly => "readonly"
  | .array element =>
    if joined element then "(" ++ part element ++ ")[]" else part element ++ "[]"
  | .record r =>
    if r.name.isEmpty then
      let field := fun (f : Field) =>
        " " ++ part f.type ++ " " ++ f.name ++ (if f.required then "" else "?") ++ ";"
      "record \x7b|" ++ String.join (r.fields.map field) ++ " |\x7d"
    else r.title
  | .table constraint keys =>
    let keyed := if keys.isEmpty then "" else " key(" ++ String.intercalate ", " keys ++ ")"
    "table<" ++ part constraint ++ ">" ++ keyed
  | .map constraint immutable =>
    "map<" ++ part constraint ++ ">" ++ (if immutable then " & readonly" else "")
  | .union members => String.intercalate "|" (members.map part)
  | .intersection constituents _ => String.intercalate " & " (constituents.map part)
  | .tuple t =>
    let rest := t.rest.toList.map fun r => part r ++ "..."
    "[" ++ String.intercalate "," (t.members.map part ++ rest) ++ "]" ++
      (if t.readonly then " & readonly" else "")

namespace TypeGraph

/-- How many definitions are not being written. -/
def unwritten (g : TypeGraph) (writing : List Nat) : Nat :=
  ((List.range g.defs.size).filter (· ∉ writing)).length

theorem unwritten_cons_lt {g : TypeGraph} {writing : List Nat} {i : Nat}
    (hi : i < g.defs.size) (hw : i ∉ writing) :
    g.unwritten (i :: writing) < g.unwritten writing := by
  have hmem : i ∈ (List.range g.defs.size).filter (· ∉ writing) := by simp [hi, hw]
  have hsplit : (List.range g.defs.size).filter (· ∉ i :: writing) =
      ((List.range g.defs.size).filter (· ∉ writing)).filter (· ≠ i) := by
    rw [List.filter_filter]
    congr 1
    funext j
    by_cases hj : j = i <;> simp [hj]
  unfold unwritten
  rw [hsplit]
  exact List.length_filter_lt_length_iff_exists.2 ⟨i, hmem, by simp⟩

/-- The text of `t` inside the definitions whose indices are in `writing`. -/
def renderWithin (g : TypeGraph) (writing : List Nat) (t : TypeRef) : String :=
  let joined := fun u => (g.get u).isJoined
  match t with
  | .defined i =>
    if i ∈ writing then (g.get (.defined i)).mention
    else if i < g.defs.size then
      (g.get (.defined i)).renderWith joined fun u => g.renderWithin (i :: writing) u
    else "readonly"
  | .primitive p => p.name
  | .readonly => "readonly"
termination_by g.unwritten writing
decreasing_by exact unwritten_cons_lt ‹_› ‹_›

def render (g : TypeGraph) (t : TypeRef) : String := g.renderWithin [] t

end TypeGraph

end Configurable
