import Configurable.Data.Basic
import Configurable.Resolver
import Configurable.TypeGraph.Effective

/-!
# Schemas of documents

What a document that configures a program has to look like, as a JSON schema. Every module
is an object with a property per variable, inside the objects for its organization and for
the segments of its name.

A schema says what documents can hold: bytes are integers in their range, decimals numbers,
XML is a string. What cannot be configured leaves every value open.
-/

namespace Configurable

/-- An object has the listed properties, and others only if there is a schema for them. -/
inductive Schema where
  | any
  | integer
  | byte
  | boolean
  | number
  | string
  | array (items : Schema)
  | object (properties : List (String × Schema)) (required : List String)
      (additional : Option Schema)
  | map (values : Schema)
  | anyOf (members : List Schema)

/-! ## Schemas of types -/

def Primitive.schema : Primitive → Schema
  | .int => .integer
  | .byte => .byte
  | .boolean => .boolean
  | .float | .decimal => .number
  | .string | .xml => .string

namespace TypeGraph

/-- The schema of a type whose parts are nested at most this deep. -/
def schemaWithin? (g : TypeGraph) : (depth : Nat) → TypeRef → Option Schema
  | 0, _ => none
  | depth + 1, t =>
    match g.effectiveDef t with
    | .primitive p => some p.schema
    | .array element => (g.schemaWithin? depth element).map .array
    | .record r => do
      let properties ← r.fields.mapM fun f => (g.schemaWithin? depth f.type).map (f.name, ·)
      let required := (r.fields.filter (·.required)).map (·.name)
      match r.rest with
      | none => pure (.object (Entries.ofList properties) required none)
      | some rest =>
        let additional ← g.schemaWithin? depth rest
        pure (.object (Entries.ofList properties) required (some additional))
    | .table constraint _ => (g.schemaWithin? depth constraint).map .array
    | .map constraint _ => (g.schemaWithin? depth constraint).map .map
    | .union members => (members.mapM (g.schemaWithin? depth)).map .anyOf
    | .readonly | .intersection _ _ | .tuple _ => some .any

/-- The schema of a type. There is none for a type that contains itself other than in a
tuple: its parts are nested without end, and all others no deeper than there are types. -/
def schema? (g : TypeGraph) (t : TypeRef) : Option Schema := g.schemaWithin? g.size t

end TypeGraph

/-! ## Schemas of programs -/

/-- What a module's section holds: its variables, the names of those that are required, and
the sections of modules whose names extend its own. -/
inductive Outline where
  | section (held : List (String × Schema)) (required : List String)
      (parts : List (String × Outline))

namespace Outline

def empty : Outline := .section [] [] []

/-- A variable that is declared again has the later schema, and is required if one of its
declarations says so. -/
def declare (name : String) (schema : Schema) (isRequired : Bool) : Outline → Outline
  | .section held required parts =>
    let required := if isRequired && name ∉ required then required ++ [name] else required
    .section (Entries.insert held name schema) required parts

/-- Changes the section that a path leads to, which is there afterwards. -/
def modify (f : Outline → Outline) : (path : List String) → Outline → Outline
  | [], o => f o
  | segment :: path, .section held required parts =>
    let part := modify f path ((Entries.get? parts segment).getD empty)
    .section held required (Entries.insert parts segment part)

mutual

/-- A section for a variable's name takes the variable's place. -/
def toSchema : Outline → Schema
  | .section held required parts => .object (withParts held parts) required none

def withParts (properties : List (String × Schema)) :
    List (String × Outline) → List (String × Schema)
  | [] => properties
  | (name, part) :: parts => withParts (Entries.insert properties name part.toSchema) parts

end

end Outline

namespace TypeGraph

/-- The outline with the variables of a module. Those that cannot be configured are left
out. -/
def declareModule? (g : TypeGraph) (o : Outline) (module : ModuleId) (ds : List Declaration) :
    Option Outline := do
  let configurable := ds.filter fun d => g.isConfigurable d.type
  let schemas ← configurable.mapM fun d => (g.schema? d.type).map (d, ·)
  let declareAll := fun o => schemas.foldl (fun o (d, s) => o.declare d.name s d.required) o
  pure (o.modify declareAll (module.org :: module.segments))

def outline? (g : TypeGraph) (declarations : Declarations) : Option Outline :=
  declarations.foldlM (fun o (module, ds) => g.declareModule? o module ds) .empty

/-- The schema of the documents for a program, if all its variables' types have schemas. -/
def documentSchema? (g : TypeGraph) (declarations : Declarations) : Option Schema :=
  (g.outline? declarations).map Outline.toSchema

end TypeGraph

/-! ## Schemas as data -/

namespace Schema

/-- The version of the schema language. -/
def draft : String := "http://json-schema.org/draft-07/schema#"

def named (type : String) : String × Data := ("type", .string type)

mutual

def keywords : Schema → List (String × Data)
  | .any => []
  | .integer => [named "integer"]
  | .byte => [named "integer", ("minimum", .integer 0), ("maximum", .integer 255)]
  | .boolean => [named "boolean"]
  | .number => [named "number"]
  | .string => [named "string"]
  | .array items => [named "array", ("items", .mapping items.keywords)]
  | .object properties required additional =>
    [named "object", ("additionalProperties", additionalKeyword additional),
      ("properties", .mapping (propertyKeywords properties))] ++
      (if required.isEmpty then [] else [("required", .list (required.map .string))])
  | .map values => [named "object", ("additionalProperties", .mapping values.keywords)]
  | .anyOf members => [("anyOf", .list (memberKeywords members))]

def additionalKeyword : Option Schema → Data
  | none => .boolean false
  | some s => .mapping s.keywords

def propertyKeywords : List (String × Schema) → List (String × Data)
  | [] => []
  | (name, s) :: ss => (name, .mapping s.keywords) :: propertyKeywords ss

def memberKeywords : List Schema → List Data
  | [] => []
  | s :: ss => .mapping s.keywords :: memberKeywords ss

end

/-- The schema of a whole document, which says what language it is in. -/
def toData (s : Schema) : Data := .mapping (s.keywords ++ [("$schema", .string draft)])

end Schema

end Configurable
