import Configurable.Schema
import Configurable.Toml.Node

/-!
# What schemas say of nodes

A schema is data, and what it asks of a node is told by its keywords (`Validates`), each on its
own: a keyword for tables says nothing of an array, and one that is not known says nothing at
all. Only `additionalProperties` looks at another keyword, since it is about the entries that
`properties` does not list.

Of the schemas that are written for types this gives the conditions that one expects, one for
each form (`validates_array_iff` and the others).
-/

namespace Configurable

open Toml (Node Entry EntryOf)

namespace Toml

/-- The names in a schema of the types that a scalar has. -/
def Scalar.types : Scalar → List String
  | .integer _ => ["integer", "number"]
  | .float _ => ["number"]
  | .boolean _ => ["boolean"]
  | .string _ => ["string"]
  | .datetime _ => []

namespace Node

def items : Node → List Node
  | .array _ _ items => items
  | _ => []

/-- The names in a schema of the types that a node has. -/
def types : Node → List String
  | .scalar _ _ value => value.types
  | .array _ _ _ => ["array"]
  | .table _ _ _ => ["object"]

/-- What is no number is bounded by all numbers. -/
def AtLeast (low : Int) : Node → Prop
  | .scalar _ _ (.integer n) => low ≤ n.toInt
  | .scalar _ _ (.float x) => Float.ofInt low ≤ x
  | _ => True

def AtMost (high : Int) : Node → Prop
  | .scalar _ _ (.integer n) => n.toInt ≤ high
  | .scalar _ _ (.float x) => x ≤ Float.ofInt high
  | _ => True

variable {n : Node}

theorem eq_scalar_of_types {type : String} (h : type ∈ n.types)
    (hscalar : type ≠ "array" ∧ type ≠ "object") :
    ∃ id span value, n = .scalar id span value ∧ type ∈ value.types := by
  cases n with
  | scalar id span value => exact ⟨id, span, value, rfl, h⟩
  | array id span items => exact absurd (List.mem_singleton.mp h) hscalar.1
  | table id span entries => exact absurd (List.mem_singleton.mp h) hscalar.2

theorem eq_array_of_types (h : "array" ∈ n.types) : ∃ id span items, n = .array id span items := by
  cases n with
  | array id span items => exact ⟨id, span, items, rfl⟩
  | scalar id span value => cases value <;> simp [types, Scalar.types] at h
  | table id span entries => simp [types] at h

theorem eq_table_of_types (h : "object" ∈ n.types) :
    ∃ id span entries, n = .table id span entries := by
  cases n with
  | table id span entries => exact ⟨id, span, entries, rfl⟩
  | scalar id span value => cases value <;> simp [types, Scalar.types] at h
  | array id span items => simp [types] at h

end Node

end Toml

namespace Data

/-- Some property is listed under the name. -/
def Lists (keywords : List (String × Data)) (name : String) : Prop :=
  ∃ properties, ("properties", .mapping properties) ∈ keywords ∧ name ∈ properties.map Prod.fst

theorem sizeOf_keyword_lt {name : String} {s : Data} {keywords : List (String × Data)}
    (h : (name, s) ∈ keywords) : sizeOf s < sizeOf (Data.mapping keywords) := by
  have hmem := List.sizeOf_lt_of_mem h
  simp only [Prod.mk.sizeOf_spec, mapping.sizeOf_spec] at hmem ⊢
  omega

theorem sizeOf_member_lt {s : Data} {members : List Data} (h : s ∈ members) :
    sizeOf s < sizeOf (Data.list members) := by
  have hmem := List.sizeOf_lt_of_mem h
  simp only [list.sizeOf_spec]
  omega

/-- The node is valid for the schema: it does what every keyword asks. -/
def Validates : Data → Node → Prop
  | .boolean b, _ => b = true
  | .mapping keywords, n =>
    (∀ type, ("type", .string type) ∈ keywords → type ∈ n.types) ∧
    (∀ low, ("minimum", .integer low) ∈ keywords → n.AtLeast low) ∧
    (∀ high, ("maximum", .integer high) ∈ keywords → n.AtMost high) ∧
    (∀ s, ("items", s) ∈ keywords → ∀ item ∈ n.items, Validates s item) ∧
    (∀ properties, ("properties", .mapping properties) ∈ keywords →
      ∀ e ∈ n.entries, ∀ s, (e.key, s) ∈ properties → Validates s e.node) ∧
    (∀ s, ("additionalProperties", s) ∈ keywords →
      ∀ e ∈ n.entries, ¬ Lists keywords e.key → Validates s e.node) ∧
    (∀ required, ("required", .list required) ∈ keywords →
      ∀ name, .string name ∈ required → ∃ e ∈ n.entries, e.key = name) ∧
    (∀ members, ("anyOf", .list members) ∈ keywords →
      ∃ s, ∃ _ : s ∈ members, Validates s n)
  | .integer _, _ | .float _, _ | .string _, _ | .list _, _ => False
termination_by s => sizeOf s
decreasing_by
  · exact sizeOf_keyword_lt ‹_›
  · exact Nat.lt_trans (sizeOf_keyword_lt ‹(_, _) ∈ properties›)
      (sizeOf_keyword_lt ‹("properties", _) ∈ _›)
  · exact sizeOf_keyword_lt ‹_›
  · exact Nat.lt_trans (sizeOf_member_lt ‹_›) (sizeOf_keyword_lt ‹("anyOf", _) ∈ _›)

end Data

/-! ## The schemas of types -/

namespace Schema

variable {n : Node}

/-- The node is valid for the schema as it is written. -/
def Validates (s : Schema) (n : Node) : Prop := (Data.mapping s.keywords).Validates n

theorem mem_propertyKeywords {name : String} {d : Data} : ∀ {properties : List (String × Schema)},
    (name, d) ∈ propertyKeywords properties ↔
      ∃ s, (name, s) ∈ properties ∧ d = .mapping s.keywords
  | [] => by simp [propertyKeywords]
  | (name', s') :: properties => by
      simp only [propertyKeywords, List.mem_cons, Prod.mk.injEq, mem_propertyKeywords]
      constructor
      · rintro (⟨rfl, rfl⟩ | ⟨s, hs, rfl⟩)
        · exact ⟨s', Or.inl ⟨rfl, rfl⟩, rfl⟩
        · exact ⟨s, Or.inr hs, rfl⟩
      · rintro ⟨s, ⟨rfl, rfl⟩ | hs, rfl⟩
        · exact Or.inl ⟨rfl, rfl⟩
        · exact Or.inr ⟨s, hs, rfl⟩

theorem map_fst_propertyKeywords : ∀ properties : List (String × Schema),
    (propertyKeywords properties).map Prod.fst = properties.map Prod.fst
  | [] => rfl
  | (name, s) :: properties => by
      rw [propertyKeywords, List.map_cons, map_fst_propertyKeywords properties, List.map_cons]

theorem memberKeywords_eq : ∀ members : List Schema,
    memberKeywords members = members.map fun s => .mapping s.keywords
  | [] => rfl
  | s :: members => by rw [memberKeywords, memberKeywords_eq members, List.map_cons]

theorem validates_any : Schema.any.Validates n := by
  rw [Validates, Data.Validates]
  simp [keywords]

theorem validates_integer_iff : Schema.integer.Validates n ↔ "integer" ∈ n.types := by
  rw [Validates, Data.Validates]
  simp [keywords, named]

theorem validates_byte_iff : Schema.byte.Validates n ↔
    "integer" ∈ n.types ∧ n.AtLeast 0 ∧ n.AtMost 255 := by
  rw [Validates, Data.Validates]
  simp [keywords, named]

theorem validates_boolean_iff : Schema.boolean.Validates n ↔ "boolean" ∈ n.types := by
  rw [Validates, Data.Validates]
  simp [keywords, named]

theorem validates_number_iff : Schema.number.Validates n ↔ "number" ∈ n.types := by
  rw [Validates, Data.Validates]
  simp [keywords, named]

theorem validates_string_iff : Schema.string.Validates n ↔ "string" ∈ n.types := by
  rw [Validates, Data.Validates]
  simp [keywords, named]

theorem validates_array_iff {s : Schema} : (Schema.array s).Validates n ↔
    "array" ∈ n.types ∧ ∀ item ∈ n.items, s.Validates item := by
  rw [Validates, Data.Validates]
  simp [keywords, named, Validates]

theorem validates_map_iff {s : Schema} : (Schema.map s).Validates n ↔
    "object" ∈ n.types ∧ ∀ e ∈ n.entries, s.Validates e.node := by
  rw [Validates, Data.Validates]
  simp [keywords, named, Validates, Data.Lists]

theorem validates_anyOf_iff {members : List Schema} : (Schema.anyOf members).Validates n ↔
    ∃ s ∈ members, s.Validates n := by
  have hkeywords : (Schema.anyOf members).Validates n ↔
      ∃ s ∈ memberKeywords members, s.Validates n := by
    rw [Validates, Data.Validates]
    simp [keywords]
  rw [hkeywords, memberKeywords_eq]
  constructor
  · rintro ⟨d, hd, hvalid⟩
    obtain ⟨s, hs, rfl⟩ := List.mem_map.mp hd
    exact ⟨s, hs, hvalid⟩
  · rintro ⟨s, hs, hvalid⟩
    exact ⟨_, List.mem_map_of_mem hs, hvalid⟩

theorem validates_additionalKeyword_iff {additional : Option Schema} :
    (additionalKeyword additional).Validates n ↔ ∃ s, additional = some s ∧ s.Validates n := by
  cases additional with
  | none => simp [additionalKeyword, Data.Validates]
  | some s => simp [additionalKeyword, Validates]

/-- Every entry is listed and valid for its property, or is not listed and valid for the
additional ones; and no entry is missing. -/
theorem validates_object_iff {properties : List (String × Schema)} {required : List String}
    {additional : Option Schema} : (Schema.object properties required additional).Validates n ↔
      "object" ∈ n.types
        ∧ (∀ e ∈ n.entries, ∀ s, (e.key, s) ∈ properties → s.Validates e.node)
        ∧ (∀ e ∈ n.entries, e.key ∉ properties.map Prod.fst →
          ∃ s, additional = some s ∧ s.Validates e.node)
        ∧ ∀ name ∈ required, ∃ e ∈ n.entries, e.key = name := by
  have hkeywords : (Schema.object properties required additional).Validates n ↔
      "object" ∈ n.types
        ∧ (∀ e ∈ n.entries, ∀ d, (e.key, d) ∈ propertyKeywords properties → d.Validates e.node)
        ∧ (∀ e ∈ n.entries, e.key ∉ (propertyKeywords properties).map Prod.fst →
          (additionalKeyword additional).Validates e.node)
        ∧ ∀ name ∈ required, ∃ e ∈ n.entries, e.key = name := by
    rw [Validates, Data.Validates]
    cases required with
    | nil => simp [keywords, named, Data.Lists]
    | cons name required => simp [keywords, named, Data.Lists]
  rw [hkeywords, map_fst_propertyKeywords]
  simp only [validates_additionalKeyword_iff, mem_propertyKeywords]
  refine and_congr_right fun _ => and_congr_left fun _ => forall₂_congr fun e _ => ?_
  constructor
  · exact fun h s hs => h _ ⟨s, hs, rfl⟩
  · rintro h _ ⟨s, hs, rfl⟩
    exact h s hs

end Schema

end Configurable
