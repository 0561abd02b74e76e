import Configurable.Toml.Syntax

/-!
# The tree of a document

The contents of a document in one shape, whether written with headers, dotted keys or
inline: scalars, arrays and tables. Every node has a number of its own and, where it has a
text, the bytes of it. Nodes are numbered from zero in such a way that what a node contains
comes before it.
-/

namespace Configurable.Toml

open Text (Span)

/-- What a table holds under a key, with the bytes of the pair or of the section. -/
structure EntryOf (α : Type) where
  key : String
  span : Option Span
  node : α

inductive Node where
  | scalar (id : Nat) (span : Option Span) (value : Scalar)
  | array (id : Nat) (span : Option Span) (items : List Node)
  | table (id : Nat) (span : Option Span) (entries : List (EntryOf Node))

abbrev Entry := EntryOf Node

namespace EntryOf

/-- The bytes of the entry, or else those of its value. -/
def place? (e : Entry) : Option Span :=
  e.span.or (match e.node with
    | .scalar _ span _ | .array _ span _ | .table _ span _ => span)

end EntryOf

namespace Node

def id : Node → Nat
  | .scalar id _ _ | .array id _ _ | .table id _ _ => id

def span? : Node → Option Span
  | .scalar _ span _ | .array _ span _ | .table _ span _ => span

/-- The name of the shape in messages. -/
def shape : Node → String
  | .scalar _ _ (.integer _) => "int"
  | .scalar _ _ (.float _) => "float"
  | .scalar _ _ (.boolean _) => "boolean"
  | .scalar _ _ (.string _) => "string"
  | .scalar _ _ (.datetime _) => "datetime"
  | .array _ _ _ => "array"
  | .table _ _ _ => "record"

def isTable : Node → Bool
  | .table _ _ _ => true
  | _ => false

def isStructured : Node → Bool
  | .scalar _ _ _ => false
  | _ => true

def entries : Node → List Entry
  | .table _ _ entries => entries
  | _ => []

def entry? (n : Node) (key : String) : Option Entry := n.entries.find? (·.key = key)

/-- Follows keys from table to table. -/
def entryAt? (n : Node) : List String → Option Entry
  | [] => none
  | [key] => n.entry? key
  | key :: keys => (n.entry? key).bind fun e => e.node.entryAt? keys

/-! ## All nodes -/

mutual

/-- The numbers of a node and of all nodes below it, the node first. -/
def ids : Node → List Nat
  | .scalar id _ _ => [id]
  | .array id _ items => id :: idsOfItems items
  | .table id _ entries => id :: idsOfEntries entries

def idsOfItems : List Node → List Nat
  | [] => []
  | n :: ns => n.ids ++ idsOfItems ns

def idsOfEntries : List (EntryOf Node) → List Nat
  | [] => []
  | e :: es => e.node.ids ++ idsOfEntries es

end

mutual

/-- Visits a node and then every node below it. What a visitor does is told by what becomes of
its state. -/
def walk {σ : Type} (visit : σ → Node → σ) : σ → Node → σ
  | s, .scalar id span value => visit s (.scalar id span value)
  | s, .array id span items => walkItems visit (visit s (.array id span items)) items
  | s, .table id span entries => walkEntries visit (visit s (.table id span entries)) entries

def walkItems {σ : Type} (visit : σ → Node → σ) : σ → List Node → σ
  | s, [] => s
  | s, n :: ns => walkItems visit (walk visit s n) ns

def walkEntries {σ : Type} (visit : σ → Node → σ) : σ → List (EntryOf Node) → σ
  | s, [] => s
  | s, e :: es => walkEntries visit (walk visit s e.node) es

end

end Node

/-! ## From what is written to the tree

Each function takes the next free number and gives it back behind the nodes it made. -/

/-- From the start of the first to the end of the last, or the one that there is. -/
def joinSpans (first last : Option Span) : Option Span :=
  match first, last with
  | some a, some b => some (a.through b)
  | some a, none => some a
  | none, b => b

mutual

def Literal.toNode : Literal → Nat → Node × Nat
  | .scalar span value, next => (.scalar next (some span) value, next + 1)
  | .array span items, next =>
    let (nodes, next) := Literal.toNodes items next
    (.array next (some span) nodes, next + 1)
  | .inline span entries, next =>
    let (entries, next) := Literal.toEntries entries next
    (.table next span entries, next + 1)

def Literal.toNodes : List Literal → Nat → List Node × Nat
  | [], next => ([], next)
  | l :: ls, next =>
    let (node, next) := l.toNode next
    let (nodes, next) := Literal.toNodes ls next
    (node :: nodes, next)

/-- A pair reaches from its key to its value. -/
def Literal.toEntries : List (Key × Literal) → Nat → List Entry × Nat
  | [], next => ([], next)
  | (key, l) :: ls, next =>
    let (node, next) := l.toNode next
    let (entries, next) := Literal.toEntries ls next
    (⟨key.name, joinSpans (some key.span) node.span?, node⟩ :: entries, next)

end

/-- Where a pair ends. What a section holds may stand under other headers. -/
def Item.pairStop? : Key × Item → Option Nat
  | (key, .literal value) => (joinSpans (some key.span) value.span?).map Span.stop
  | (_, .table _) | (_, .tables _) => none

/-- The span of a table: from its header to the end of the last value in it. -/
def TableOf.span? (t : TableOf Item) : Option Span :=
  t.origin.span?.map fun header =>
    ⟨header.start, (t.entries.filterMap Item.pairStop?).foldl max header.stop⟩

mutual

/-- A section is where its tables are; a pair reaches from its key to its value. -/
def Item.toEntry : Key → Item → Nat → Entry × Nat
  | key, .literal value, next =>
    let (node, next) := value.toNode next
    (⟨key.name, joinSpans (some key.span) node.span?, node⟩, next)
  | key, .table ⟨origin, entries⟩, next =>
    let span := TableOf.span? ⟨origin, entries⟩
    let (entries, next) := Item.toEntries entries next
    (⟨key.name, span, .table next span entries⟩, next + 1)
  | key, .tables rows, next =>
    let (nodes, next) := Item.toRows rows next
    let span :=
      match nodes.head?, nodes.getLast? with
      | some first, some last => joinSpans first.span? last.span?
      | _, _ => none
    (⟨key.name, span, .array next span nodes⟩, next + 1)

def Item.toEntries : List (Key × Item) → Nat → List Entry × Nat
  | [], next => ([], next)
  | (key, item) :: items, next =>
    let (entry, next) := Item.toEntry key item next
    let (entries, next) := Item.toEntries items next
    (entry :: entries, next)

def Item.toRows : List (TableOf Item) → Nat → List Node × Nat
  | [], next => ([], next)
  | ⟨origin, entries⟩ :: rows, next =>
    let span := TableOf.span? ⟨origin, entries⟩
    let (entries, next) := Item.toEntries entries next
    let node := Node.table next span entries
    let (nodes, next) := Item.toRows rows (next + 1)
    (node :: nodes, next)

end

end Configurable.Toml
