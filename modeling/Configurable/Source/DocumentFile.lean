import Configurable.Conversion.Tree
import Configurable.Source.Basic

/-!
# Values from documents

A document holds the variables of a module in the table `[org.module]`, or in `[module]` if
the module belongs to the root module's organization; the segments of a dotted name are
tables inside one another. A variable may stand in one of the two places only.

A place that a module's name leads to and that is no table is a problem of the document. It
is reported the first time that a variable would have been looked for there and was found
nowhere else.
-/

namespace Configurable

open Text (Span)
open Toml (Node Entry EntryOf Document)

/-- Where the text of a document comes from. -/
inductive DocumentOrigin where
  | file (path : String)
  | content (text : String)
deriving DecidableEq, Repr

structure DocumentFile where
  root : ModuleId
  origin : DocumentOrigin
  document : Option Document
  /-- The numbers of the nodes that were used. -/
  consumed : List Nat
  /-- The places that were reported. -/
  reported : List String

namespace DocumentFile

def ofOrigin (root : ModuleId) (origin : DocumentOrigin) : DocumentFile :=
  ⟨root, origin, none, [], []⟩

/-! ## Sections -/

/-- A place for the variables of a module: its name, and the keys that lead to it. -/
structure Section where
  label : String
  path : List String
deriving DecidableEq, Repr

/-- The places for a module's variables, the qualified one first. -/
def sections (root module : ModuleId) : List Section :=
  let qualified : Section := ⟨module.qualifiedName, module.org :: module.segments⟩
  if module.org = root.org then [qualified, ⟨module.name, module.segments⟩] else [qualified]

/-- What keys lead to. -/
inductive Place where
  | absent
  | table (node : Node)
  | notATable (span : Option Span)

def placeAt : Node → (path : List String) → Place
  | n, [] => .table n
  | n, key :: path =>
    match n.entry? key with
    | none => .absent
    | some e => if e.node.isTable then placeAt e.node path else .notATable e.place?

/-- The entry for a variable in a section. -/
def entryIn? (d : Document) (v : VariableId) (s : Section) : Option (Section × Entry) :=
  match placeAt d.root s.path with
  | .table n => (n.entry? v.name).map fun e => (s, e)
  | _ => none

/-- All entries for a variable, with their sections. -/
def entriesFor (root : ModuleId) (d : Document) (v : VariableId) : List (Section × Entry) :=
  (sections root v.module).filterMap (entryIn? d v)

def invalidIn? (d : Document) (s : Section) : Option (Section × Option Span) :=
  match placeAt d.root s.path with
  | .notATable span => some (s, span)
  | _ => none

/-- The first section of a module that is no table. -/
def invalidFor? (root : ModuleId) (d : Document) (v : VariableId) :
    Option (Section × Option Span) :=
  (sections root v.module).findSome? (invalidIn? d)

def locationIn (d : Document) (span : Option Span) : Option Location :=
  span.map fun s => ⟨d.source, s⟩

/-- The entry for a variable, which is used from then on. -/
def locate (f : DocumentFile) (d : Document) (v : VariableId) :
    Except Diagnostic (Option Entry) × DocumentFile :=
  let found := entriesFor f.root d v
  let f' := { f with consumed := f.consumed ++ found.map fun (_, e) => e.node.id }
  match found with
  | [(_, e)] => (.ok (some e), f')
  | [] =>
    match invalidFor? f.root d v with
    | none => (.ok none, f')
    | some (s, span) =>
      if s.label ∈ f.reported then (.ok none, f')
      else
        (.error (.error (.notASection s.label) (locationIn d span)),
          { f' with reported := f.reported ++ [s.label] })
  | _ =>
    let labels := (found.map fun (s, _) => s.label).mergeSort (· ≤ ·)
    let last := found.getLast?.bind fun (_, e) => e.span
    (.error (.error (.severalSections v.name ("[" ++ String.intercalate ", " labels ++ "]"))
      (locationIn d last)), f')

/-! ## Entries that were not used -/

/-- The text under which an unused value is reported: its keys, and what is written unless
that is an array of tables. -/
def labelOf (d : Document) (path : String) (n : Node) : String :=
  match d.rawText? n with
  | some raw => if raw.startsWith "[[" then path else path ++ "=" ++ raw
  | none => path

/-- Keys one below the other. -/
def joinKeys (parent key : String) : String :=
  if parent.isEmpty then key else parent ++ "." ++ key

mutual

/-- What was not used of the value of an entry that was not used itself: the parts of a
table, or the whole. -/
def unusedIn (d : Document) (consumed : List Nat) (e : Entry) (path : String) :
    Node → List (String × Entry)
  | .table _ _ entries => if entries.isEmpty then [(path, e)] else unusedOf d consumed path entries
  | .array id span items => [(labelOf d path (.array id span items), e)]
  | .scalar id span value => [(labelOf d path (.scalar id span value), e)]

def unusedOf (d : Document) (consumed : List Nat) (parent : String) :
    List (EntryOf Node) → List (String × Entry)
  | [] => []
  | e :: es =>
    (if e.node.id ∈ consumed then []
      else unusedIn d consumed e (joinKeys parent e.key) e.node) ++
      unusedOf d consumed parent es

end

def unused (f : DocumentFile) : List (String × Entry) :=
  match f.document with
  | none => []
  | some d => unusedOf d f.consumed "" d.root.entries

/-! ## The source -/

/-- The text to parse, or what is wrong with the file. -/
def text (files : FileTree) : DocumentOrigin → Except Diagnostic Text.Named
  | .content text => .ok ⟨none, text⟩
  | .file path =>
    match files.read? path with
    | none => .error (.warning (.fileNotFound path) none)
    | some (.error reason) => .error (.error (.unreadableFile path reason.message) none)
    | some (.ok text) =>
      if text.toList.all Text.isBlank then .error (.warning (.emptyFile path) none)
      else .ok ⟨some (FileTree.fileName path), text⟩

/-- The place and the message of what keeps a text from being a document, on a line. -/
def issueLine (source : Text.Named) (issue : Toml.Issue) : String :=
  (Location.mk source issue.span).render ++ " " ++ issue.message ++ "\n"

def load (files : FileTree) (origin : DocumentOrigin) : Except Diagnostic Document :=
  (text files origin).bind fun source =>
    match Document.parse source with
    | .ok d => .ok d
    | .error issue => .error (.error (.invalidDocument (issueLine source issue)) none)

def start (files : FileTree) (f : DocumentFile) : Log × DocumentFile :=
  match load files f.origin with
  | .ok d => ([], { f with document := some d })
  | .error diagnostic => ([diagnostic], { f with document := none })

def read (g : TypeGraph) (kind : Kind) (v : Variable) (f : DocumentFile) :
    Answer × DocumentFile :=
  match f.document with
  | none => (.ok none, f)
  | some d =>
    let (found, f') := f.locate d v.id
    (found.bind fun
      | none => .ok none
      | some e =>
        let reading : Conversion.Reading := ⟨g, d, v.name⟩
        (reading.readAs kind ⟨e.node, e.span⟩ v.type (.variable v.name)).map some, f')

def mark (v : Variable) (f : DocumentFile) : DocumentFile :=
  match f.document with
  | none => f
  | some d => (f.locate d v.id).2

def complete (f : DocumentFile) : Log × DocumentFile :=
  match f.document with
  | none => ([], f)
  | some d =>
    (f.unused.map fun (label, e) => .warning (.unusedEntry label) (locationIn d e.place?),
      { f with consumed := f.consumed ++ f.unused.map fun (_, e) => e.node.id })

instance : Source DocumentFile where
  start := start
  hasUnused f := !f.unused.isEmpty
  read := read
  mark := mark
  complete := complete

end DocumentFile

end Configurable
