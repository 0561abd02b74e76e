import Configurable.Conversion.Text
import Configurable.Toml.Document

/-!
# Values from documents

A node of a document is read against a declared type, part by part, and every part has to
fit: the first that does not is reported, with its place. Nothing is converted that is
written as something else, apart from integers, which also stand for floats, decimals and
bytes. Decimals are read from the text of the number, so that no digit goes through a
double.

The reading follows the tree: arrays, records, tables and maps read smaller nodes. Only a
union reads the same node again, with each of its members in turn; members that are unions
are replaced by their own members before.
-/

namespace Configurable

/-- The members of a union in order, unions among them replaced by their members; any other
type by itself. A union that contains itself offers nothing more there. -/
def TypeGraph.alternativesWithin (g : TypeGraph) : (depth : Nat) → TypeRef → List TypeRef
  | 0, _ => []
  | depth + 1, t =>
    match g.effectiveDef t with
    | .union members => members.flatMap (g.alternativesWithin depth)
    | _ => [t]

def TypeGraph.alternatives (g : TypeGraph) (t : TypeRef) : List TypeRef :=
  g.alternativesWithin (g.size + 1) t

namespace Conversion

open Text (Span)
open Toml (Node Entry EntryOf Document)

/-- What a problem is about: the variable or an element of it, or one of its fields. -/
inductive Subject where
  | variable (name : String)
  | field (path : String)
deriving DecidableEq, Repr

namespace Subject

def element (s : Subject) (index : Nat) : Subject :=
  match s with
  | .variable name => .variable s!"{name}[{index}]"
  | .field path => .field s!"{path}[{index}]"

def fieldOf (s : Subject) (name : String) : Subject :=
  match s with
  | .variable _ => .field name
  | .field path => .field s!"{path}.{name}"

end Subject

/-- A node, and the bytes of the entry that it is the value of. -/
structure Site where
  node : Node
  entry : Option Span

/-- The bytes of the entry, or else of the node. -/
def Site.widest (s : Site) : Option Span := s.entry.or s.node.span?

/-- What stays the same while a variable is read. -/
structure Reading where
  types : TypeGraph
  document : Document
  name : String

namespace Reading

variable (c : Reading)

def locate (span : Option Span) : Option Location := span.map fun s => ⟨c.document.source, s⟩

/-! ## Problems -/

def wrongType (subject : Subject) (t : TypeRef) (found : String) : Problem :=
  match subject with
  | .variable name => .typeMismatch name (c.types.render t) found
  | .field path => .fieldMismatch path c.name (c.types.render t) found

/-- The node has the wrong shape. A scalar where a primitive is expected is pointed at
alone, all else with its key. -/
def mismatch (site : Site) (t : TypeRef) (subject : Subject) : Diagnostic :=
  let span :=
    if site.node.isStructured || !c.types.isPrimitive t then site.widest else site.node.span?
  .error (c.wrongType subject t site.node.shape) (c.locate span)

def unsupported (site : Site) (t : TypeRef) : Diagnostic :=
  .error (.unsupportedFieldType (c.types.render t) c.name) (c.locate site.widest)

/-! ## Primitives -/

/-- The number as it is written, without underscores. -/
def writtenDecimal? (n : Node) : Option Decimal :=
  (c.document.rawText? n).bind fun raw =>
    Decimal.parse? (String.ofList (raw.toList.filter (· != '_')))

def readPrimitive (p : Primitive) (site : Site) (t : TypeRef) (subject : Subject) :
    Except Diagnostic Value :=
  match p, site.node with
  | .int, .scalar _ _ (.integer n) => .ok (.int n)
  | .byte, .scalar _ span (.integer n) =>
    match byte? n with
    | some b => .ok (.byte b)
    | none =>
      let label :=
        match subject with
        | .variable name => name
        | .field path => s!"{c.name}.{path}"
      .error (.error (.byteOutOfRange label (toString n.toInt)) (c.locate span))
  | .boolean, .scalar _ _ (.boolean b) => .ok (.boolean b)
  | .float, .scalar _ _ (.float x) => .ok (.float x)
  | .float, .scalar _ _ (.integer n) => .ok (.float n.toFloat)
  | .decimal, .scalar _ _ (.integer n) =>
    .ok (.decimal ((c.writtenDecimal? site.node).getD (.ofInt64 n)))
  | .decimal, .scalar _ _ (.float x) =>
    match (c.writtenDecimal? site.node).or (Decimal.ofFloat? x) with
    | some d => .ok (.decimal d)
    | none => .error (c.mismatch site t subject)
  | .string, .scalar _ _ (.string s) => .ok (.string s)
  | .xml, .scalar _ span (.string s) =>
    match xml? s with
    | some value => .ok value
    | none => .error (.error (c.wrongType subject t s) (c.locate span))
  | _, _ => .error (c.mismatch site t subject)

/-! ## Records and tables

What is asked of a record apart from its entries, and of a row apart from its fields. -/

/-- The type that an entry of a record is read against. -/
def fieldType (r : RecordType) (title : String) (site : Site) (e : Entry) :
    Except Diagnostic TypeRef :=
  match r.typeOf? e.key with
  | none => .error (.error (.unknownField e.key c.name title) (c.locate e.place?))
  | some t => if c.types.isConfigurableField t then .ok t else .error (c.unsupported site t)

/-- A record with these fields, if none is missing. -/
def recordOf (r : RecordType) (title : String) (site : Site)
    (fields : List (String × Value)) : Except Diagnostic Record :=
  match r.fields.find? fun f => f.required && !Entries.contains fields f.name with
  | some f => .error (.error (.missingField f.name title c.name) (c.locate site.widest))
  | none => .ok ⟨title, fields⟩

/-- The values of the key columns in a row. -/
def keyOf (keys : List String) (row : Record) : List Value := keys.filterMap row.get?

def missingKey? (keys : List String) (t : TypeRef) (row : Node) : Option Diagnostic :=
  (keys.find? fun key => (row.entry? key).isNone).map fun key =>
    .error (.missingKey key (c.types.render t) c.name) (c.locate row.span?)

/-- A row whose key an earlier row has. -/
def duplicateKey (keys : List String) (row : Node) (key : List Value) : Diagnostic :=
  let shown := String.intercalate ", " (key.map Value.render)
  .error (.duplicateKey shown (String.intercalate ", " keys) c.name) (c.locate row.span?)

/-- Whether a row with these key values may follow rows with those in `seen`. -/
def isNewKey (keys : List String) (seen : List (List Value)) (key : List Value) : Bool :=
  keys.isEmpty || !seen.any fun k => Value.sameItems k key

/-- The first alternative of a union that takes the node; any other type decides alone. -/
def choose (site : Site) (t : TypeRef) (subject : Subject)
    (read : TypeRef → Except Diagnostic Value) : Except Diagnostic Value :=
  match c.types.effectiveDef t with
  | .union _ =>
    match (c.types.alternatives t).findSome? fun member => (read member).toOption with
    | some value => .ok value
    | none => .error (c.mismatch site t subject)
  | _ => read t

/-! ## The tree -/

mutual

/-- Reads a node against a type. -/
def read : (node : Node) → (entry : Option Span) → TypeRef → Subject →
    Except Diagnostic Value
  | .scalar id span value, entry, t, subject =>
    let site : Site := ⟨.scalar id span value, entry⟩
    c.choose site t subject fun t =>
      match c.types.effectiveDef t with
      | .primitive p => c.readPrimitive p site t subject
      | .readonly | .intersection _ _ | .tuple _ => .error (c.unsupported site t)
      | _ => .error (c.mismatch site t subject)
  | .array id span items, entry, t, subject =>
    let site : Site := ⟨.array id span items, entry⟩
    c.choose site t subject fun t =>
      match c.types.effectiveDef t with
      | .array element => (readItems items element subject 0).map .array
      | .table constraint keys =>
        match c.types.record? constraint with
        | none =>
          .error (.error (.unsupportedConstraint (c.types.render constraint) c.name)
            (c.locate site.widest))
        | some r =>
          (readRows items r t constraint keys subject 0 []).map fun rows => .table ⟨keys, rows⟩
      | .readonly | .intersection _ _ | .tuple _ => .error (c.unsupported site t)
      | _ => .error (c.mismatch site t subject)
  | .table id span entries, entry, t, subject =>
    let site : Site := ⟨.table id span entries, entry⟩
    c.choose site t subject fun t =>
      match c.types.effectiveDef t with
      | .record r =>
        let title := c.types.render (c.types.effective t)
        (readFields entries r title site subject).bind fun fields =>
          (c.recordOf r title site fields).map .record
      | .map constraint _ => (readMap entries constraint subject).map .map
      | .readonly | .intersection _ _ | .tuple _ => .error (c.unsupported site t)
      | _ => .error (c.mismatch site t subject)

/-- The elements of an array, from the one at `index` on. -/
def readItems : List Node → TypeRef → Subject → (index : Nat) →
    Except Diagnostic (List Value)
  | [], _, _, _ => .ok []
  | n :: ns, element, subject, index => do
    let v ← read n none element (subject.element index)
    let vs ← readItems ns element subject (index + 1)
    pure (v :: vs)

/-- The fields of a record in the order in which they are written. -/
def readFields : List (EntryOf Node) → RecordType → (title : String) → Site → Subject →
    Except Diagnostic (List (String × Value))
  | [], _, _, _, _ => .ok []
  | e :: es, r, title, site, subject => do
    let t ← c.fieldType r title site e
    let v ← read e.node e.span t (subject.fieldOf e.key)
    let fields ← readFields es r title site subject
    pure ((e.key, v) :: fields)

/-- The rows of a table of type `t`, from the one at `index` on. `seen` holds the keys of
the rows before. -/
def readRows : List Node → RecordType → (t constraint : TypeRef) → (keys : List String) →
    Subject → (index : Nat) → (seen : List (List Value)) → Except Diagnostic (List Record)
  | [], _, _, _, _, _, _, _ => .ok []
  | .table id span entries :: rows, r, t, constraint, keys, subject, index, seen => do
    let node := Node.table id span entries
    let site : Site := ⟨node, none⟩
    match c.missingKey? keys t node with
    | some diagnostic => .error diagnostic
    | none =>
      let title := c.types.render (c.types.effective constraint)
      let fields ← readFields entries r title site subject
      let row ← c.recordOf r title site fields
      let key := keyOf keys row
      if isNewKey keys seen key then
        let rows ← readRows rows r t constraint keys subject (index + 1) (seen ++ [key])
        pure (row :: rows)
      else .error (c.duplicateKey keys node key)
  | n :: _, _, _, constraint, _, subject, index, _ =>
    .error (c.mismatch ⟨n, none⟩ constraint (subject.element index))

/-- The entries of a map in the order in which they are written. -/
def readMap : List (EntryOf Node) → TypeRef → Subject →
    Except Diagnostic (List (String × Value))
  | [], _, _ => .ok []
  | e :: es, constraint, subject => do
    let v ← read e.node e.span constraint (subject.fieldOf e.key)
    let entries ← readMap es constraint subject
    pure ((e.key, v) :: entries)

end

/-- Reads a node as a value of a kind. A primitive is read as such whatever the type, which
is then only mentioned; the other kinds need a type that has them. -/
def readAs (kind : Kind) (site : Site) (t : TypeRef) (subject : Subject) :
    Except Diagnostic Value :=
  match kind with
  | .primitive p => c.readPrimitive p site t subject
  | _ =>
    if Kind.ofType? c.types t = some kind then c.read site.node site.entry t subject
    else .error (c.mismatch site t subject)

end Reading

end Conversion

end Configurable
