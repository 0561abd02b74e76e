import Configurable.Toml.Failure
import Configurable.Toml.Syntax

/-!
# How tables grow

A document fills its root table, pair by pair and header by header. Headers and dotted keys
lead through tables, which they make where they are missing, and through the last table of
an array of tables. A table is opened by a header at most once. One that was only on the way
to another may still be opened, and then comes after the tables made in the meantime.
-/

namespace Configurable.Toml

open Text (Span)

namespace TableOf

variable {α : Type}

def empty (origin : Origin) : TableOf α := ⟨origin, []⟩

def alter (t : TableOf α) (key : Key) (f : Option α → Except Cause α) :
    Except Cause (TableOf α) :=
  (alterEntry key f t.entries).map fun es => { t with entries := es }

def get? (t : TableOf α) (key : Key) : Option α :=
  (t.entries.find? fun (k, _) => k.name = key.name).map Prod.snd

/-- Puts something under a key that comes last, wherever the key was before. -/
def putLast (t : TableOf α) (key : Key) (a : α) : TableOf α :=
  { t with entries := (t.entries.filter fun (k, _) => k.name ≠ key.name) ++ [(key, a)] }

end TableOf

/-- What leads through a table. -/
inductive Way where
  | header
  | dottedKey
deriving DecidableEq, Repr

def Way.origin : Way → Origin
  | .header => .longerHeader
  | .dottedKey => .dottedKey

namespace TableOf

/-- Changes the table at the end of a path. A dotted key may not go through a table that a
header opened. `seen` is how the path began. -/
def descend (way : Way) (f : Table → Except Cause Table) : (seen : List String) →
    (path : List Key) → Table → Except Cause Table
  | _, [], t => f t
  | seen, k :: path, t =>
    t.alter k fun
      | none => (descend way f (seen ++ [k.name]) path (.empty way.origin)).map .table
      | some (.literal v) => .error (.notATable (seen ++ [k.name]) v.kind)
      | some (.table inner) =>
        if way = .dottedKey ∧ !inner.origin.isImplied then .error (.duplicateKey k.name none)
        else (descend way f (seen ++ [k.name]) path inner).map .table
      | some (.tables ts) =>
        match ts.getLast? with
        | none => .ok (.tables ts)
        | some last => (descend way f (seen ++ [k.name]) path last).map fun t' =>
            .tables (ts.dropLast ++ [t'])

def names (path : List Key) : List String := path.map Key.name

/-- Puts a value under a key, in the table that the header path `current` opened. -/
def insertPair (root : Table) (current : List Key) (path : List Key) (key : Key)
    (value : Literal) : Except Cause Table :=
  let put := fun (t : Table) =>
    if (t.origin == .dottedKey) == path.isEmpty then .error (.duplicateKey key.name none)
    else t.alter key fun
      | none => .ok (.literal value)
      | some _ => .error (.duplicateKey key.name (some (names current)))
  let extended := fun (t : Table) =>
    match value.span? with
    | some span => { t with origin := t.origin.extendTo span.stop }
    | none => t
  root.descend .header (fun t => (extended t).descend .dottedKey put [] path) [] current

/-- Opens the table of a header. `shown` is its last key as conflicts name it. -/
def openTable (root : Table) (path : List Key) (key : Key) (shown : String) (span : Span) :
    Except Cause Table :=
  let conflict := Cause.duplicateKey shown (some (names path))
  root.descend .header (fun parent =>
    match parent.get? key with
    | none => .ok (parent.putLast key (.table (.empty (.header span))))
    | some (.table t) =>
      if t.origin = .longerHeader then
        .ok (parent.putLast key (.table { t with origin := .header span }))
      else .error conflict
    | some _ => .error conflict) [] path

/-- Adds a table to the array of tables of a header in double brackets. -/
def appendTable (root : Table) (path : List Key) (key : Key) (shown : String) (span : Span) :
    Except Cause Table :=
  root.descend .header (fun parent => parent.alter key fun
    | none => .ok (.tables [.empty (.header span)])
    | some (.tables ts) => .ok (.tables (ts ++ [.empty (.header span)]))
    | some _ => .error (.duplicateKey shown (some (names path)))) [] path

end TableOf

end Configurable.Toml
