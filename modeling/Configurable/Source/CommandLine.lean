import Configurable.Conversion.Text
import Configurable.Source.Basic

/-!
# Values from the command line

Arguments of the form `-Ckey=value`. A key names a variable as `org.module.variable`; for
variables of the root module's organization the organization may be left out, and for those
of the root module itself the module as well.

Where several forms of a name are given, they have to agree. A key belongs to the first
variable that was found through it; another variable that it names as well has to be given
in full.
-/

namespace Configurable

structure CommandLine where
  root : ModuleId
  arguments : List String
  /-- The values by their keys, in the order of the keys' first arguments. -/
  entries : Entries String String
  /-- The variable that each key belongs to. -/
  claims : Entries String VariableId
  /-- The keys that were used. -/
  consumed : List String

namespace CommandLine

def ofArguments (root : ModuleId) (arguments : List String) : CommandLine :=
  ⟨root, arguments, [], [], []⟩

/-! ## Arguments -/

/-- A key without the blanks around it. If it then ends in a backslash, the blank behind
that belongs to it. -/
def normalizeKey (key : List Char) : List Char :=
  let trimmed := Text.trim key
  if trimmed.getLast? = some '\\' then trimmed ++ [' '] else trimmed

/-- The key and the value of an argument; other arguments are not for the configuration. -/
def parseArgument? (argument : String) : Option (String × String) :=
  match argument.toList with
  | '-' :: 'C' :: pair =>
    match pair.dropWhile (· ≠ '=') with
    | [] => none
    | _ :: value =>
      some (String.ofList (normalizeKey (pair.takeWhile (· ≠ '='))), String.ofList value)
  | _ => none

def parseArguments (arguments : List String) : Entries String String :=
  Entries.ofList (arguments.filterMap parseArgument?)

/-! ## Names of a variable -/

/-- The keys that name a variable, the most qualified first. -/
def forms (root : ModuleId) (v : VariableId) : List String :=
  let qualified := v.qualifiedName
  if v.module.org = root.org then
    let inOrg := s!"{v.module.name}.{v.name}"
    if v.module = root then [qualified, inOrg, v.name] else [qualified, inOrg]
  else [qualified]

/-- The forms under which there is a value. -/
def presentForms (c : CommandLine) (v : VariableId) : List String :=
  (forms c.root v).filter fun form => c.entries.contains form

/-- What the arguments say about a variable. -/
inductive Finding where
  | absent
  | bound (form text : String) (present : List String)
  | ambiguous (present : List String)
deriving DecidableEq, Repr

def textOf (c : CommandLine) (form : String) : String := (c.entries.get? form).getD ""

/-- The most qualified form decides, and all others have to agree with it. -/
def find (c : CommandLine) (v : VariableId) : Finding :=
  match c.presentForms v with
  | [] => .absent
  | form :: others =>
    let text := c.textOf form
    if others.all fun other => c.textOf other = text then .bound form text (form :: others)
    else .ambiguous (form :: others)

/-! ## Claims -/

/-- Makes a key belong to a variable, unless it belongs to one already. -/
def claim (c : CommandLine) (v : VariableId) (key : String) : CommandLine :=
  if c.claims.contains key then c else { c with claims := c.claims ++ [(key, v)] }

def consume (c : CommandLine) (keys : List String) : CommandLine :=
  { c with consumed := c.consumed ++ keys }

/-- The forms in their order as text, each with its value. -/
def listed (c : CommandLine) (present : List String) : String :=
  let sorted := present.mergeSort (· ≤ ·)
  "[" ++ String.intercalate ", " (sorted.map fun form => s!"{form}={c.textOf form}") ++ "]"

/-- The text for a variable. -/
def take (c : CommandLine) (v : VariableId) : Except Diagnostic (Option String) × CommandLine :=
  match c.find v with
  | .absent => (.ok none, c)
  | .ambiguous present =>
    (.error (.error (.clashingArguments v.name (c.listed present)) none),
      (present.foldl (claim · v ·) c).consume present)
  | .bound form text present =>
    let taken := ((v.qualifiedName :: present).foldl (claim · v ·) c).consume present
    match c.claims.get? form with
    | none => (.ok (some text), taken)
    | some owner =>
      if owner = v then (.ok (some text), taken)
      else
        let suggestion := s!"-C{v.qualifiedName}=<value>"
        (.error (.error (.claimedArgument v.render owner.render suggestion) none), c)

/-! ## The source -/

def start (c : CommandLine) : CommandLine :=
  { c with entries := parseArguments c.arguments }

def unused (c : CommandLine) : List (String × String) :=
  c.entries.filter fun (key, _) => key ∉ c.consumed

def read (g : TypeGraph) (kind : Kind) (v : Variable) (c : CommandLine) : Answer × CommandLine :=
  let (found, c') := c.take v.id
  (found.bind fun
    | none => .ok none
    | some text => (Conversion.ofText g v kind text).map some, c')

def mark (v : Variable) (c : CommandLine) : CommandLine :=
  match c.find v.id with
  | .absent => c
  | .bound _ _ present | .ambiguous present => c.consume present

def complete (c : CommandLine) : Log × CommandLine :=
  (c.unused.map fun (key, value) => .warning (.unusedArgument s!"{key}={value}") none,
    c.consume (c.unused.map Prod.fst))

instance : Source CommandLine where
  start _ c := ([], c.start)
  hasUnused c := !c.unused.isEmpty
  read := read
  mark := mark
  complete := complete

end CommandLine

end Configurable
