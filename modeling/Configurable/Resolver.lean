import Configurable.Source.Basic
import Configurable.TypeGraph.Render

/-!
# Resolving variables

A pass over the declared variables gives each of them the value of the first source that
has one. All sources are started; then every variable is put to every source in turn, as a
question until one of them has an answer and as a mark from then on; then all sources are
completed. So a source is called once for a variable, whatever the others say, and has used
all its entries that name a declared variable.

A variable whose type cannot be configured is only marked. A declaration that repeats an
earlier one of its module is reported and not put to the sources at all. Problems go to the
log, in the order in which they are found, and a variable with a problem has no value.
-/

namespace Configurable

/-- The variables of each module in the order of their declaration. -/
abbrev Declarations := Entries ModuleId (List Declaration)

/-- The values of variables in the order of their declaration. -/
abbrev Values := Entries VariableId Value

/-- A call to the source at an index. -/
structure Call where
  source : Nat
  action : Action
deriving DecidableEq, Repr

/-- Where a pass stands: the sources, the calls made to them, and what has come of it. -/
structure Pass (σ : Type) where
  sources : List σ
  calls : List Call
  log : Log
  values : Values

namespace Pass

variable {σ : Type} [Source σ]

def ofSources (sources : List σ) : Pass σ := ⟨sources, [], [], []⟩

/-- Calls every source in order and logs what they report. -/
def callAll (p : Pass σ) (action : Action) (call : σ → Log × σ) : Pass σ :=
  let results := p.sources.map call
  { p with
    sources := results.map Prod.snd
    calls := p.calls ++ (List.range p.sources.length).map fun i => ⟨i, action⟩
    log := p.log ++ results.flatMap Prod.fst }

/-- What has come of putting a variable to some sources. -/
structure Asked (σ : Type) where
  answer : Answer
  sources : List σ
  actions : List Action

/-- Puts a variable to sources. As long as the answer is that there is nothing, the next
source is asked; the others only mark their entries. -/
def ask (g : TypeGraph) (v : Variable) : Answer → List σ → Asked σ
  | answer, [] => ⟨answer, [], []⟩
  | .ok none, s :: ss =>
    let (answer, s') := Source.lookup g v s
    let rest := ask g v answer ss
    ⟨rest.answer, s' :: rest.sources, Source.lookupAction g v :: rest.actions⟩
  | answer, s :: ss =>
    let rest := ask g v answer ss
    ⟨rest.answer, Source.mark v s :: rest.sources, .mark v.id :: rest.actions⟩

/-- What is known of a variable before any source is asked. -/
def firstAnswer (g : TypeGraph) (v : Variable) : Answer :=
  if g.isConfigurable v.type then .ok none
  else .error (.error (.unsupportedType v.name (g.render v.type)) none)

/-- What an answer is to the log. -/
def report (v : Variable) : Answer → Log
  | .ok (some _) => []
  | .ok none => if v.required then [.error (.missingValue v.name) none] else []
  | .error diagnostic => [diagnostic]

def keep (v : Variable) (values : Values) : Answer → Values
  | .ok (some value) => values.insert v.id value
  | .ok none | .error _ => values

def resolveVariable (g : TypeGraph) (p : Pass σ) (v : Variable) : Pass σ :=
  let asked := ask g v (firstAnswer g v) p.sources
  ⟨asked.sources,
    p.calls ++ asked.actions.zipIdx.map fun (action, i) => ⟨i, action⟩,
    p.log ++ report v asked.answer,
    keep v p.values asked.answer⟩

/-- Resolves the declarations of a module; `declared` holds the names so far. -/
def resolveModule (g : TypeGraph) (module : ModuleId) (declared : List String) (p : Pass σ) :
    List Declaration → Pass σ
  | [] => p
  | d :: ds =>
    if d.name ∈ declared then
      let diagnostic := Diagnostic.error (.duplicateVariable d.name module.render) none
      resolveModule g module declared { p with log := p.log ++ [diagnostic] } ds
    else
      resolveModule g module (d.name :: declared)
        (p.resolveVariable g (.ofDeclaration module d)) ds

def resolveModules (g : TypeGraph) (p : Pass σ) (declarations : Declarations) : Pass σ :=
  declarations.foldl (fun p (module, ds) => resolveModule g module [] p ds) p

/-- A whole pass. -/
def run (files : FileTree) (g : TypeGraph) (declarations : Declarations) (sources : List σ) :
    Pass σ :=
  let started := (ofSources sources).callAll .start (Source.start files)
  (resolveModules g started declarations).callAll .complete Source.complete

end Pass

/-! ## A resolver runs once -/

inductive Phase where
  | idle
  | done
deriving DecidableEq, Repr

def Phase.name : Phase → String
  | .idle => "Idle"
  | .done => "Done"

/-- Wrong use of a resolver, which has nothing to do with the configuration. -/
inductive Misuse where
  | alreadyResolved
deriving DecidableEq, Repr

namespace Misuse

def message : Misuse → String
  | .alreadyResolved =>
    "configurable variables have already been resolved by this resolver"

def code : Misuse → String
  | .alreadyResolved => "resolver::already_resolved"

def help : Misuse → String
  | .alreadyResolved => "Create a new resolver for every resolution pass."

end Misuse

/-- A resolver with what it has done so far. -/
structure Resolver (σ : Type) where
  phase : Phase
  pass : Pass σ

namespace Resolver

variable {σ : Type} [Source σ]

def ofSources (sources : List σ) : Resolver σ := ⟨.idle, .ofSources sources⟩

/-- The values of the variables. Resolving them a second time is refused and changes
nothing. -/
def resolve (r : Resolver σ) (files : FileTree) (g : TypeGraph) (declarations : Declarations) :
    Except Misuse Values × Resolver σ :=
  match r.phase with
  | .done => (.error .alreadyResolved, r)
  | .idle =>
    let pass := Pass.run files g declarations r.pass.sources
    (.ok pass.values, ⟨.done, pass⟩)

end Resolver

end Configurable
