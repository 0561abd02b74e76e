import Configurable.Schema
import Configurable.Proofs.Pass
import Mathlib.Data.List.Induction
import Mathlib.Data.List.Infix
import Mathlib.Data.List.Nodup

/-!
# Where a schema lists a variable

The schema of a program is built by changing an outline, one module after the other, each at
the end of its path. What has come of it is told path by path: a section is there for every
path that leads to a module or on the way to one, and it holds what the modules with that path
declare (`sectionAt_outline`). Neither other modules nor the order of sections have a part in it.

Following the path of a module in the data (`Data.follow?`) leads to what its section is as a
schema. The section has its variables as properties, unless the path of some module goes
through the name of a variable: the sections inside are listed after the variables, so the
variable then has no property of its own (`documentSchema_lists`).
-/

namespace Configurable

/-! ## Outlines by path -/

namespace Outline

def held : Outline → List (String × Schema)
  | .section held _ _ => held

def required : Outline → List String
  | .section _ required _ => required

def parts : Outline → List (String × Outline)
  | .section _ _ parts => parts

/-- The section without those in it. -/
def bare : Outline → Outline
  | .section held required _ => .section held required []

theorem held_bare : ∀ o : Outline, o.bare.held = o.held
  | .section _ _ _ => rfl

theorem required_bare : ∀ o : Outline, o.bare.required = o.required
  | .section _ _ _ => rfl

/-- The section that a path leads to. -/
def at? : List String → Outline → Option Outline
  | [], o => some o
  | segment :: path, o => (Entries.get? o.parts segment).bind (at? path)

/-- A change to what a section itself holds, whatever is in it. -/
structure Local (f : Outline → Outline) : Prop where
  parts : ∀ o, (f o).parts = o.parts
  bare : ∀ o, (f o).bare = f o.bare

variable {f : Outline → Outline} {o : Outline} {path path' : List String}

/-- What the section at a path holds, which is nothing if there is none. -/
def sectionAt (path : List String) (o : Outline) : Outline := ((o.at? path).map bare).getD empty

theorem at?_append : ∀ {path path' : List String} {o : Outline},
    at? (path ++ path') o = (at? path o).bind (at? path')
  | [], path', o => rfl
  | segment :: path, path', o => by
      rw [List.cons_append, at?, at?, Option.bind_assoc]
      exact congrArg _ (funext fun _ => at?_append)

theorem sectionAt_empty : sectionAt path' empty = empty := by
  cases path' <;> rfl

theorem isSome_at?_empty : (at? path' empty).isSome = true ↔ path' = [] := by
  cases path' <;> simp [at?, empty, parts]

theorem sectionAt_modify (hf : Local f) : ∀ {path path' : List String} {o : Outline},
    sectionAt path' (modify f path o) =
      if path' = path then f (sectionAt path' o) else sectionAt path' o
  | [], path', o => by
      cases path' with
      | nil => simp [modify, sectionAt, at?, hf.bare]
      | cons segment' path' => simp [modify, sectionAt, at?, hf.parts]
  | segment :: path, path', .section held required parts => by
      cases path' with
      | nil => simp [modify, sectionAt, at?, bare]
      | cons segment' path' =>
          have ih := @sectionAt_modify hf path path' ((Entries.get? parts segment).getD empty)
          by_cases hsegment : segment = segment'
          · subst hsegment
            cases hpart : Entries.get? parts segment with
            | none =>
                rw [hpart, Option.getD_none, sectionAt_empty] at ih
                simpa [modify, sectionAt, at?, Outline.parts, Entries.get?_insert, hpart] using ih
            | some part =>
                rw [hpart, Option.getD_some] at ih
                simpa [modify, sectionAt, at?, Outline.parts, Entries.get?_insert, hpart] using ih
          · simp [modify, sectionAt, at?, Outline.parts, Entries.get?_insert, hsegment,
              Ne.symm hsegment]

/-- The sections on the way to a change are there afterwards, and no others but those that were
there before. -/
theorem isSome_at?_modify (hf : Local f) : ∀ {path path' : List String} {o : Outline},
    (at? path' (modify f path o)).isSome = true ↔
      path' <+: path ∨ (at? path' o).isSome = true
  | [], path', o => by
      cases path' with
      | nil => simp [modify, at?]
      | cons segment' path' => simp [modify, at?, hf.parts]
  | segment :: path, path', .section held required parts => by
      cases path' with
      | nil => simp [at?]
      | cons segment' path' =>
          simp only [modify, at?, Outline.parts, Entries.get?_insert, List.cons_prefix_cons]
          by_cases hsegment : segment = segment'
          · subst hsegment
            rw [if_pos rfl, Option.bind_some, isSome_at?_modify hf]
            cases hpart : Entries.get? parts segment with
            | none =>
                rw [Option.getD_none, isSome_at?_empty]
                simpa using fun hnil : path' = [] => hnil ▸ List.nil_prefix
            | some part => simp
          · simp [hsegment, Ne.symm hsegment]

theorem local_declare (name : String) (schema : Schema) (isRequired : Bool) :
    Local (declare name schema isRequired) where
  parts | .section _ _ _ => rfl
  bare | .section _ _ _ => rfl

theorem Local.foldl {α : Type} {f : Outline → α → Outline} (h : ∀ a, Local fun o => f o a)
    (as : List α) : Local fun o => as.foldl f o := by
  induction as with
  | nil => exact ⟨fun _ => rfl, fun _ => rfl⟩
  | cons a as ih =>
      exact ⟨fun o => (ih.parts _).trans ((h a).parts o),
        fun o => (ih.bare _).trans (congrArg (as.foldl f) ((h a).bare o))⟩

/-! ## Sections have different names -/

/-- The names of the sections in a section are distinct, at every depth. -/
inductive Distinct : Outline → Prop where
  | intro {o : Outline} (names : (Entries.keys o.parts).Nodup)
      (inside : ∀ e ∈ o.parts, Distinct e.2) : Distinct o

theorem Distinct.names (h : Distinct o) : (Entries.keys o.parts).Nodup := by
  cases h with
  | intro names inside => exact names

theorem Distinct.inside (h : Distinct o) : ∀ e ∈ o.parts, Distinct e.2 := by
  cases h with
  | intro names inside => exact inside

theorem distinct_empty : Distinct empty :=
  .intro List.nodup_nil fun _ he => absurd he List.not_mem_nil

theorem Distinct.modify (hf : Local f) : ∀ {path : List String} {o : Outline}, o.Distinct →
    (modify f path o).Distinct
  | [], o, h => by
      refine .intro ?_ ?_
      · rw [Outline.modify, hf.parts]
        exact h.names
      · rw [Outline.modify, hf.parts]
        exact h.inside
  | segment :: path, .section held required parts, h => by
      have hpart : ((Entries.get? parts segment).getD empty).Distinct := by
        cases hget : Entries.get? parts segment with
        | none => exact distinct_empty
        | some part => exact h.inside _ ((Entries.get?_eq_some_iff h.names).mp hget)
      refine .intro (Entries.nodup_keys_insert h.names) fun e he => ?_
      rcases Entries.mem_insert he with rfl | he
      · exact Distinct.modify hf hpart
      · exact h.inside e he

/-! ## Outlines as schemas -/

theorem get?_withParts {name : String} : ∀ {parts : List (String × Outline)}
    {properties : List (String × Schema)}, (Entries.keys parts).Nodup →
    Entries.get? (withParts properties parts) name =
      ((Entries.get? parts name).map toSchema).or (Entries.get? properties name)
  | [], properties, _ => rfl
  | (name', part) :: parts, properties, h => by
      obtain ⟨hnew, hrest⟩ := List.nodup_cons.mp h
      rw [withParts, get?_withParts hrest, Entries.get?_insert, Entries.get?]
      by_cases hname : name' = name
      · subst hname
        have hnone : Entries.get? parts name' = none := by
          rw [← Option.not_isSome_iff_eq_none, Entries.isSome_get?_iff]
          exact hnew
        simp [hnone]
      · simp [hname]

end Outline

/-! ## Schemas as data -/

namespace Data

/-- What a mapping has under a key. -/
def get? : Data → String → Option Data
  | .mapping entries, key => Entries.get? entries key
  | _, _ => none

/-- The schema of a property, if a schema lists it. -/
def property? (d : Data) (name : String) : Option Data :=
  (d.get? "properties").bind (·.get? name)

/-- The schema that a path of properties leads to. -/
def follow? : List String → Data → Option Data
  | [], d => some d
  | name :: path, d => (d.property? name).bind (follow? path)

def text? : Data → Option String
  | .string s => some s
  | _ => none

def items : Data → List Data
  | .list items => items
  | _ => []

/-- The names that a schema requires. -/
def required (d : Data) : List String :=
  (((d.get? "required").map items).getD []).filterMap text?

/-- A schema for objects. -/
def IsObject (d : Data) : Prop := d.get? "type" = some (.string "object")

end Data

namespace Schema

/-- A schema as it is written inside others. -/
def data (s : Schema) : Data := .mapping s.keywords

theorem get?_propertyKeywords {name : String} : ∀ {properties : List (String × Schema)},
    Entries.get? (propertyKeywords properties) name = (Entries.get? properties name).map data
  | [] => rfl
  | (name', s) :: properties => by
      rw [propertyKeywords, Entries.get?, Entries.get?, get?_propertyKeywords]
      by_cases hname : name' = name <;> simp [hname, data]

variable {properties : List (String × Schema)} {required : List String}
  {additional : Option Schema}

theorem property?_object {name : String} :
    (object properties required additional).data.property? name =
      (Entries.get? properties name).map data := by
  simp [Data.property?, data, keywords, named, Data.get?, Entries.get?, get?_propertyKeywords]

theorem required_object : (object properties required additional).data.required = required := by
  have htexts : (required.map Data.string).filterMap Data.text? = required := by
    simp [List.filterMap_map, Function.comp_def, Data.text?]
  cases required with
  | nil => simp [Data.required, data, keywords, named, Data.get?, Entries.get?]
  | cons name required =>
      simpa [Data.required, data, keywords, named, Data.get?, Entries.get?, Data.items] using htexts

theorem isObject_object : (object properties required additional).data.IsObject := rfl

theorem property?_toData {s : Schema} {name : String} :
    s.toData.property? name = s.data.property? name := by
  simp [Data.property?, data, toData, Data.get?, Entries.get?_append, Entries.get?]

theorem follow?_toData {s : Schema} {name : String} {path : List String} :
    s.toData.follow? (name :: path) = s.data.follow? (name :: path) := by
  rw [Data.follow?, Data.follow?, property?_toData]

end Schema

namespace Outline

variable {o part : Outline} {path : List String} {name : String}

theorem toSchema_eq (o : Outline) :
    o.toSchema = .object (withParts o.held o.parts) o.required none := by
  cases o with
  | «section» held required parts => rfl

theorem isObject_toSchema : o.toSchema.data.IsObject := o.toSchema_eq ▸ Schema.isObject_object

theorem required_toSchema : o.toSchema.data.required = o.required := by
  rw [toSchema_eq, Schema.required_object]

/-- A section inside is listed under its name, and so is a variable that has no section's
name. -/
theorem property?_toSchema (o : Outline) (name : String) (h : o.Distinct) :
    o.toSchema.data.property? name =
      ((Entries.get? o.parts name).map fun part => part.toSchema.data).or
        ((Entries.get? o.held name).map Schema.data) := by
  rw [toSchema_eq, Schema.property?_object, get?_withParts h.names, Option.map_or, Option.map_map]
  rfl

theorem follow?_toSchema : ∀ {path : List String} {o : Outline}, o.Distinct →
    at? path o = some part → o.toSchema.data.follow? path = some part.toSchema.data
  | [], o, _, hpart => by
      rw [Option.some.inj hpart]
      rfl
  | name :: path, o, h, hpart => by
      obtain ⟨next, hnext, hpart⟩ := Option.bind_eq_some_iff.mp hpart
      have hinside := h.inside _ ((Entries.get?_eq_some_iff h.names).mp hnext)
      rw [Data.follow?, o.property?_toSchema name h, hnext, Option.map_some, Option.some_or,
        Option.bind_some, follow?_toSchema hinside hpart]

theorem Distinct.at? : ∀ {path : List String} {o : Outline}, o.Distinct →
    at? path o = some part → part.Distinct
  | [], o, h, hpart => Option.some.inj hpart ▸ h
  | name :: path, o, h, hpart => by
      obtain ⟨next, hnext, hpart⟩ := Option.bind_eq_some_iff.mp hpart
      exact Distinct.at? (h.inside _ ((Entries.get?_eq_some_iff h.names).mp hnext)) hpart

end Outline

/-! ## Programs -/

/-- The names that lead to a module's section. -/
def ModuleId.path (m : ModuleId) : List String := m.org :: m.segments

/-- The section that a variable is in, and the name that it has there. -/
def Variable.place (v : Variable) : List String × String := (v.module.path, v.name)

namespace TypeGraph

variable (g : TypeGraph)

def declareVariable (o : Outline) (v : Variable) : Outline :=
  o.declare v.name ((g.schema? v.type).getD .any) v.required

/-- The variables that a schema is for, in the order of their declaration. -/
def configurables (D : Declarations) : List Variable :=
  D.declared.filter fun v => g.isConfigurable v.type

/-- The last of the variables in a place. -/
def last? (D : Declarations) (place : List String × String) : Option Variable :=
  (g.configurables D).reverse.find? fun v => v.place = place

/-- The outline with the variables of the module of an entry. -/
def declareEntry (o : Outline) (e : ModuleId × List Declaration) : Outline :=
  o.modify (fun o => (g.configurables [e]).foldl g.declareVariable o) e.1.path

/-- Types that are declared and can be configured have schemas. -/
def Describes (D : Declarations) : Prop :=
  ∀ v ∈ D.declared, g.isConfigurable v.type = true → (g.schema? v.type).isSome = true

instance (D : Declarations) : Decidable (g.Describes D) :=
  inferInstanceAs (Decidable (∀ v ∈ D.declared, _ → _))

variable {g : TypeGraph} {D : Declarations} {path : List String}

theorem local_declareVariables (vs : List Variable) :
    Outline.Local fun o => vs.foldl g.declareVariable o :=
  Outline.Local.foldl (f := g.declareVariable)
    (fun v => Outline.local_declare v.name _ v.required) vs

theorem configurables_append (D D' : Declarations) :
    g.configurables (D ++ D') = g.configurables D ++ g.configurables D' := by
  simp [configurables, Declarations.declared]

theorem configurables_singleton (module : ModuleId) (ds : List Declaration) :
    g.configurables [(module, ds)] =
      (ds.filter fun d => g.isConfigurable d.type).map (Variable.ofDeclaration module) := by
  simp [configurables, Declarations.declared, List.filter_map, Function.comp_def,
    Variable.ofDeclaration]

theorem path_of_mem_configurables {e : ModuleId × List Declaration} {v : Variable}
    (h : v ∈ g.configurables [e]) : v.module.path = e.1.path := by
  rw [configurables_singleton] at h
  obtain ⟨d, -, rfl⟩ := List.mem_map.mp h
  rfl

theorem mapM_eq_some {α β : Type} {f : α → Option β} {value : α → β} : ∀ {l : List α},
    (∀ a ∈ l, f a = some (value a)) → l.mapM f = some (l.map value)
  | [], _ => rfl
  | a :: l, h => by
      rw [List.mapM_cons, h a (List.mem_cons_self ..),
        mapM_eq_some fun b hb => h b (List.mem_cons_of_mem _ hb)]
      rfl

theorem declareModule?_eq (o : Outline) {module : ModuleId} {ds : List Declaration}
    (h : g.Describes [(module, ds)]) :
    g.declareModule? o module ds = some (g.declareEntry o (module, ds)) := by
  have hschemas : (ds.filter fun d => g.isConfigurable d.type).mapM
      (fun d => (g.schema? d.type).map (d, ·)) =
      some ((ds.filter fun d => g.isConfigurable d.type).map
        fun d => (d, (g.schema? d.type).getD .any)) := by
    refine mapM_eq_some fun d hd => ?_
    obtain ⟨hmem, hconf⟩ := List.mem_filter.mp hd
    have hv : Variable.ofDeclaration module d ∈ Declarations.declared [(module, ds)] := by
      simpa [Declarations.declared] using ⟨d, hmem, rfl⟩
    obtain ⟨s, hs⟩ := Option.isSome_iff_exists.mp (h _ hv hconf)
    rw [show g.schema? d.type = some s from hs]
    rfl
  rw [declareModule?, hschemas, declareEntry, configurables_singleton]
  simp only [Option.bind_eq_bind, Option.bind_some, List.foldl_map]
  rfl

theorem describes_append {D D' : Declarations} :
    g.Describes (D ++ D') ↔ g.Describes D ∧ g.Describes D' := by
  simp only [Describes, Declarations.declared, List.flatMap_append, List.mem_append, or_imp,
    forall_and]

theorem foldlM_declareModule? : ∀ {D : Declarations} {o : Outline}, g.Describes D →
    D.foldlM (fun o e => g.declareModule? o e.1 e.2) o = some (D.foldl g.declareEntry o)
  | [], _, _ => rfl
  | (module, ds) :: D, o, h => by
      obtain ⟨hfirst, hrest⟩ := describes_append.mp (List.singleton_append ▸ h)
      rw [List.foldlM_cons, declareModule?_eq o hfirst]
      exact foldlM_declareModule? hrest

theorem outline?_eq (h : g.Describes D) : g.outline? D = some (D.foldl g.declareEntry .empty) :=
  foldlM_declareModule? h

/-- A section holds what is declared in modules with its path, and nothing else. -/
theorem sectionAt_outline (D : Declarations) (path : List String) :
    (D.foldl g.declareEntry .empty).sectionAt path =
      ((g.configurables D).filter fun v => v.module.path = path).foldl
        g.declareVariable .empty := by
  induction D using List.reverseRecOn with
  | nil => exact Outline.sectionAt_empty
  | append_singleton D e ih =>
      rw [List.foldl_concat, declareEntry, Outline.sectionAt_modify (local_declareVariables _), ih,
        configurables_append, List.filter_append, List.foldl_append]
      by_cases hpath : path = e.1.path
      · have hall : (g.configurables [e]).filter (fun v => v.module.path = path) =
            g.configurables [e] :=
          List.filter_eq_self.mpr fun v hv => by simp [path_of_mem_configurables hv, hpath]
        rw [if_pos hpath, hall]
      · have hnone : (g.configurables [e]).filter (fun v => v.module.path = path) = [] :=
          List.filter_eq_nil_iff.mpr fun v hv => by
            simpa [path_of_mem_configurables hv] using Ne.symm hpath
        rw [if_neg hpath, hnone, List.foldl_nil]

theorem isSome_at?_outline (D : Declarations) (path : List String) :
    ((D.foldl g.declareEntry .empty).at? path).isSome = true ↔
      path = [] ∨ ∃ e ∈ D, path <+: e.1.path := by
  induction D using List.reverseRecOn with
  | nil => simp [Outline.isSome_at?_empty]
  | append_singleton D e ih =>
      rw [List.foldl_concat, declareEntry, Outline.isSome_at?_modify (local_declareVariables _), ih]
      simp only [List.mem_append, List.mem_singleton, or_and_right, exists_or, exists_eq_left]
      rw [or_left_comm, or_comm (a := path <+: e.1.path)]

theorem distinct_outline (D : Declarations) : (D.foldl g.declareEntry .empty).Distinct :=
  List.foldlRecOn (motive := Outline.Distinct) D g.declareEntry Outline.distinct_empty
    fun _ h _ _ => h.modify (local_declareVariables _)

/-! ## What a section holds -/

section Held

variable {vs : List Variable} {name : String}

theorem held_declare (name : String) (schema : Schema) (isRequired : Bool) :
    ∀ o : Outline, (o.declare name schema isRequired).held = Entries.insert o.held name schema
  | .section _ _ _ => rfl

theorem mem_required_declare {o : Outline} {name other : String} {schema : Schema}
    {isRequired : Bool} : other ∈ (o.declare name schema isRequired).required ↔
      other ∈ o.required ∨ other = name ∧ isRequired = true := by
  cases o with
  | «section» held required parts =>
      show other ∈ (if (isRequired && name ∉ required) = true then required ++ [name]
        else required) ↔ other ∈ required ∨ other = name ∧ isRequired = true
      cases isRequired with
      | false => simp
      | true =>
          by_cases hname : name ∈ required
          · simpa [hname] using fun heq : other = name => heq ▸ hname
          · simp [hname]

theorem nodup_required_declare {o : Outline} {name : String} {schema : Schema}
    {isRequired : Bool} (h : o.required.Nodup) :
    (o.declare name schema isRequired).required.Nodup := by
  cases o with
  | «section» held required parts =>
      show (if (isRequired && name ∉ required) = true then required ++ [name] else required).Nodup
      split
      · next hnew =>
        rw [Bool.and_eq_true, decide_eq_true_eq] at hnew
        simpa using List.Nodup.concat hnew.2 h
      · exact h

/-- The last variable of a name decides its schema. -/
theorem get?_held_declareVariables (vs : List Variable) (name : String) :
    Entries.get? (vs.foldl g.declareVariable .empty).held name =
      (vs.reverse.find? fun v => v.name = name).map fun v => (g.schema? v.type).getD .any := by
  induction vs using List.reverseRecOn with
  | nil => rfl
  | append_singleton vs v ih =>
      rw [List.foldl_concat, declareVariable, held_declare, Entries.get?_insert, ih,
        List.reverse_append, List.reverse_singleton, List.singleton_append, List.find?_cons]
      by_cases hname : v.name = name <;> simp [hname]

theorem mem_required_declareVariables {vs : List Variable} :
    name ∈ (vs.foldl g.declareVariable .empty).required ↔
      ∃ v ∈ vs, v.name = name ∧ v.required = true := by
  induction vs using List.reverseRecOn with
  | nil => simp [Outline.empty, Outline.required]
  | append_singleton vs v ih =>
      rw [List.foldl_concat, declareVariable, mem_required_declare, ih]
      simp only [List.mem_append, List.mem_singleton, or_and_right, exists_or, exists_eq_left,
        eq_comm (a := name)]

theorem nodup_required_declareVariables (vs : List Variable) :
    (vs.foldl g.declareVariable .empty).required.Nodup :=
  List.foldlRecOn (motive := fun o : Outline => o.required.Nodup) vs g.declareVariable
    List.nodup_nil fun _ h _ _ => nodup_required_declare h

/-- A name is listed once if one of the variables of that name is required. -/
theorem count_declareVariables (vs : List Variable) (name : String) :
    (vs.foldl g.declareVariable .empty).required.count name =
      if ∃ v ∈ vs, v.name = name ∧ v.required = true then 1 else 0 := by
  rw [(nodup_required_declareVariables vs).count]
  simp only [mem_required_declareVariables]

end Held

/-! ## Every variable is listed -/

variable {v w : Variable}

theorem exists_last (h : v ∈ g.configurables D) : ∃ w, g.last? D v.place = some w := by
  rw [← Option.isSome_iff_exists, last?, List.find?_isSome]
  exact ⟨v, List.mem_reverse.mpr h, by simp⟩

theorem Describes.isSome_schema_last {place : List String × String} (h : g.Describes D)
    (hlast : g.last? D place = some w) : (g.schema? w.type).isSome = true := by
  have hmem : w ∈ g.configurables D := List.mem_reverse.mp (List.mem_of_find?_eq_some hlast)
  obtain ⟨hdeclared, hconf⟩ := List.mem_filter.mp hmem
  exact h w hdeclared hconf

theorem exists_entry_of_configurable (h : v ∈ g.configurables D) :
    ∃ e ∈ D, v.module.path = e.1.path := by
  obtain ⟨e, he, hv⟩ := List.mem_flatMap.mp (List.mem_filter.mp h).1
  obtain ⟨d, -, rfl⟩ := List.mem_map.mp hv
  exact ⟨e, he, rfl⟩

/-- The path of a module with a configurable variable leads to a section with what is declared
in that place. -/
theorem exists_section (h : v ∈ g.configurables D) :
    ∃ part, (D.foldl g.declareEntry .empty).at? v.module.path = some part ∧
      part.bare = ((g.configurables D).filter fun w => w.module.path = v.module.path).foldl
        g.declareVariable .empty := by
  obtain ⟨e, he, hpath⟩ := exists_entry_of_configurable h
  have hsome := (isSome_at?_outline (g := g) D v.module.path).mpr
    (Or.inr ⟨e, he, hpath ▸ List.prefix_rfl⟩)
  obtain ⟨part, hpart⟩ := Option.isSome_iff_exists.mp hsome
  refine ⟨part, hpart, ?_⟩
  rw [← sectionAt_outline, Outline.sectionAt, hpart]
  rfl

theorem isSome_get?_parts {part : Outline} {name : String}
    (h : (D.foldl g.declareEntry .empty).at? path = some part) :
    (Entries.get? part.parts name).isSome = true ↔ ∃ e ∈ D, path ++ [name] <+: e.1.path := by
  have hat : (D.foldl g.declareEntry .empty).at? (path ++ [name]) =
      Entries.get? part.parts name := by
    rw [Outline.at?_append, h, Option.bind_some, Outline.at?]
    cases Entries.get? part.parts name <;> rfl
  rw [← hat, isSome_at?_outline]
  simp

theorem held_of_bare {part : Outline}
    (h : part.bare = ((g.configurables D).filter fun w => w.module.path = v.module.path).foldl
      g.declareVariable .empty) :
    Entries.get? part.held v.name =
      (g.last? D v.place).map fun w => (g.schema? w.type).getD .any := by
  rw [← part.held_bare, h, get?_held_declareVariables, ← List.filter_reverse, List.find?_filter,
    last?]
  simp [Variable.place]

/-- **Where a schema lists the variables.** The path of a variable's module leads to a section
for objects. It requires the name of the variable once, if a configurable variable in that place
is required, and not at all otherwise. The name is listed with the schema of the last one in that
place, if it is not on the path of a module; there it is the section of such modules. -/
theorem documentSchema_lists (h : g.Describes D) :
    ∃ s, g.documentSchema? D = some s ∧ ∀ v ∈ g.configurables D,
      ∃ inside, s.toData.follow? v.module.path = some inside ∧ inside.IsObject ∧
        (inside.required.count v.name =
          if ∃ w ∈ g.configurables D, w.place = v.place ∧ w.required = true then 1 else 0) ∧
        ((∀ e ∈ D, ¬ v.module.path ++ [v.name] <+: e.1.path) →
          ∃ w own, g.last? D v.place = some w ∧ g.schema? w.type = some own ∧
            inside.property? v.name = some own.data) ∧
        ((∃ e ∈ D, v.module.path ++ [v.name] <+: e.1.path) →
          ∃ part, inside.property? v.name = some part ∧ part.IsObject) := by
  have hdistinct := distinct_outline (g := g) D
  refine ⟨_, by rw [documentSchema?, outline?_eq h, Option.map_some], fun v hv => ?_⟩
  obtain ⟨part, hpart, hbare⟩ := exists_section hv
  have hproperty := part.property?_toSchema v.name (hdistinct.at? hpart)
  refine ⟨part.toSchema.data, ?_, Outline.isObject_toSchema, ?_, ?_, ?_⟩
  · rw [ModuleId.path, Schema.follow?_toData]
    exact Outline.follow?_toSchema hdistinct hpart
  · rw [Outline.required_toSchema, ← part.required_bare, hbare, count_declareVariables]
    simp [Variable.place, and_assoc]
  · intro hfree
    have hnone : Entries.get? part.parts v.name = none := by
      rw [← Option.not_isSome_iff_eq_none, isSome_get?_parts hpart]
      exact fun ⟨e, he, hprefix⟩ => hfree e he hprefix
    obtain ⟨w, hlast⟩ := exists_last hv
    obtain ⟨own, hown⟩ := Option.isSome_iff_exists.mp (h.isSome_schema_last hlast)
    refine ⟨w, own, hlast, hown, ?_⟩
    rw [hproperty, hnone, held_of_bare hbare, hlast, Option.map_some, hown]
    rfl
  · intro htaken
    obtain ⟨next, hnext⟩ := Option.isSome_iff_exists.mp ((isSome_get?_parts hpart).mpr htaken)
    rw [hproperty, hnext]
    exact ⟨_, rfl, Outline.isObject_toSchema⟩

/-- Of two versions of a module the later one says what `x` is, and the earlier one that it is
required. The section of `m.util` inside takes nothing away. -/
theorem documentSchema_lists_versions :
    let m : ModuleId := ⟨"o", "m", "1"⟩
    let m' : ModuleId := ⟨"o", "m", "2"⟩
    let D : Declarations := [(m, [⟨"x", .primitive .int, true⟩, ⟨"y", .readonly, true⟩]),
      (⟨"o", "m.util", "1"⟩, [⟨"z", .primitive .boolean, false⟩]),
      (m', [⟨"x", .primitive .string, false⟩])]
    TypeGraph.empty.Describes D ∧ ∃ s inside, TypeGraph.empty.documentSchema? D = some s ∧
      s.toData.follow? ["o", "m"] = some inside ∧ inside.IsObject ∧
      inside.required.count "x" = 1 ∧ inside.property? "x" = some Schema.string.data := by
  intro m m' D
  have hD : TypeGraph.empty.Describes D := by decide
  let v : Variable := ⟨⟨m', "x"⟩, .primitive .string, false⟩
  have hv : TypeGraph.empty.last? D v.place = some v := by decide
  have hpath : v.module.path = ["o", "m"] := by decide
  obtain ⟨s, hs, hlists⟩ := documentSchema_lists hD
  obtain ⟨inside, hfollow, hobject, hcount, hproperty, -⟩ := hlists v (by decide)
  obtain ⟨w, own, hlast, hown, hproperty⟩ := hproperty (by decide)
  obtain rfl : v = w := Option.some.inj (hv.symm.trans hlast)
  obtain rfl : Schema.string = own := Option.some.inj hown
  exact ⟨hD, s, inside, hs, hpath ▸ hfollow, hobject, hcount.trans (by decide), hproperty⟩

/-- A module without variables takes the place of the variable that has its name. -/
theorem module_hides_variable :
    let D : Declarations :=
      [(⟨"o", "m", "1"⟩, [⟨"util", .primitive .int, true⟩]), (⟨"o", "m.util", "1"⟩, [])]
    let v : Variable := ⟨⟨⟨"o", "m", "1"⟩, "util"⟩, .primitive .int, true⟩
    let typeOf := fun d : Data => (d.get? "type").bind Data.text?
    TypeGraph.empty.Describes D ∧ TypeGraph.empty.last? D v.place = some v ∧
      ((TypeGraph.empty.schema? v.type).bind fun s => typeOf s.data) = some "integer" ∧
      ((((TypeGraph.empty.documentSchema? D).bind fun s => s.toData.follow? v.module.path).bind
        (·.property? v.name)).bind typeOf) = some "object" := by
  decide +kernel

end TypeGraph

end Configurable
