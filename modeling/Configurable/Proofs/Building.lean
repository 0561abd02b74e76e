import Configurable.Proofs.Intersections
import Configurable.Proofs.SchemaAgreement
import Configurable.Proofs.SchemaLayout

/-!
# Graphs that are built up

Types are numbered, those that every program has before the definitions of the graph. A graph
is built by operations that each name only types that there are at that moment, so a definition
refers to types with smaller numbers; only a tuple can be given members that came after it
(`Ordered`). This is all that has to be known to see that the links of intersections end and
that a schema is made of finitely many parts: both lead to smaller numbers, the one because
intersections are no tuples, the other because a schema stops at tuples
(`Ordered.id_lt_of_isComponent`).
-/

namespace Configurable

/-- The number of a type. -/
def TypeRef.id : TypeRef → Nat
  | .primitive .int => 0
  | .primitive .byte => 1
  | .primitive .boolean => 2
  | .primitive .float => 3
  | .primitive .decimal => 4
  | .primitive .string => 5
  | .primitive .xml => 6
  | .readonly => 7
  | .defined i => TypeGraph.builtinCount + i

namespace TypeDef

/-- All types that a definition refers to. -/
def references : TypeDef → List TypeRef
  | .primitive _ | .readonly => []
  | .array element => [element]
  | .record r => r.fields.map Field.type ++ r.rest.toList
  | .table constraint _ => [constraint]
  | .map constraint _ => [constraint]
  | .union members => members
  | .intersection constituents effective => constituents ++ [effective]
  | .tuple t => t.members ++ t.rest.toList

def IsTuple (d : TypeDef) : Prop := ∃ t, d = .tuple t

/-- Tuples have no components, and others none to which they do not refer. -/
theorem mem_references_of_mem_components {d : TypeDef} {u : TypeRef} (h : u ∈ d.components) :
    u ∈ d.references ∧ ¬ d.IsTuple := by
  cases d with
  | primitive p => cases h
  | readonly => cases h
  | intersection constituents effective => cases h
  | tuple t => cases h
  | array element => exact ⟨h, nofun⟩
  | record r => exact ⟨h, nofun⟩
  | table constraint keys => exact ⟨h, nofun⟩
  | map constraint readonly => exact ⟨h, nofun⟩
  | union members => exact ⟨h, nofun⟩

end TypeDef

namespace TypeGraph

/-! ## Operations -/

inductive Operation where
  | add (d : TypeDef)
  | array (element : TypeRef)
  | readonly (t : TypeRef)
  | record (module : ModuleId) (name : String) (fields : List Field)
  | table (constraint : TypeRef) (keys : List String)
  | map (constraint : TypeRef) (readonly : Bool)
  | union (members : List TypeRef)
  | declareTuple (name : Option String)
  | addTupleMember (tuple member : TypeRef)

namespace Operation

/-- The types that an operation is given. -/
def operands : Operation → List TypeRef
  | .add d => d.references
  | .array element => [element]
  | .readonly t => [t]
  | .record _ _ fields => fields.map Field.type
  | .table constraint _ => [constraint]
  | .map constraint _ => [constraint]
  | .union members => members
  | .declareTuple _ => []
  | .addTupleMember tuple member => [tuple, member]

/-- A record that is made from its fields is closed. A member that is refused leaves the graph
as it is. -/
def perform (g : TypeGraph) : Operation → TypeGraph
  | .add d => (g.add d).1
  | .array element => (g.add (.array element)).1
  | .readonly t => (g.add (readonlyOf t)).1
  | .record module name fields => (g.add (.record ⟨name, module, fields, none⟩)).1
  | .table constraint keys => (g.add (.table constraint keys)).1
  | .map constraint isReadonly => (g.add (.map constraint isReadonly)).1
  | .union members => (g.add (.union members)).1
  | .declareTuple name => (g.add (declaredTuple name)).1
  | .addTupleMember tuple member => (g.addTupleMember? tuple member).getD g

end Operation

/-- The type is one of those that every program has, or a definition of the graph. -/
def Holds (g : TypeGraph) (t : TypeRef) : Prop := t.id < g.size

instance (g : TypeGraph) (t : TypeRef) : Decidable (g.Holds t) :=
  inferInstanceAs (Decidable (t.id < g.size))

/-- Every operation names only types that there are when it is performed. -/
def Permits (g : TypeGraph) : List Operation → Prop
  | [] => True
  | op :: ops => (∀ t ∈ op.operands, g.Holds t) ∧ (op.perform g).Permits ops

instance decidablePermits : ∀ (g : TypeGraph) (ops : List Operation), Decidable (g.Permits ops)
  | _, [] => .isTrue trivial
  | g, op :: ops =>
    have := decidablePermits (op.perform g) ops
    inferInstanceAs (Decidable ((∀ t ∈ op.operands, g.Holds t) ∧ _))

/-- The graph that operations make of one. -/
def build (g : TypeGraph) (ops : List Operation) : TypeGraph := ops.foldl Operation.perform g

/-! ## The order of definitions -/

/-- Definitions refer to earlier ones, tuples to any, but not to themselves as a member. -/
structure Ordered (g : TypeGraph) : Prop where
  holds : ∀ {i : Nat} {d : TypeDef}, g.defs[i]? = some d → ∀ u ∈ d.references, g.Holds u
  earlier : ∀ {i : Nat} {d : TypeDef}, g.defs[i]? = some d → ¬ d.IsTuple →
    ∀ u ∈ d.references, u.id < (TypeRef.defined i).id
  direct : ∀ {i : Nat} {t : TupleType}, g.defs[i]? = some (.tuple t) → .defined i ∉ t.members

section

variable {g : TypeGraph} {t u : TypeRef} {d : TypeDef} {i : Nat}

theorem holds_readonly (g : TypeGraph) : g.Holds .readonly :=
  Nat.lt_of_lt_of_le (by decide) (Nat.le_add_right builtinCount g.defs.size)

theorem Holds.mono {g' : TypeGraph} (h : g.Holds t) (hle : g.defs.size ≤ g'.defs.size) :
    g'.Holds t := by
  unfold Holds size at *
  omega

theorem ordered_empty : Ordered .empty :=
  ⟨fun h => by simp [empty] at h, fun h => by simp [empty] at h, fun h => by simp [empty] at h⟩

theorem get_defined (h : g.defs[i]? = some d) : g.get (.defined i) = d := by
  rw [get, Array.getD_eq_getD_getElem?, h, Option.getD_some]

/-- A definition that refers to what there is comes behind all of it. -/
theorem Ordered.add (h : g.Ordered) (hd : ∀ u ∈ d.references, g.Holds u) :
    (g.add d).1.Ordered := by
  have hsize : (g.add d).1.defs.size = g.defs.size + 1 := Array.size_push ..
  -- a definition of the new graph is an old one or the new one
  have hdefs : ∀ {i d'}, (g.add d).1.defs[i]? = some d' →
      g.defs[i]? = some d' ∨ i = g.defs.size ∧ d' = d := by
    intro i d' hi
    rw [TypeGraph.add, Array.getElem?_push] at hi
    split at hi
    · next heq => exact Or.inr ⟨heq, (Option.some.inj hi).symm⟩
    · exact Or.inl hi
  have hless : ∀ u ∈ d.references, u.id < (TypeRef.defined g.defs.size).id := hd
  refine ⟨fun hi u hu => ?_, fun hi htuple u hu => ?_, fun hi hmem => ?_⟩
  · rcases hdefs hi with hold | ⟨-, rfl⟩
    · exact (h.holds hold u hu).mono (by omega)
    · exact (hd u hu).mono (by omega)
  · rcases hdefs hi with hold | ⟨rfl, rfl⟩
    · exact h.earlier hold htuple u hu
    · exact hless u hu
  · rcases hdefs hi with hold | ⟨rfl, rfl⟩
    · exact h.direct hold hmem
    · exact Nat.lt_irrefl _ (hless _ (List.mem_append_left _ hmem))

/-- What a tuple is given as a member: something else that there is. -/
theorem addTupleMember?_eq_some {g' : TypeGraph} {tuple member : TypeRef}
    (h : g.addTupleMember? tuple member = some g') : ∃ i t, tuple = .defined i ∧
      member ≠ .defined i ∧ g.get (.defined i) = .tuple t ∧
      g' = ⟨g.defs.setIfInBounds i (.tuple { t with members := t.members ++ [member] })⟩ := by
  unfold addTupleMember? at h
  split at h
  · cases h
  · next hne =>
    split at h
    · next i t htuple =>
      exact ⟨i, t, rfl, fun heq => hne heq.symm, htuple, (Option.some.inj h).symm⟩
    · cases h

/-- A tuple may get any member but itself, and nothing else is changed. -/
theorem Ordered.addTupleMember {g' : TypeGraph} {tuple member : TypeRef} (h : g.Ordered)
    (hmember : g.Holds member) (hadd : g.addTupleMember? tuple member = some g') : g'.Ordered := by
  obtain ⟨i, t, rfl, hne, htuple, rfl⟩ := addTupleMember?_eq_some hadd
  have hsize : ∀ {u}, g.Holds u →
      (⟨g.defs.setIfInBounds i (.tuple { t with members := t.members ++ [member] })⟩ :
        TypeGraph).Holds u := fun hu => hu.mono (by simp)
  have hdefs : ∀ {j d}, (g.defs.setIfInBounds i
      (.tuple { t with members := t.members ++ [member] }))[j]? = some d →
      g.defs[j]? = some d ∨ j = i ∧ d = .tuple { t with members := t.members ++ [member] } ∧
        g.defs[j]? = some (.tuple t) := by
    intro j d hj
    rw [Array.getElem?_setIfInBounds] at hj
    split at hj
    · next heq =>
      subst heq
      split at hj
      · next hlt =>
        have hold : g.defs[i]? = some g.defs[i] := Array.getElem?_eq_getElem hlt
        rw [← get_defined hold] at hold
        exact Or.inr ⟨rfl, (Option.some.inj hj).symm, hold.trans (congrArg some htuple)⟩
      · cases hj
    · exact Or.inl hj
  refine ⟨fun hj u hu => ?_, fun hj hnot u hu => ?_, fun hj hmem => ?_⟩
  · rcases hdefs hj with hold | ⟨rfl, rfl, hold⟩
    · exact hsize (h.holds hold u hu)
    · rcases List.mem_append.mp hu with hu | hrest
      · rcases List.mem_append.mp hu with hu | hnew
        · exact hsize (h.holds hold u (List.mem_append_left _ hu))
        · exact hsize (List.mem_singleton.mp hnew ▸ hmember)
      · exact hsize (h.holds hold u (List.mem_append_right _ hrest))
  · rcases hdefs hj with hold | ⟨rfl, rfl, -⟩
    · exact h.earlier hold hnot u hu
    · exact absurd ⟨_, rfl⟩ hnot
  · rcases hdefs hj with hold | ⟨rfl, heq, hold⟩
    · exact h.direct hold hmem
    · obtain rfl := TypeDef.tuple.inj heq
      rcases List.mem_append.mp hmem with hmem | hnew
      · exact h.direct hold hmem
      · exact hne (List.mem_singleton.mp hnew).symm

theorem Ordered.perform (h : g.Ordered) {op : Operation} (hop : ∀ t ∈ op.operands, g.Holds t) :
    (op.perform g).Ordered := by
  cases op with
  | add d => exact h.add hop
  | array element => exact h.add hop
  | readonly t =>
      have ht : g.Holds t := hop t (List.mem_singleton_self t)
      exact h.add (by simp [readonlyOf, TypeDef.references, ht, holds_readonly])
  | record module name fields =>
      exact h.add (by simpa [TypeDef.references, Operation.operands] using hop)
  | table constraint keys => exact h.add hop
  | map constraint isReadonly => exact h.add hop
  | union members => exact h.add hop
  | declareTuple name => exact h.add (by simp [declaredTuple, TypeDef.references])
  | addTupleMember tuple member =>
      have hmember : g.Holds member := hop member (by simp [Operation.operands])
      show ((g.addTupleMember? tuple member).getD g).Ordered
      cases hadd : g.addTupleMember? tuple member with
      | none => exact h
      | some g' => exact h.addTupleMember hmember hadd

theorem Ordered.build : ∀ {g : TypeGraph} (ops : List Operation), g.Ordered → g.Permits ops →
    (g.build ops).Ordered
  | _, [], h, _ => h
  | _, _ :: ops, h, hops => Ordered.build ops (h.perform hops.1) hops.2

/-! ## What the order says -/

theorem getElem?_of_get (hget : g.get (.defined i) = d) (hd : d ≠ .readonly) :
    g.defs[i]? = some d := by
  rw [get, Array.getD_eq_getD_getElem?] at hget
  cases hdef : g.defs[i]? with
  | none => exact absurd (by simpa [hdef] using hget.symm) hd
  | some d' => simpa [hdef] using hget

theorem Ordered.id_lt_of_behind (h : g.Ordered) (hbehind : g.behind? t = some u) :
    u.id < t.id := by
  obtain ⟨i, -, rfl⟩ := (isIntersection_of_behind? hbehind).index
  unfold behind? at hbehind
  split at hbehind
  · next constituents effective hdef =>
    obtain rfl := Option.some.inj hbehind
    exact h.earlier (getElem?_of_get hdef nofun) nofun _ (by simp [TypeDef.references])
  · cases hbehind

/-- The links of intersections end, at a type that is no later. -/
theorem Ordered.exists_ends (h : g.Ordered) (t : TypeRef) : ∃ n u, g.Ends t n u ∧ u.id ≤ t.id := by
  induction hid : t.id using Nat.strong_induction_on generalizing t with
  | _ id ih =>
    cases hbehind : g.behind? t with
    | none => exact ⟨0, t, ⟨rfl, behind?_eq_none_iff.mp hbehind⟩, Nat.le_of_eq hid⟩
    | some w =>
        have hless := h.id_lt_of_behind hbehind
        obtain ⟨n, u, hends, hle⟩ := ih w.id (by omega) w rfl
        exact ⟨n + 1, u, ⟨by rw [behindBy?_succ, hbehind, Option.bind_some, hends.leads],
          hends.done⟩, by omega⟩

theorem Ordered.effective (h : g.Ordered) (t : TypeRef) :
    ¬ g.IsIntersection (g.effective t) ∧ (g.effective t).id ≤ t.id := by
  obtain ⟨n, u, hends, hle⟩ := h.exists_ends t
  have hsteps : n ≤ g.size := Nat.le_trans hends.le_size (Nat.le_add_left _ _)
  have heffective : g.effective t = u := follow_of_ends hends hsteps
  rw [heffective]
  exact ⟨hends.done, hle⟩

/-- The parts of a schema are made for types with smaller numbers. -/
theorem Ordered.id_lt_of_isComponent (h : g.Ordered) (hu : g.IsComponent u t) : u.id < t.id := by
  obtain ⟨i, -, heffective⟩ := index_of_isComponent hu
  obtain ⟨hmem, htuple⟩ := TypeDef.mem_references_of_mem_components hu
  have hdef : g.defs[i]? = some (g.effectiveDef t) := by
    refine getElem?_of_get (by rw [effectiveDef, heffective]) fun hreadonly => ?_
    rw [hreadonly] at hmem
    cases hmem
  have hless := h.earlier hdef htuple u hmem
  rw [← heffective] at hless
  exact Nat.lt_of_lt_of_le hless (h.effective t).2

theorem Ordered.acc_isComponent (h : g.Ordered) (t : TypeRef) : Acc g.IsComponent t :=
  Subrelation.accessible (fun hu => h.id_lt_of_isComponent hu) ((measure TypeRef.id).wf.apply t)

end

/-! ## Schemas -/

section

variable {g : TypeGraph} {t : TypeRef} {depth depth' : Nat}

/-- A schema is made from those of the components. -/
theorem schemaWithin?_congr
    (h : ∀ u, g.IsComponent u t → g.schemaWithin? depth u = g.schemaWithin? depth' u) :
    g.schemaWithin? (depth + 1) t = g.schemaWithin? (depth' + 1) t := by
  unfold IsComponent at h
  rw [schemaWithin?, schemaWithin?]
  cases hdef : g.effectiveDef t with
  | primitive p => rfl
  | readonly => rfl
  | intersection constituents effective => rfl
  | tuple tuple => rfl
  | array element => simp only [h element (by simp [hdef, TypeDef.components])]
  | table constraint keys => simp only [h constraint (by simp [hdef, TypeDef.components])]
  | map constraint isReadonly => simp only [h constraint (by simp [hdef, TypeDef.components])]
  | union members =>
      have hmembers : members.mapM (g.schemaWithin? depth) =
          members.mapM (g.schemaWithin? depth') :=
        mapM_congr fun m hm => h m (by simpa [hdef, TypeDef.components] using hm)
      simp only [hmembers]
  | record r =>
      have hfields : (r.fields.mapM fun f => (g.schemaWithin? depth f.type).map (f.name, ·)) =
          r.fields.mapM fun f => (g.schemaWithin? depth' f.type).map (f.name, ·) := by
        refine mapM_congr fun f hf => ?_
        rw [h f.type]
        rw [hdef]
        exact List.mem_append_left _ (List.mem_map_of_mem hf)
      have hrest : ∀ rest ∈ r.rest, g.schemaWithin? depth rest = g.schemaWithin? depth' rest := by
        intro rest hmem
        refine h rest ?_
        rw [hdef]
        exact List.mem_append_right _ (Option.mem_toList.mpr hmem)
      simp only [hfields]
      cases hother : r.rest with
      | none => rfl
      | some rest => simp only [hrest rest hother]

/-- Depth beyond the number of the type changes nothing. -/
theorem Ordered.schemaWithin?_eq (h : g.Ordered) : ∀ (depth : Nat) {depth' : Nat} {t : TypeRef},
    t.id < depth → t.id < depth' → g.schemaWithin? depth t = g.schemaWithin? depth' t
  | depth + 1, depth' + 1, t, hdepth, hdepth' => schemaWithin?_congr fun u hu => by
      have hless := h.id_lt_of_isComponent hu
      exact h.schemaWithin?_eq depth (by omega) (by omega)

/-- Depth beyond the number of the type is enough. -/
theorem Ordered.isSome_schemaWithin? (h : g.Ordered) : ∀ {depth : Nat} {t : TypeRef},
    t.id < depth → (g.schemaWithin? depth t).isSome = true
  | depth + 1, t, hdepth => isSome_schemaWithin?_iff.mpr fun u hu => by
      have hless := h.id_lt_of_isComponent hu
      exact h.isSome_schemaWithin? (by omega)

/-- **Only tuples tie knots.** In a graph that was built by operations that name only types
that there are, all other definitions refer to types with smaller numbers, and no tuple is its
own member; effective types are no intersections; going from a type to the types of its parts
ends, so that it has a schema, which more depth does not change; and variables declared with
types of the graph have a schema for their documents. -/
theorem tuples_tie_knots (ops : List Operation) (hops : Permits .empty ops) :
    let g := build .empty ops
    (∀ i d, g.defs[i]? = some d → ¬ d.IsTuple →
        ∀ u ∈ d.references, u.id < (TypeRef.defined i).id)
      ∧ (∀ i (t : TupleType), g.defs[i]? = some (.tuple t) → .defined i ∉ t.members)
      ∧ (∀ t, ¬ g.IsIntersection (g.effective t))
      ∧ (∀ t, g.Holds t → Acc g.IsComponent t
        ∧ ∃ s, g.schema? t = some s ∧ ∀ depth > t.id, g.schemaWithin? depth t = some s)
      ∧ ∀ D : Declarations, (∀ v ∈ D.declared, g.Holds v.type) →
        ∃ s, g.documentSchema? D = some s := by
  intro g
  have h : g.Ordered := ordered_empty.build ops hops
  refine ⟨fun i d => h.earlier, fun i t => h.direct, fun t => (h.effective t).1,
    fun t ht => ⟨h.acc_isComponent t, ?_⟩, fun D hD => ?_⟩
  · obtain ⟨s, hs⟩ := Option.isSome_iff_exists.mp (h.isSome_schemaWithin? ht)
    exact ⟨s, hs, fun depth hdepth => (h.schemaWithin?_eq depth hdepth ht).trans hs⟩
  · have hdescribes : g.Describes D := fun v hv _ => h.isSome_schemaWithin? (hD v hv)
    exact ⟨_, by rw [documentSchema?, outline?_eq hdescribes, Option.map_some]⟩

/-- The tuple `Foo` has arrays, maps and tables of itself as members, and a record has all of
these in its fields. -/
theorem tuples_tie_knots_cyclic :
    let m : ModuleId := ⟨"o", "m", "1"⟩
    let ops : List Operation := [.declareTuple (some "Foo"), .array (.defined 0),
      .map (.defined 1) true, .record m "Row" [⟨"foo", .defined 2, true⟩],
      .table (.defined 3) ["foo"], .union [.primitive .int, .defined 4], .readonly (.defined 5),
      .addTupleMember (.defined 0) (.defined 6), .addTupleMember (.defined 0) (.defined 0)]
    let g := build .empty ops
    g.defs[0]? = some (.tuple ⟨some "Foo", [.defined 6], none, false⟩)
      ∧ g.effective (.defined 6) = .defined 5
      ∧ ∃ s, g.schema? (.defined 6) = some s := by
  intro m ops g
  have hops : Permits .empty ops := by decide
  obtain ⟨-, -, -, hschema, -⟩ := tuples_tie_knots ops hops
  obtain ⟨-, s, hs, -⟩ := hschema (.defined 6) (by decide)
  exact ⟨by decide, by decide, s, hs⟩

end

end TypeGraph

end Configurable
