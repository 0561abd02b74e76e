import Configurable.Proofs.Exactness
import Configurable.Proofs.SchemaValidity
import Mathlib.Data.List.Nodup

/-!
# Schemas agree with reading

A type that is not made of itself has a schema (`exists_schema`), and what is read as a value
of the type is valid for it (`valid_of_means`). The converse needs a type of whose values a
schema says all there is to say: no text has to be well-formed, no two rows of a table have to
differ, and there is no part that is never read (`isPlain`). What is valid for the schema of
such a type is read as a value (`means_of_valid`).

Schemas are compared with what nodes mean, which is what is read. Both are told level by level
by the effective type, the one by `Clause` and the other by `ValidFrom`, so each half is an
induction on the depth of the schema that compares two clauses of the same type.
-/

namespace Configurable

open Text (Span)
open Toml (Node Entry EntryOf Scalar)

/-- The types of the parts of a value. -/
def TypeDef.components : TypeDef → List TypeRef
  | .array element => [element]
  | .record r => r.fields.map Field.type ++ r.rest.toList
  | .table constraint _ => [constraint]
  | .map constraint _ => [constraint]
  | .union members => members
  | .primitive _ | .readonly | .intersection _ _ | .tuple _ => []

namespace TypeGraph

variable {g : TypeGraph} {t u : TypeRef} {depth : Nat} {s : Schema}

def IsComponent (g : TypeGraph) (u t : TypeRef) : Prop := u ∈ (g.effectiveDef t).components

/-- The type and all that it is made of. -/
def Throughout (g : TypeGraph) (P : TypeRef → Prop) (t : TypeRef) : Prop :=
  ∀ u, Relation.ReflTransGen g.IsComponent u t → P u

/-- No type that the type is made of is made of itself. -/
def Acyclic (g : TypeGraph) : TypeRef → Prop :=
  g.Throughout fun u => ¬ Relation.TransGen g.IsComponent u u

theorem Throughout.here {P : TypeRef → Prop} (h : g.Throughout P t) : P t := h t .refl

theorem Throughout.component {P : TypeRef → Prop} (h : g.Throughout P t)
    (hu : g.IsComponent u t) : g.Throughout P u := fun w hw => h w (hw.tail hu)

/-- What holds of some types that lead to no others holds throughout each. -/
theorem Throughout.of_closed {P : TypeRef → Prop} {S : List TypeRef} (ht : t ∈ S)
    (h : ∀ u ∈ S, P u ∧ ∀ w ∈ (g.effectiveDef u).components, w ∈ S) : g.Throughout P t := by
  intro u hu
  have hmem : u ∈ S := by
    induction hu using Relation.ReflTransGen.head_induction_on with
    | refl => exact ht
    | head hcomponent _ ih => exact (h _ ih).2 _ hcomponent
  exact (h u hmem).1

/-! ## Types that have a schema -/

theorem isSome_mapM_iff {α β : Type} {f : α → Option β} : ∀ {l : List α},
    (l.mapM f).isSome = true ↔ ∀ a ∈ l, (f a).isSome = true
  | [] => by simp
  | a :: l => by
      rw [List.mapM_cons, List.forall_mem_cons, ← isSome_mapM_iff]
      cases f a with
      | none => simp
      | some b => cases l.mapM f <;> simp

theorem mem_of_mapM_eq_some {α β : Type} {f : α → Option β} {b : β} : ∀ {l : List α}
    {l' : List β}, l.mapM f = some l' → (b ∈ l' ↔ ∃ a ∈ l, f a = some b)
  | [], l', h => by
      obtain rfl : [] = l' := by simpa using h
      simp
  | a :: l, l', h => by
      rw [List.mapM_cons] at h
      obtain ⟨b', hb', h⟩ := Option.bind_eq_some_iff.mp h
      obtain ⟨bs, hbs, h⟩ := Option.bind_eq_some_iff.mp h
      obtain rfl : b' :: bs = l' := by simpa using h
      rw [List.mem_cons, mem_of_mapM_eq_some hbs, List.exists_mem_cons_iff, hb', Option.some.injEq]
      exact or_congr_left eq_comm

theorem map_of_mapM_eq_some {α β γ : Type} {f : α → Option β} {p : β → γ} {q : α → γ}
    (h : ∀ a b, f a = some b → p b = q a) : ∀ {l : List α} {l' : List β},
    l.mapM f = some l' → l'.map p = l.map q
  | [], l', hl => by
      obtain rfl : [] = l' := by simpa using hl
      rfl
  | a :: l, l', hl => by
      rw [List.mapM_cons] at hl
      obtain ⟨b, hb, hl⟩ := Option.bind_eq_some_iff.mp hl
      obtain ⟨bs, hbs, hl⟩ := Option.bind_eq_some_iff.mp hl
      obtain rfl : b :: bs = l' := by simpa using hl
      rw [List.map_cons, List.map_cons, h a b hb, map_of_mapM_eq_some h hbs]

theorem isSome_schemaWithin?_iff : (g.schemaWithin? (depth + 1) t).isSome = true ↔
    ∀ u, g.IsComponent u t → (g.schemaWithin? depth u).isSome = true := by
  rw [schemaWithin?]
  unfold IsComponent
  cases hdef : g.effectiveDef t with
  | primitive p => simp [TypeDef.components]
  | readonly => simp [TypeDef.components]
  | array element => simp [TypeDef.components]
  | record r =>
      have hfields : (r.fields.mapM fun f => (g.schemaWithin? depth f.type).map (f.name, ·)).isSome
          = true ↔ ∀ f ∈ r.fields, (g.schemaWithin? depth f.type).isSome = true := by
        rw [isSome_mapM_iff]
        simp
      simp only [TypeDef.components, List.mem_append, List.mem_map, Option.mem_toList, or_imp,
        forall_and, forall_exists_index, and_imp, forall_apply_eq_imp_iff₂, ← hfields]
      cases r.fields.mapM fun f => (g.schemaWithin? depth f.type).map (f.name, ·) with
      | none => simp
      | some properties =>
          cases r.rest with
          | none => simp
          | some rest => cases hrest : g.schemaWithin? depth rest <;> simp [hrest]
  | table constraint keys => simp [TypeDef.components]
  | map constraint readonly => simp [TypeDef.components]
  | union members => simp [TypeDef.components, isSome_mapM_iff]
  | intersection constituents effective => simp [TypeDef.components]
  | tuple tuple => simp [TypeDef.components]

/-- What has a component is a definition of the graph. -/
theorem index_of_isComponent (h : g.IsComponent u t) :
    ∃ i < g.defs.size, g.effective t = .defined i := by
  unfold IsComponent effectiveDef at h
  refine exists_index (fun p hdef => ?_) fun hdef => ?_
  · rw [hdef] at h; cases h
  · rw [hdef] at h; cases h

/-- Going from a type to its components, no definition is met twice, so the schema is no
deeper than there are definitions that were not met. -/
theorem isSome_schemaWithin?_of_acyclic : ∀ (depth : Nat) {t : TypeRef} (met : List Nat),
    (∀ i ∈ met, ∃ a, g.effective a = .defined i ∧ Relation.TransGen g.IsComponent t a) →
    g.Acyclic t → g.unwritten met < depth → (g.schemaWithin? depth t).isSome = true
  | 0, _, _, _, _, hdepth => absurd hdepth (Nat.not_lt_zero _)
  | depth + 1, t, met, hmet, ht, hdepth => by
      refine isSome_schemaWithin?_iff.mpr fun u hu => ?_
      obtain ⟨i, hi, heffective⟩ := index_of_isComponent hu
      -- a definition that was met has the same components, so the way from there would be closed
      have hnew : i ∉ met := by
        intro hmem
        obtain ⟨a, ha, hway⟩ := hmet i hmem
        have hsame : ∀ w, g.IsComponent w a → g.IsComponent w t := by
          intro w hw
          rwa [IsComponent, effectiveDef, ha, ← heffective] at hw
        obtain ⟨b, htb, hba⟩ := Relation.TransGen.tail'_iff.mp hway
        exact ht.here (Relation.TransGen.tail' htb (hsame b hba))
      refine isSome_schemaWithin?_of_acyclic depth (i :: met) (fun j hj => ?_)
        (ht.component hu) ?_
      · rcases List.mem_cons.mp hj with rfl | hj
        · exact ⟨t, heffective, .single hu⟩
        · obtain ⟨a, ha, hway⟩ := hmet j hj
          exact ⟨a, ha, .head hu hway⟩
      · have hless := unwritten_cons_lt hi hnew
        omega

theorem exists_schema (h : g.Acyclic t) : ∃ s, g.schema? t = some s := by
  have hle : g.unwritten [] ≤ g.defs.size :=
    Nat.le_trans (List.length_filter_le _ _) (by simp)
  have hless : g.unwritten [] < g.size := by
    rw [size, builtinCount]
    omega
  exact Option.isSome_iff_exists.mp (isSome_schemaWithin?_of_acyclic _ [] (by simp) h hless)

theorem acc_isComponent : ∀ (depth : Nat) {t : TypeRef},
    (g.schemaWithin? depth t).isSome = true → Acc g.IsComponent t
  | 0, _, h => nomatch h
  | depth + 1, t, h =>
      .intro t fun u hu => acc_isComponent depth (isSome_schemaWithin?_iff.mp h u hu)

/-- Going from a type that has a schema to its components ends. -/
theorem acc_of_reaches (h : (g.schemaWithin? depth t).isSome = true)
    (hu : Relation.ReflTransGen g.IsComponent u t) : Acc g.IsComponent u := by
  induction hu using Relation.ReflTransGen.head_induction_on with
  | refl => exact acc_isComponent depth h
  | head hcomponent _ ih => exact ih.inv hcomponent

theorem acyclic_of_schema (h : (g.schemaWithin? depth t).isSome = true) : g.Acyclic t :=
  fun _ hu => not_of_acc (acc_of_reaches h hu).transGen

theorem IsPart.isComponent (h : g.IsPart u t) : g.IsComponent u t := by
  unfold IsPart at h
  unfold IsComponent
  split at h
  · next members hdef => simpa [hdef, TypeDef.components] using h
  · next element hdef => simpa [hdef, TypeDef.components] using h
  · next constraint readonly hdef => simpa [hdef, TypeDef.components] using h
  · exact h.elim

/-- What has a schema can be read: its unions end. -/
theorem readable_of_schema (h : (g.schemaWithin? depth t).isSome = true) : g.Readable t := by
  intro u hu
  have hreaches : Relation.ReflTransGen g.IsComponent u t :=
    hu.lift id fun _ _ => IsPart.isComponent
  exact Subrelation.accessible (fun h => h.isPart.isComponent) (acc_of_reaches h hreaches)

/-! ## What schemas of types ask of nodes -/

/-- The node is valid for the schema of the type, whose parts are nested at most this deep. -/
def Valid (g : TypeGraph) (depth : Nat) (t : TypeRef) (n : Node) : Prop :=
  ∃ s, g.schemaWithin? depth t = some s ∧ s.Validates n

/-- When a node is valid for the schema of a type, told by the effective type from what the
parts of the node are valid for. -/
def ValidFrom (g : TypeGraph) (Part : TypeRef → Node → Prop) (t : TypeRef) (n : Node) : Prop :=
  match g.effectiveDef t with
  | .primitive p => p.schema.Validates n
  | .array element => "array" ∈ n.types ∧ ∀ item ∈ n.items, Part element item
  | .record r => "object" ∈ n.types ∧
      (∀ e ∈ n.entries, ∃ u, r.typeOf? e.key = some u ∧ Part u e.node) ∧
      ∀ f ∈ r.fields, f.required = true → ∃ e ∈ n.entries, e.key = f.name
  | .table constraint _ => "array" ∈ n.types ∧ ∀ item ∈ n.items, Part constraint item
  | .map constraint _ => "object" ∈ n.types ∧ ∀ e ∈ n.entries, Part constraint e.node
  | .union members => ∃ m ∈ members, Part m n
  | .readonly | .intersection _ _ | .tuple _ => True

/-- If the type is a record, it has no two fields of the same name. -/
def hasDistinctFields (g : TypeGraph) (t : TypeRef) : Bool :=
  match g.effectiveDef t with
  | .record r => decide (r.fields.map Field.name).Nodup
  | _ => true

theorem nodup_of_hasDistinctFields {r : RecordType} (hdef : g.effectiveDef t = .record r)
    (h : g.hasDistinctFields t = true) : (r.fields.map Field.name).Nodup := by
  simpa [hasDistinctFields, hdef] using h

theorem typeOf?_of_mem {r : RecordType} {f : Field} (h : (r.fields.map Field.name).Nodup)
    (hf : f ∈ r.fields) : r.typeOf? f.name = some f.type := by
  have hfield : r.field? f.name = some f := by
    unfold RecordType.field?
    cases hfound : r.fields.find? fun f' => f'.name = f.name with
    | none => simpa using List.find?_eq_none.mp hfound f hf
    | some f' =>
        have hname : f'.name = f.name := by simpa using List.find?_some hfound
        rw [List.inj_on_of_nodup_map h (List.mem_of_find?_eq_some hfound) hf hname]
  simp [RecordType.typeOf?, hfield]

theorem typeOf?_of_not_mem {r : RecordType} {name : String}
    (h : name ∉ r.fields.map Field.name) : r.typeOf? name = r.rest := by
  have hfield : r.field? name = none := by
    refine List.find?_eq_none.mpr fun f hf => ?_
    simpa using fun hname : f.name = name => h (hname ▸ List.mem_map_of_mem hf)
  simp [RecordType.typeOf?, hfield]

/-- The schema of a record has the fields' schemas as properties, and that of the other
fields for the additional ones. -/
theorem schema_of_record {r : RecordType} (hdef : g.effectiveDef t = .record r)
    (h : g.schemaWithin? (depth + 1) t = some s) : ∃ properties additional,
      properties.map Prod.fst = r.fields.map Field.name ∧
      (∀ name q, (name, q) ∈ properties ↔
        ∃ f ∈ r.fields, f.name = name ∧ g.schemaWithin? depth f.type = some q) ∧
      (∀ q, additional = some q ↔
        ∃ rest, r.rest = some rest ∧ g.schemaWithin? depth rest = some q) ∧
      s = .object (Entries.ofList properties) ((r.fields.filter (·.required)).map (·.name))
        additional := by
  simp only [schemaWithin?, hdef] at h
  obtain ⟨properties, hproperties, h⟩ := Option.bind_eq_some_iff.mp h
  have hnames : properties.map Prod.fst = r.fields.map Field.name := by
    refine map_of_mapM_eq_some (fun f p hp => ?_) hproperties
    obtain ⟨q, -, rfl⟩ := Option.map_eq_some_iff.mp hp
    rfl
  have hmem : ∀ name q, (name, q) ∈ properties ↔
      ∃ f ∈ r.fields, f.name = name ∧ g.schemaWithin? depth f.type = some q := by
    intro name q
    rw [mem_of_mapM_eq_some hproperties]
    simp [and_comm, and_left_comm]
  cases hrest : r.rest with
  | none =>
      obtain rfl : _ = s := by simpa [hrest] using h
      exact ⟨properties, none, hnames, hmem, by simp, rfl⟩
  | some rest =>
      simp only [hrest] at h
      obtain ⟨additional, hadditional, h⟩ := Option.bind_eq_some_iff.mp h
      obtain rfl := Option.some.inj h
      exact ⟨properties, some additional, hnames, hmem, by simp [hadditional], rfl⟩

theorem validates_record_iff {n : Node} {r : RecordType} (hdef : g.effectiveDef t = .record r)
    (hdistinct : (r.fields.map Field.name).Nodup) (h : g.schemaWithin? (depth + 1) t = some s) :
    s.Validates n ↔ "object" ∈ n.types ∧
      (∀ e ∈ n.entries, ∃ u, r.typeOf? e.key = some u ∧ g.Valid depth u e.node) ∧
      ∀ f ∈ r.fields, f.required = true → ∃ e ∈ n.entries, e.key = f.name := by
  obtain ⟨properties, additional, hnames, hmem, hadditional, rfl⟩ := schema_of_record hdef h
  have hlisted : Entries.ofList properties = properties :=
    Entries.ofList_of_nodup (by rwa [Entries.keys, hnames])
  rw [hlisted, Schema.validates_object_iff, hnames]
  refine and_congr_right fun _ => ?_
  rw [← and_assoc]
  refine and_congr ?_ ?_
  · constructor
    · rintro ⟨hproperties, hothers⟩ e he
      by_cases hkey : e.key ∈ r.fields.map Field.name
      · obtain ⟨⟨name, q⟩, hq, hname⟩ := List.mem_map.mp (hnames ▸ hkey)
        obtain rfl : name = e.key := hname
        obtain ⟨f, hf, hname, hschema⟩ := (hmem e.key q).mp hq
        exact ⟨f.type, hname ▸ typeOf?_of_mem hdistinct hf, q, hschema, hproperties e he q hq⟩
      · obtain ⟨q, hq, hvalid⟩ := hothers e he hkey
        obtain ⟨rest, hrest, hschema⟩ := (hadditional q).mp hq
        exact ⟨rest, (typeOf?_of_not_mem hkey).trans hrest, q, hschema, hvalid⟩
    · intro hall
      refine ⟨fun e he q hq => ?_, fun e he hkey => ?_⟩
      · obtain ⟨u, hu, q', hq', hvalid⟩ := hall e he
        obtain ⟨f, hf, hname, hschema⟩ := (hmem e.key q).mp hq
        have hfield := typeOf?_of_mem hdistinct hf
        rw [hname, hu] at hfield
        obtain rfl := Option.some.inj hfield
        obtain rfl := Option.some.inj (hq'.symm.trans hschema)
        exact hvalid
      · obtain ⟨u, hu, q, hq, hvalid⟩ := hall e he
        rw [typeOf?_of_not_mem hkey] at hu
        exact ⟨q, (hadditional q).mpr ⟨u, hu, hq⟩, hvalid⟩
  · simp only [List.forall_mem_map, List.mem_filter, and_imp]

theorem valid_iff {n : Node} (h : (g.schemaWithin? (depth + 1) t).isSome = true)
    (hdistinct : g.hasDistinctFields t = true) :
    g.Valid (depth + 1) t n ↔ g.ValidFrom (g.Valid depth) t n := by
  obtain ⟨s, hs⟩ := Option.isSome_iff_exists.mp h
  have hrecord := hs
  have hvalid : g.Valid (depth + 1) t n ↔ s.Validates n := by
    unfold Valid
    rw [hs]
    simp
  rw [hvalid]
  rw [schemaWithin?] at hs
  unfold ValidFrom
  cases hdef : g.effectiveDef t with
  | primitive p =>
      obtain rfl : p.schema = s := by simpa [hdef] using hs
      rfl
  | array element =>
      simp only [hdef] at hs
      obtain ⟨items, hitems, rfl⟩ := Option.map_eq_some_iff.mp hs
      simp [Schema.validates_array_iff, Valid, hitems]
  | record r => exact validates_record_iff hdef (nodup_of_hasDistinctFields hdef hdistinct) hrecord
  | table constraint keys =>
      simp only [hdef] at hs
      obtain ⟨items, hitems, rfl⟩ := Option.map_eq_some_iff.mp hs
      simp [Schema.validates_array_iff, Valid, hitems]
  | map constraint readonly =>
      simp only [hdef] at hs
      obtain ⟨values, hvalues, rfl⟩ := Option.map_eq_some_iff.mp hs
      simp [Schema.validates_map_iff, Valid, hvalues]
  | union members =>
      simp only [hdef] at hs
      obtain ⟨schemas, hschemas, rfl⟩ := Option.map_eq_some_iff.mp hs
      simp only [Schema.validates_anyOf_iff, Valid, mem_of_mapM_eq_some hschemas]
      constructor
      · rintro ⟨q, ⟨m, hm, hq⟩, hn⟩
        exact ⟨m, hm, q, hq, hn⟩
      · rintro ⟨m, hm, q, hq, hn⟩
        exact ⟨q, ⟨m, hm, hq⟩, hn⟩
  | readonly =>
      obtain rfl : Schema.any = s := by simpa [hdef] using hs
      exact iff_of_true Schema.validates_any trivial
  | intersection constituents effective =>
      obtain rfl : Schema.any = s := by simpa [hdef] using hs
      exact iff_of_true Schema.validates_any trivial
  | tuple tuple =>
      obtain rfl : Schema.any = s := by simpa [hdef] using hs
      exact iff_of_true Schema.validates_any trivial

/-! ## Types whose values a schema describes -/

/-- All that is asked of a value of the type itself is something that a schema can ask. -/
def isPlain (g : TypeGraph) (t : TypeRef) : Bool :=
  match g.effectiveDef t with
  | .primitive p => p ≠ .decimal && p ≠ .xml
  | .record r => r.fields.all (g.isConfigurableField ·.type) && r.rest.all g.isConfigurableField
  | .table constraint keys => (g.record? constraint).isSome && keys.isEmpty
  | .readonly | .intersection _ _ | .tuple _ => false
  | .array _ | .map _ _ | .union _ => true

theorem isComponent_of {d : TypeDef} (hdef : g.effectiveDef t = d) (hu : u ∈ d.components) :
    g.IsComponent u t := by
  unfold IsComponent
  rwa [hdef]

/-- The type of an entry of a record is that of a field or of the other fields. -/
theorem mem_of_typeOf? {r : RecordType} {name : String} (h : r.typeOf? name = some u) :
    (∃ f ∈ r.fields, f.type = u) ∨ r.rest = some u := by
  unfold RecordType.typeOf? at h
  split at h
  · next f hf =>
    exact Or.inl ⟨f, List.mem_of_find?_eq_some hf, Option.some.inj h⟩
  · exact Or.inr h

theorem isComponent_of_typeOf? {r : RecordType} {name : String}
    (hdef : g.effectiveDef t = .record r) (h : r.typeOf? name = some u) :
    g.IsComponent u t := by
  refine isComponent_of hdef (List.mem_append.mpr ?_)
  rcases mem_of_typeOf? h with ⟨f, hf, rfl⟩ | hrest
  · exact Or.inl (List.mem_map_of_mem hf)
  · exact Or.inr (Option.mem_toList.mpr hrest)

end TypeGraph

namespace Conversion.Reading

open TypeGraph (isComponent_of isComponent_of_typeOf?)

variable {c : Reading}

/-! ## Primitives -/

theorem validates_of_written {p : Primitive} {n : Node} {v : Value} (h : Written c p n v) :
    p.schema.Validates n := by
  cases h with
  | int n => simp [Primitive.schema, Schema.validates_integer_iff, Node.types, Scalar.types]
  | byte b hb =>
      have hlt := b.toNat_lt
      simp only [Primitive.schema, Schema.validates_byte_iff, Node.types, Scalar.types,
        Node.AtLeast, Node.AtMost, hb]
      exact ⟨List.mem_cons_self .., by omega, by omega⟩
  | boolean b => simp [Primitive.schema, Schema.validates_boolean_iff, Node.types, Scalar.types]
  | float x => simp [Primitive.schema, Schema.validates_number_iff, Node.types, Scalar.types]
  | floatOfInteger n =>
      simp [Primitive.schema, Schema.validates_number_iff, Node.types, Scalar.types]
  | decimal hnumber _ =>
      obtain ⟨n, rfl⟩ | ⟨x, rfl⟩ := hnumber
      · simp [Primitive.schema, Schema.validates_number_iff, Node.types, Scalar.types]
      · simp [Primitive.schema, Schema.validates_number_iff, Node.types, Scalar.types]
  | decimalOfInteger n _ =>
      simp [Primitive.schema, Schema.validates_number_iff, Node.types, Scalar.types]
  | decimalOfFloat _ _ =>
      simp [Primitive.schema, Schema.validates_number_iff, Node.types, Scalar.types]
  | string s => simp [Primitive.schema, Schema.validates_string_iff, Node.types, Scalar.types]
  | xml _ => simp [Primitive.schema, Schema.validates_string_iff, Node.types, Scalar.types]

theorem written_of_validates {p : Primitive} {n : Node} (hplain : p ≠ .decimal ∧ p ≠ .xml)
    (h : p.schema.Validates n) : ∃ v, Written c p n v := by
  cases p with
  | int =>
      obtain ⟨id, span, value, rfl, htype⟩ :=
        Node.eq_scalar_of_types (Schema.validates_integer_iff.mp h) (by decide)
      cases value with
      | integer k => exact ⟨.int k, .int k⟩
      | _ => simp [Scalar.types] at htype
  | byte =>
      obtain ⟨hinteger, hlow, hhigh⟩ := Schema.validates_byte_iff.mp h
      obtain ⟨id, span, value, rfl, htype⟩ := Node.eq_scalar_of_types hinteger (by decide)
      cases value with
      | integer k =>
          simp only [Node.AtLeast, Node.AtMost] at hlow hhigh
          have hbyte : k.toInt = (UInt8.ofNat k.toInt.toNat).toNat := by
            rw [UInt8.toNat_ofNat']
            omega
          exact ⟨_, .byte _ hbyte⟩
      | _ => simp [Scalar.types] at htype
  | boolean =>
      obtain ⟨id, span, value, rfl, htype⟩ :=
        Node.eq_scalar_of_types (Schema.validates_boolean_iff.mp h) (by decide)
      cases value with
      | boolean b => exact ⟨.boolean b, .boolean b⟩
      | _ => simp [Scalar.types] at htype
  | float =>
      obtain ⟨id, span, value, rfl, htype⟩ :=
        Node.eq_scalar_of_types (Schema.validates_number_iff.mp h) (by decide)
      cases value with
      | integer k => exact ⟨.float k.toFloat, .floatOfInteger k⟩
      | float x => exact ⟨.float x, .float x⟩
      | _ => simp [Scalar.types] at htype
  | string =>
      obtain ⟨id, span, value, rfl, htype⟩ :=
        Node.eq_scalar_of_types (Schema.validates_string_iff.mp h) (by decide)
      cases value with
      | string text => exact ⟨.string text, .string text⟩
      | _ => simp [Scalar.types] at htype
  | decimal => exact absurd rfl hplain.1
  | xml => exact absurd rfl hplain.2

/-! ## Lists of parts -/

theorem exists_forall₂_iff {α β : Type} {R : α → β → Prop} : ∀ {l : List α},
    (∃ l', List.Forall₂ R l l') ↔ ∀ a ∈ l, ∃ b, R a b
  | [] => iff_of_true ⟨[], .nil⟩ (List.forall_mem_nil _)
  | a :: l => by
      rw [List.forall_mem_cons, ← exists_forall₂_iff]
      constructor
      · rintro ⟨_, h⟩
        cases h with
        | cons hab hrest => exact ⟨⟨_, hab⟩, _, hrest⟩
      · rintro ⟨⟨b, hab⟩, l', hrest⟩
        exact ⟨b :: l', .cons hab hrest⟩

theorem exists_first {α : Type} {P : α → Prop} : ∀ {l : List α}, (∃ a ∈ l, P a) →
    ∃ before a after, l = before ++ a :: after ∧ P a ∧ ∀ b ∈ before, ¬ P b
  | a :: l, h => by
      by_cases ha : P a
      · exact ⟨[], a, l, rfl, ha, List.forall_mem_nil _⟩
      · obtain ⟨b, hb, hPb⟩ := h
        have hmem : b ∈ l := (List.mem_cons.mp hb).resolve_left fun heq => ha (heq ▸ hPb)
        obtain ⟨before, b', after, rfl, hb', hbefore⟩ := exists_first ⟨b, hmem, hPb⟩
        exact ⟨a :: before, b', after, rfl, hb', List.forall_mem_cons.mpr ⟨ha, hbefore⟩⟩

/-- A row has a value under a name if the table has an entry of that name. -/
theorem isSome_get?_iff {R : Entry → String × Value → Prop} {entries : List Entry}
    {row : Record} (h : List.Forall₂ (fun e field => field.1 = e.key ∧ R e field) entries
      row.fields) (name : String) :
    (row.get? name).isSome = true ↔ ∃ e ∈ entries, e.key = name := by
  have hkeys : row.fields.map Prod.fst = entries.map EntryOf.key := by
    generalize row.fields = fields at h
    induction h with
    | nil => rfl
    | cons hfield _ ih => rw [List.map_cons, List.map_cons, hfield.1, ih]
  show (Entries.get? row.fields name).isSome = true ↔ _
  rw [Entries.isSome_get?_iff, hkeys, List.mem_map]

/-! ## What is read is valid -/

theorem valid_of_means : ∀ (depth : Nat) {t : TypeRef} {n : Node} {v : Value},
    (c.types.schemaWithin? depth t).isSome = true →
    c.types.Throughout (c.types.hasDistinctFields · = true) t → c.Means n t v →
    c.types.Valid depth t n
  | 0, _, _, _, h, _, _ => nomatch h
  | depth + 1, t, n, v, h, hdistinct, hmeans => by
      have ih : ∀ {u m w}, c.types.IsComponent u t → c.Means m u w → c.types.Valid depth u m :=
        fun hu hw => valid_of_means depth (TypeGraph.isSome_schemaWithin?_iff.mp h _ hu)
          (hdistinct.component hu) hw
      have hclause := (means_iff (TypeGraph.readable_of_schema h)).mp hmeans
      rw [TypeGraph.valid_iff h hdistinct.here]
      unfold Clause at hclause
      unfold TypeGraph.ValidFrom
      cases hdef : c.types.effectiveDef t with
      | primitive p =>
          simp only [hdef] at hclause ⊢
          exact validates_of_written hclause
      | array element =>
          simp only [hdef] at hclause ⊢
          obtain ⟨id, span, items, values, rfl, rfl, hvalues⟩ := hclause
          refine ⟨List.mem_singleton_self _, fun item hitem => ?_⟩
          obtain ⟨w, hw⟩ := exists_forall₂_iff.mp ⟨values, hvalues⟩ item hitem
          exact ih (isComponent_of hdef (List.mem_singleton_self _)) hw
      | record r =>
          simp only [hdef] at hclause ⊢
          obtain ⟨id, span, entries, row, rfl, rfl, hcompletes, hfields⟩ := hclause
          refine ⟨List.mem_singleton_self _, fun e he => ?_, fun f hf hrequired => ?_⟩
          · obtain ⟨field, -, u, hu, -, hw⟩ := exists_forall₂_iff.mp ⟨_, hfields⟩ e he
            exact ⟨u, hu, ih (isComponent_of_typeOf? hdef hu) hw⟩
          · exact (isSome_get?_iff hfields f.name).mp (hcompletes.required f hf hrequired)
      | table constraint keys =>
          simp only [hdef] at hclause ⊢
          obtain ⟨id, span, items, rows, rfl, rfl, -, hrows, -⟩ := hclause
          refine ⟨List.mem_singleton_self _, fun item hitem => ?_⟩
          obtain ⟨row, -, hrow⟩ := exists_forall₂_iff.mp ⟨rows, hrows⟩ item hitem
          exact ih (isComponent_of hdef (List.mem_singleton_self _)) hrow
      | map constraint readonly =>
          simp only [hdef] at hclause ⊢
          obtain ⟨id, span, entries, values, rfl, rfl, hvalues⟩ := hclause
          refine ⟨List.mem_singleton_self _, fun e he => ?_⟩
          obtain ⟨value, -, hw⟩ := exists_forall₂_iff.mp ⟨values, hvalues⟩ e he
          exact ih (isComponent_of hdef (List.mem_singleton_self _)) hw
      | union members =>
          simp only [hdef] at hclause ⊢
          obtain ⟨before, m, after, rfl, hm, -⟩ := hclause
          have hmem : m ∈ before ++ m :: after := by simp
          exact ⟨m, hmem, ih (isComponent_of hdef hmem) hm⟩
      | readonly => trivial
      | intersection constituents effective => trivial
      | tuple tuple => trivial

/-! ## What is valid is read -/

theorem means_of_valid : ∀ (depth : Nat) {t : TypeRef} {n : Node},
    (c.types.schemaWithin? depth t).isSome = true →
    c.types.Throughout (c.types.hasDistinctFields · = true) t →
    c.types.Throughout (c.types.isPlain · = true) t → c.types.Valid depth t n →
    ∃ v, c.Means n t v
  | 0, _, _, h, _, _, _ => nomatch h
  | depth + 1, t, n, h, hdistinct, hplain, hvalid => by
      have hparts := TypeGraph.isSome_schemaWithin?_iff.mp h
      have ih : ∀ {u m}, c.types.IsComponent u t → c.types.Valid depth u m → ∃ w, c.Means m u w :=
        fun hu hm => means_of_valid depth (hparts _ hu) (hdistinct.component hu)
          (hplain.component hu) hm
      have hhere := hplain.here
      rw [TypeGraph.valid_iff h hdistinct.here] at hvalid
      simp only [means_iff (TypeGraph.readable_of_schema h)]
      unfold Clause
      unfold TypeGraph.ValidFrom at hvalid
      unfold TypeGraph.isPlain at hhere
      cases hdef : c.types.effectiveDef t with
      | primitive p =>
          simp only [hdef] at hvalid hhere ⊢
          exact written_of_validates (by simpa using hhere) hvalid
      | array element =>
          simp only [hdef] at hvalid ⊢
          obtain ⟨htype, hitems⟩ := hvalid
          obtain ⟨id, span, items, rfl⟩ := Node.eq_array_of_types htype
          have helement : c.types.IsComponent element t :=
            isComponent_of hdef (List.mem_singleton_self _)
          obtain ⟨values, hvalues⟩ := exists_forall₂_iff.mpr fun item hitem =>
            ih helement (hitems item hitem)
          exact ⟨_, id, span, items, values, rfl, rfl, hvalues⟩
      | record r =>
          simp only [hdef] at hvalid hhere ⊢
          obtain ⟨htype, hentries, hrequired⟩ := hvalid
          obtain ⟨id, span, entries, rfl⟩ := Node.eq_table_of_types htype
          rw [Bool.and_eq_true, List.all_eq_true, Option.all_eq_true] at hhere
          have hfields : ∀ e ∈ entries, ∃ field : String × Value, field.1 = e.key ∧
              ∃ u, r.typeOf? e.key = some u ∧ c.types.isConfigurableField u = true ∧
                c.Means e.node u field.2 := by
            intro e he
            obtain ⟨u, hu, hm⟩ := hentries e he
            obtain ⟨w, hw⟩ := ih (isComponent_of_typeOf? hdef hu) hm
            refine ⟨(e.key, w), rfl, u, hu, ?_, hw⟩
            rcases TypeGraph.mem_of_typeOf? hu with ⟨f, hf, rfl⟩ | hrest
            · exact hhere.1 f hf
            · exact hhere.2 u hrest
          obtain ⟨fields, hfields⟩ := exists_forall₂_iff.mpr hfields
          let row : Record := ⟨c.types.render (c.types.effective t), fields⟩
          have hcompletes : Completes r (c.types.render (c.types.effective t)) row :=
            ⟨rfl, fun f hf hreq => (isSome_get?_iff hfields f.name).mpr (hrequired f hf hreq)⟩
          exact ⟨_, id, span, entries, row, rfl, rfl, hcompletes, hfields⟩
      | table constraint keys =>
          simp only [hdef] at hvalid hhere ⊢
          obtain ⟨htype, hitems⟩ := hvalid
          rw [Bool.and_eq_true, List.isEmpty_iff] at hhere
          obtain ⟨hrecord, rfl⟩ := hhere
          obtain ⟨id, span, items, rfl⟩ := Node.eq_array_of_types htype
          have hconstraint : c.types.IsComponent constraint t :=
            isComponent_of hdef (List.mem_singleton_self _)
          have hreadable := TypeGraph.readable_of_schema (hparts _ hconstraint)
          obtain ⟨r, hr⟩ := Option.isSome_iff_exists.mp hrecord
          have hrows : ∀ item ∈ items, ∃ row : Record,
              (∀ key ∈ ([] : List String), (item.entry? key).isSome = true) ∧
                c.Means item constraint (.record row) := by
            intro item hitem
            -- what is read against a record type is a record
            obtain ⟨w, hw⟩ := ih hconstraint (hitems item hitem)
            have hclause := (means_iff hreadable).mp hw
            rw [Clause, record_of_record? hr] at hclause
            obtain ⟨-, -, -, row, -, rfl, -⟩ := hclause
            exact ⟨row, List.forall_mem_nil _, hw⟩
          obtain ⟨rows, hrows⟩ := exists_forall₂_iff.mpr hrows
          exact ⟨_, id, span, items, rows, rfl, rfl, hrecord, hrows, fun hne => absurd rfl hne⟩
      | map constraint readonly =>
          simp only [hdef] at hvalid ⊢
          obtain ⟨htype, hentries⟩ := hvalid
          obtain ⟨id, span, entries, rfl⟩ := Node.eq_table_of_types htype
          have hconstraint : c.types.IsComponent constraint t :=
            isComponent_of hdef (List.mem_singleton_self _)
          have hvalues : ∀ e ∈ entries, ∃ value : String × Value,
              value.1 = e.key ∧ c.Means e.node constraint value.2 := by
            intro e he
            obtain ⟨w, hw⟩ := ih hconstraint (hentries e he)
            exact ⟨(e.key, w), rfl, hw⟩
          obtain ⟨values, hvalues⟩ := exists_forall₂_iff.mpr hvalues
          exact ⟨_, id, span, entries, values, rfl, rfl, hvalues⟩
      | union members =>
          simp only [hdef] at hvalid ⊢
          obtain ⟨m, hm, hmvalid⟩ := hvalid
          have htakes : ∃ m ∈ members, ∃ w, c.Means n m w :=
            ⟨m, hm, ih (isComponent_of hdef hm) hmvalid⟩
          obtain ⟨before, first, after, hsplit, ⟨w, hw⟩, hbefore⟩ := exists_first htakes
          exact ⟨w, before, first, after, hsplit, hw, fun u hu w' hw' => hbefore u hu ⟨w', hw'⟩⟩
      | readonly => simp [hdef] at hhere
      | intersection constituents effective => simp [hdef] at hhere
      | tuple tuple => simp [hdef] at hhere

/-- **Schemas agree with reading.** A type that is made of no type twice over has a schema. If
its records have no two fields of the same name, what is read as a value of the type is valid
for the schema as it is written. And if the type and all that it is made of is plain, what is
valid is read as a value. -/
theorem schema_agrees {t : TypeRef} (hacyclic : c.types.Acyclic t)
    (hdistinct : c.types.Throughout (c.types.hasDistinctFields · = true) t) :
    ∃ s, c.types.schema? t = some s ∧ ∀ n entry subject,
      ((∃ v, c.read n entry t subject = .ok v) → (Data.mapping s.keywords).Validates n)
        ∧ (c.types.Throughout (c.types.isPlain · = true) t → (Data.mapping s.keywords).Validates n →
          ∃ v, c.read n entry t subject = .ok v) := by
  obtain ⟨s, hs⟩ := TypeGraph.exists_schema hacyclic
  have hsome : (c.types.schemaWithin? c.types.size t).isSome = true :=
    Option.isSome_iff_exists.mpr ⟨s, hs⟩
  have hreadable := TypeGraph.readable_of_schema hsome
  refine ⟨s, hs, fun n entry subject => ?_⟩
  simp only [read_iff n entry subject hreadable]
  constructor
  · rintro ⟨v, hv⟩
    obtain ⟨s', hs', hvalid⟩ := valid_of_means c.types.size hsome hdistinct hv
    obtain rfl := Option.some.inj (hs.symm.trans hs')
    exact hvalid
  · exact fun hplain hvalid => means_of_valid c.types.size hsome hdistinct hplain ⟨s, hs, hvalid⟩

/-- An integer, or a table without keys of records with bytes in an array: a row with a byte
that is none is refused by both, and what is within the range is taken by both. -/
theorem schema_agrees_on_table :
    let g : TypeGraph := ⟨#[.union [.primitive .int, .defined 1], .table (.defined 2) [],
      .record ⟨"Host", ⟨"o", "m", "1"⟩, [⟨"name", .primitive .string, true⟩,
        ⟨"ports", .defined 3, false⟩], none⟩, .array (.primitive .byte)]⟩
    let c : Reading := ⟨g, ⟨⟨none, ""⟩, .table 9 none [], 10⟩, "x"⟩
    let row : Int64 → Node := fun port => .array 5 none [.table 4 none
      [⟨"name", none, .scalar 0 none (.string "a")⟩,
        ⟨"ports", none, .array 3 none [.scalar 1 none (.integer port)]⟩]]
    let t : TypeRef := .defined 0
    c.types.Acyclic t ∧ c.types.Throughout (c.types.hasDistinctFields · = true) t
      ∧ c.types.Throughout (c.types.isPlain · = true) t
      ∧ ∃ s, c.types.schema? t = some s ∧ (Data.mapping s.keywords).Validates (row 255)
        ∧ ¬ (Data.mapping s.keywords).Validates (row 256) := by
  intro g c row t
  have hacyclic : c.types.Acyclic t :=
    TypeGraph.acyclic_of_schema (show (c.types.schema? t).isSome = true by decide +kernel)
  let S : List TypeRef := [t, .defined 1, .defined 2, .defined 3, .primitive .int,
    .primitive .string, .primitive .byte]
  have ht : t ∈ S := List.mem_cons_self ..
  have hdistinct : c.types.Throughout (c.types.hasDistinctFields · = true) t :=
    .of_closed ht (by decide +kernel)
  have hplain : c.types.Throughout (c.types.isPlain · = true) t :=
    .of_closed ht (by decide +kernel)
  obtain ⟨s, hs, hagree⟩ := schema_agrees hacyclic hdistinct
  have htaken : ∃ v, c.read (row 255) none t (.variable "x") = .ok v := ⟨_, rfl⟩
  have hrefused : ∀ v, c.read (row 256) none t (.variable "x") ≠ .ok v := nofun
  refine ⟨hacyclic, hdistinct, hplain, s, hs, (hagree (row 255) none _).1 htaken, fun hvalid => ?_⟩
  obtain ⟨v, hv⟩ := (hagree (row 256) none _).2 hplain hvalid
  exact hrefused v hv

end Conversion.Reading

end Configurable
