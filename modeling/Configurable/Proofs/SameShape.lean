import Configurable.Schema
import Configurable.Source.CommandLine
import Configurable.Proofs.Alternatives
import Mathlib.Data.List.Forall2
import Mathlib.Data.Option.Basic

/-!
# Types of the same shape

Wrapping a type as `T & readonly` changes nothing about its effective type, and wrapping parts
of it changes only what the parts are called. A relation that `KeepsShapes` is of this kind:
the effective types of what it relates differ in nothing but their parts, and these are related
again. Types may contain themselves, so such a relation is given as a whole; it is a
bisimulation and not something to be built from smaller types.

Related types have the same primitives, can be configured alike, have the same schemas, and
take the same texts. That they also take the same nodes is a matter of its own.
-/

namespace Configurable

/-! ## The relation -/

/-- The fields differ at most in their types, and these are related. -/
def SameField (S : TypeRef → TypeRef → Prop) (f f' : Field) : Prop :=
  f.name = f'.name ∧ f.required = f'.required ∧ S f.type f'.type

/-- The definitions differ at most in the types that they mention, and these are related. -/
inductive SameShape (S : TypeRef → TypeRef → Prop) : TypeDef → TypeDef → Prop where
  | primitive (p : Primitive) : SameShape S (.primitive p) (.primitive p)
  | readonly : SameShape S .readonly .readonly
  | array {element element' : TypeRef} : S element element' →
      SameShape S (.array element) (.array element')
  | record {r r' : RecordType} (name : r.name = r'.name) (module : r.module = r'.module)
      (fields : List.Forall₂ (SameField S) r.fields r'.fields)
      (rest : Option.Rel S r.rest r'.rest) : SameShape S (.record r) (.record r')
  | table {constraint constraint' : TypeRef} (keys : List String) : S constraint constraint' →
      SameShape S (.table constraint keys) (.table constraint' keys)
  | map {constraint constraint' : TypeRef} (readonly readonly' : Bool) :
      S constraint constraint' →
      SameShape S (.map constraint readonly) (.map constraint' readonly')
  | union {members members' : List TypeRef} : List.Forall₂ S members members' →
      SameShape S (.union members) (.union members')
  | intersection (constituents constituents' : List TypeRef) (effective effective' : TypeRef) :
      SameShape S (.intersection constituents effective) (.intersection constituents' effective')
  | tuple {t t' : TupleType} (members : List.Forall₂ S t.members t'.members)
      (rest : Option.Rel S t.rest t'.rest) : SameShape S (.tuple t) (.tuple t')

namespace SameShape

variable {S : TypeRef → TypeRef → Prop}

theorem rel_flip {t t' : Option TypeRef} (h : Option.Rel S t t') :
    Option.Rel (Function.swap S) t' t := by
  cases h with
  | some h => exact .some h
  | none => exact .none

theorem flip {d d' : TypeDef} (h : SameShape S d d') : SameShape (Function.swap S) d' d := by
  cases h with
  | primitive p => exact .primitive p
  | readonly => exact .readonly
  | array helement => exact .array helement
  | record name module fields rest =>
      have hfields := fields.flip.imp fun f f' (hf : SameField S f' f) =>
        show SameField (Function.swap S) f f' from ⟨hf.1.symm, hf.2.1.symm, hf.2.2⟩
      exact .record name.symm module.symm hfields (rel_flip rest)
  | table keys hconstraint => exact .table keys hconstraint
  | map readonly readonly' hconstraint => exact .map readonly' readonly hconstraint
  | union hmembers => exact .union hmembers.flip
  | intersection constituents constituents' effective effective' =>
      exact .intersection constituents' constituents effective' effective
  | tuple members rest => exact .tuple members.flip (rel_flip rest)

end SameShape

/-- Records of the same shape admit the same names. -/
theorem RecordType.typeOf?_rel {S : TypeRef → TypeRef → Prop} {r r' : RecordType}
    (hfields : List.Forall₂ (SameField S) r.fields r'.fields) (hrest : Option.Rel S r.rest r'.rest)
    (key : String) : Option.Rel S (r.typeOf? key) (r'.typeOf? key) := by
  unfold typeOf? field?
  generalize r.fields = fs, r'.fields = fs' at hfields
  induction hfields with
  | nil => exact hrest
  | @cons f f' _ _ hfield _ ih =>
      obtain ⟨hname, -, htype⟩ := hfield
      rw [List.find?_cons, List.find?_cons, hname]
      by_cases hkey : f'.name = key
      · simpa [hkey] using htype
      · simpa [hkey] using ih

theorem RecordType.exists_typeOf? {S : TypeRef → TypeRef → Prop} {r r' : RecordType}
    (hfields : List.Forall₂ (SameField S) r.fields r'.fields) (hrest : Option.Rel S r.rest r'.rest)
    {key : String} {u : TypeRef} (hu : r.typeOf? key = some u) :
    ∃ u', r'.typeOf? key = some u' ∧ S u u' := by
  have hrel := r.typeOf?_rel hfields hrest key
  rw [hu] at hrel
  generalize r'.typeOf? key = found at hrel
  cases hrel with
  | some hrel => exact ⟨_, rfl, hrel⟩

namespace TypeGraph

/-- Related types have effective types of the same shape. -/
def KeepsShapes (g : TypeGraph) (S : TypeRef → TypeRef → Prop) : Prop :=
  ∀ a b, S a b → SameShape S (g.effectiveDef a) (g.effectiveDef b)

variable {g : TypeGraph} {S : TypeRef → TypeRef → Prop} {a b : TypeRef}

theorem KeepsShapes.swap (h : g.KeepsShapes S) : g.KeepsShapes (Function.swap S) :=
  fun a b hba => (h b a hba).flip

/-! ## What can be configured -/

theorem KeepsShapes.primitive?_eq (h : g.KeepsShapes S) (hab : S a b) :
    g.primitive? a = g.primitive? b := by
  have hshape := h a b hab
  unfold primitive?
  generalize g.effectiveDef a = d, g.effectiveDef b = d' at hshape
  cases hshape <;> rfl

theorem KeepsShapes.isPrimitive_eq (h : g.KeepsShapes S) (hab : S a b) :
    g.isPrimitive a = g.isPrimitive b := by
  rw [isPrimitive, isPrimitive, h.primitive?_eq hab]

theorem KeepsShapes.isSome_record?_eq (h : g.KeepsShapes S) (hab : S a b) :
    (g.record? a).isSome = (g.record? b).isSome := by
  have hshape := h a b hab
  unfold record?
  generalize g.effectiveDef a = d, g.effectiveDef b = d' at hshape
  cases hshape <;> rfl

theorem KeepsShapes.all_isPrimitive_eq (h : g.KeepsShapes S) {ts us : List TypeRef}
    (hmembers : List.Forall₂ S ts us) : ts.all g.isPrimitive = us.all g.isPrimitive := by
  induction hmembers with
  | nil => rfl
  | cons hmember _ ih => rw [List.all_cons, List.all_cons, h.isPrimitive_eq hmember, ih]

theorem KeepsShapes.isPrimitiveUnion_eq (h : g.KeepsShapes S) (hab : S a b) :
    g.isPrimitiveUnion a = g.isPrimitiveUnion b := by
  have hshape := h a b hab
  unfold isPrimitiveUnion
  generalize g.effectiveDef a = d, g.effectiveDef b = d' at hshape
  cases hshape with
  | union hmembers =>
      have hempty : ∀ {ts us : List TypeRef}, List.Forall₂ S ts us → ts.isEmpty = us.isEmpty :=
        fun h => by cases h <;> rfl
      simp only [hempty hmembers, h.all_isPrimitive_eq hmembers]
  | _ => rfl

theorem KeepsShapes.isConfigurableWith_eq (h : g.KeepsShapes S) (hab : S a b) (maps : Bool) :
    g.isConfigurableWith maps a = g.isConfigurableWith maps b := by
  have hshape := h a b hab
  unfold isConfigurableWith
  rw [h.isPrimitiveUnion_eq hab]
  generalize g.effectiveDef a = d, g.effectiveDef b = d' at hshape
  cases hshape with
  | array helement =>
      simp only [h.isPrimitive_eq helement, h.isPrimitiveUnion_eq helement,
        h.isSome_record?_eq helement]
  | map _ _ hconstraint => simp only [h.isPrimitive_eq hconstraint]
  | _ => rfl

theorem KeepsShapes.admitted (h : g.KeepsShapes S) (hab : S a b) (ha : g.Admitted a) :
    g.Admitted b :=
  ha.imp fun maps hconf => (h.isConfigurableWith_eq hab maps).symm.trans hconf

theorem KeepsShapes.ofType?_eq (h : g.KeepsShapes S) (hab : S a b) :
    Kind.ofType? g a = Kind.ofType? g b := by
  have hshape := h a b hab
  unfold Kind.ofType?
  generalize g.effectiveDef a = d, g.effectiveDef b = d' at hshape
  cases hshape <;> rfl

/-! ## Schemas -/

theorem mapM_eq_of_forall₂ {α β : Type} {R : α → α → Prop} {f : α → Option β}
    (hf : ∀ a a', R a a' → f a = f a') {l l' : List α} (h : List.Forall₂ R l l') :
    l.mapM f = l'.mapM f := by
  induction h with
  | nil => rfl
  | cons ha _ ih => rw [List.mapM_cons, List.mapM_cons, hf _ _ ha, ih]

theorem required_eq_of_forall₂ {fs fs' : List Field} (h : List.Forall₂ (SameField S) fs fs') :
    (fs.filter (·.required)).map (·.name) = (fs'.filter (·.required)).map (·.name) := by
  induction h with
  | nil => rfl
  | @cons f f' _ _ hfield _ ih =>
      obtain ⟨hname, hrequired, -⟩ := hfield
      rw [List.filter_cons, List.filter_cons, hrequired]
      cases f'.required with
      | true => rw [if_pos rfl, if_pos rfl, List.map_cons, List.map_cons, hname, ih]
      | false => exact ih

theorem KeepsShapes.schemaWithin?_eq (h : g.KeepsShapes S) : ∀ (depth : Nat) {a b : TypeRef},
    S a b → g.schemaWithin? depth a = g.schemaWithin? depth b
  | 0, _, _, _ => rfl
  | depth + 1, a, b, hab => by
      have ih : ∀ u w, S u w → g.schemaWithin? depth u = g.schemaWithin? depth w :=
        fun u w huw => h.schemaWithin?_eq depth huw
      have hshape := h a b hab
      unfold schemaWithin?
      generalize g.effectiveDef a = d, g.effectiveDef b = d' at hshape
      cases hshape with
      | array helement => simp only [ih _ _ helement]
      | table keys hconstraint => simp only [ih _ _ hconstraint]
      | map _ _ hconstraint => simp only [ih _ _ hconstraint]
      | union hmembers => exact congrArg (Option.map Schema.anyOf) (mapM_eq_of_forall₂ ih hmembers)
      | @record r r' _ _ hfields hrest =>
          have hproperties := mapM_eq_of_forall₂
            (f := fun f : Field => (g.schemaWithin? depth f.type).map (f.name, ·))
            (fun f f' hf => by rw [hf.1, ih _ _ hf.2.2]) hfields
          simp only [hproperties, required_eq_of_forall₂ hfields]
          generalize r.rest = rest, r'.rest = rest' at hrest
          cases hrest with
          | some hrest => simp only [ih _ _ hrest]
          | none => rfl
      | _ => rfl

theorem KeepsShapes.schema?_eq (h : g.KeepsShapes S) (hab : S a b) : g.schema? a = g.schema? b :=
  h.schemaWithin?_eq g.size hab

end TypeGraph

/-! ## Texts -/

namespace Conversion

variable {g : TypeGraph} {S : TypeRef → TypeRef → Prop} {v w : Variable}

theorem memberOfText?_eq (h : g.KeepsShapes S) (hvw : S v.type w.type) (text : String) :
    memberOfText? g v text = memberOfText? g w text := by
  have hmembers : ∀ {ts us : List TypeRef}, List.Forall₂ S ts us →
      (ts.findSome? fun m => (g.primitive? m).bind fun p => ofText? p text) =
        us.findSome? fun m => (g.primitive? m).bind fun p => ofText? p text := by
    intro ts us hmembers
    induction hmembers with
    | nil => rfl
    | cons hmember _ ih =>
        rw [List.findSome?_cons, List.findSome?_cons, h.primitive?_eq hmember, ih]
  have hshape := h v.type w.type hvw
  unfold memberOfText?
  generalize g.effectiveDef v.type = d, g.effectiveDef w.type = d' at hshape
  cases hshape with
  | union hunion => exact hmembers hunion
  | _ => rfl

/-- Texts are the same values, and what else is none. -/
theorem ofText_toOption_eq (h : g.KeepsShapes S) (hvw : S v.type w.type) (kind : Kind)
    (text : String) : (ofText g v kind text).toOption = (ofText g w kind text).toOption := by
  cases kind with
  | primitive p =>
      by_cases hp : p = .byte
      · subst hp
        simp only [ofText]
        cases int64? text with
        | none => rfl
        | some n =>
            dsimp only
            cases byte? n <;> rfl
      · rw [ofText_primitive hp, ofText_primitive hp]
        cases ofText? p text <;> rfl
  | union =>
      rw [ofText_union, ofText_union, memberOfText?_eq h hvw]
      cases memberOfText? g w text <;> rfl
  | array | record | table => rfl

end Conversion

namespace CommandLine

variable {g : TypeGraph} {S : TypeRef → TypeRef → Prop} {v w : Variable}

theorem read_eq (h : g.KeepsShapes S) (hid : v.id = w.id) (hvw : S v.type w.type) (kind : Kind)
    (c : CommandLine) : (read g kind v c).1.toOption = (read g kind w c).1.toOption ∧
      (read g kind v c).2 = (read g kind w c).2 := by
  refine ⟨?_, by simp only [read, hid]⟩
  cases htake : (c.take w.id).1 with
  | error d =>
      simp only [read, hid, htake]
      rfl
  | ok found =>
      cases found with
      | none =>
          simp only [read, hid, htake]
          rfl
      | some text =>
          have htext := Conversion.ofText_toOption_eq h hvw kind text
          have hmap : ∀ e : Except Diagnostic Value,
              (e.map some).toOption = e.toOption.map some := fun e => by cases e <;> rfl
          simp only [read, hid, htake]
          exact (hmap _).trans ((congrArg (Option.map some) htext).trans (hmap _).symm)

/-- Variables whose types are related find the same values and leave the same behind. -/
theorem lookup_eq (h : g.KeepsShapes S) (hid : v.id = w.id) (hvw : S v.type w.type)
    (c : CommandLine) :
    (Source.lookup g v c).1.toOption = (Source.lookup g w c).1.toOption ∧
      (Source.lookup g v c).2 = (Source.lookup g w c).2 := by
  unfold Source.lookup
  rw [h.ofType?_eq hvw]
  cases Kind.ofType? g w.type with
  | none => exact ⟨rfl, by simp only [Source.mark, mark, hid]⟩
  | some kind => exact read_eq h hid hvw kind c

end CommandLine

end Configurable
