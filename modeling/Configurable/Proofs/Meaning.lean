import Configurable.Proofs.Alternatives
import Mathlib.Data.List.Forall2

/-!
# What the nodes of a document mean

`Means` says which value a node stands for as a value of a type, without saying how to find
out. It goes through the node part by part, in order, so that nothing that is written is left
out; of the members of a union the first that has a value for the node decides.

By the types, it is the relation that the clauses in `Clause` describe (`means_iff`).
-/

namespace Configurable.Conversion

open Text (Span)
open Toml (Node Entry EntryOf Document)

/-- The record is of this type and lacks no field that it has to have. -/
structure Completes (r : RecordType) (title : String) (row : Record) : Prop where
  title : row.typeName = title
  required : ∀ f ∈ r.fields, f.required = true → (row.get? f.name).isSome = true

namespace Reading

variable (c : Reading)

/-! ## What nodes mean -/

/-- The values of primitive types. Integers are bytes if they are small enough, and they are
floats and decimals as well; a decimal has the digits that are written, if these can be read,
or else those of the number. -/
inductive Written (c : Reading) : Primitive → Node → Value → Prop
  | int {id : Nat} {span : Option Span} (n : Int64) :
      Written c .int (.scalar id span (.integer n)) (.int n)
  | byte {id : Nat} {span : Option Span} {n : Int64} (b : UInt8) : n.toInt = b.toNat →
      Written c .byte (.scalar id span (.integer n)) (.byte b)
  | boolean {id : Nat} {span : Option Span} (b : Bool) :
      Written c .boolean (.scalar id span (.boolean b)) (.boolean b)
  | float {id : Nat} {span : Option Span} (x : Float) :
      Written c .float (.scalar id span (.float x)) (.float x)
  | floatOfInteger {id : Nat} {span : Option Span} (n : Int64) :
      Written c .float (.scalar id span (.integer n)) (.float n.toFloat)
  | decimal {id : Nat} {span : Option Span} {number : Toml.Scalar} {d : Decimal} :
      ((∃ n, number = .integer n) ∨ ∃ x, number = .float x) →
      c.writtenDecimal? (.scalar id span number) = some d →
      Written c .decimal (.scalar id span number) (.decimal d)
  | decimalOfInteger {id : Nat} {span : Option Span} (n : Int64) :
      c.writtenDecimal? (.scalar id span (.integer n)) = none →
      Written c .decimal (.scalar id span (.integer n)) (.decimal (.ofInt64 n))
  | decimalOfFloat {id : Nat} {span : Option Span} {x : Float} {d : Decimal} :
      c.writtenDecimal? (.scalar id span (.float x)) = none → Decimal.ofFloat? x = some d →
      Written c .decimal (.scalar id span (.float x)) (.decimal d)
  | string {id : Nat} {span : Option Span} (s : String) :
      Written c .string (.scalar id span (.string s)) (.string s)
  | xml {id : Nat} {span : Option Span} {s : String} : Markup.isBalanced s = true →
      Written c .xml (.scalar id span (.string s)) (.xml s)

mutual

/-- The node stands for this value of the type. -/
def Means : Node → TypeRef → Value → Prop
  | .scalar id span number, t, v => c.types.Chosen (fun u w =>
    ∃ p, c.types.effectiveDef u = .primitive p ∧ Written c p (.scalar id span number) w) t v
  | .array _ _ items, t, v => c.types.Chosen (fun u w =>
    match c.types.effectiveDef u, w with
    | .array element, .array values => ItemsMean items element values
    | .table constraint keys, .table table =>
      ∃ r, c.types.record? constraint = some r ∧ table.keys = keys ∧
        RowsMean items r (c.types.render (c.types.effective constraint)) keys table.rows ∧
        DistinctKeys keys table.rows
    | _, _ => False) t v
  | .table _ _ entries, t, v => c.types.Chosen (fun u w =>
    match c.types.effectiveDef u, w with
    | .record r, .record row =>
      Completes r (c.types.render (c.types.effective u)) row ∧ FieldsMean entries r row.fields
    | .map constraint _, .map values => EntriesMean entries constraint values
    | _, _ => False) t v

/-- Element by element. -/
def ItemsMean : List Node → TypeRef → List Value → Prop
  | [], _, [] => True
  | n :: ns, element, v :: vs => Means n element v ∧ ItemsMean ns element vs
  | _, _, _ => False

/-- Entry by entry; the record type admits each, and its type can be configured. -/
def FieldsMean : List (EntryOf Node) → RecordType → List (String × Value) → Prop
  | [], _, [] => True
  | e :: es, r, (name, v) :: fields =>
    name = e.key ∧ (∃ u, r.typeOf? e.key = some u ∧ c.types.isConfigurableField u = true ∧
      Means e.node u v) ∧ FieldsMean es r fields
  | _, _, _ => False

/-- Row by row; each is a table and has all key columns. -/
def RowsMean : List Node → RecordType → String → List String → List Record → Prop
  | [], _, _, _, [] => True
  | .table id span entries :: ns, r, title, keys, row :: rows =>
    (∀ key ∈ keys, (Node.entry? (.table id span entries) key).isSome = true) ∧
      Completes r title row ∧ FieldsMean entries r row.fields ∧ RowsMean ns r title keys rows
  | _, _, _, _, _ => False

/-- Entry by entry. -/
def EntriesMean : List (EntryOf Node) → TypeRef → List (String × Value) → Prop
  | [], _, [] => True
  | e :: es, constraint, (name, v) :: values =>
    name = e.key ∧ Means e.node constraint v ∧ EntriesMean es constraint values
  | _, _, _ => False

end

variable {c}

/-! ## Meaning by types -/

/-- When a node stands for a value of a type, told by the effective type from what the parts
of the node stand for. -/
def Clause (c : Reading) (Conf : Node → TypeRef → Value → Prop) (n : Node) (t : TypeRef)
    (v : Value) : Prop :=
  match c.types.effectiveDef t with
  | .primitive p => Written c p n v
  | .array element => ∃ id span items values, n = .array id span items ∧ v = .array values ∧
      List.Forall₂ (fun item value => Conf item element value) items values
  | .record r => ∃ id span entries row, n = .table id span entries ∧ v = .record row ∧
      Completes r (c.types.render (c.types.effective t)) row ∧
      List.Forall₂ (fun e field => field.1 = e.key ∧ ∃ u, r.typeOf? e.key = some u ∧
        c.types.isConfigurableField u = true ∧ Conf e.node u field.2) entries row.fields
  | .table constraint keys => ∃ id span items rows, n = .array id span items ∧
      v = .table ⟨keys, rows⟩ ∧ (c.types.record? constraint).isSome = true ∧
      List.Forall₂ (fun item row => (∀ key ∈ keys, (item.entry? key).isSome = true) ∧
        Conf item constraint (.record row)) items rows ∧ DistinctKeys keys rows
  | .union members => ∃ before m after, members = before ++ m :: after ∧ Conf n m v ∧
      ∀ u ∈ before, ∀ w, ¬ Conf n u w
  | .map constraint _ => ∃ id span entries values, n = .table id span entries ∧
      v = .map values ∧ List.Forall₂ (fun e value => value.1 = e.key ∧
        Conf e.node constraint value.2) entries values
  | .readonly | .intersection _ _ | .tuple _ => False

theorem not_isUnion {t : TypeRef} {d : TypeDef} (hdef : c.types.effectiveDef t = d)
    (h : ∀ members, d ≠ .union members) : ¬ c.types.IsUnion t := by
  rintro ⟨members, hunion⟩
  exact h members (hdef.symm.trans hunion)

/-- Only tables stand for records. -/
theorem means_record_iff {n : Node} {t : TypeRef} {r : RecordType} {row : Record}
    (hdef : c.types.effectiveDef t = .record r) : c.Means n t (.record row) ↔
      ∃ id span entries, n = .table id span entries ∧
        Completes r (c.types.render (c.types.effective t)) row ∧
        c.FieldsMean entries r row.fields := by
  have hsingle : ¬ c.types.IsUnion t := not_isUnion hdef nofun
  cases n with
  | scalar id span number =>
      refine (TypeGraph.chosen_iff_takes hsingle).trans (iff_of_false ?_ nofun)
      rintro ⟨p, hp, -⟩
      cases hdef.symm.trans hp
  | array id span items =>
      refine (TypeGraph.chosen_iff_takes hsingle).trans (iff_of_false ?_ nofun)
      rw [hdef]
      exact fun h => h
  | table id span entries =>
      refine (TypeGraph.chosen_iff_takes hsingle).trans ?_
      rw [hdef]
      constructor
      · exact fun h => ⟨id, span, entries, rfl, h⟩
      · rintro ⟨id', span', entries', hn, h⟩
        cases hn
        exact h

theorem itemsMean_iff {element : TypeRef} : ∀ {ns : List Node} {vs : List Value},
    c.ItemsMean ns element vs ↔ List.Forall₂ (fun n v => c.Means n element v) ns vs
  | [], [] => iff_of_true trivial .nil
  | [], _ :: _ => iff_of_false (fun h => h) nofun
  | _ :: _, [] => iff_of_false (fun h => h) nofun
  | _ :: _, _ :: _ => by
      rw [List.forall₂_cons]
      exact and_congr_right fun _ => itemsMean_iff

theorem fieldsMean_iff {r : RecordType} : ∀ {es : List (EntryOf Node)}
    {fields : List (String × Value)}, c.FieldsMean es r fields ↔
      List.Forall₂ (fun e field => field.1 = e.key ∧ ∃ u, r.typeOf? e.key = some u ∧
        c.types.isConfigurableField u = true ∧ c.Means e.node u field.2) es fields
  | [], [] => iff_of_true trivial .nil
  | [], _ :: _ => iff_of_false (fun h => h) nofun
  | _ :: _, [] => iff_of_false (fun h => h) nofun
  | _ :: _, (_, _) :: _ => by
      rw [List.forall₂_cons, and_assoc]
      exact and_congr_right fun _ => and_congr_right fun _ => fieldsMean_iff

theorem entriesMean_iff {constraint : TypeRef} : ∀ {es : List (EntryOf Node)}
    {values : List (String × Value)}, c.EntriesMean es constraint values ↔
      List.Forall₂ (fun e value => value.1 = e.key ∧ c.Means e.node constraint value.2) es values
  | [], [] => iff_of_true trivial .nil
  | [], _ :: _ => iff_of_false (fun h => h) nofun
  | _ :: _, [] => iff_of_false (fun h => h) nofun
  | _ :: _, (_, _) :: _ => by
      rw [List.forall₂_cons, and_assoc]
      exact and_congr_right fun _ => and_congr_right fun _ => entriesMean_iff

theorem rowsMean_iff {constraint : TypeRef} {r : RecordType} {keys : List String}
    (hr : c.types.record? constraint = some r) : ∀ {ns : List Node} {rows : List Record},
    c.RowsMean ns r (c.types.render (c.types.effective constraint)) keys rows ↔
      List.Forall₂ (fun n row => (∀ key ∈ keys, (n.entry? key).isSome = true) ∧
        c.Means n constraint (.record row)) ns rows
  | [], [] => iff_of_true trivial .nil
  | [], _ :: _ => iff_of_false (fun h => h) nofun
  | .scalar _ _ _ :: _, [] | .array _ _ _ :: _, [] | .table _ _ _ :: _, [] =>
      iff_of_false (fun h => h) nofun
  | .scalar _ _ _ :: _, _ :: _ | .array _ _ _ :: _, _ :: _ => by
      rw [List.forall₂_cons, means_record_iff (record_of_record? hr)]
      refine iff_of_false (fun h => h) ?_
      rintro ⟨⟨-, id, span, entries, hn, -⟩, -⟩
      cases hn
  | .table id span entries :: ns, row :: rows => by
      rw [List.forall₂_cons, means_record_iff (record_of_record? hr)]
      constructor
      · rintro ⟨hkeyed, hcompletes, hfields, hrows⟩
        exact ⟨⟨hkeyed, id, span, entries, rfl, hcompletes, hfields⟩, (rowsMean_iff hr).mp hrows⟩
      · rintro ⟨⟨hkeyed, id', span', entries', hn, hcompletes, hfields⟩, hrows⟩
        cases hn
        exact ⟨hkeyed, hcompletes, hfields, (rowsMean_iff hr).mpr hrows⟩

section

variable {id : Nat} {span : Option Span} {t : TypeRef} {v : Value}

theorem means_scalar_iff {number : Toml.Scalar} (h : ¬ c.types.IsUnion t) :
    c.Means (.scalar id span number) t v ↔ c.Clause c.Means (.scalar id span number) t v := by
  refine (TypeGraph.chosen_iff_takes h).trans ⟨?_, fun hclause => ?_⟩
  · rintro ⟨p, hdef, hwritten⟩
    rwa [Clause, hdef]
  · unfold Clause at hclause
    split at hclause
    · next p hdef => exact ⟨p, hdef, hclause⟩
    · obtain ⟨_, _, _, _, hn, -⟩ := hclause
      cases hn
    · obtain ⟨_, _, _, _, hn, -⟩ := hclause
      cases hn
    · obtain ⟨_, _, _, _, hn, -⟩ := hclause
      cases hn
    · next members hdef => exact absurd ⟨members, hdef⟩ h
    · obtain ⟨_, _, _, _, hn, -⟩ := hclause
      cases hn
    · exact hclause.elim
    · exact hclause.elim
    · exact hclause.elim

theorem means_array_iff {items : List Node} (h : ¬ c.types.IsUnion t) :
    c.Means (.array id span items) t v ↔ c.Clause c.Means (.array id span items) t v := by
  refine (TypeGraph.chosen_iff_takes h).trans ⟨fun htakes => ?_, fun hclause => ?_⟩
  · split at htakes
    · next element values hdef =>
      rw [Clause, hdef]
      exact ⟨id, span, items, values, rfl, rfl, itemsMean_iff.mp htakes⟩
    · next constraint keys table hdef =>
      obtain ⟨r, hr, rfl, hrows, hdistinct⟩ := htakes
      rw [Clause, hdef]
      exact ⟨id, span, items, table.rows, rfl, rfl, by simp [hr],
        (rowsMean_iff hr).mp hrows, hdistinct⟩
    · exact htakes.elim
  · unfold Clause at hclause
    split at hclause
    · cases hclause
    · next element hdef =>
      obtain ⟨id', span', items', values, hn, rfl, hvalues⟩ := hclause
      cases hn
      rw [hdef]
      exact itemsMean_iff.mpr hvalues
    · obtain ⟨_, _, _, _, hn, -⟩ := hclause
      cases hn
    · next constraint keys hdef =>
      obtain ⟨id', span', items', rows, hn, rfl, hrecord, hrows, hdistinct⟩ := hclause
      cases hn
      obtain ⟨r, hr⟩ := Option.isSome_iff_exists.mp hrecord
      rw [hdef]
      exact ⟨r, hr, rfl, (rowsMean_iff hr).mpr hrows, hdistinct⟩
    · next members hdef => exact absurd ⟨members, hdef⟩ h
    · obtain ⟨_, _, _, _, hn, -⟩ := hclause
      cases hn
    · exact hclause.elim
    · exact hclause.elim
    · exact hclause.elim

theorem means_table_iff {entries : List (EntryOf Node)} (h : ¬ c.types.IsUnion t) :
    c.Means (.table id span entries) t v ↔ c.Clause c.Means (.table id span entries) t v := by
  refine (TypeGraph.chosen_iff_takes h).trans ⟨fun htakes => ?_, fun hclause => ?_⟩
  · split at htakes
    · next r row hdef =>
      rw [Clause, hdef]
      exact ⟨id, span, entries, row, rfl, rfl, htakes.1, fieldsMean_iff.mp htakes.2⟩
    · next constraint readonly values hdef =>
      rw [Clause, hdef]
      exact ⟨id, span, entries, values, rfl, rfl, entriesMean_iff.mp htakes⟩
    · exact htakes.elim
  · unfold Clause at hclause
    split at hclause
    · cases hclause
    · obtain ⟨_, _, _, _, hn, -⟩ := hclause
      cases hn
    · next r hdef =>
      obtain ⟨id', span', entries', row, hn, rfl, hcompletes, hfields⟩ := hclause
      cases hn
      rw [hdef]
      exact ⟨hcompletes, fieldsMean_iff.mpr hfields⟩
    · obtain ⟨_, _, _, _, hn, -⟩ := hclause
      cases hn
    · next members hdef => exact absurd ⟨members, hdef⟩ h
    · next constraint readonly hdef =>
      obtain ⟨id', span', entries', values, hn, rfl, hvalues⟩ := hclause
      cases hn
      rw [hdef]
      exact entriesMean_iff.mpr hvalues
    · exact hclause.elim
    · exact hclause.elim
    · exact hclause.elim

end

/-- Nodes stand for values by the clauses of their types. -/
theorem means_iff {n : Node} {t : TypeRef} {v : Value} (h : c.types.Readable t) :
    c.Means n t v ↔ c.Clause c.Means n t v := by
  by_cases hunion : c.types.IsUnion t
  · obtain ⟨members, hdef⟩ := hunion
    rw [Clause, hdef]
    cases n with
    | scalar id span number => exact TypeGraph.chosen_union_iff h hdef
    | array id span items => exact TypeGraph.chosen_union_iff h hdef
    | table id span entries => exact TypeGraph.chosen_union_iff h hdef
  · cases n with
    | scalar id span number => exact means_scalar_iff hunion
    | array id span items => exact means_array_iff hunion
    | table id span entries => exact means_table_iff hunion

end Reading

end Configurable.Conversion
