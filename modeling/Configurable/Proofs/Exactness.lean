import Configurable.Proofs.DocumentStructure
import Configurable.Proofs.Meaning
import Configurable.Proofs.Reading

/-!
# Reading documents is exact

Reading gives a value exactly if the node stands for it: the readers accept nothing else, and
refuse only nodes that stand for no value of the type. As with their soundness this is one
induction on the tree, with one statement for each reader. Asking for a value of the kind that
a type has comes to the same (`readAs_eq_read`), so the answers of a document are exact as
well (`read_iff_means`).
-/

namespace Configurable

namespace Conversion.Reading

open Text (Span)
open Toml (Node Entry EntryOf Document)

variable {c : Reading}

/-! ## Steps of reading -/

theorem byte?_eq_some_iff {n : Int64} {b : UInt8} : byte? n = some b ↔ n.toInt = b.toNat := by
  unfold byte?
  split
  · next hrange =>
    rw [Option.some.injEq, ← UInt8.toNat_inj, UInt8.toNat_ofNat']
    omega
  · next hrange =>
    have hb := b.toNat_lt
    refine iff_of_false (by simp) fun h => hrange ?_
    omega

theorem readPrimitive_iff {p : Primitive} {site : Site} {t : TypeRef} {subject : Subject}
    {v : Value} : c.readPrimitive p site t subject = .ok v ↔ Written c p site.node v := by
  obtain ⟨node, entry⟩ := site
  constructor
  · intro h
    unfold readPrimitive at h
    dsimp only at h
    split at h
    · next id span n =>
      obtain rfl := Except.ok.inj h
      exact .int n
    · next id span n =>
      split at h
      · next b hb =>
        obtain rfl := Except.ok.inj h
        exact .byte b (byte?_eq_some_iff.mp hb)
      · cases h
    · next id span b =>
      obtain rfl := Except.ok.inj h
      exact .boolean b
    · next id span x =>
      obtain rfl := Except.ok.inj h
      exact .float x
    · next id span n =>
      obtain rfl := Except.ok.inj h
      exact .floatOfInteger n
    · next id span n =>
      obtain rfl := Except.ok.inj h
      cases hwritten : c.writtenDecimal? (.scalar id span (.integer n)) with
      | some d => exact .decimal (Or.inl ⟨n, rfl⟩) hwritten
      | none => exact .decimalOfInteger n hwritten
    · next id span x =>
      split at h
      · next d hd =>
        obtain rfl := Except.ok.inj h
        rcases Option.or_eq_some_iff.mp hd with hwritten | ⟨hwritten, hfloat⟩
        · exact .decimal (Or.inr ⟨x, rfl⟩) hwritten
        · exact .decimalOfFloat hwritten hfloat
      · cases h
    · next id span s =>
      obtain rfl := Except.ok.inj h
      exact .string s
    · next id span s =>
      split at h
      · next value hvalue =>
        obtain rfl := Except.ok.inj h
        unfold xml? at hvalue
        split at hvalue
        · next hbalanced =>
          obtain rfl := Option.some.inj hvalue
          exact .xml hbalanced
        · cases hvalue
      · cases h
    · cases h
  · intro h
    cases h with
    | byte b hb => simp [readPrimitive, byte?_eq_some_iff.mpr hb]
    | decimal hnumber hwritten =>
        obtain ⟨n, rfl⟩ | ⟨x, rfl⟩ := hnumber
        · simp [readPrimitive, hwritten]
        · simp [readPrimitive, hwritten]
    | decimalOfInteger n hwritten => simp [readPrimitive, hwritten]
    | decimalOfFloat hwritten hfloat => simp [readPrimitive, hwritten, hfloat]
    | xml hbalanced => simp [readPrimitive, xml?, hbalanced]
    | int | boolean | float | floatOfInteger | string => rfl

theorem choose_iff {site : Site} {t : TypeRef} {subject : Subject}
    {read : TypeRef → Except Diagnostic Value} {Takes : TypeRef → Value → Prop} {v : Value}
    (hread : ∀ u, c.types.Readable u → ∀ v, read u = .ok v ↔ Takes u v)
    (h : c.types.Readable t) :
    c.choose site t subject read = .ok v ↔ c.types.Chosen Takes t v := by
  have htake : ∀ u, c.types.Readable u → ∀ v, (read u).toOption = some v ↔ Takes u v := by
    intro u hu v
    rw [← hread u hu v]
    cases read u <;> simp [Except.toOption]
  by_cases hunion : c.types.IsUnion t
  · rw [← TypeGraph.findSome?_alternatives_iff htake h]
    obtain ⟨members, hdef⟩ := hunion
    simp only [choose, hdef]
    cases (c.types.alternatives t).findSome? fun member => (read member).toOption with
    | some value => simp
    | none => simp
  · rw [TypeGraph.chosen_iff_takes hunion, ← hread t h v]
    unfold choose
    split
    · next members hdef => exact absurd ⟨members, hdef⟩ hunion
    · rfl

theorem fieldType_iff {r : RecordType} {title : String} {site : Site} {e : Entry} {u : TypeRef} :
    c.fieldType r title site e = .ok u ↔
      r.typeOf? e.key = some u ∧ c.types.isConfigurableField u = true := by
  unfold fieldType
  cases r.typeOf? e.key with
  | none => simp
  | some w =>
      by_cases hw : c.types.isConfigurableField w = true
      · simp only [hw, if_true, Except.ok.injEq, Option.some.injEq]
        exact ⟨fun h => ⟨h, h ▸ hw⟩, And.left⟩
      · simp only [hw, Option.some.injEq]
        refine iff_of_false (by simp) ?_
        rintro ⟨rfl, hu⟩
        exact hw hu

theorem recordOf_iff {r : RecordType} {title : String} {site : Site}
    {fields : List (String × Value)} {row : Record} :
    c.recordOf r title site fields = .ok row ↔ row.fields = fields ∧ Completes r title row := by
  unfold recordOf
  split
  · next f hf =>
    refine iff_of_false (by simp) ?_
    rintro ⟨rfl, -, hrequired⟩
    have hmissing := List.find?_some hf
    simp only [Bool.and_eq_true, Bool.not_eq_true'] at hmissing
    have := hrequired f (List.mem_of_find?_eq_some hf) hmissing.1
    simp_all [RecordOf.get?, Entries.contains]
  · next hnone =>
    constructor
    · intro h
      obtain rfl := Except.ok.inj h
      refine ⟨rfl, rfl, fun f hf hrequired => ?_⟩
      have := List.find?_eq_none.mp hnone f hf
      simpa [hrequired, Entries.contains, RecordOf.get?, Option.isSome_iff_ne_none] using this
    · rintro ⟨rfl, rfl, -⟩
      rfl

theorem missingKey?_eq_none_iff {keys : List String} {t : TypeRef} {row : Node} :
    c.missingKey? keys t row = none ↔ ∀ key ∈ keys, (row.entry? key).isSome = true := by
  simp [missingKey?, Option.isSome_iff_ne_none]

/-! ## The tree -/

mutual

theorem read_iff : ∀ (n : Node) (entry : Option Span) {t : TypeRef} (subject : Subject)
    {v : Value}, c.types.Readable t → (c.read n entry t subject = .ok v ↔ c.Means n t v)
  | .scalar id span number, entry, t, subject, v, h => by
      unfold read
      refine choose_iff (fun u hu w => ?_) h
      split
      · next p hdef =>
        rw [readPrimitive_iff]
        constructor
        · exact fun hw => ⟨p, hdef, hw⟩
        · rintro ⟨q, hq, hw⟩
          obtain rfl := TypeDef.primitive.inj (hdef.symm.trans hq)
          exact hw
      · next hdef => exact iff_of_false nofun fun ⟨q, hq, _⟩ => by cases hdef.symm.trans hq
      · next hdef => exact iff_of_false nofun fun ⟨q, hq, _⟩ => by cases hdef.symm.trans hq
      · next hdef => exact iff_of_false nofun fun ⟨q, hq, _⟩ => by cases hdef.symm.trans hq
      · next hprimitive _ _ _ =>
        exact iff_of_false nofun fun ⟨q, hq, _⟩ => hprimitive q hq
  | .array id span items, entry, t, subject, v, h => by
      unfold read
      refine choose_iff (fun u hu w => ?_) h
      split
      · next element hdef =>
        have helement : c.types.Readable element := hu.part (by simp [TypeGraph.IsPart, hdef])
        rw [hdef]
        refine map_eq_ok_iff.trans ?_
        constructor
        · rintro ⟨values, hvalues, rfl⟩
          exact (readItems_iff items subject 0 helement).mp hvalues
        · intro hw
          cases w with
          | array values => exact ⟨values, (readItems_iff items subject 0 helement).mpr hw, rfl⟩
          | _ => exact False.elim hw
      · next constraint keys hdef =>
        rw [hdef]
        split
        · next hnone =>
          refine iff_of_false nofun fun hw => ?_
          cases w with
          | table table =>
              obtain ⟨r, hr, -⟩ := hw
              cases hnone.symm.trans hr
          | _ => exact False.elim hw
        · next r hr =>
          refine map_eq_ok_iff.trans ?_
          constructor
          · rintro ⟨rows, hrows, rfl⟩
            obtain ⟨hmean, -, hdistinct⟩ := (readRows_iff ..).mp hrows
            exact ⟨r, hr, rfl, hmean, hdistinct⟩
          · intro hw
            cases w with
            | table table =>
                obtain ⟨r', hr', hkeys, hmean, hdistinct⟩ := hw
                obtain rfl := Option.some.inj (hr.symm.trans hr')
                obtain ⟨keys', rows⟩ := table
                subst hkeys
                exact ⟨rows, (readRows_iff ..).mpr
                  ⟨hmean, fun _ _ => by simp [isNewKey], hdistinct⟩, rfl⟩
            | _ => exact False.elim hw
      · next hdef => rw [hdef]; exact iff_of_false nofun fun hw => hw
      · next hdef => rw [hdef]; exact iff_of_false nofun fun hw => hw
      · next hdef => rw [hdef]; exact iff_of_false nofun fun hw => hw
      · next harray htable _ _ _ =>
        refine iff_of_false nofun fun hw => ?_
        split at hw
        · next hdef => exact harray _ hdef
        · next hdef => exact htable _ _ hdef
        · exact hw
  | .table id span entries, entry, t, subject, v, h => by
      unfold read
      refine choose_iff (fun u hu w => ?_) h
      split
      · next r hdef =>
        rw [hdef]
        refine bind_eq_ok_iff.trans ?_
        constructor
        · rintro ⟨fields, hfields, hrest⟩
          obtain ⟨row, hrow, rfl⟩ := map_eq_ok_iff.mp hrest
          obtain ⟨rfl, hcompletes⟩ := recordOf_iff.mp hrow
          exact ⟨hcompletes, (readFields_iff ..).mp hfields⟩
        · intro hw
          cases w with
          | record row =>
              obtain ⟨hcompletes, hfields⟩ := hw
              exact ⟨row.fields, (readFields_iff ..).mpr hfields, map_eq_ok_iff.mpr
                ⟨row, recordOf_iff.mpr ⟨rfl, hcompletes⟩, rfl⟩⟩
          | _ => exact False.elim hw
      · next constraint readonly hdef =>
        have hconstraint : c.types.Readable constraint :=
          hu.part (by simp [TypeGraph.IsPart, hdef])
        rw [hdef]
        refine map_eq_ok_iff.trans ?_
        constructor
        · rintro ⟨values, hvalues, rfl⟩
          exact (readMap_iff entries subject hconstraint).mp hvalues
        · intro hw
          cases w with
          | map values => exact ⟨values, (readMap_iff entries subject hconstraint).mpr hw, rfl⟩
          | _ => exact False.elim hw
      · next hdef => rw [hdef]; exact iff_of_false nofun fun hw => hw
      · next hdef => rw [hdef]; exact iff_of_false nofun fun hw => hw
      · next hdef => rw [hdef]; exact iff_of_false nofun fun hw => hw
      · next hrecord hmap _ _ _ =>
        refine iff_of_false nofun fun hw => ?_
        split at hw
        · next hdef => exact hrecord _ hdef
        · next hdef => exact hmap _ _ hdef
        · exact hw

theorem readItems_iff : ∀ (ns : List Node) {element : TypeRef} (subject : Subject)
    (index : Nat) {vs : List Value}, c.types.Readable element →
    (c.readItems ns element subject index = .ok vs ↔ c.ItemsMean ns element vs)
  | [], element, subject, index, vs, h => by
      cases vs with
      | nil => exact iff_of_true rfl trivial
      | cons v vs => exact iff_of_false (by simp [readItems]) id
  | n :: ns, element, subject, index, vs, h => by
      unfold readItems
      refine bind_eq_ok_iff.trans ?_
      constructor
      · rintro ⟨v, hv, hrest⟩
        obtain ⟨vs', hvs, hcons⟩ := bind_eq_ok_iff.mp hrest
        obtain rfl := Except.ok.inj hcons
        exact ⟨(read_iff n none _ h).mp hv, (readItems_iff ns subject (index + 1) h).mp hvs⟩
      · cases vs with
        | nil => exact False.elim
        | cons v vs =>
            rintro ⟨hv, hvs⟩
            exact ⟨v, (read_iff n none _ h).mpr hv, bind_eq_ok_iff.mpr
              ⟨vs, (readItems_iff ns subject (index + 1) h).mpr hvs, rfl⟩⟩

theorem readFields_iff : ∀ (es : List (EntryOf Node)) (r : RecordType) (title : String)
    (site : Site) (subject : Subject) {fields : List (String × Value)},
    (c.readFields es r title site subject = .ok fields ↔ c.FieldsMean es r fields)
  | [], r, title, site, subject, fields => by
      cases fields with
      | nil => exact iff_of_true rfl trivial
      | cons field fields => exact iff_of_false (by simp [readFields]) id
  | e :: es, r, title, site, subject, fields => by
      unfold readFields
      refine bind_eq_ok_iff.trans ?_
      constructor
      · rintro ⟨u, hu, hrest⟩
        obtain ⟨v, hv, hrest⟩ := bind_eq_ok_iff.mp hrest
        obtain ⟨fields', hfields, hcons⟩ := bind_eq_ok_iff.mp hrest
        obtain rfl := Except.ok.inj hcons
        obtain ⟨hadmitted, hconfigurable⟩ := fieldType_iff.mp hu
        have hreadable := TypeGraph.Admitted.readable ⟨true, hconfigurable⟩
        exact ⟨rfl, ⟨u, hadmitted, hconfigurable, (read_iff e.node e.span _ hreadable).mp hv⟩,
          (readFields_iff es r title site subject).mp hfields⟩
      · cases fields with
        | nil => exact False.elim
        | cons field fields =>
            rintro ⟨hname, ⟨u, hadmitted, hconfigurable, hv⟩, hfields⟩
            have hreadable := TypeGraph.Admitted.readable ⟨true, hconfigurable⟩
            obtain ⟨name, v⟩ := field
            subst hname
            exact ⟨u, fieldType_iff.mpr ⟨hadmitted, hconfigurable⟩, bind_eq_ok_iff.mpr
              ⟨v, (read_iff e.node e.span _ hreadable).mpr hv, bind_eq_ok_iff.mpr
                ⟨fields, (readFields_iff es r title site subject).mpr hfields, rfl⟩⟩⟩

theorem readRows_iff : ∀ (ns : List Node) (r : RecordType) (t constraint : TypeRef)
    (keys : List String) (subject : Subject) (index : Nat) (seen : List (List Value))
    {rows : List Record},
    (c.readRows ns r t constraint keys subject index seen = .ok rows ↔
      c.RowsMean ns r (c.types.render (c.types.effective constraint)) keys rows ∧
      (∀ row ∈ rows, isNewKey keys seen (keyOf keys row) = true) ∧ DistinctKeys keys rows)
  | [], r, t, constraint, keys, subject, index, seen, rows => by
      cases rows with
      | nil => exact iff_of_true rfl ⟨trivial, by simp, fun _ => .nil⟩
      | cons row rows => exact iff_of_false (by simp [readRows]) fun h => h.1
  | .table id span entries :: ns, r, t, constraint, keys, subject, index, seen, rows => by
      unfold readRows
      simp only
      split
      · next d hd =>
        refine iff_of_false nofun fun h => ?_
        cases rows with
        | nil => exact h.1
        | cons row rows => cases hd.symm.trans (missingKey?_eq_none_iff.mpr h.1.1)
      · next hkeyed =>
        rw [missingKey?_eq_none_iff] at hkeyed
        refine bind_eq_ok_iff.trans ?_
        constructor
        · rintro ⟨fields, hfields, hrow⟩
          obtain ⟨row, hrow, hlater⟩ := bind_eq_ok_iff.mp hrow
          obtain ⟨rfl, hcompletes⟩ := recordOf_iff.mp hrow
          split at hlater
          · next hnew =>
            obtain ⟨rows', hrows, hcons⟩ := bind_eq_ok_iff.mp hlater
            obtain rfl := Except.ok.inj hcons
            obtain ⟨hmean, hfresh⟩ := (readRows_iff ..).mp hrows
            exact ⟨⟨hkeyed, hcompletes, (readFields_iff ..).mp hfields, hmean⟩,
              fresh_cons_iff.mpr ⟨hnew, hfresh⟩⟩
          · cases hlater
        · cases rows with
          | nil => exact fun h => h.1.elim
          | cons row rows =>
              rintro ⟨⟨-, hcompletes, hfields, hmean⟩, hfresh⟩
              obtain ⟨hnew, hfresh⟩ := fresh_cons_iff.mp hfresh
              refine ⟨row.fields, (readFields_iff ..).mpr hfields, bind_eq_ok_iff.mpr
                ⟨row, recordOf_iff.mpr ⟨rfl, hcompletes⟩, ?_⟩⟩
              rw [if_pos hnew]
              exact bind_eq_ok_iff.mpr ⟨rows, (readRows_iff ..).mpr ⟨hmean, hfresh⟩, rfl⟩
  | .scalar id span value :: ns, r, t, constraint, keys, subject, index, seen, rows => by
      unfold readRows
      refine iff_of_false nofun fun h => ?_
      cases rows with
      | nil => exact h.1
      | cons row rows => exact h.1
  | .array id span items :: ns, r, t, constraint, keys, subject, index, seen, rows => by
      unfold readRows
      refine iff_of_false nofun fun h => ?_
      cases rows with
      | nil => exact h.1
      | cons row rows => exact h.1

theorem readMap_iff : ∀ (es : List (EntryOf Node)) {constraint : TypeRef} (subject : Subject)
    {values : List (String × Value)}, c.types.Readable constraint →
    (c.readMap es constraint subject = .ok values ↔ c.EntriesMean es constraint values)
  | [], constraint, subject, values, h => by
      cases values with
      | nil => exact iff_of_true rfl trivial
      | cons value values => exact iff_of_false (by simp [readMap]) id
  | e :: es, constraint, subject, values, h => by
      unfold readMap
      refine bind_eq_ok_iff.trans ?_
      constructor
      · rintro ⟨v, hv, hrest⟩
        obtain ⟨values', hvalues, hcons⟩ := bind_eq_ok_iff.mp hrest
        obtain rfl := Except.ok.inj hcons
        exact ⟨rfl, (read_iff e.node e.span _ h).mp hv, (readMap_iff es subject h).mp hvalues⟩
      · cases values with
        | nil => exact False.elim
        | cons value values =>
            rintro ⟨hname, hv, hvalues⟩
            obtain ⟨name, v⟩ := value
            subst hname
            exact ⟨v, (read_iff e.node e.span _ h).mpr hv, bind_eq_ok_iff.mpr
              ⟨values, (readMap_iff es subject h).mpr hvalues, rfl⟩⟩

end

/-! ## Both ways of reading -/

/-- A node is read as a value of a kind as it is read against a type of that kind. -/
theorem readAs_eq_read {kind : Kind} {t : TypeRef} (hk : Kind.ofType? c.types t = some kind)
    (site : Site) (subject : Subject) :
    c.readAs kind site t subject = c.read site.node site.entry t subject := by
  cases kind with
  | primitive p =>
      have hdef := primitive_of_kind hk
      obtain ⟨node, entry⟩ := site
      cases node with
      | scalar id span number => simp only [readAs, read, choose, hdef]
      | array id span items => cases p <;> simp only [readAs, readPrimitive, read, choose, hdef]
      | table id span entries => cases p <;> simp only [readAs, readPrimitive, read, choose, hdef]
  | array => simp only [readAs, hk, if_true]
  | record => simp only [readAs, hk, if_true]
  | table => simp only [readAs, hk, if_true]
  | union => simp only [readAs, hk, if_true]

end Conversion.Reading

open Conversion (Reading)
open Text (Span)
open Toml (Node Entry Document)

namespace DocumentFile

theorem locate_found_iff {f : DocumentFile} {d : Document} {x : VariableId} {e : Entry} :
    (f.locate d x).1 = .ok (some e) ↔ ∃ s, entriesFor f.root d x = [(s, e)] := by
  unfold locate
  simp only
  split
  · next s e' hfound =>
    simp only [hfound, Except.ok.injEq, Option.some.injEq, List.cons.injEq, Prod.mk.injEq,
      and_true]
    exact ⟨fun h => ⟨s, rfl, h⟩, fun ⟨_, _, h⟩ => h⟩
  · next hnil =>
    refine iff_of_false ?_ (by simp [hnil])
    split
    · nofun
    · split <;> nofun
  · next hmany _ =>
    exact iff_of_false nofun fun ⟨s, hs⟩ => hmany s e hs

/-- A document answers with a value exactly if there is one entry for the variable and its
node stands for the value. -/
theorem lookup_iff_means {g : TypeGraph} {d : Document} {x : Variable} {v : Value}
    {f : DocumentFile} (hd : f.document = some d) (hconf : g.isConfigurable x.type = true) :
    (Source.lookup g x f).1 = .ok (some v) ↔ ∃ s e, entriesFor f.root d x.id = [(s, e)] ∧
      Reading.Means ⟨g, d, x.name⟩ e.node x.type v := by
  obtain ⟨kind, hk⟩ := Source.exists_kind hconf
  have hreadable : g.Readable x.type := TypeGraph.Admitted.readable ⟨false, hconf⟩
  have hread : ∀ e : Entry, Reading.readAs ⟨g, d, x.name⟩ kind ⟨e.node, e.span⟩ x.type
      (.variable x.name) = .ok v ↔ Reading.Means ⟨g, d, x.name⟩ e.node x.type v := by
    intro e
    rw [Reading.readAs_eq_read hk]
    exact Reading.read_iff e.node e.span _ hreadable
  rw [Source.lookup_of_kind hk, show (Source.read g kind x f).1 = _ from read_answer hd]
  refine bind_eq_ok_iff.trans ⟨?_, ?_⟩
  · rintro ⟨found, hfound, hanswer⟩
    cases found with
    | none => cases hanswer
    | some e =>
        obtain ⟨s, hs⟩ := locate_found_iff.mp hfound
        obtain ⟨v', hv', hsome⟩ := map_eq_ok_iff.mp hanswer
        obtain rfl := Option.some.inj hsome
        exact ⟨s, e, hs, (hread e).mp hv'⟩
  · rintro ⟨s, e, hs, hmeans⟩
    exact ⟨some e, locate_found_iff.mpr ⟨s, hs⟩,
      map_eq_ok_iff.mpr ⟨v, (hread e).mpr hmeans, rfl⟩⟩

end DocumentFile

namespace Conversion.Reading

variable {c : Reading}

/-- **Reading is exact.** For every type that can be configured, as a variable or as a field,
and for every other whose unions end: a node is read as a value exactly if it stands for the
value, which is told by the clauses of the types. Reading it as a value of the kind of the type
is the same, errors included. And a document answers with a value for a variable of the type
exactly if it has one entry for the variable and the node there stands for the value. -/
theorem read_iff_means {t : TypeRef} (h : c.types.Admitted t ∨ c.types.Readable t) :
    (∀ n entry subject v, c.read n entry t subject = .ok v ↔ c.Means n t v)
      ∧ (∀ n v, c.Means n t v ↔ c.Clause c.Means n t v)
      ∧ (∀ kind site subject, Kind.ofType? c.types t = some kind →
        c.readAs kind site t subject = c.read site.node site.entry t subject)
      ∧ ∀ (x : Variable) (f : DocumentFile) v, x.name = c.name → x.type = t →
        c.types.isConfigurable t = true → f.document = some c.document →
        ((Source.lookup c.types x f).1 = .ok (some v) ↔ ∃ s e,
          DocumentFile.entriesFor f.root c.document x.id = [(s, e)] ∧ c.Means e.node t v) := by
  have hreadable : c.types.Readable t := h.elim TypeGraph.Admitted.readable fun h => h
  refine ⟨fun n entry subject v => read_iff n entry subject hreadable,
    fun n v => means_iff hreadable, fun kind site subject hk => readAs_eq_read hk site subject, ?_⟩
  rintro x f v hname rfl hconf hd
  obtain ⟨g, d, name⟩ := c
  subst hname
  exact DocumentFile.lookup_iff_means hd hconf

/-- An integer that is too large for a byte is taken by the next member of the union. -/
theorem means_second_member :
    let g : TypeGraph := ⟨#[.union [.primitive .byte, .primitive .int]]⟩
    let c : Reading := ⟨g, ⟨⟨none, ""⟩, .table 1 none [], 2⟩, "x"⟩
    let n : Node := .scalar 0 none (.integer 300)
    c.types.Admitted (.defined 0) ∧ c.Means n (.defined 0) (.int 300)
      ∧ ∀ v, ¬ c.Means n (.defined 0) (.byte v) := by
  intro g c n
  have hadmitted : c.types.Admitted (.defined 0) := ⟨false, by decide⟩
  have hmeans := (read_iff_means (.inl hadmitted)).1 n none (.variable "x")
  have hread : c.read n none (.defined 0) (.variable "x") = .ok (.int 300) := by rfl
  refine ⟨hadmitted, (hmeans (.int 300)).mp hread, fun v hv => ?_⟩
  cases hread.symm.trans ((hmeans (.byte v)).mpr hv)

end Conversion.Reading

end Configurable
