import Configurable.Proofs.Conforms
import Configurable.Proofs.Entries

/-!
# Reading documents accepts conforming values

The readers of `Conversion.Reading` call each other on smaller nodes, so the soundness of all
of them is one induction on the tree, with one statement for each reader: elements conform to
the element type, fields to what the record admits under their names, rows to the constraint,
with all key columns and with keys of their own.

Nothing is asked of the type, which may be cyclic or not configurable at all: what does not
fit is refused on the way.
-/

namespace Configurable.Conversion.Reading

open Text (Span)
open Toml (Node Entry EntryOf Document)

variable {c : Reading}

/-! ## Refusals -/

theorem isAboutValue_wrongType (subject : Subject) (t : TypeRef) (found : String) :
    (c.wrongType subject t found).isAboutValue = true := by
  cases subject <;> rfl

theorem mismatch_refuses {α : Type} {P : α → Prop} (site : Site) (t : TypeRef)
    (subject : Subject) : Reads P (.error (c.mismatch site t subject)) :=
  Reads.refuse (isAboutValue_wrongType subject t _)

/-! ## Primitives and unions -/

/-- What is read as a primitive conforms to every type that is this primitive. -/
theorem readPrimitive_reads (p : Primitive) (site : Site) (t : TypeRef) (subject : Subject) :
    Reads (fun v => c.types.effectiveDef t = .primitive p → Conforms c.types v t)
      (c.readPrimitive p site t subject) := by
  unfold readPrimitive
  split
  · exact .int _
  · split
    · exact .byte _
    · exact Reads.refuse rfl
  · exact .boolean _
  · exact .float _
  · exact .float _
  · exact .decimal _
  · split
    · exact .decimal _
    · exact mismatch_refuses ..
  · exact .string _
  · split
    · next hval => exact fun ht => xml?_conforms ht hval
    · exact Reads.refuse (isAboutValue_wrongType ..)
  · exact mismatch_refuses ..

theorem readPrimitive_conforms {p : Primitive} {t : TypeRef}
    (ht : c.types.effectiveDef t = .primitive p) (site : Site) (subject : Subject) :
    Reads (Conforms c.types · t) (c.readPrimitive p site t subject) :=
  (readPrimitive_reads p site t subject).imp (fun _ hd => hd) fun _ hv => hv ht

/-- What is chosen is read as the type itself or as one of its alternatives. -/
theorem choose_judged {E : Diagnostic → Prop} {P : Value → Prop} {site : Site} {t : TypeRef}
    {subject : Subject} {read : TypeRef → Except Diagnostic Value}
    (hmember : ∀ u ∈ c.types.alternatives t, ∀ v, read u = .ok v → P v)
    (hmismatch : E (c.mismatch site t subject)) (hself : Judged E P (read t)) :
    Judged E P (c.choose site t subject read) := by
  unfold choose
  split
  · split
    · next v hv =>
      obtain ⟨u, hu, hread⟩ := List.exists_of_findSome?_eq_some hv
      cases hr : read u with
      | ok w =>
          rw [hr] at hread
          obtain rfl := Option.some.inj hread
          exact hmember u hu w hr
      | error d => rw [hr] at hread; cases hread
    · exact hmismatch
  · exact hself

/-- If each alternative that is no union is read soundly, so is a union of them. -/
theorem choose_conforms {site : Site} {t : TypeRef} {subject : Subject}
    {read : TypeRef → Except Diagnostic Value}
    (h : ∀ u, Reads (Conforms c.types · u) (read u)) :
    Reads (Conforms c.types · t) (c.choose site t subject read) :=
  choose_judged (fun u hu _ hread => ((h u).of_ok hread).of_alternativesWithin hu)
    ⟨rfl, isAboutValue_wrongType subject t _⟩ (h t)

/-! ## Fields and key columns -/

theorem fieldType_reads (r : RecordType) (title : String) (site : Site) (e : Entry) :
    Reads (fun u => r.typeOf? e.key = some u) (c.fieldType r title site e) := by
  unfold fieldType
  split
  · exact Reads.refuse rfl
  · next u hu =>
    split
    · exact hu
    · exact Reads.refuse rfl

/-- The fields that were read: each is admitted and conforms, and they are the entries'. -/
structure FieldsOf (g : TypeGraph) (r : RecordType) (entries : List (EntryOf Node))
    (fields : List (String × Value)) : Prop where
  admitted : ∀ field ∈ fields, ∃ u, r.typeOf? field.1 = some u ∧ Conforms g field.2 u
  names : fields.map Prod.fst = entries.map EntryOf.key

theorem FieldsOf.nil {g : TypeGraph} {r : RecordType} : FieldsOf g r [] [] :=
  ⟨by simp, rfl⟩

theorem FieldsOf.cons {g : TypeGraph} {r : RecordType} {e : EntryOf Node}
    {es : List (EntryOf Node)} {v : Value} {u : TypeRef} {fields : List (String × Value)}
    (hu : r.typeOf? e.key = some u) (hv : Conforms g v u) (h : FieldsOf g r es fields) :
    FieldsOf g r (e :: es) ((e.key, v) :: fields) := by
  refine ⟨fun field hfield => ?_, by simp [h.names]⟩
  rcases List.mem_cons.mp hfield with rfl | hmem
  · exact ⟨u, hu, hv⟩
  · exact h.admitted field hmem

theorem recordOf_conforms {g : TypeGraph} {r : RecordType} {title : String} {site : Site}
    {entries : List (EntryOf Node)} {fields : List (String × Value)}
    (h : FieldsOf g r entries fields) :
    Reads (fun row => ConformsRow g row r ∧ row.fields = fields)
      (c.recordOf r title site fields) := by
  unfold recordOf
  split
  · exact Reads.refuse rfl
  · next hnone =>
    refine ⟨.intro (fun field hfield => ?_) (fun field hfield u hu => ?_) (fun f hf hreq => ?_),
      rfl⟩
    · obtain ⟨u, hu, -⟩ := h.admitted field hfield
      simp [hu]
    · obtain ⟨u', hu', hv⟩ := h.admitted field hfield
      obtain rfl : u' = u := Option.some.inj (hu'.symm.trans hu)
      exact hv
    · have := List.find?_eq_none.mp hnone f hf
      simpa [hreq, Entries.contains, RecordOf.get?, Option.isSome_iff_ne_none] using this

/-- A row has a field for each entry that it was read from. -/
theorem get?_isSome_of_entry {row : Record} (id : Nat) (span : Option Span)
    {entries : List (EntryOf Node)} (hnames : row.fields.map Prod.fst = entries.map EntryOf.key)
    {key : String} (h : Node.entry? (.table id span entries) key ≠ none) :
    (row.get? key).isSome = true := by
  obtain ⟨e, he⟩ := Option.ne_none_iff_exists'.mp h
  have hkey : e.key = key := by simpa using List.find?_some he
  have hmem : key ∈ row.fields.map Prod.fst := by
    rw [hnames, ← hkey]
    exact List.mem_map_of_mem (List.mem_of_find?_eq_some he)
  exact Entries.isSome_get?_iff.mpr hmem

/-- Rows that may follow rows with the key values in `seen`. -/
structure RowsOf (g : TypeGraph) (r : RecordType) (keys : List String)
    (seen : List (List Value)) (rows : List Record) : Prop where
  conform : ∀ row ∈ rows, ConformsRow g row r
  keyed : ∀ row ∈ rows, ∀ key ∈ keys, (row.get? key).isSome = true
  fresh : ∀ row ∈ rows, isNewKey keys seen (keyOf keys row) = true
  distinct : DistinctKeys keys rows

theorem RowsOf.nil {g : TypeGraph} {r : RecordType} {keys : List String}
    {seen : List (List Value)} : RowsOf g r keys seen [] :=
  ⟨by simp, by simp, by simp, fun _ => .nil⟩

theorem isNewKey_append {keys : List String} {seen : List (List Value)} {a k : List Value}
    (hkeys : keys ≠ []) :
    isNewKey keys (seen ++ [a]) k = true ↔
      isNewKey keys seen k = true ∧ Value.sameItems a k = false := by
  simp [isNewKey, hkeys]

/-- A row may come first, and the others behind it, exactly if its key is new and theirs are
not the same. -/
theorem fresh_cons_iff {keys : List String} {seen : List (List Value)} {row : Record}
    {rows : List Record} :
    ((∀ other ∈ row :: rows, isNewKey keys seen (keyOf keys other) = true) ∧
        DistinctKeys keys (row :: rows)) ↔
      isNewKey keys seen (keyOf keys row) = true ∧
        (∀ other ∈ rows, isNewKey keys (seen ++ [keyOf keys row]) (keyOf keys other) = true) ∧
        DistinctKeys keys rows := by
  by_cases hkeys : keys = []
  · simp [isNewKey, DistinctKeys, hkeys]
  · simp only [isNewKey_append hkeys, DistinctKeys, List.forall_mem_cons, List.pairwise_cons]
    constructor
    · rintro ⟨⟨hnew, hfresh⟩, hdistinct⟩
      obtain ⟨hrow, hrows⟩ := hdistinct hkeys
      exact ⟨hnew, fun other hother => ⟨hfresh other hother, hrow other hother⟩, fun _ => hrows⟩
    · rintro ⟨hnew, hfresh, hdistinct⟩
      exact ⟨⟨hnew, fun other hother => (hfresh other hother).1⟩,
        fun _ => ⟨fun other hother => (hfresh other hother).2, hdistinct hkeys⟩⟩

theorem RowsOf.cons {g : TypeGraph} {r : RecordType} {keys : List String}
    {seen : List (List Value)} {row : Record} {rows : List Record}
    (hrow : ConformsRow g row r) (hkeyed : ∀ key ∈ keys, (row.get? key).isSome = true)
    (hnew : isNewKey keys seen (keyOf keys row) = true)
    (h : RowsOf g r keys (seen ++ [keyOf keys row]) rows) :
    RowsOf g r keys seen (row :: rows) := by
  obtain ⟨hfresh, hdistinct⟩ := fresh_cons_iff.mpr ⟨hnew, h.fresh, h.distinct⟩
  exact ⟨List.forall_mem_cons.mpr ⟨hrow, h.conform⟩, List.forall_mem_cons.mpr ⟨hkeyed, h.keyed⟩,
    hfresh, hdistinct⟩

/-! ## The tree -/

mutual

theorem read_conforms : ∀ (n : Node) (entry : Option Span) (t : TypeRef) (subject : Subject),
    Reads (Conforms c.types · t) (c.read n entry t subject)
  | .scalar id span value, entry, t, subject => by
      unfold read
      refine choose_conforms fun u => ?_
      split
      · next p hp => exact readPrimitive_conforms hp _ _
      · exact Reads.refuse rfl
      · exact Reads.refuse rfl
      · exact Reads.refuse rfl
      · exact mismatch_refuses ..
  | .array id span items, entry, t, subject => by
      unfold read
      refine choose_conforms fun u => ?_
      split
      · next element hdef =>
        exact (readItems_conforms items element subject 0).map fun _ h => .array hdef h
      · next constraint keys hdef =>
        split
        · exact Reads.refuse rfl
        · next r hr =>
          exact (readRows_conforms items r u constraint keys subject 0 []).map fun _ h =>
            .table hdef (record_of_record? hr) h.conform h.keyed h.distinct
      · exact Reads.refuse rfl
      · exact Reads.refuse rfl
      · exact Reads.refuse rfl
      · exact mismatch_refuses ..
  | .table id span entries, entry, t, subject => by
      unfold read
      refine choose_conforms fun u => ?_
      split
      · next r hdef =>
        refine (readFields_conforms entries r _ _ subject).bind fun fields hfields => ?_
        exact (recordOf_conforms hfields).map fun _ h => .record hdef h.1
      · next constraint readonly hdef =>
        exact (readMap_conforms entries constraint subject).map fun _ h => .map hdef h
      · exact Reads.refuse rfl
      · exact Reads.refuse rfl
      · exact Reads.refuse rfl
      · exact mismatch_refuses ..

theorem readItems_conforms : ∀ (ns : List Node) (element : TypeRef) (subject : Subject)
    (index : Nat), Reads (fun vs => ∀ v ∈ vs, Conforms c.types v element)
      (c.readItems ns element subject index)
  | [], _, _, _ => by simp [readItems]
  | n :: ns, element, subject, index => by
      unfold readItems
      refine (read_conforms n none element (subject.element index)).bind fun v hv => ?_
      refine (readItems_conforms ns element subject (index + 1)).bind fun vs hvs => ?_
      exact List.forall_mem_cons.mpr ⟨hv, hvs⟩

theorem readFields_conforms : ∀ (es : List (EntryOf Node)) (r : RecordType) (title : String)
    (site : Site) (subject : Subject),
    Reads (FieldsOf c.types r es) (c.readFields es r title site subject)
  | [], _, _, _, _ => by
      unfold readFields
      exact .nil
  | e :: es, r, title, site, subject => by
      unfold readFields
      refine (fieldType_reads r title site e).bind fun u hu => ?_
      refine (read_conforms e.node e.span u (subject.fieldOf e.key)).bind fun v hv => ?_
      refine (readFields_conforms es r title site subject).bind fun fields hfields => ?_
      exact hfields.cons hu hv

theorem readRows_conforms : ∀ (ns : List Node) (r : RecordType) (t constraint : TypeRef)
    (keys : List String) (subject : Subject) (index : Nat) (seen : List (List Value)),
    Reads (RowsOf c.types r keys seen)
      (c.readRows ns r t constraint keys subject index seen)
  | [], _, _, _, _, _, _, _ => by
      unfold readRows
      exact .nil
  | .table id span entries :: ns, r, t, constraint, keys, subject, index, seen => by
      unfold readRows
      simp only
      split
      · next d hd =>
        obtain ⟨key, -, rfl⟩ := Option.map_eq_some_iff.mp hd
        exact Reads.refuse rfl
      · next hmissing =>
        refine (readFields_conforms entries r _ _ subject).bind fun fields hfields => ?_
        refine (recordOf_conforms hfields).bind fun row hrow => ?_
        obtain ⟨hconforms, hrowFields⟩ := hrow
        split
        · next hnew =>
          refine (readRows_conforms ns r t constraint keys subject (index + 1) _).bind
            fun rows hrows => ?_
          refine RowsOf.cons hconforms (fun key hkey => ?_) hnew hrows
          refine get?_isSome_of_entry id span (by rw [hrowFields, hfields.names]) ?_
          have := List.find?_eq_none.mp (Option.map_eq_none_iff.mp hmissing) key hkey
          simpa [Option.isSome_iff_ne_none] using this
        · exact Reads.refuse rfl
  | .scalar id span value :: ns, r, t, constraint, keys, subject, index, seen => by
      unfold readRows
      exact mismatch_refuses ..
  | .array id span items :: ns, r, t, constraint, keys, subject, index, seen => by
      unfold readRows
      exact mismatch_refuses ..

theorem readMap_conforms : ∀ (es : List (EntryOf Node)) (constraint : TypeRef)
    (subject : Subject), Reads (fun entries => ∀ e ∈ entries, Conforms c.types e.2 constraint)
      (c.readMap es constraint subject)
  | [], _, _ => by simp [readMap]
  | e :: es, constraint, subject => by
      unfold readMap
      refine (read_conforms e.node e.span constraint (subject.fieldOf e.key)).bind fun v hv => ?_
      refine (readMap_conforms es constraint subject).bind fun entries hentries => ?_
      exact List.forall_mem_cons.mpr ⟨hv, hentries⟩

end

/-- What is read as a value of a kind conforms to the type if the type has this kind, and
all else is refused with an error about the value. -/
theorem readAs_reads (kind : Kind) (site : Site) (t : TypeRef) (subject : Subject) :
    Reads (fun v => Kind.ofType? c.types t = some kind → Conforms c.types v t)
      (c.readAs kind site t subject) := by
  unfold readAs
  split
  · next p =>
    exact (readPrimitive_reads p site t subject).imp (fun _ hd => hd)
      fun _ hv hk => hv (primitive_of_kind hk)
  · split
    · exact (read_conforms site.node site.entry t subject).imp (fun _ hd => hd)
        fun _ hv _ => hv
    · exact mismatch_refuses ..

end Configurable.Conversion.Reading
