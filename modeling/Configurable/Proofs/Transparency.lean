import Configurable.Proofs.Recursion
import Configurable.Proofs.SameShape
import Configurable.Proofs.SchemaAgreement

/-!
# Types of the same shape take the same values

What a node stands for as a value of a type it stands for as a value of a related type as well
(`carries`), but for the names of record types, in which wrappers show. This is an induction on
the node, with one lemma for each way in which nodes are made of others; types may contain
themselves, and nothing is an induction on them.

One thing could make a difference. The rows of a table have different keys by an equality of
values that looks at the names of record types. Of two values of one type it does not matter
(`sameUnnamed_of_means`), since the parts of both are read against the same types.
-/

namespace Configurable

open Toml (Node Entry EntryOf)

/-! ## Values without the names of types -/

namespace Value

mutual

/-- The value with no names of record types in it. -/
def unnamed : Value → Value
  | .int n => .int n
  | .byte n => .byte n
  | .boolean b => .boolean b
  | .float x => .float x
  | .decimal d => .decimal d
  | .string s => .string s
  | .xml text => .xml text
  | .array items => .array (unnamedItems items)
  | .record ⟨_, fields⟩ => .record ⟨"", unnamedFields fields⟩
  | .table ⟨keys, rows⟩ => .table ⟨keys, unnamedRows rows⟩
  | .map entries => .map (unnamedFields entries)

def unnamedItems : List Value → List Value
  | [] => []
  | v :: vs => v.unnamed :: unnamedItems vs

def unnamedFields : List (String × Value) → List (String × Value)
  | [] => []
  | (name, v) :: fs => (name, v.unnamed) :: unnamedFields fs

def unnamedRows : List (RecordOf Value) → List (RecordOf Value)
  | [] => []
  | ⟨_, fields⟩ :: rows => ⟨"", unnamedFields fields⟩ :: unnamedRows rows

end

theorem unnamedItems_eq : ∀ items : List Value, unnamedItems items = items.map unnamed
  | [] => rfl
  | v :: vs => by rw [unnamedItems, unnamedItems_eq vs, List.map_cons]

/-- A field with no names of record types in its value. -/
def unnamedField (field : String × Value) : String × Value := (field.1, field.2.unnamed)

theorem unnamedFields_eq : ∀ fields : List (String × Value),
    unnamedFields fields = fields.map unnamedField
  | [] => rfl
  | (name, v) :: fs => by rw [unnamedFields, unnamedFields_eq fs, List.map_cons, unnamedField]

end Value

namespace RecordOf

def unnamed (r : Record) : Record := ⟨"", r.fields.map Value.unnamedField⟩

theorem get?_unnamed {r : Record} {name : String} :
    r.unnamed.get? name = (r.get? name).map Value.unnamed := by
  obtain ⟨title, fields⟩ := r
  show Entries.get? (fields.map Value.unnamedField) name = (Entries.get? fields name).map _
  induction fields with
  | nil => rfl
  | cons field fields ih =>
      obtain ⟨own, v⟩ := field
      by_cases hname : own = name <;> simp [Entries.get?, Value.unnamedField, hname, ih]

end RecordOf

namespace Value

theorem unnamedRows_eq : ∀ rows : List Record, unnamedRows rows = rows.map RecordOf.unnamed
  | [] => rfl
  | ⟨title, fields⟩ :: rows => by
      rw [unnamedRows, unnamedRows_eq rows, List.map_cons, unnamedFields_eq, RecordOf.unnamed]

variable {items : List Value} {row : Record} {keys : List String} {rows : List Record}
  {entries : List (String × Value)}

@[simp] theorem unnamed_array : (array items).unnamed = .array (items.map unnamed) := by
  rw [unnamed, unnamedItems_eq]

@[simp] theorem unnamed_record : (record row).unnamed = .record row.unnamed := by
  obtain ⟨title, fields⟩ := row
  rw [unnamed, unnamedFields_eq, RecordOf.unnamed]

@[simp] theorem unnamed_table :
    (table ⟨keys, rows⟩).unnamed = .table ⟨keys, rows.map RecordOf.unnamed⟩ := by
  rw [unnamed, unnamedRows_eq]

@[simp] theorem unnamed_map : (map entries).unnamed = .map (entries.map unnamedField) := by
  rw [unnamed, unnamedFields_eq]

theorem eq_record_of_unnamed {v : Value} (h : v.unnamed = .record row) :
    ∃ row', v = .record row' ∧ row'.unnamed = row := by
  cases v with
  | record row' => exact ⟨row', rfl, record.inj (unnamed_record.symm.trans h)⟩
  | table t => simp [unnamed] at h
  | _ => simp [unnamed] at h

/-! ## Equality without names

The names of record types take part in the equality of values, so leaving them out may make
values equal. Two values of one type cannot become equal in this way. -/

/-- Leaving the names out does not make the values equal. -/
def SameUnnamed (v w : Value) : Prop := v.unnamed.same w.unnamed = v.same w

theorem sameItems_unnamed : ∀ {vs ws : List Value}, (∀ v ∈ vs, ∀ w ∈ ws, v.SameUnnamed w) →
    sameItems (vs.map unnamed) (ws.map unnamed) = sameItems vs ws
  | [], [], _ => rfl
  | [], _ :: _, _ => by simp [sameItems]
  | _ :: _, [], _ => by simp [sameItems]
  | v :: vs, w :: ws, h => by
      have hrest := sameItems_unnamed fun x hx y hy =>
        h x (List.mem_cons_of_mem v hx) y (List.mem_cons_of_mem w hy)
      have hfirst : v.unnamed.same w.unnamed = v.same w :=
        h v (List.mem_cons_self ..) w (List.mem_cons_self ..)
      rw [List.map_cons, List.map_cons, sameItems, sameItems, hfirst, hrest]

theorem sameFields_unnamed : ∀ {as bs : List (String × Value)},
    (∀ name v w, (name, v) ∈ as → Entries.get? bs name = some w → v.SameUnnamed w) →
    sameFields (as.map unnamedField) (bs.map unnamedField) = sameFields as bs
  | [], _, _ => by simp [sameFields]
  | (name, v) :: as, bs, h => by
      have hrest := sameFields_unnamed fun name' x y hx =>
        h name' x y (List.mem_cons_of_mem _ hx)
      have hget : Entries.get? (bs.map unnamedField) name = (Entries.get? bs name).map unnamed :=
        RecordOf.get?_unnamed (r := ⟨"", bs⟩)
      rw [List.map_cons, unnamedField, sameFields, sameFields, hget, hrest]
      cases hw : Entries.get? bs name with
      | none => rfl
      | some w =>
          have hfirst : v.unnamed.same w.unnamed = v.same w :=
            h name v w (List.mem_cons_self ..) hw
          simp only [Option.map_some, hfirst]

theorem sameUnnamed_record {row row' : Record} (htitle : row.typeName = row'.typeName)
    (h : ∀ name v w, (name, v) ∈ row.fields → row'.get? name = some w → v.SameUnnamed w) :
    (record row).SameUnnamed (.record row') := by
  have hfields := sameFields_unnamed h
  obtain ⟨title, fields⟩ := row
  obtain ⟨title', fields'⟩ := row'
  obtain rfl : title = title' := htitle
  simp [SameUnnamed, RecordOf.unnamed, same, hfields]

theorem sameUnnamed_array {vs ws : List Value} (h : ∀ v ∈ vs, ∀ w ∈ ws, v.SameUnnamed w) :
    (array vs).SameUnnamed (.array ws) := by
  rw [SameUnnamed, unnamed_array, unnamed_array, same, same, sameItems_unnamed h]

theorem sameUnnamed_map {as bs : List (String × Value)}
    (h : ∀ name v w, (name, v) ∈ as → Entries.get? bs name = some w → v.SameUnnamed w) :
    (map as).SameUnnamed (.map bs) := by
  rw [SameUnnamed, unnamed_map, unnamed_map, same, same, List.length_map, List.length_map,
    sameFields_unnamed h]

theorem sameRows_cons (row row' : Record) (rows rows' : List Record) :
    sameRows (row :: rows) (row' :: rows') =
      ((record row).same (.record row') && sameRows rows rows') := by
  cases row
  cases row'
  rw [sameRows, same]

theorem sameRows_unnamed : ∀ {rows rows' : List Record},
    (∀ row ∈ rows, ∀ row' ∈ rows', (record row).SameUnnamed (.record row')) →
    sameRows (rows.map RecordOf.unnamed) (rows'.map RecordOf.unnamed) = sameRows rows rows'
  | [], [], _ => rfl
  | [], _ :: _, _ => by simp [sameRows]
  | _ :: _, [], _ => by simp [sameRows]
  | row :: rows, row' :: rows', h => by
      have hrest := sameRows_unnamed fun x hx y hy =>
        h x (List.mem_cons_of_mem row hx) y (List.mem_cons_of_mem row' hy)
      have hfirst := h row (List.mem_cons_self ..) row' (List.mem_cons_self ..)
      rw [SameUnnamed, unnamed_record, unnamed_record] at hfirst
      rw [List.map_cons, List.map_cons, sameRows_cons, sameRows_cons, hfirst, hrest]

theorem sameUnnamed_table {keys : List String} {rows rows' : List Record}
    (h : ∀ row ∈ rows, ∀ row' ∈ rows', (record row).SameUnnamed (.record row')) :
    (table ⟨keys, rows⟩).SameUnnamed (.table ⟨keys, rows'⟩) := by
  rw [SameUnnamed, unnamed_table, unnamed_table, same, same, sameRows_unnamed h]

end Value

namespace Conversion.Reading

/-! ## Lists side by side -/

theorem exists_of_mem_right {α β : Type} {R : α → β → Prop} {as : List α} {bs : List β}
    (h : List.Forall₂ R as bs) {b : β} (hb : b ∈ bs) : ∃ a ∈ as, R a b := by
  induction h with
  | nil => cases hb
  | cons hab _ ih =>
      rcases List.mem_cons.mp hb with rfl | hmem
      · exact ⟨_, List.mem_cons_self .., hab⟩
      · obtain ⟨a, ha, hr⟩ := ih hmem
        exact ⟨a, List.mem_cons_of_mem _ ha, hr⟩

theorem exists_forall₂_of_forall₂ {α β γ : Type} {R R' : α → β → Prop} {f : β → γ} {as : List α}
    {bs : List β} (h : List.Forall₂ R as bs)
    (hstep : ∀ a ∈ as, ∀ b, R a b → ∃ b', R' a b' ∧ f b' = f b) :
    ∃ bs', List.Forall₂ R' as bs' ∧ bs'.map f = bs.map f := by
  induction h with
  | nil => exact ⟨[], .nil, rfl⟩
  | cons hab _ ih =>
      obtain ⟨hfirst, hrest⟩ := List.forall_mem_cons.mp hstep
      obtain ⟨b', hb', hf⟩ := hfirst _ hab
      obtain ⟨bs', hbs', hfs⟩ := ih hrest
      exact ⟨b' :: bs', .cons hb' hbs', by rw [List.map_cons, List.map_cons, hf, hfs]⟩

theorem exists_split_of_forall₂ {α β : Type} {R : α → β → Prop} {a : α} {after : List α} :
    ∀ {before : List α} {bs : List β}, List.Forall₂ R (before ++ a :: after) bs →
      ∃ before' b after', bs = before' ++ b :: after' ∧ List.Forall₂ R before before' ∧ R a b
  | [], _, .cons hab _ => ⟨[], _, _, rfl, .nil, hab⟩
  | _ :: _, _, .cons hfirst hrest => by
      obtain ⟨before', b, after', rfl, hbefore, hab⟩ := exists_split_of_forall₂ hrest
      exact ⟨_ :: before', b, after', rfl, .cons hfirst hbefore, hab⟩

variable {c : Reading} {t u : TypeRef} {n m : Node} {v w : Value}

/-! ## Values of one type -/

theorem Written.unnamed_eq {p : Primitive} (h : Written c p n v) : v.unnamed = v := by
  cases h <;> rfl

theorem means_primitive_iff {p : Primitive} (hp : c.types.effectiveDef t = .primitive p) :
    c.Means n t v ↔ Written c p n v := by
  have hprimitive : c.types.isPrimitive t = true := by
    simp [TypeGraph.isPrimitive, TypeGraph.primitive?, hp]
  rw [means_iff (TypeGraph.admitted_of_isPrimitive hprimitive).readable, Clause, hp]

theorem unnamed_eq_of_isPrimitive (ht : c.types.isPrimitive t = true) (h : c.Means n t v) :
    v.unnamed = v := by
  obtain ⟨p, hp⟩ := Option.isSome_iff_exists.mp ht
  exact ((means_primitive_iff (primitive_of_primitive? hp)).mp h).unnamed_eq

theorem admitted_of_record? (h : (c.types.record? t).isSome = true) : c.types.Admitted t := by
  obtain ⟨r, hr⟩ := Option.isSome_iff_exists.mp h
  exact ⟨false, by simp [TypeGraph.isConfigurableWith, record_of_record? hr]⟩

/-- A field of a record is what an entry stands for. -/
theorem exists_entry_of_field {r : RecordType} {entries : List Entry}
    {fields : List (String × Value)} (h : List.Forall₂ (fun e field => field.1 = e.key ∧
      ∃ u, r.typeOf? e.key = some u ∧ c.types.isConfigurableField u = true ∧
        c.Means e.node u field.2) entries fields) {name : String} (hv : (name, v) ∈ fields) :
    ∃ e ∈ entries, ∃ u, r.typeOf? name = some u ∧ c.types.Admitted u ∧ c.Means e.node u v := by
  obtain ⟨e, he, rfl, u, hu, hconf, hmeans⟩ := exists_of_mem_right h hv
  exact ⟨e, he, u, hu, ⟨true, hconf⟩, hmeans⟩

/-- Names do not tell values of one type apart. -/
theorem sameUnnamed_of_means (n : Node) {m : Node} {t : TypeRef} {v w : Value}
    (ht : c.types.Admitted t) (hv : c.Means n t v) (hw : c.Means m t w) : v.SameUnnamed w := by
  have hclause := (means_iff ht.readable).mp hv
  have hclause' := (means_iff ht.readable).mp hw
  unfold Clause at hclause hclause'
  cases hdef : c.types.effectiveDef t with
  | primitive p =>
      simp only [hdef] at hclause hclause'
      rw [Value.SameUnnamed, hclause.unnamed_eq, hclause'.unnamed_eq]
  | array element =>
      simp only [hdef] at hclause hclause'
      obtain ⟨id, span, items, values, hn, rfl, hvalues⟩ := hclause
      obtain ⟨_, _, items', values', rfl, rfl, hvalues'⟩ := hclause'
      have helement : c.types.Admitted element := ht.part (by simp [TypeGraph.IsPart, hdef])
      refine Value.sameUnnamed_array fun x hx y hy => ?_
      obtain ⟨item, hitem, hmeans⟩ := exists_of_mem_right hvalues hx
      obtain ⟨item', -, hmeans'⟩ := exists_of_mem_right hvalues' hy
      exact sameUnnamed_of_means item helement hmeans hmeans'
  | record r =>
      simp only [hdef] at hclause hclause'
      obtain ⟨id, span, entries, row, hn, rfl, hcompletes, hfields⟩ := hclause
      obtain ⟨_, _, entries', row', rfl, rfl, hcompletes', hfields'⟩ := hclause'
      refine Value.sameUnnamed_record (hcompletes.title.trans hcompletes'.title.symm)
        fun name x y hx hy => ?_
      obtain ⟨e, he, u, hu, hadmitted, hmeans⟩ := exists_entry_of_field hfields hx
      obtain ⟨e', -, u', hu', -, hmeans'⟩ := exists_entry_of_field hfields' (Entries.mem_of_get? hy)
      obtain rfl := Option.some.inj (hu.symm.trans hu')
      exact sameUnnamed_of_means e.node hadmitted hmeans hmeans'
  | table constraint keys =>
      simp only [hdef] at hclause hclause'
      obtain ⟨id, span, items, rows, hn, rfl, hrecord, hrows, -⟩ := hclause
      obtain ⟨_, _, items', rows', rfl, rfl, -, hrows', -⟩ := hclause'
      have hconstraint := admitted_of_record? hrecord
      refine Value.sameUnnamed_table fun x hx y hy => ?_
      obtain ⟨item, hitem, -, hmeans⟩ := exists_of_mem_right hrows hx
      obtain ⟨item', -, -, hmeans'⟩ := exists_of_mem_right hrows' hy
      exact sameUnnamed_of_means item hconstraint hmeans hmeans'
  | map constraint readonly =>
      simp only [hdef] at hclause hclause'
      obtain ⟨id, span, entries, values, hn, rfl, hvalues⟩ := hclause
      obtain ⟨_, _, entries', values', rfl, rfl, hvalues'⟩ := hclause'
      have hconstraint : c.types.Admitted constraint := ht.part (by simp [TypeGraph.IsPart, hdef])
      refine Value.sameUnnamed_map fun name x y hx hy => ?_
      obtain ⟨e, he, -, hmeans⟩ := exists_of_mem_right hvalues hx
      obtain ⟨e', -, -, hmeans'⟩ := exists_of_mem_right hvalues' (Entries.mem_of_get? hy)
      exact sameUnnamed_of_means e.node hconstraint hmeans hmeans'
  | union members =>
      simp only [hdef] at hclause hclause'
      obtain ⟨before, u, after, rfl, hmeans, -⟩ := hclause
      obtain ⟨before', u', after', hmembers, hmeans', -⟩ := hclause'
      have hmem : u ∈ before ++ u :: after := List.mem_append_right _ (List.mem_cons_self ..)
      have hmem' : u' ∈ before ++ u :: after :=
        hmembers ▸ List.mem_append_right before' (List.mem_cons_self ..)
      have hu := ht.isPrimitive_of_isMember ⟨_, hdef, hmem⟩
      have hu' := ht.isPrimitive_of_isMember ⟨_, hdef, hmem'⟩
      rw [Value.SameUnnamed, unnamed_eq_of_isPrimitive hu hmeans,
        unnamed_eq_of_isPrimitive hu' hmeans']
  | readonly => simp only [hdef] at hclause
  | intersection constituents effective => simp only [hdef] at hclause
  | tuple tuple => simp only [hdef] at hclause
termination_by sizeOf n
decreasing_by
  · exact hn ▸ TypeGraph.sizeOf_item_lt hitem
  · exact hn ▸ TypeGraph.sizeOf_entry_lt he
  · exact hn ▸ TypeGraph.sizeOf_item_lt hitem
  · exact hn ▸ TypeGraph.sizeOf_entry_lt he

/-! ## Keys of rows -/

theorem sameItems_keys_unnamed {x y : Record} : ∀ {keys : List String},
    (∀ key ∈ keys, ∃ v w, x.get? key = some v ∧ y.get? key = some w ∧ v.SameUnnamed w) →
    Value.sameItems (keys.filterMap x.unnamed.get?) (keys.filterMap y.unnamed.get?) =
      Value.sameItems (keys.filterMap x.get?) (keys.filterMap y.get?)
  | [], _ => rfl
  | key :: keys, h => by
      obtain ⟨⟨v, w, hv, hw, hsame⟩, hrest⟩ := List.forall_mem_cons.mp h
      have hv' : x.unnamed.get? key = some v.unnamed := by rw [RecordOf.get?_unnamed, hv]; rfl
      have hw' : y.unnamed.get? key = some w.unnamed := by rw [RecordOf.get?_unnamed, hw]; rfl
      rw [List.filterMap_cons_some hv, List.filterMap_cons_some hw, List.filterMap_cons_some hv',
        List.filterMap_cons_some hw', Value.sameItems, Value.sameItems, hsame,
        sameItems_keys_unnamed hrest]

theorem exists_key_of_means {r : RecordType} {row : Record} {key : String}
    (hr : c.types.effectiveDef t = .record r) (h : c.Means n t (.record row))
    (hkey : (n.entry? key).isSome = true) :
    ∃ v e u, row.get? key = some v ∧ r.typeOf? key = some u ∧ c.types.Admitted u ∧
      c.Means (EntryOf.node e) u v := by
  obtain ⟨id, span, entries, rfl, -, hfields⟩ := (means_record_iff hr).mp h
  rw [fieldsMean_iff] at hfields
  obtain ⟨e, he⟩ := Option.isSome_iff_exists.mp hkey
  have hlisted : ∃ e ∈ entries, e.key = key :=
    ⟨e, List.mem_of_find?_eq_some he, by simpa using List.find?_some he⟩
  obtain ⟨v, hv⟩ := Option.isSome_iff_exists.mp ((isSome_get?_iff hfields key).mpr hlisted)
  obtain ⟨e', -, u, hu, hadmitted, hmeans⟩ := exists_entry_of_field hfields (Entries.mem_of_get? hv)
  exact ⟨v, e', u, hv, hu, hadmitted, hmeans⟩

/-- Rows of one type have different keys just if they have without the names. -/
theorem distinctKeys_unnamed {constraint : TypeRef} {keys : List String} {items : List Node}
    {rows : List Record} (hrecord : (c.types.record? constraint).isSome = true)
    (h : List.Forall₂ (fun item row => (∀ key ∈ keys, (item.entry? key).isSome = true) ∧
      c.Means item constraint (.record row)) items rows) :
    DistinctKeys keys (rows.map RecordOf.unnamed) ↔ DistinctKeys keys rows := by
  obtain ⟨r, hr⟩ := Option.isSome_iff_exists.mp hrecord
  refine forall_congr' fun _ => ?_
  rw [List.pairwise_map]
  refine List.Pairwise.iff_of_mem fun {x y} hx hy => ?_
  obtain ⟨item, -, hkeys, hmeans⟩ := exists_of_mem_right h hx
  obtain ⟨item', -, hkeys', hmeans'⟩ := exists_of_mem_right h hy
  rw [sameItems_keys_unnamed fun key hkey => ?_]
  obtain ⟨v, e, u, hv, hu, hadmitted, hv'⟩ :=
    exists_key_of_means (record_of_record? hr) hmeans (hkeys key hkey)
  obtain ⟨w, e', u', hw, hu', -, hw'⟩ :=
    exists_key_of_means (record_of_record? hr) hmeans' (hkeys' key hkey)
  obtain rfl := Option.some.inj (hu.symm.trans hu')
  exact ⟨v, w, hv, hw, sameUnnamed_of_means e.node hadmitted hv' hw'⟩

/-! ## What related types take -/

variable {S : TypeRef → TypeRef → Prop} {a b : TypeRef}

theorem means_iff_of_isPrimitive (h : c.types.KeepsShapes S) (hab : S a b)
    (hp : c.types.isPrimitive a = true) : c.Means n a v ↔ c.Means n b v := by
  obtain ⟨p, hpa⟩ := Option.isSome_iff_exists.mp hp
  have hpb : c.types.primitive? b = some p := (h.primitive?_eq hab).symm.trans hpa
  rw [means_primitive_iff (primitive_of_primitive? hpa),
    means_primitive_iff (primitive_of_primitive? hpb)]

/-- What the node stands for as a value of a type it stands for as a value of a related type as
well, but for the names of record types. -/
def Carries (c : Reading) (S : TypeRef → TypeRef → Prop) (n : Node) : Prop :=
  ∀ a b v, S a b → c.types.Admitted a → c.Means n a v → ∃ w, c.Means n b w ∧ w.unnamed = v.unnamed

theorem carries_items {items : List Node} {element element' : TypeRef} {values : List Value}
    (hitems : ∀ item ∈ items, c.Carries S item) (helement : S element element')
    (hadmitted : c.types.Admitted element)
    (h : List.Forall₂ (fun item value => c.Means item element value) items values) :
    ∃ values', List.Forall₂ (fun item value => c.Means item element' value) items values' ∧
      values'.map Value.unnamed = values.map Value.unnamed :=
  exists_forall₂_of_forall₂ h fun item hitem value hvalue =>
    hitems item hitem element element' value helement hadmitted hvalue

theorem unnamedField_eq {field : String × Value} {w : Value} (h : w.unnamed = field.2.unnamed) :
    Value.unnamedField (field.1, w) = Value.unnamedField field := by
  rw [Value.unnamedField, Value.unnamedField, h]

theorem carries_entries {entries : List Entry} {constraint constraint' : TypeRef}
    {values : List (String × Value)} (hentries : ∀ e ∈ entries, c.Carries S e.node)
    (hconstraint : S constraint constraint') (hadmitted : c.types.Admitted constraint)
    (h : List.Forall₂ (fun e value => value.1 = e.key ∧ c.Means e.node constraint value.2)
      entries values) :
    ∃ values', List.Forall₂ (fun e value => value.1 = e.key ∧
        c.Means e.node constraint' value.2) entries values' ∧
      values'.map Value.unnamedField = values.map Value.unnamedField := by
  refine exists_forall₂_of_forall₂ h fun e he value hvalue => ?_
  obtain ⟨hname, hmeans⟩ := hvalue
  obtain ⟨w, hw, hsame⟩ := hentries e he constraint constraint' _ hconstraint hadmitted hmeans
  exact ⟨(value.1, w), ⟨hname, hw⟩, unnamedField_eq hsame⟩

theorem carries_fields (hS : c.types.KeepsShapes S) {entries : List Entry} {r r' : RecordType}
    {fields : List (String × Value)} (hentries : ∀ e ∈ entries, c.Carries S e.node)
    (hfields : List.Forall₂ (SameField S) r.fields r'.fields) (hrest : Option.Rel S r.rest r'.rest)
    (h : List.Forall₂ (fun e field => field.1 = e.key ∧ ∃ u, r.typeOf? e.key = some u ∧
      c.types.isConfigurableField u = true ∧ c.Means e.node u field.2) entries fields) :
    ∃ fields', List.Forall₂ (fun e field => field.1 = e.key ∧ ∃ u, r'.typeOf? e.key = some u ∧
        c.types.isConfigurableField u = true ∧ c.Means e.node u field.2) entries fields' ∧
      fields'.map Value.unnamedField = fields.map Value.unnamedField := by
  refine exists_forall₂_of_forall₂ h fun e he field hfield => ?_
  obtain ⟨hname, u, hu, hconf, hmeans⟩ := hfield
  obtain ⟨u', hu', huu'⟩ := RecordType.exists_typeOf? hfields hrest hu
  obtain ⟨w, hw, hsame⟩ := hentries e he u u' _ huu' ⟨true, hconf⟩ hmeans
  have hconf' : c.types.isConfigurableField u' = true :=
    (hS.isConfigurableWith_eq huu' true).symm.trans hconf
  exact ⟨(field.1, w), ⟨hname, u', hu', hconf', hw⟩, unnamedField_eq hsame⟩

theorem carries_rows {items : List Node} {constraint constraint' : TypeRef} {keys : List String}
    {rows : List Record} (hitems : ∀ item ∈ items, c.Carries S item)
    (hconstraint : S constraint constraint') (hadmitted : c.types.Admitted constraint)
    (h : List.Forall₂ (fun item row => (∀ key ∈ keys, (item.entry? key).isSome = true) ∧
      c.Means item constraint (.record row)) items rows) :
    ∃ rows', List.Forall₂ (fun item row => (∀ key ∈ keys, (item.entry? key).isSome = true) ∧
        c.Means item constraint' (.record row)) items rows' ∧
      rows'.map RecordOf.unnamed = rows.map RecordOf.unnamed := by
  refine exists_forall₂_of_forall₂ h fun item hitem row hrow => ?_
  obtain ⟨hkeys, hmeans⟩ := hrow
  obtain ⟨w, hw, hsame⟩ := hitems item hitem constraint constraint' _ hconstraint hadmitted hmeans
  obtain ⟨row', rfl, hrow'⟩ := Value.eq_record_of_unnamed (hsame.trans Value.unnamed_record)
  exact ⟨row', ⟨hkeys, hw⟩, hrow'⟩

theorem completes_of_unnamed {r r' : RecordType} {title title' : String} {row row' : Record}
    (hfields : List.Forall₂ (SameField S) r.fields r'.fields) (h : Completes r title row)
    (htitle : row'.typeName = title') (hrow : row'.unnamed = row.unnamed) :
    Completes r' title' row' := by
  refine ⟨htitle, fun f' hf' hrequired => ?_⟩
  obtain ⟨f, hf, hname, hsame, -⟩ := exists_of_mem_right hfields hf'
  have hpresent := h.required f hf (hsame.trans hrequired)
  have hget : ((row'.get? f'.name).map Value.unnamed) = (row.get? f'.name).map Value.unnamed := by
    rw [← RecordOf.get?_unnamed, ← RecordOf.get?_unnamed, hrow]
  rw [← Option.isSome_map, hget, Option.isSome_map, ← hname]
  exact hpresent

/-- Every node carries over, by what its items and entries carry over. -/
theorem carries (hS : c.types.KeepsShapes S) (n : Node) : c.Carries S n := by
  intro a b v hab ha hv
  have hb : c.types.Admitted b := hS.admitted hab ha
  have hclause := (means_iff ha.readable).mp hv
  have hshape := hS a b hab
  generalize hda : c.types.effectiveDef a = da, hdb : c.types.effectiveDef b = db at hshape
  rw [Clause, hda] at hclause
  simp only [means_iff hb.readable, Clause, hdb]
  cases hshape with
  | primitive p => exact ⟨v, hclause, rfl⟩
  | @array element element' helement =>
      obtain ⟨id, span, items, values, hn, rfl, hvalues⟩ := hclause
      have hadmitted : c.types.Admitted element := ha.part (by simp [TypeGraph.IsPart, hda])
      obtain ⟨values', hvalues', hsame⟩ :=
        carries_items (fun item hitem => carries hS item) helement hadmitted hvalues
      refine ⟨.array values', ⟨id, span, items, values', hn, rfl, hvalues'⟩, ?_⟩
      rw [Value.unnamed_array, Value.unnamed_array, hsame]
  | record _ _ hfields hrest =>
      obtain ⟨id, span, entries, row, hn, rfl, hcompletes, hmeans⟩ := hclause
      obtain ⟨fields, hmeans', hsame⟩ :=
        carries_fields hS (fun e he => carries hS e.node) hfields hrest hmeans
      let row' : Record := ⟨c.types.render (c.types.effective b), fields⟩
      have hrow : row'.unnamed = row.unnamed := congrArg (RecordOf.mk "") hsame
      refine ⟨.record row', ⟨id, span, entries, row', hn, rfl,
        completes_of_unnamed hfields hcompletes rfl hrow, hmeans'⟩, ?_⟩
      rw [Value.unnamed_record, Value.unnamed_record, hrow]
  | table keys hconstraint =>
      obtain ⟨id, span, items, rows, hn, rfl, hrecord, hrows, hdistinct⟩ := hclause
      obtain ⟨rows', hrows', hsame⟩ := carries_rows (fun item hitem => carries hS item) hconstraint
        (admitted_of_record? hrecord) hrows
      have hrecord' := (hS.isSome_record?_eq hconstraint).symm.trans hrecord
      have hdistinct' : DistinctKeys keys rows' := by
        rw [← distinctKeys_unnamed hrecord' hrows', hsame]
        exact (distinctKeys_unnamed hrecord hrows).mpr hdistinct
      refine ⟨.table ⟨keys, rows'⟩, ⟨id, span, items, rows', hn, rfl, hrecord', hrows',
        hdistinct'⟩, ?_⟩
      rw [Value.unnamed_table, Value.unnamed_table, hsame]
  | @map constraint constraint' readonly readonly' hconstraint =>
      obtain ⟨id, span, entries, values, hn, rfl, hvalues⟩ := hclause
      have hadmitted : c.types.Admitted constraint := ha.part (by simp [TypeGraph.IsPart, hda])
      obtain ⟨values', hvalues', hsame⟩ :=
        carries_entries (fun e he => carries hS e.node) hconstraint hadmitted hvalues
      refine ⟨.map values', ⟨id, span, entries, values', hn, rfl, hvalues'⟩, ?_⟩
      rw [Value.unnamed_map, Value.unnamed_map, hsame]
  | union hmembers =>
      obtain ⟨before, m, after, rfl, hmeans, hbefore⟩ := hclause
      obtain ⟨before', m', after', rfl, hbefores, hm⟩ := exists_split_of_forall₂ hmembers
      -- members are primitive, so related ones take the same values of the same node
      have hiff : ∀ u ∈ before ++ m :: after, ∀ u', S u u' → ∀ w,
          c.Means n u w ↔ c.Means n u' w := fun u hu u' huu' w =>
        means_iff_of_isPrimitive hS huu' (ha.isPrimitive_of_isMember ⟨_, hda, hu⟩)
      refine ⟨v, ⟨before', m', after', rfl, (hiff m (by simp) m' hm v).mp hmeans,
        fun u' hu' w hw => ?_⟩, rfl⟩
      obtain ⟨u, hu, huu'⟩ := exists_of_mem_right hbefores hu'
      exact hbefore u hu w ((hiff u (List.mem_append_left _ hu) u' huu' w).mpr hw)
  | readonly => exact hclause.elim
  | intersection => exact hclause.elim
  | tuple => exact hclause.elim
termination_by sizeOf n
decreasing_by
  · exact hn ▸ TypeGraph.sizeOf_item_lt hitem
  · exact hn ▸ TypeGraph.sizeOf_entry_lt he
  · exact hn ▸ TypeGraph.sizeOf_item_lt hitem
  · exact hn ▸ TypeGraph.sizeOf_entry_lt he

/-! ## Reading -/

theorem toOption_read_iff {entry : Option Text.Span} {subject : Subject}
    (ht : c.types.Admitted t) :
    (c.read n entry t subject).toOption = some v ↔ c.Means n t v := by
  rw [← read_iff n entry subject ht.readable]
  cases c.read n entry t subject <;> simp [Except.toOption]

/-- Reading gives the same at both types, if names do not count. -/
theorem read_unnamed_eq (hS : c.types.KeepsShapes S) (hab : S a b) (ha : c.types.Admitted a)
    (n : Node) (entry : Option Text.Span) (subject : Subject) :
    (c.read n entry a subject).toOption.map Value.unnamed =
      (c.read n entry b subject).toOption.map Value.unnamed := by
  have hb : c.types.Admitted b := hS.admitted hab ha
  cases hread : (c.read n entry a subject).toOption with
  | some v =>
      obtain ⟨w, hw, hsame⟩ := carries hS n a b v hab ha ((toOption_read_iff ha).mp hread)
      rw [(toOption_read_iff hb).mpr hw, Option.map_some, Option.map_some, hsame]
  | none =>
      cases hread' : (c.read n entry b subject).toOption with
      | some w =>
          obtain ⟨v, hv, -⟩ := carries hS.swap n b a w hab hb ((toOption_read_iff hb).mp hread')
          cases hread.symm.trans ((toOption_read_iff ha).mpr hv)
      | none => rfl

end Conversion.Reading

namespace TypeGraph

variable {g : TypeGraph} {S : TypeRef → TypeRef → Prop} {a b : TypeRef}

/-- **Wrappers are transparent.** Types that are related by a relation of this kind, such as a
type and the same type with `readonly` wrapped around any parts of it, can be configured alike
and have the same schema. Of a document they take the same nodes, with values that differ at
most in the names of record types. Arguments are read as values of the same kind and from the
same texts, with the same values and the same traces left behind. -/
theorem KeepsShapes.transparent (h : g.KeepsShapes S) (hab : S a b) :
    g.isConfigurable a = g.isConfigurable b ∧
    g.isConfigurableField a = g.isConfigurableField b ∧
    (g.Admitted a → ∀ document name n entry subject,
      (Conversion.Reading.read ⟨g, document, name⟩ n entry a subject).toOption.map Value.unnamed =
        (Conversion.Reading.read ⟨g, document, name⟩ n entry b subject).toOption.map
          Value.unnamed) ∧
    Kind.ofType? g a = Kind.ofType? g b ∧
    (∀ id required kind text, (Conversion.ofText g ⟨id, a, required⟩ kind text).toOption =
      (Conversion.ofText g ⟨id, b, required⟩ kind text).toOption) ∧
    (∀ id required (s : CommandLine),
      (Source.lookup g ⟨id, a, required⟩ s).1.toOption =
          (Source.lookup g ⟨id, b, required⟩ s).1.toOption ∧
        (Source.lookup g ⟨id, a, required⟩ s).2 = (Source.lookup g ⟨id, b, required⟩ s).2) ∧
    g.schema? a = g.schema? b :=
  ⟨h.isConfigurableWith_eq hab false, h.isConfigurableWith_eq hab true,
    fun ha document name => Conversion.Reading.read_unnamed_eq (c := ⟨g, document, name⟩) h hab ha,
    h.ofType?_eq hab,
    fun id required => Conversion.ofText_toOption_eq (v := ⟨id, a, required⟩)
      (w := ⟨id, b, required⟩) h hab,
    fun id required => CommandLine.lookup_eq (v := ⟨id, a, required⟩) (w := ⟨id, b, required⟩)
      h rfl hab,
    h.schema?_eq hab⟩

/-- Trees of labels, and the same with wrapped labels, wrapped lists and wrapped trees at every
depth. -/
theorem transparent_trees :
    let m : ModuleId := ⟨"o", "m", "1"⟩
    let g : TypeGraph := ⟨#[
      .record ⟨"Tree", m,
        [⟨"label", .primitive .string, true⟩, ⟨"inside", .defined 1, false⟩], none⟩,
      .array (.defined 0),
      readonlyOf (.defined 3),
      .record ⟨"Tree", m,
        [⟨"label", .defined 4, true⟩, ⟨"inside", .defined 5, false⟩], none⟩,
      readonlyOf (.primitive .string),
      readonlyOf (.defined 6),
      .array (.defined 2)]⟩
    let S : TypeRef → TypeRef → Prop := fun a b => (a, b) ∈ [(TypeRef.defined 0, TypeRef.defined 2),
      (.primitive .string, .defined 4), (.defined 1, .defined 5)]
    g.KeepsShapes S ∧ S (.defined 0) (.defined 2) ∧ g.isConfigurable (.defined 2) = true ∧
      ∀ document name n entry subject,
        (Conversion.Reading.read ⟨g, document, name⟩ n entry (.defined 0) subject).toOption.map
            Value.unnamed =
          (Conversion.Reading.read ⟨g, document, name⟩ n entry (.defined 2) subject).toOption.map
            Value.unnamed := by
  intro m g S
  have hS : g.KeepsShapes S := by
    intro a b hab
    simp only [S, List.mem_cons, Prod.mk.injEq, List.not_mem_nil, or_false] at hab
    obtain ⟨rfl, rfl⟩ | ⟨rfl, rfl⟩ | ⟨rfl, rfl⟩ := hab
    · exact .record rfl rfl (.cons ⟨rfl, rfl, by decide⟩ (.cons ⟨rfl, rfl, by decide⟩ .nil)) .none
    · exact .primitive .string
    · exact .array (by decide)
  have h : S (.defined 0) (.defined 2) := by decide
  obtain ⟨hconf, -, hread, -⟩ := hS.transparent h
  have hconfigurable : g.isConfigurable (.defined 0) = true := by decide
  exact ⟨hS, h, hconf.symm.trans hconfigurable, hread ⟨false, hconfigurable⟩⟩

end TypeGraph

end Configurable
