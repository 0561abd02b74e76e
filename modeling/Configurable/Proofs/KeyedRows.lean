import Configurable.Proofs.Reading
import Configurable.Proofs.UniqueKeys
import Configurable.Proofs.ValueEquality

/-!
# Rows by their keys

The rows of a table that was read have all key columns, and an earlier row's key values are not
the same as those of a later one; both are part of what conforming means. The search for a row
compares in the same order, so that it finds the row of every key that is the same as itself.

That no two rows have the same key, whichever is put first, takes more. The names of the fields
of a value are the keys of the table it was read from, so they are distinct if that has each key
once (`Node.Unambiguous`), and then it does not matter in which order values are compared. All
tables of documents are of this kind (`rows_of_document`).
-/

namespace Configurable

open Text (Span)
open Toml (Node Entry EntryOf)

namespace Conversion.Reading

variable {c : Reading} {keys : List String} {row : Record} {rows : List Record}

/-! ## Distinct names -/

/-- What is read satisfies `P`; nothing is asked of refusals. -/
abbrev Yields {α : Type} (P : α → Prop) (x : Except Diagnostic α) : Prop :=
  Judged (fun _ => True) P x

theorem distinctNames_single {v : Value} (hnames : v.names = []) (hparts : v.parts = []) :
    v.DistinctNames := by
  refine .intro (by simp [hnames]) fun w hw => ?_
  rw [hparts] at hw
  cases hw

theorem readPrimitive_distinct (p : Primitive) (site : Site) (t : TypeRef) (subject : Subject) :
    Yields Value.DistinctNames (c.readPrimitive p site t subject) := by
  have hsingle : ∀ {v : Value}, v.names = [] → v.parts = [] → v.DistinctNames :=
    distinctNames_single
  unfold readPrimitive
  split
  · exact hsingle rfl rfl
  · split
    · exact hsingle rfl rfl
    · trivial
  · exact hsingle rfl rfl
  · exact hsingle rfl rfl
  · exact hsingle rfl rfl
  · exact hsingle rfl rfl
  · split
    · exact hsingle rfl rfl
    · trivial
  · exact hsingle rfl rfl
  · split
    · next value hvalue =>
      unfold xml? at hvalue
      split at hvalue
      · exact Option.some.inj hvalue ▸ hsingle rfl rfl
      · cases hvalue
    · trivial
  · trivial

theorem choose_yields {P : Value → Prop} {site : Site} {t : TypeRef} {subject : Subject}
    {read : TypeRef → Except Diagnostic Value} (h : ∀ u, Yields P (read u)) :
    Yields P (c.choose site t subject read) :=
  choose_judged (fun u _ _ hread => (h u).of_ok hread) trivial (h t)

/-- Fields with the names of the entries they were read from. -/
structure NamedAs (entries : List Entry) (fields : List (String × Value)) : Prop where
  names : Entries.keys fields = entries.map EntryOf.key
  distinct : ∀ v ∈ fields.map Prod.snd, v.DistinctNames

theorem NamedAs.nil : NamedAs [] [] := ⟨rfl, by simp⟩

theorem NamedAs.cons {e : Entry} {es : List Entry} {v : Value} {fields : List (String × Value)}
    (hv : v.DistinctNames) (h : NamedAs es fields) : NamedAs (e :: es) ((e.key, v) :: fields) :=
  ⟨by simpa [Entries.keys] using h.names, List.forall_mem_cons.mpr ⟨hv, h.distinct⟩⟩

theorem recordOf_yields (r : RecordType) (title : String) (site : Site)
    (fields : List (String × Value)) :
    Yields (fun row => row.fields = fields) (c.recordOf r title site fields) := by
  unfold recordOf
  split
  · trivial
  · exact rfl

theorem NamedAs.record {entries : List Entry} {fields : List (String × Value)}
    (h : NamedAs entries fields) (hkeys : (entries.map EntryOf.key).Nodup)
    (hrow : row.fields = fields) : (Value.record row).DistinctNames := by
  subst hrow
  exact .intro (by rwa [Value.names, h.names]) h.distinct

mutual

theorem read_distinct : ∀ (n : Node) (entry : Option Span) (t : TypeRef) (subject : Subject),
    n.Unambiguous → Yields Value.DistinctNames (c.read n entry t subject)
  | .scalar id span value, entry, t, subject, _ => by
      unfold read
      refine choose_yields fun u => ?_
      split
      · exact readPrimitive_distinct ..
      all_goals trivial
  | .array id span items, entry, t, subject, .array hitems => by
      unfold read
      refine choose_yields fun u => ?_
      split
      · exact (readItems_distinct items _ subject 0 hitems).map fun vs hvs =>
          .intro List.nodup_nil hvs
      · split
        · trivial
        · refine (readRows_distinct items _ u _ _ subject 0 [] hitems).map fun rows hrows => ?_
          refine .intro List.nodup_nil fun w hw => ?_
          obtain ⟨row, hrow, rfl⟩ := List.mem_map.mp hw
          exact hrows row hrow
      all_goals trivial
  | .table id span entries, entry, t, subject, .table hkeys hentries => by
      unfold read
      refine choose_yields fun u => ?_
      split
      · refine (readFields_distinct entries _ _ _ subject hentries).bind fun fields hfields => ?_
        exact (recordOf_yields ..).map fun row hrow => hfields.record hkeys hrow
      · refine (readMap_distinct entries _ subject hentries).map fun fields hfields => ?_
        exact .intro (by rwa [Value.names, hfields.names]) hfields.distinct
      all_goals trivial

theorem readItems_distinct : ∀ (ns : List Node) (element : TypeRef) (subject : Subject)
    (index : Nat), (∀ n ∈ ns, n.Unambiguous) →
    Yields (fun vs => ∀ v ∈ vs, v.DistinctNames) (c.readItems ns element subject index)
  | [], _, _, _, _ => by simp [readItems]
  | n :: ns, element, subject, index, h => by
      obtain ⟨hn, hns⟩ := List.forall_mem_cons.mp h
      unfold readItems
      refine (read_distinct n none element _ hn).bind fun v hv => ?_
      refine (readItems_distinct ns element subject (index + 1) hns).bind fun vs hvs => ?_
      exact List.forall_mem_cons.mpr ⟨hv, hvs⟩

theorem readFields_distinct : ∀ (es : List (EntryOf Node)) (r : RecordType) (title : String)
    (site : Site) (subject : Subject), (∀ e ∈ es, e.node.Unambiguous) →
    Yields (NamedAs es) (c.readFields es r title site subject)
  | [], _, _, _, _, _ => by
      unfold readFields
      exact .nil
  | e :: es, r, title, site, subject, h => by
      obtain ⟨he, hes⟩ := List.forall_mem_cons.mp h
      unfold readFields
      refine ((fieldType_reads r title site e).imp (fun _ _ => trivial) fun _ hu => hu).bind
        fun u _ => ?_
      refine (read_distinct e.node e.span u _ he).bind fun v hv => ?_
      refine (readFields_distinct es r title site subject hes).bind fun fields hfields => ?_
      exact hfields.cons hv

theorem readRows_distinct : ∀ (ns : List Node) (r : RecordType) (t constraint : TypeRef)
    (keys : List String) (subject : Subject) (index : Nat) (seen : List (List Value)),
    (∀ n ∈ ns, n.Unambiguous) →
    Yields (fun rows => ∀ row ∈ rows, (Value.record row).DistinctNames)
      (c.readRows ns r t constraint keys subject index seen)
  | [], _, _, _, _, _, _, _, _ => by
      unfold readRows
      exact List.forall_mem_nil _
  | .table id span entries :: ns, r, t, constraint, keys, subject, index, seen, h => by
      obtain ⟨hnode, hns⟩ := List.forall_mem_cons.mp h
      obtain ⟨hkeys, hentries⟩ : (entries.map EntryOf.key).Nodup ∧
          ∀ e ∈ entries, e.node.Unambiguous := by
        cases hnode with
        | table hkeys hentries => exact ⟨hkeys, hentries⟩
      unfold readRows
      simp only
      split
      · trivial
      · refine (readFields_distinct entries r _ _ subject hentries).bind fun fields hfields => ?_
        refine (recordOf_yields ..).bind fun row hrow => ?_
        split
        · refine (readRows_distinct ns r t constraint keys subject (index + 1) _ hns).bind
            fun rows hrows => ?_
          exact List.forall_mem_cons.mpr ⟨hfields.record hkeys hrow, hrows⟩
        · trivial
  | .scalar _ _ _ :: ns, _, _, _, _, _, _, _, _ => by
      unfold readRows
      trivial
  | .array _ _ _ :: ns, _, _, _, _, _, _, _, _ => by
      unfold readRows
      trivial

theorem readMap_distinct : ∀ (es : List (EntryOf Node)) (constraint : TypeRef)
    (subject : Subject), (∀ e ∈ es, e.node.Unambiguous) →
    Yields (NamedAs es) (c.readMap es constraint subject)
  | [], _, _, _ => by
      unfold readMap
      exact .nil
  | e :: es, constraint, subject, h => by
      obtain ⟨he, hes⟩ := List.forall_mem_cons.mp h
      unfold readMap
      refine (read_distinct e.node e.span constraint _ he).bind fun v hv => ?_
      refine (readMap_distinct es constraint subject hes).bind fun entries hentries => ?_
      exact hentries.cons hv

end

/-! ## Keys -/

/-- A row with all key columns has a key value for each, in their order. -/
theorem keyOf_columns (h : ∀ column ∈ keys, (row.get? column).isSome = true) :
    List.Forall₂ (fun column value => row.get? column = some value) keys (keyOf keys row) := by
  induction keys with
  | nil => exact .nil
  | cons column keys ih =>
      obtain ⟨hcolumn, hkeys⟩ := List.forall_mem_cons.mp h
      obtain ⟨value, hvalue⟩ := Option.isSome_iff_exists.mp hcolumn
      rw [keyOf, List.filterMap_cons_some hvalue]
      exact .cons hvalue (ih hkeys)

theorem distinctNames_of_get? {column : String} {value : Value}
    (hrow : (Value.record row).DistinctNames) (h : row.get? column = some value) :
    value.DistinctNames :=
  hrow.part (List.mem_map_of_mem (Entries.mem_of_get? h))

theorem distinctNames_keyOf (hrow : (Value.record row).DistinctNames) :
    ∀ value ∈ keyOf keys row, value.DistinctNames := by
  intro value hvalue
  obtain ⟨column, -, hcolumn⟩ := List.mem_filterMap.mp hvalue
  exact distinctNames_of_get? hrow hcolumn

theorem sameItems_symm {vs ws : List Value} (hvs : ∀ v ∈ vs, v.DistinctNames)
    (hws : ∀ w ∈ ws, w.DistinctNames) (h : Value.sameItems vs ws = true) :
    Value.sameItems ws vs = true := by
  rw [Value.sameItems_iff] at h ⊢
  exact Value.forall₂_symm h fun v hv w hw => Value.same_symm v (hvs v hv) (hws w hw)

/-- Where names are distinct, a row does not have the keys of an earlier one either. -/
theorem pairwise_swap (hrows : ∀ row ∈ rows, (Value.record row).DistinctNames)
    (h : DistinctKeys keys rows) (hkeys : keys ≠ []) :
    rows.Pairwise fun r r' => Value.sameItems (keyOf keys r') (keyOf keys r) = false := by
  refine (h hkeys).imp_of_mem fun {r r'} hr hr' hdiffer => ?_
  refine Bool.eq_false_iff.mpr fun hsame => ?_
  cases hdiffer.symm.trans
    (sameItems_symm (distinctNames_keyOf (hrows r' hr')) (distinctNames_keyOf (hrows r hr)) hsame)

theorem keyOf_single {column : String} {key : Value} (h : row.get? column = some key) :
    keyOf [column] row = [key] := by
  rw [keyOf, List.filterMap_cons_some h, List.filterMap_nil]

/-- If the keys of earlier rows are not the same as those of later ones, the row with a key is
found by it, as far as the key is the same as itself. -/
theorem get?_of_distinct {column : String} {before after : List Record} {key : Value}
    (h : DistinctKeys [column] (before ++ row :: after)) (hrow : row.get? column = some key)
    (hkey : key.same key = true) :
    (⟨[column], before ++ row :: after⟩ : Table).get? key = some row := by
  obtain ⟨-, -, hbefore⟩ := List.pairwise_append.mp (h (List.cons_ne_nil _ _))
  refine List.find?_eq_some_iff_append.mpr ⟨by simp [hrow, hkey], before, after, rfl, ?_⟩
  intro other hother
  cases hvalue : other.get? column with
  | none => simp
  | some value =>
    have hdiffer := hbefore other hother row List.mem_cons_self
    rw [← keyOf, ← keyOf, keyOf_single hvalue, keyOf_single hrow] at hdiffer
    simpa [Value.sameItems] using hdiffer

/-- What conforms to the type of a table is a table with its key columns. -/
theorem exists_rows_of_conforms {g : TypeGraph} {t constraint : TypeRef} {v : Value}
    (hdef : g.effectiveDef t = .table constraint keys) (h : Conforms g v t) :
    ∃ rows, v = .table ⟨keys, rows⟩ ∧
      (∀ row ∈ rows, ∀ column ∈ keys, (row.get? column).isSome = true) ∧
      DistinctKeys keys rows := by
  cases h with
  | @table _ _ _ _ rows hdef' _ _ hkeyed hdistinct =>
      obtain ⟨rfl, rfl⟩ := TypeDef.table.inj (hdef.symm.trans hdef')
      exact ⟨rows, rfl, hkeyed, hdistinct⟩
  | int _ hdef' | byte _ hdef' | boolean _ hdef' | float _ hdef' | decimal _ hdef'
  | string _ hdef' | xml hdef' _ | array hdef' _ | record hdef' _ | map hdef' _
  | union hdef' _ _ => cases hdef.symm.trans hdef'

/-- The keys of what was read from a table that has each of its own once: no row has those of an
earlier one, and one that is not the same as itself has a NaN in it. -/
theorem keys_of_unambiguous {n : Node} {entry : Option Span} {t : TypeRef} {subject : Subject}
    (hn : n.Unambiguous) (h : c.read n entry t subject = .ok (.table ⟨keys, rows⟩))
    (hdistinct : DistinctKeys keys rows) :
    (keys ≠ [] → rows.Pairwise fun r r' =>
        Value.sameItems (keyOf keys r') (keyOf keys r) = false)
      ∧ ∀ row ∈ rows, ∀ key ∈ keyOf keys row, key.same key = true ↔ key.NaNFree := by
  have hnames : ∀ row ∈ rows, (Value.record row).DistinctNames := fun row hrow =>
    ((read_distinct n entry t subject hn).of_ok h).part (List.mem_map_of_mem hrow)
  exact ⟨pairwise_swap hnames hdistinct, fun row hrow key hkey =>
    Value.same_self_iff key (distinctNames_keyOf (hnames row hrow) key hkey)⟩

/-- The row of a table node comes before the rest if it can be read and has a new key. -/
theorem readRows_cons {id : Nat} {span : Option Span} {entries : List Entry} {ns : List Node}
    {r : RecordType} {t constraint : TypeRef} {subject : Subject} {index : Nat}
    {seen : List (List Value)} {fields : List (String × Value)}
    (hkeys : c.missingKey? keys t (.table id span entries) = none)
    (hfields : c.readFields entries r (c.types.render (c.types.effective constraint))
      ⟨.table id span entries, none⟩ subject = .ok fields)
    (hrow : c.recordOf r (c.types.render (c.types.effective constraint))
      ⟨.table id span entries, none⟩ fields = .ok row)
    (hnew : isNewKey keys seen (keyOf keys row) = true) :
    c.readRows (.table id span entries :: ns) r t constraint keys subject index seen =
      (c.readRows ns r t constraint keys subject (index + 1) (seen ++ [keyOf keys row])).map
        (row :: ·) := by
  rw [readRows]
  simp only [hkeys, hfields, hrow, hnew, bind, Except.bind, if_true]
  cases c.readRows ns r t constraint keys subject (index + 1) (seen ++ [keyOf keys row]) <;> rfl

/-- **Rows are found by their keys.** Whatever type of a table and whatever node: what is read
is a table with the key columns of the type. Each row has a value for each of them, in their
order. Where there are key columns, the values of a row there are not the same as those of a
later row. If there is one key column, the search for the key of a row gives that row, provided
the key is the same as itself. As no table of a document has a key twice, neither are the values
of a row the same as those of an earlier one, and what is not the same as itself has a NaN in
it. -/
theorem rows_by_keys {n : Node} {entry : Option Span} {t constraint : TypeRef} {subject : Subject}
    {v : Value} (hdef : c.types.effectiveDef t = .table constraint keys)
    (h : c.read n entry t subject = .ok v) :
    ∃ rows, v = .table ⟨keys, rows⟩
      ∧ (∀ row ∈ rows, List.Forall₂ (fun column value => row.get? column = some value) keys
          (keyOf keys row))
      ∧ (keys ≠ [] → rows.Pairwise fun r r' =>
          Value.sameItems (keyOf keys r) (keyOf keys r') = false)
      ∧ (∀ column, keys = [column] → ∀ before row after key, rows = before ++ row :: after →
          row.get? column = some key → key.same key = true →
          (⟨keys, rows⟩ : Table).get? key = some row)
      ∧ (n.Unambiguous →
          (keys ≠ [] → rows.Pairwise fun r r' =>
            Value.sameItems (keyOf keys r') (keyOf keys r) = false)
          ∧ ∀ row ∈ rows, ∀ key ∈ keyOf keys row, key.same key = true ↔ key.NaNFree) := by
  obtain ⟨rows, rfl, hkeyed, hdistinct⟩ :=
    exists_rows_of_conforms hdef ((read_conforms n entry t subject).of_ok h)
  refine ⟨rows, rfl, fun row hrow => keyOf_columns (hkeyed row hrow), hdistinct, ?_,
    fun hn => keys_of_unambiguous hn h hdistinct⟩
  rintro column rfl before row after key rfl hrow hkey
  exact get?_of_distinct hdistinct hrow hkey

/-- Two rows, of which the second is found. -/
theorem rows_by_keys_second :
    let r : RecordType := ⟨"Row", ⟨"o", "m", "1"⟩, [⟨"id", .primitive .int, true⟩], none⟩
    let c : Reading :=
      ⟨⟨#[.record r, .table (.defined 0) ["id"]]⟩, ⟨⟨none, ""⟩, .table 5 none [], 6⟩, "rows"⟩
    let row (id : Nat) (key : Int64) : Node :=
      .table (id + 1) none [⟨"id", none, .scalar id none (.integer key)⟩]
    let n : Node := .array 4 none [row 0 10, row 2 20]
    c.types.effectiveDef (.defined 1) = .table (.defined 0) ["id"] ∧ ∃ rows,
      c.read n none (.defined 1) (.variable "rows") = .ok (.table ⟨["id"], rows⟩) ∧
      ∃ row, (⟨["id"], rows⟩ : Table).get? (.int 20) = some row ∧
        row.get? "id" = some (.int 20) := by
  intro r c row n
  let title := c.types.render (c.types.effective (.defined 0))
  let first : Record := ⟨title, [("id", .int 10)]⟩
  let second : Record := ⟨title, [("id", .int 20)]⟩
  have hnew : isNewKey ["id"] [[.int 10]] [.int 20] = true := by
    simp [isNewKey, Value.sameItems, Value.same]
  have hsecond : c.readRows [row 2 20] r (.defined 1) (.defined 0) ["id"] (.variable "rows") 1
      [[.int 10]] = .ok [second] :=
    readRows_cons rfl rfl rfl hnew
  have hrows : c.readRows [row 0 10, row 2 20] r (.defined 1) (.defined 0) ["id"]
      (.variable "rows") 0 [] = .ok [first, second] :=
    (readRows_cons rfl rfl rfl rfl).trans (congrArg (Except.map (first :: ·)) hsecond)
  have hread : c.read n none (.defined 1) (.variable "rows") =
      .ok (.table ⟨["id"], [first, second]⟩) :=
    congrArg (Except.map fun rows => Value.table ⟨["id"], rows⟩) hrows
  obtain ⟨rows, heq, -, -, hfound, -⟩ := rows_by_keys rfl hread
  obtain rfl : [first, second] = rows := congrArg TableOf.rows (Value.table.inj heq)
  exact ⟨rfl, [first, second], hread, second,
    hfound "id" rfl [first] second [] (.int 20) rfl rfl (by simp [Value.same]), rfl⟩

/-- What is read as a table from a node of a document has no two rows with the same key values,
whichever is put first. If there is one key column, the search for the key of a row gives that
row, provided there is no NaN in the key. -/
theorem rows_of_document {source : Text.Named} {d : Toml.Document} {n : Node}
    {entry : Option Span} {t constraint : TypeRef} {subject : Subject} {v : Value}
    (hparse : Toml.Document.parse source = .ok d) (hpart : d.root.Contains n)
    (hdef : c.types.effectiveDef t = .table constraint keys)
    (h : c.read n entry t subject = .ok v) :
    ∃ rows, v = .table ⟨keys, rows⟩
      ∧ (keys ≠ [] → rows.Pairwise fun r r' =>
          Value.sameItems (keyOf keys r) (keyOf keys r') = false
          ∧ Value.sameItems (keyOf keys r') (keyOf keys r) = false)
      ∧ ∀ column, keys = [column] → ∀ row ∈ rows, ∀ key, row.get? column = some key →
          key.NaNFree → (⟨keys, rows⟩ : Table).get? key = some row := by
  obtain ⟨rows, rfl, -, hdistinct⟩ :=
    exists_rows_of_conforms hdef ((read_conforms n entry t subject).of_ok h)
  obtain ⟨hswapped, hsame⟩ :=
    keys_of_unambiguous (Toml.unambiguous_of_parse hparse hpart) h hdistinct
  refine ⟨rows, rfl, fun hkeys => (hdistinct hkeys).and (hswapped hkeys), ?_⟩
  rintro column rfl row hrow key hkey hnan
  have hmem : key ∈ keyOf [column] row := by
    rw [keyOf_single hkey]
    exact List.mem_singleton_self key
  obtain ⟨before, after, rfl⟩ := List.append_of_mem hrow
  exact get?_of_distinct hdistinct hkey ((hsame row hrow key hmem).mpr hnan)

end Conversion.Reading

end Configurable
