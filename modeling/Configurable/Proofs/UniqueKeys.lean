import Configurable.Proofs.Spelling

/-!
# Keys are unique

No table of a document has a key twice, whether it was filled by pairs, by headers or between
braces. A statement changes what one key stands for: a key that is there keeps its place, one
that is new comes last, and the key of a header is taken out before it is put last.
-/

namespace Configurable.Toml

open Reader
open Text (Span)

/-- No table in the node has a key twice. -/
inductive Node.Unambiguous : Node → Prop
  | scalar {id : Nat} {span : Option Span} {value : Scalar} :
      Unambiguous (.scalar id span value)
  | array {id : Nat} {span : Option Span} {items : List Node} :
      (∀ n ∈ items, Unambiguous n) → Unambiguous (.array id span items)
  | table {id : Nat} {span : Option Span} {entries : List Entry} :
      (entries.map EntryOf.key).Nodup → (∀ e ∈ entries, Unambiguous e.node) →
      Unambiguous (.table id span entries)

/-! ## Changing what a key stands for -/

/-- Each key is there once, and what it stands for satisfies `P`. -/
structure Unique {α : Type} (P : α → Prop) (es : List (Key × α)) : Prop where
  names : (es.map fun e => e.1.name).Nodup
  holds : ∀ e ∈ es, P e.2

section

variable {α ε : Type} {P : α → Prop} {key : Key} {f : Option α → Except ε α}
variable {es es' : List (Key × α)}

theorem Unique.nil : Unique P [] := ⟨List.nodup_nil, List.forall_mem_nil _⟩

/-- The names stay the same, or there is one more that was not there. -/
theorem nodup_of_alterEntry (hes : (es.map fun e => e.1.name).Nodup)
    (h : alterEntry key f es = .ok es') : (es'.map fun e => e.1.name).Nodup := by
  obtain ⟨before, after, k, o, a, hk, hbefore, hnew, -, rfl, rfl⟩ := alterEntry_cases h
  cases o with
  | none =>
    obtain ⟨rfl, rfl⟩ := hnew rfl
    simp only [Option.map_none, Option.toList_none, List.append_nil] at hes
    rw [List.map_append, List.map_cons, List.map_nil]
    refine List.nodup_append_comm.mp (List.nodup_cons.mpr ⟨fun hmem => ?_, hes⟩)
    obtain ⟨e, he, hname⟩ := List.mem_map.mp hmem
    exact hbefore e he hname
  | some b => simpa using hes

theorem Unique.alterEntry (hes : Unique P es)
    (hf : ∀ o a, (∀ b ∈ o, P b) → f o = .ok a → P a) (h : alterEntry key f es = .ok es') :
    Unique P es' :=
  ⟨nodup_of_alterEntry hes.names h, forall_of_alterEntry hf hes.holds h⟩

end

/-! ## Values -/

namespace Literal

/-- No inline table in the value has a key twice. -/
inductive Unambiguous : Literal → Prop
  | scalar {span : Span} {value : Scalar} : Unambiguous (.scalar span value)
  | array {span : Span} {items : List Literal} : (∀ m ∈ items, Unambiguous m) →
      Unambiguous (.array span items)
  | inline {span : Option Span} {entries : List (Key × Literal)} :
      (entries.map fun e => e.1.name).Nodup → (∀ e ∈ entries, Unambiguous e.2) →
      Unambiguous (.inline span entries)

theorem Unambiguous.entries {span : Option Span} {es : List (Key × Literal)}
    (h : Unambiguous (.inline span es)) : Unique Unambiguous es := by
  cases h with
  | inline hnames hentries => exact ⟨hnames, hentries⟩

theorem unambiguous_inline {span : Option Span} {es : List (Key × Literal)}
    (h : Unique Unambiguous es) : Unambiguous (.inline span es) := .inline h.names h.holds

theorem unique_insertAt {key : Key} {m : Literal} (hm : m.Unambiguous) :
    ∀ {path : List Key} {seen : List String} {es es' : List (Key × Literal)},
    Unique Unambiguous es → insertAt key m seen path es = .ok es' → Unique Unambiguous es'
  | [], seen, es, es', hes, h => by
    refine hes.alterEntry (fun o a _ ha => ?_) h
    cases o with
    | none => exact Except.ok.inj ha ▸ hm
    | some b => cases ha
  | k :: path, seen, es, es', hes, h => by
    refine hes.alterEntry (fun o a ho ha => ?_) h
    split at ha
    · obtain ⟨inner, hinner, rfl⟩ := map_eq_ok_iff.mp ha
      exact unambiguous_inline (unique_insertAt hm .nil hinner)
    · obtain ⟨inner, hinner, rfl⟩ := map_eq_ok_iff.mp ha
      exact unambiguous_inline (unique_insertAt hm (ho _ rfl).entries hinner)
    · cases ha
    · cases ha

theorem unique_entriesOf {pairs : List ((List Key × Key) × Literal)} {es : List (Key × Literal)}
    (hpairs : ∀ p ∈ pairs, p.2.Unambiguous) (h : entriesOf pairs = .ok es) :
    Unique Unambiguous es :=
  foldlM_induction (P := Unique Unambiguous)
    (fun p hp _ _ hes h => unique_insertAt (hpairs p hp) hes h) .nil h

theorem unambiguous_reader {depth : Nat} {m : Literal} {c c' : Cursor}
    (h : reader depth c = .done m c') : m.Unambiguous :=
  reader_induction (fun _ _ _ => .scalar) (fun _ _ _ hitems => .array hitems)
    (fun _ _ _ _ hpairs hes =>
      unambiguous_inline (unique_entriesOf (fun p hp => (hpairs p hp).2) hes)) (.refl c) h

end Literal

/-! ## Tables -/

/-- No table to which the item leads has a key twice. -/
inductive Item.Unambiguous : Item → Prop
  | literal {m : Literal} : m.Unambiguous → Unambiguous (.literal m)
  | table {t : Table} : (t.entries.map fun e => e.1.name).Nodup →
      (∀ e ∈ t.entries, Unambiguous e.2) → Unambiguous (.table t)
  | tables {ts : List Table} : (∀ t ∈ ts, (t.entries.map fun e => e.1.name).Nodup) →
      (∀ t ∈ ts, ∀ e ∈ t.entries, Unambiguous e.2) → Unambiguous (.tables ts)

namespace TableOf

/-- Neither the table nor one below it has a key twice. -/
def Unambiguous (t : Table) : Prop := Unique Item.Unambiguous t.entries

variable {t t' : Table} {key : Key} {path : List Key}

theorem unambiguous_empty (origin : Origin) : Unambiguous (.empty origin) := Unique.nil

theorem unambiguous_item_iff : (Item.table t).Unambiguous ↔ t.Unambiguous := by
  refine ⟨fun h => ?_, fun h => .table h.names h.holds⟩
  cases h with
  | table hnames hentries => exact ⟨hnames, hentries⟩

theorem unambiguous_items_iff {ts : List Table} :
    (Item.tables ts).Unambiguous ↔ ∀ t ∈ ts, Unambiguous t := by
  refine ⟨fun h => ?_, fun h => .tables (fun t ht => (h t ht).names) fun t ht => (h t ht).holds⟩
  cases h with
  | tables hnames hentries => exact fun t ht => ⟨hnames t ht, hentries t ht⟩

theorem unambiguous_alter {f : Option Item → Except Cause Item} (ht : t.Unambiguous)
    (hf : ∀ o i, (∀ j ∈ o, j.Unambiguous) → f o = .ok i → i.Unambiguous)
    (h : t.alter key f = .ok t') : t'.Unambiguous := by
  obtain ⟨es, hes, rfl⟩ := map_eq_ok_iff.mp h
  exact Unique.alterEntry ht hf hes

theorem unambiguous_putLast {i : Item} (ht : t.Unambiguous) (hi : i.Unambiguous) :
    (t.putLast key i).Unambiguous := by
  refine ⟨?_, List.forall_mem_append.mpr
    ⟨fun e he => ht.holds e (List.mem_of_mem_filter he), List.forall_mem_singleton.mpr hi⟩⟩
  simp only [putLast, List.map_append, List.map_cons, List.map_nil]
  refine List.nodup_append_comm.mp (List.nodup_cons.mpr ⟨?_, ?_⟩)
  · intro hmem
    obtain ⟨e, he, hname⟩ := List.mem_map.mp hmem
    simpa [hname] using List.of_mem_filter he
  · exact ht.names.sublist (List.filter_sublist.map _)

theorem unambiguous_of_get? {i : Item} (ht : t.Unambiguous) (h : t.get? key = some i) :
    i.Unambiguous := by
  obtain ⟨e, he, rfl⟩ := Option.map_eq_some_iff.mp h
  exact ht.holds e (List.mem_of_find?_eq_some he)

section

variable {way : Way} {f : Table → Except Cause Table} {T : Table → Prop} {H : Origin → Item → Prop}
variable (hempty : T (.empty way.origin))
variable (htable : ∀ {o t}, H o (.table t) ↔ T t)
variable (htables : ∀ {o ts}, H o (.tables ts) ↔ ∀ t ∈ ts, T t)
variable (halter : ∀ {t t' : Table} {key : Key} {g : Option Item → Except Cause Item}, T t →
  (∀ o i, (∀ j ∈ o, H t.origin j) → g o = .ok i → H t.origin i) → t.alter key g = .ok t' → T t')
variable (hf : ∀ {t t'}, T t → f t = .ok t' → T t')

include hempty htable htables halter hf

/-- What holds of empty tables and is kept where an entry changes to something of which it holds
too, is kept by a change at the end of a path that keeps it there. What it says of an item may
depend on how the table around it came to be. -/
theorem descend_keeps : ∀ {path : List Key} {seen : List String} {t t' : Table}, T t →
    descend way f seen path t = .ok t' → T t'
  | [], seen, t, t', ht, h => hf ht h
  | k :: path, seen, t, t', ht, h => by
    refine halter ht (fun o i ho hi => ?_) h
    split at hi
    · obtain ⟨inner, hinner, rfl⟩ := map_eq_ok_iff.mp hi
      exact htable.mpr (descend_keeps hempty hinner)
    · cases hi
    · next inner =>
      split at hi
      · cases hi
      · obtain ⟨inner', hinner, rfl⟩ := map_eq_ok_iff.mp hi
        exact htable.mpr (descend_keeps (htable.mp (ho _ rfl)) hinner)
    · next ts =>
      have hts := htables.mp (ho _ rfl)
      split at hi
      · exact Except.ok.inj hi ▸ htables.mpr hts
      · next last hlast =>
        obtain ⟨last', hinner, rfl⟩ := map_eq_ok_iff.mp hi
        have hlast' := descend_keeps (hts last (List.mem_of_getLast? hlast)) hinner
        have hkept := fun t ht => hts t ((List.dropLast_sublist ts).subset ht)
        exact htables.mpr (List.forall_mem_append.mpr
          ⟨hkept, List.forall_mem_singleton.mpr hlast'⟩)

end

theorem unambiguous_descend {way : Way} {f : Table → Except Cause Table}
    (hf : ∀ {t t'}, t.Unambiguous → f t = .ok t' → t'.Unambiguous) {seen : List String}
    (ht : t.Unambiguous) (h : descend way f seen path t = .ok t') : t'.Unambiguous :=
  descend_keeps (H := fun _ i => i.Unambiguous) (unambiguous_empty _) unambiguous_item_iff
    unambiguous_items_iff unambiguous_alter hf ht h

theorem unambiguous_insertPair {current : List Key} {m : Literal} (ht : t.Unambiguous)
    (hm : m.Unambiguous) (h : t.insertPair current path key m = .ok t') : t'.Unambiguous := by
  refine unambiguous_descend (fun {t t'} ht h => ?_) ht h
  refine unambiguous_descend (fun {t t'} ht h => ?_) ?_ h
  · split at h
    · cases h
    · refine unambiguous_alter ht (fun o i _ hi => ?_) h
      split at hi
      · exact Except.ok.inj hi ▸ .literal hm
      · cases hi
  · -- to extend a header changes no entries
    cases m.span? <;> exact ht

variable {shown : String} {span : Span}

theorem unambiguous_openTable (ht : t.Unambiguous) (h : t.openTable path key shown span = .ok t') :
    t'.Unambiguous := by
  refine unambiguous_descend (fun {t t'} ht h => ?_) ht h
  split at h
  · exact Except.ok.inj h ▸
      unambiguous_putLast ht (unambiguous_item_iff.mpr (unambiguous_empty _))
  · next inner hinner =>
    split at h
    · have hinner' := unambiguous_item_iff.mp (unambiguous_of_get? ht hinner)
      exact Except.ok.inj h ▸
        unambiguous_putLast ht (.table hinner'.names hinner'.holds)
    · cases h
  · cases h

theorem unambiguous_appendTable (ht : t.Unambiguous)
    (h : t.appendTable path key shown span = .ok t') : t'.Unambiguous := by
  refine unambiguous_descend (fun {t t'} ht h => ?_) ht h
  refine unambiguous_alter ht (fun o i ho hi => ?_) h
  split at hi
  · exact Except.ok.inj hi ▸
      unambiguous_items_iff.mpr (List.forall_mem_singleton.mpr (unambiguous_empty _))
  · exact Except.ok.inj hi ▸ unambiguous_items_iff.mpr (List.forall_mem_append.mpr
      ⟨unambiguous_items_iff.mp (ho _ rfl), List.forall_mem_singleton.mpr (unambiguous_empty _)⟩)
  · cases hi

end TableOf

/-! ## Documents -/

namespace Progress

variable {p p' : Progress} {c c' : Cursor}

theorem unambiguous_pair (hp : p.root.Unambiguous) (h : p.pair c = .done p' c') :
    p'.root.Unambiguous := by
  simp only [pair, checked_done_iff, bind_done_iff, commit_done_iff, pure_done_iff] at h
  obtain ⟨_, ⟨key, c₁, -, _, c₂, -, _, c₃, -, m, c₄, hm, _, c₅, -, rfl, rfl⟩, hinsert⟩ := h
  obtain ⟨root, hroot, rfl⟩ := map_eq_ok_iff.mp hinsert
  exact TableOf.unambiguous_insertPair hp (Literal.unambiguous_reader hm) hroot

theorem unambiguous_header (hp : p.root.Unambiguous) (h : p.header c = .done p' c') :
    p'.root.Unambiguous := by
  obtain ⟨cs, c₁, -, h⟩ := bind_done_iff.mp (within_done_iff.mp h)
  split at h
  · obtain ⟨header, -, h⟩ := checked_done_iff.mp h
    obtain ⟨root, hroot, rfl⟩ := map_eq_ok_iff.mp h
    exact TableOf.unambiguous_appendTable hp hroot
  · split at h
    · cases h
    · obtain ⟨header, -, h⟩ := checked_done_iff.mp h
      obtain ⟨root, hroot, rfl⟩ := map_eq_ok_iff.mp h
      exact TableOf.unambiguous_openTable hp hroot

theorem unambiguous_document {text : String} {root : Table}
    (h : document (.ofText text) = .done root c') : root.Unambiguous := by
  obtain ⟨p, rfl, hp⟩ := document_induction (P := fun p _ => p.root.Unambiguous)
    (fun hp _ => hp) unambiguous_pair unambiguous_header
    (fun _ => TableOf.unambiguous_empty _) h
  exact hp

end Progress

theorem Literal.toEntries_keys (es : List (Key × Literal)) (next : Nat) :
    (Literal.toEntries es next).1.map EntryOf.key = es.map fun e => e.1.name := by
  induction es generalizing next with
  | nil => rfl
  | cons e es ih => exact congrArg (e.1.name :: ·) (ih _)

theorem Item.toEntries_keys (es : List (Key × Item)) (next : Nat) :
    (Item.toEntries es next).1.map EntryOf.key = es.map fun e => e.1.name := by
  induction es generalizing next with
  | nil => rfl
  | cons e es ih =>
    obtain ⟨key, item⟩ := e
    have hkey : (Item.toEntry key item next).1.key = key.name := by
      cases item <;> rfl
    exact congr (congrArg List.cons hkey) (ih _)

theorem Literal.Unambiguous.toNode {m : Literal} (h : m.Unambiguous) (next : Nat) :
    (m.toNode next).1.Unambiguous := by
  induction h generalizing next with
  | scalar => exact .scalar
  | array _ ih =>
    refine .array fun n hn => ?_
    obtain ⟨m, hm, next, rfl⟩ := Literal.exists_of_mem_toNodes hn
    exact ih m hm next
  | inline hnames _ ih =>
    refine .table (Literal.toEntries_keys _ _ ▸ hnames) fun e he => ?_
    obtain ⟨x, hx, next, rfl⟩ := Literal.exists_of_mem_toEntries he
    exact ih x hx next

theorem Item.Unambiguous.toEntry {i : Item} (h : i.Unambiguous) (key : Key) (next : Nat) :
    (Item.toEntry key i next).1.node.Unambiguous := by
  induction h generalizing key next with
  | literal hm => exact hm.toNode next
  | @table t hnames _ ih =>
    obtain ⟨origin, entries⟩ := t
    refine .table (Item.toEntries_keys _ _ ▸ hnames) fun e he => ?_
    obtain ⟨x, hx, next, rfl⟩ := Item.exists_of_mem_toEntries he
    exact ih x hx x.1 next
  | @tables ts hnames _ ih =>
    refine .array fun n hn => ?_
    obtain ⟨t, ht, id, next, rfl⟩ := (Item.toRows_spans ts next).2 n hn
    refine .table (Item.toEntries_keys _ _ ▸ hnames t ht) fun e he => ?_
    obtain ⟨x, hx, next, rfl⟩ := Item.exists_of_mem_toEntries he
    exact ih t ht x hx x.1 next

theorem Node.Unambiguous.part {n part : Node} (h : n.Unambiguous) (hpart : n.Contains part) :
    part.Unambiguous := by
  induction hpart with
  | refl => exact h
  | item hmem _ ih =>
    cases h with
    | array hitems => exact ih (hitems _ hmem)
  | entry hmem _ ih =>
    cases h with
    | table _ hentries => exact ih (hentries _ hmem)

/-- **Keys are unique.** No table of a document has a key twice. -/
theorem unambiguous_of_parse {source : Text.Named} {d : Document}
    (h : Document.parse source = .ok d) {n : Node} (hpart : d.root.Contains n) :
    n.Unambiguous := by
  refine Node.Unambiguous.part ?_ hpart
  obtain ⟨table, c, next, span, hdocument, hroot⟩ := document_of_parse h
  have htable := Progress.unambiguous_document hdocument
  rw [hroot]
  refine .table (Item.toEntries_keys _ _ ▸ htable.names) fun e he => ?_
  obtain ⟨x, hx, next, rfl⟩ := Item.exists_of_mem_toEntries he
  exact (htable.holds x hx).toEntry x.1 next

end Configurable.Toml
