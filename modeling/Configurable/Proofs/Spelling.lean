import Configurable.Proofs.Leaves
import Configurable.Proofs.WrittenValues

/-!
# How leaves are written

A leaf of a document is written in one of three ways: as a value, a scalar or an array in
brackets; as a table that nothing was put into; or as the tables of one or more headers in
double brackets (`Spelled`). In every document each leaf is spelled in such a way
(`spelled_of_parse`), and what is written of a value is the text of its node
(`Spelled.eq_value`).
-/

namespace Configurable

/-! ## Cutting out what was read -/

namespace Text

theorem skipBytes_append (before rest : List Char) :
    skipBytes (before ++ rest) (byteLength before) = some rest := by
  induction before with
  | nil => cases rest <;> rfl
  | cons c before ih =>
    have hpos := c.utf8Size_pos
    obtain ⟨n, hn⟩ : ∃ n, c.utf8Size + byteLength before = n + 1 :=
      ⟨c.utf8Size + byteLength before - 1, by omega⟩
    have hrest : n + 1 - c.utf8Size = byteLength before := by omega
    rw [byteLength_cons, hn, List.cons_append, skipBytes, if_pos (by omega), hrest, ih]

theorem takeBytes_append (taken rest : List Char) :
    takeBytes (taken ++ rest) (byteLength taken) = some taken := by
  induction taken with
  | nil => cases rest <;> rfl
  | cons c taken ih =>
    have hpos := c.utf8Size_pos
    obtain ⟨n, hn⟩ : ∃ n, c.utf8Size + byteLength taken = n + 1 :=
      ⟨c.utf8Size + byteLength taken - 1, by omega⟩
    have hrest : n + 1 - c.utf8Size = byteLength taken := by omega
    rw [byteLength_cons, hn, List.cons_append, takeBytes, if_pos (by omega), hrest, ih]
    rfl

theorem slice?_eq_some {text : String} {before taken after : List Char}
    (h : text.toList = before ++ (taken ++ after)) :
    slice? text ⟨byteLength before, byteLength before + byteLength taken⟩
      = some (String.ofList taken) := by
  have hlength : Span.length ⟨byteLength before, byteLength before + byteLength taken⟩
      = byteLength taken := Nat.add_sub_cancel_left ..
  rw [slice?, if_pos (Nat.le_add_right ..), hlength, h, skipBytes_append, Option.bind_some,
    takeBytes_append]
  rfl

/-- As many bytes as two brackets take are the two brackets. -/
theorem takeBytes_brackets {rest taken : List Char} {n : Nat} (hn : 2 ≤ n)
    (h : takeBytes ('[' :: '[' :: rest) n = some taken) : ['[', '['] <+: taken := by
  obtain ⟨k, rfl⟩ := Nat.exists_eq_add_of_le' hn
  obtain ⟨taken₁, h₁, rfl⟩ := Option.map_eq_some_iff.mp h
  obtain ⟨taken₂, -, rfl⟩ := Option.map_eq_some_iff.mp h₁
  exact ⟨taken₂, rfl⟩

end Text

namespace Toml

open Text (Span byteLength)

/-! ## Spellings -/

/-- In the text `raw` stands, a value that the node stands for. -/
def Node.IsValue (text raw : String) (n : Node) : Prop :=
  ∃ before after depth m next, text.toList = before ++ (raw.toList ++ after) ∧
    Literal.reader depth ⟨byteLength before, raw.toList ++ after⟩
      = .done m ⟨byteLength before + byteLength raw.toList, after⟩ ∧
    n = (m.toNode next).1

/-- At this byte of the text a header in double brackets starts. -/
def HeaderAt (text : String) (start : Nat) : Prop :=
  ∃ before rest header c, text.toList = before ++ rest ∧ start = byteLength before ∧
    Progress.headerLine "[[" "]]" ⟨start, rest⟩ = .done header c

/-- The ways in which a leaf may be written. -/
inductive Spelling where
  /-- Behind an equals sign, a scalar or an array in brackets. -/
  | value (raw : String)
  /-- A table, with nothing in it. -/
  | emptyTable
  /-- The tables of headers in double brackets. -/
  | tables

/-- A node is written in this way in the text. -/
inductive Spelled (text : String) : Spelling → Node → Prop
  | value {raw : String} {n : Node} (h : n.isTable = false) (hraw : n.IsValue text raw) :
      Spelled text (.value raw) n
  | emptyTable (id : Nat) (span : Option Span) : Spelled text .emptyTable (.table id span [])
  | tables {id first stop : Nat} {rows : List Node} (hne : rows ≠ [])
      (hrows : ∀ n ∈ rows, ∃ id span entries, n = .table id (some span) entries ∧
        HeaderAt text span.start)
      (hfirst : HeaderAt text first) (hstop : first + 2 ≤ stop) :
      Spelled text .tables (.array id (some ⟨first, stop⟩) rows)

/-- All items, if there are any, are tables. -/
def Node.canBeRows : Node → Bool
  | .array _ _ items => items.all isTable
  | .table _ _ _ => true
  | .scalar _ _ _ => false

theorem ofText_reaches {text : String} {c : Cursor} (h : (Cursor.ofText text).Reaches c) :
    ∃ before, text.toList = before ++ c.rest ∧ c.position = byteLength before := by
  obtain ⟨before, h⟩ := h
  exact ⟨before, h.rest, h.position.trans (Nat.zero_add _)⟩

theorem HeaderAt.of_behind {text : String} {start : Nat}
    (h : HeaderBehind (.ofText text) start) : HeaderAt text start := by
  obtain ⟨⟨_, rest⟩, c', header, hc, rfl, hread⟩ := h
  obtain ⟨before, htext, hstart⟩ := ofText_reaches hc
  exact ⟨before, rest, header, c', htext, hstart, hread⟩

theorem Literal.ReadBehind.isValue {text : String} {m : Literal}
    (h : m.ReadBehind (.ofText text)) (next : Nat) :
    ∃ raw, (m.toNode next).1.IsValue text raw := by
  obtain ⟨depth, c, c', hc, hread⟩ := h
  obtain ⟨before, htext, hposition⟩ := ofText_reaches hc
  obtain ⟨raw, htook⟩ := Reader.Forward.reaches hread
  refine ⟨String.ofList raw, before, c'.rest, depth, m, next, ?_, ?_, rfl⟩
  · rw [String.toList_ofList, ← htook.rest, htext]
  · rw [String.toList_ofList, ← htook.rest, ← hposition, ← htook.position]
    exact hread

/-- What is written of a value is the text of its node. -/
theorem Node.IsValue.slice? {text raw : String} {n : Node} (h : n.IsValue text raw) :
    n.span?.bind (Text.slice? text) = some raw := by
  obtain ⟨before, after, depth, m, next, htext, hread, rfl⟩ := h
  have hspan : (m.toNode next).1.span? = m.span? := by cases m <;> rfl
  rw [hspan, Literal.span?_of_reader hread, Option.bind_some, Text.slice?_eq_some htext,
    String.ofList_toList]

theorem Spelled.eq_value {text : String} {s : Spelling} {n : Node} (h : Spelled text s n)
    (hrows : n.canBeRows = false) :
    ∃ raw, s = .value raw ∧ n.span?.bind (Text.slice? text) = some raw := by
  cases h with
  | value _ hraw => exact ⟨_, rfl, hraw.slice?⟩
  | emptyTable id span => cases hrows
  | @tables id first stop rows _ htables _ _ =>
    have hall : rows.all Node.isTable = true := by
      refine List.all_eq_true.mpr fun n hn => ?_
      obtain ⟨id, span, entries, rfl, -⟩ := htables n hn
      rfl
    rw [Node.canBeRows, hall] at hrows
    cases hrows

/-- Where a header in double brackets starts, so does the text cut out. -/
theorem HeaderAt.slice? {text raw : String} {first stop : Nat} (h : HeaderAt text first)
    (hstop : first + 2 ≤ stop) (hraw : Text.slice? text ⟨first, stop⟩ = some raw) :
    raw.startsWith "[[" = true := by
  obtain ⟨before, rest, header, c, htext, rfl, hread⟩ := h
  have hbrackets : ∃ behind, rest = '[' :: '[' :: behind := by
    simp only [Progress.headerLine, Reader.bind_done_iff, Reader.spanned_done_iff] at hread
    obtain ⟨_, _, ⟨⟨_, _, hopening, -⟩, -⟩, -⟩ := hread
    exact ⟨_, (Reader.word_done_iff.mp hopening).rest⟩
  obtain ⟨behind, rfl⟩ := hbrackets
  rw [Text.slice?, if_pos (by show byteLength before ≤ stop; omega), htext,
    Text.skipBytes_append, Option.bind_some] at hraw
  obtain ⟨taken, htaken, rfl⟩ := Option.map_eq_some_iff.mp hraw
  have hlength : 2 ≤ Span.length ⟨byteLength before, stop⟩ := by
    show 2 ≤ stop - byteLength before
    omega
  rw [String.startsWith_string_iff, String.toList_ofList (l := taken)]
  exact Text.takeBytes_brackets hlength htaken

/-! ## The leaves of a document -/

/-- What every leaf at or below an entry with this node satisfies. -/
def Node.EachLeaf (P : Node → Prop) (n : Node) : Prop :=
  ∀ enclosing e, e.node = n → ∀ l ∈ Node.leavesIn enclosing e n, P l.entry.node

namespace Node

variable {P : Node → Prop}

theorem eachLeaf_of_value {n : Node} (h : n.isTable = false) (hn : P n) : n.EachLeaf P := by
  rintro enclosing e rfl l hl
  have hsingle : leavesIn enclosing e e.node = [⟨enclosing, e⟩] := by
    cases hnode : e.node with
    | scalar id span value => rfl
    | array id span items => rfl
    | table id span entries =>
      rw [hnode] at h
      cases h
  rw [hsingle, List.mem_singleton] at hl
  rw [hl]
  exact hn

theorem exists_of_mem_leavesOf {enclosing : List Entry} {l : Leaf} : ∀ {es : List Entry},
    l ∈ leavesOf enclosing es → ∃ e ∈ es, l ∈ leavesIn enclosing e e.node
  | e :: es, h => by
    rcases List.mem_append.mp h with hfirst | hmore
    · exact ⟨e, List.mem_cons_self .., hfirst⟩
    · obtain ⟨e', he', hl⟩ := exists_of_mem_leavesOf hmore
      exact ⟨e', List.mem_cons_of_mem _ he', hl⟩

theorem eachLeaf_table {id : Nat} {span : Option Span} {es : List Entry}
    (hempty : es = [] → P (.table id span [])) (hes : ∀ e ∈ es, e.node.EachLeaf P) :
    (table id span es).EachLeaf P := by
  intro enclosing e he l hl
  cases es with
  | nil =>
    obtain rfl := List.mem_singleton.mp hl
    rw [he]
    exact hempty rfl
  | cons e' es =>
    obtain ⟨e'', he'', hl⟩ := exists_of_mem_leavesOf hl
    exact hes e'' he'' _ e'' rfl l hl

end Node

theorem Literal.exists_of_mem_toEntries {e : Entry} : ∀ {es : List (Key × Literal)} {next : Nat},
    e ∈ (Literal.toEntries es next).1 → ∃ x ∈ es, ∃ next, e =
      ⟨x.1.name, joinSpans (some x.1.span) (x.2.toNode next).1.span?, (x.2.toNode next).1⟩
  | (key, m) :: es, next, h => by
    rcases List.mem_cons.mp h with rfl | hmore
    · exact ⟨(key, m), List.mem_cons_self .., next, rfl⟩
    · obtain ⟨x, hx, next, he⟩ := exists_of_mem_toEntries hmore
      exact ⟨x, List.mem_cons_of_mem _ hx, next, he⟩

theorem Literal.exists_of_mem_toNodes {n : Node} : ∀ {ms : List Literal} {next : Nat},
    n ∈ (Literal.toNodes ms next).1 → ∃ m ∈ ms, ∃ next, n = (m.toNode next).1
  | m :: ms, next, h => by
    rcases List.mem_cons.mp h with rfl | hmore
    · exact ⟨m, List.mem_cons_self .., next, rfl⟩
    · obtain ⟨m', hm', hnode⟩ := exists_of_mem_toNodes hmore
      exact ⟨m', List.mem_cons_of_mem _ hm', hnode⟩

theorem Item.exists_of_mem_toEntries {e : Entry} : ∀ {es : List (Key × Item)} {next : Nat},
    e ∈ (Item.toEntries es next).1 → ∃ x ∈ es, ∃ next, e = (Item.toEntry x.1 x.2 next).1
  | (key, i) :: es, next, h => by
    rcases List.mem_cons.mp h with rfl | hmore
    · exact ⟨(key, i), List.mem_cons_self .., next, rfl⟩
    · obtain ⟨x, hx, hnode⟩ := exists_of_mem_toEntries hmore
      exact ⟨x, List.mem_cons_of_mem _ hx, hnode⟩

/-- A table that a header opened starts with it, and does not end in front of it. -/
theorem TableOf.span?_of_header {t : Table} {header : Span} (h : t.origin = .header header) :
    ∃ stop, header.stop ≤ stop ∧ t.span? = some ⟨header.start, stop⟩ := by
  rw [TableOf.span?, h]
  refine ⟨_, ?_, rfl⟩
  rw [List.foldl_max]
  exact Nat.le_max_left _ _

/-- The nodes of rows are tables, with the spans of the rows. -/
theorem Item.toRows_spans : ∀ (ts : List Table) (next : Nat),
    (Item.toRows ts next).1.map Node.span? = ts.map TableOf.span? ∧
      ∀ n ∈ (Item.toRows ts next).1, ∃ t ∈ ts, ∃ id next,
        n = .table id t.span? (Item.toEntries t.entries next).1
  | [], _ => ⟨rfl, List.forall_mem_nil _⟩
  | ⟨origin, entries⟩ :: ts, next => by
    obtain ⟨hspans, hnodes⟩ := toRows_spans ts ((Item.toEntries entries next).2 + 1)
    refine ⟨congrArg (TableOf.span? ⟨origin, entries⟩ :: ·) hspans,
      List.forall_mem_cons.mpr ⟨?_, fun n hn => ?_⟩⟩
    · exact ⟨_, List.mem_cons_self .., _, _, rfl⟩
    · obtain ⟨t, ht, hnode⟩ := hnodes n hn
      exact ⟨t, List.mem_cons_of_mem _ ht, hnode⟩

section

variable {text : String}

/-- There is a way in which the node is written. -/
def HasSpelling (text : String) (n : Node) : Prop := ∃ s, Spelled text s n

theorem Literal.Traced.spelled {m : Literal} (h : m.Traced (.ofText text)) (next : Nat) :
    (m.toNode next).1.EachLeaf (HasSpelling text) := by
  -- scalars and arrays are leaves themselves, whatever the items of an array are
  have hvalue : ∀ {m : Literal} (next : Nat), m.ReadBehind (.ofText text) →
      (m.toNode next).1.isTable = false → (m.toNode next).1.EachLeaf (HasSpelling text) := by
    intro m next hread hm
    obtain ⟨raw, hraw⟩ := hread.isValue next
    exact Node.eachLeaf_of_value hm ⟨.value raw, .value hm hraw⟩
  induction h generalizing next with
  | scalar hread => exact hvalue next hread rfl
  | array hread => exact hvalue next hread rfl
  | inline _ ih =>
    refine Node.eachLeaf_table (fun _ => ⟨_, .emptyTable _ _⟩) fun e he => ?_
    obtain ⟨x, hx, next, rfl⟩ := Literal.exists_of_mem_toEntries he
    exact ih x hx next

/-- An array of tables has the text from its first header to the end of its last table. -/
theorem Rows.toEntry_eq {s : Cursor} {reached first : Nat} {ts : List Table}
    (h : Rows s reached first ts) (key : Key) (next : Nat) : ∃ t ∈ ts, ∃ span,
      t.span? = some span ∧ first + 2 ≤ span.stop ∧
      (Item.toEntry key (.tables ts) next).1 = ⟨key.name, some ⟨first, span.stop⟩,
        .array (Item.toRows ts next).2 (some ⟨first, span.stop⟩) (Item.toRows ts next).1⟩ := by
  obtain ⟨hspans, -⟩ := Item.toRows_spans ts next
  -- the first row starts with the first header, the last row ends behind the last one
  obtain ⟨stop, hhead⟩ := h.head
  obtain ⟨t, ht, horigin⟩ := Option.map_eq_some_iff.mp hhead
  obtain ⟨_, -, hspan⟩ := TableOf.span?_of_header horigin
  have hfirst := congrArg List.head? hspans
  rw [List.head?_map, List.head?_map, ht, Option.map_some, hspan] at hfirst
  obtain ⟨first', hfirst', hspan⟩ := Option.map_eq_some_iff.mp hfirst
  obtain ⟨t', ht'⟩ := List.getLast?_isSome.mpr (List.ne_nil_of_mem (List.mem_of_head? ht))
    |> Option.isSome_iff_exists.mp
  obtain ⟨header, horigin', -, hstop⟩ := h.row t' (List.mem_of_getLast? ht')
  obtain ⟨stop', hle, hspan'⟩ := TableOf.span?_of_header horigin'
  have hlast := congrArg List.getLast? hspans
  rw [List.getLast?_map, List.getLast?_map, ht', Option.map_some, hspan'] at hlast
  obtain ⟨last', hlast', hspan''⟩ := Option.map_eq_some_iff.mp hlast
  refine ⟨t', List.mem_of_getLast? ht', _, hspan', hstop.trans hle, ?_⟩
  simp only [Item.toEntry, hfirst', hlast', hspan, hspan'']
  rfl

theorem Rows.spelled {reached first : Nat} {ts : List Table}
    (h : Rows (.ofText text) reached first ts) (key : Key) (next : Nat) :
    Spelled text .tables (Item.toEntry key (.tables ts) next).1.node := by
  obtain ⟨hspans, hnodes⟩ := Item.toRows_spans ts next
  obtain ⟨t', ht', span, -, hstop, hentry⟩ := h.toEntry_eq key next
  obtain ⟨stop, hhead⟩ := h.head
  obtain ⟨t, ht, horigin⟩ := Option.map_eq_some_iff.mp hhead
  obtain ⟨_, horigin₀, hheader, -⟩ := h.row t (List.mem_of_head? ht)
  obtain rfl := Origin.header.inj (horigin₀.symm.trans horigin)
  have hne : (Item.toRows ts next).1 ≠ [] := by
    intro hnil
    rw [hnil] at hspans
    exact List.ne_nil_of_mem ht' (List.map_eq_nil_iff.mp hspans.symm)
  rw [hentry]
  refine .tables hne (fun n hn => ?_) (.of_behind hheader) hstop
  obtain ⟨row, hrow, id, next, rfl⟩ := hnodes n hn
  obtain ⟨header, horigin, hheader, -⟩ := h.row row hrow
  obtain ⟨stop, -, hspan⟩ := TableOf.span?_of_header horigin
  rw [hspan]
  exact ⟨id, _, _, rfl, .of_behind hheader⟩

theorem Item.Traced.spelled {reached : Nat} {i : Item} (h : i.Traced (.ofText text) reached)
    (key : Key) (next : Nat) :
    (Item.toEntry key i next).1.node.EachLeaf (HasSpelling text) := by
  induction h generalizing key next with
  | literal hm => exact hm.spelled next
  | @table t _ ih =>
    obtain ⟨origin, entries⟩ := t
    refine Node.eachLeaf_table (fun _ => ⟨_, .emptyTable _ _⟩) fun e he => ?_
    obtain ⟨x, hx, next, rfl⟩ := Item.exists_of_mem_toEntries he
    exact ih x hx x.1 next
  | tables hrows _ _ => exact Node.eachLeaf_of_value rfl ⟨_, hrows.spelled key next⟩

theorem source_of_parse {source : Text.Named} {d : Document}
    (h : Document.parse source = .ok d) : d.source = source := by
  unfold Document.parse at h
  split at h
  · cases h
  · obtain rfl := Except.ok.inj h
    rfl

/-- The tree of a document is made of the table that its statements made. -/
theorem document_of_parse {source : Text.Named} {d : Document}
    (h : Document.parse source = .ok d) :
    ∃ root c next span, Progress.document (.ofText source.text) = .done root c ∧
      d.root = .table next span (Item.toEntries root.entries 0).1 := by
  unfold Document.parse Toml.read at h
  split at h
  · cases h
  · next table hread =>
    split at hread
    · next root c hdocument =>
      obtain rfl := Except.ok.inj hread
      obtain rfl := Except.ok.inj h
      exact ⟨root, c, _, _, hdocument, rfl⟩
    · cases hread
    · cases hread

/-- The tree of a document is made of entries that were read from its text. -/
theorem traced_of_parse {source : Text.Named} {d : Document}
    (h : Document.parse source = .ok d) :
    ∃ root c next span, TableOf.Traced (.ofText source.text) c root ∧
      d.root = .table next span (Item.toEntries root.entries 0).1 := by
  obtain ⟨root, c, next, span, hdocument, hroot⟩ := document_of_parse h
  exact ⟨root, _, next, span, Progress.traced_document hdocument, hroot⟩

/-- Every leaf of a document is spelled in one of the ways. -/
theorem spelled_of_parse {source : Text.Named} {d : Document}
    (h : Document.parse source = .ok d) {l : Leaf} (hl : l ∈ d.root.leaves) :
    HasSpelling source.text l.entry.node := by
  obtain ⟨root, c, next, span, htraced, hroot⟩ := traced_of_parse h
  rw [hroot] at hl
  obtain ⟨e, he, hl⟩ := Node.exists_of_mem_leavesOf hl
  obtain ⟨x, hx, next, rfl⟩ := Item.exists_of_mem_toEntries he
  exact (htraced x hx).spelled x.1 next _ _ rfl l hl

end

/-! ## The scalars of a document -/

/-- The second node is the first, or a part of it. -/
inductive Node.Contains : Node → Node → Prop
  | refl (n : Node) : Contains n n
  | item {id : Nat} {span : Option Span} {items : List Node} {n part : Node} : n ∈ items →
      n.Contains part → Contains (.array id span items) part
  | entry {id : Nat} {span : Option Span} {entries : List Entry} {e : Entry} {part : Node} :
      e ∈ entries → e.node.Contains part → Contains (.table id span entries) part

theorem Node.contains_of_entryAt? {e : Entry} : ∀ {keys : List String} {n : Node},
    n.entryAt? keys = some e → n.Contains e.node
  | [key], n, h => by
    have hmem := List.mem_of_find?_eq_some h
    cases n with
    | table id span entries => exact .entry hmem (.refl _)
    | scalar id span value => cases hmem
    | array id span items => cases hmem
  | key :: key' :: keys, n, h => by
    obtain ⟨e', he', hmore⟩ := Option.bind_eq_some_iff.mp h
    have hmem := List.mem_of_find?_eq_some he'
    cases n with
    | table id span entries => exact .entry hmem (contains_of_entryAt? hmore)
    | scalar id span value => cases hmem
    | array id span items => cases hmem

/-- All scalars that are part of the node are values in the text. -/
def Node.ScalarsWritten (text : String) (n : Node) : Prop :=
  ∀ {id span value}, n.Contains (.scalar id span value) →
    ∃ raw, (Node.scalar id span value).IsValue text raw

section

variable {text : String}

theorem Node.scalarsWritten_array {id : Nat} {span : Option Span} {items : List Node}
    (h : ∀ n ∈ items, n.ScalarsWritten text) : (array id span items).ScalarsWritten text := by
  intro _ _ _ hpart
  cases hpart with
  | item hmem hpart => exact h _ hmem hpart

theorem Node.scalarsWritten_table {id : Nat} {span : Option Span} {entries : List Entry}
    (h : ∀ e ∈ entries, e.node.ScalarsWritten text) :
    (table id span entries).ScalarsWritten text := by
  intro _ _ _ hpart
  cases hpart with
  | entry hmem hpart => exact h _ hmem hpart

theorem Literal.Traced.scalarsWritten {m : Literal} (h : m.Traced (.ofText text)) (next : Nat) :
    (m.toNode next).1.ScalarsWritten text := by
  induction h generalizing next with
  | scalar hread =>
    intro _ _ _ hpart
    cases hpart
    exact hread.isValue next
  | array _ _ ih =>
    refine Node.scalarsWritten_array fun n hn => ?_
    obtain ⟨m, hm, next, rfl⟩ := Literal.exists_of_mem_toNodes hn
    exact ih m hm next
  | inline _ ih =>
    refine Node.scalarsWritten_table fun e he => ?_
    obtain ⟨x, hx, next, rfl⟩ := Literal.exists_of_mem_toEntries he
    exact ih x hx next

theorem Item.Traced.scalarsWritten {reached : Nat} {i : Item}
    (h : i.Traced (.ofText text) reached) (key : Key) (next : Nat) :
    (Item.toEntry key i next).1.node.ScalarsWritten text := by
  induction h generalizing key next with
  | literal hm => exact hm.scalarsWritten next
  | @table t _ ih =>
    obtain ⟨origin, entries⟩ := t
    refine Node.scalarsWritten_table fun e he => ?_
    obtain ⟨x, hx, next, rfl⟩ := Item.exists_of_mem_toEntries he
    exact ih x hx x.1 next
  | @tables first ts _ _ ih =>
    refine Node.scalarsWritten_array fun n hn => ?_
    obtain ⟨t, ht, id, next, rfl⟩ := (Item.toRows_spans ts next).2 n hn
    refine Node.scalarsWritten_table fun e he => ?_
    obtain ⟨x, hx, next, rfl⟩ := Item.exists_of_mem_toEntries he
    exact ih t ht x hx x.1 next

/-- Every scalar of a document is a value in its text. -/
theorem isValue_of_parse {source : Text.Named} {d : Document}
    (h : Document.parse source = .ok d) {id : Nat} {span : Option Span} {value : Scalar}
    (hpart : d.root.Contains (.scalar id span value)) :
    ∃ raw, (Node.scalar id span value).IsValue source.text raw := by
  obtain ⟨root, c, next, span, htraced, hroot⟩ := traced_of_parse h
  rw [hroot] at hpart
  refine Node.scalarsWritten_table (fun e he => ?_) hpart
  obtain ⟨x, hx, next, rfl⟩ := Item.exists_of_mem_toEntries he
  exact (htraced x hx).scalarsWritten x.1 next

end

end Toml

end Configurable
