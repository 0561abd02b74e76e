import Configurable.Proofs.TableContents
import Mathlib.Data.String.Basic

/-!
# Where the tree of a document is written

All spans of the tree of a document are parts of its text, and the span of an entry covers that
of its node (`Node.Spanned`). For values this holds as they are read: a key that leads to a value
is in front of it (`Literal.Placed`). For tables it comes from their parts, and so from the lines
of the document: a table has the span of the header that opened it and of what is written under
it, or none (`Item.lists_toEntry`). Rows share their names, and so do the tables below them; which
of them a header opened is told by the order, which is that of the headers
(`Item.openedUnder_sublist`).
-/

namespace Configurable

namespace Text

theorem byteLength_toList (s : String) : byteLength s.toList = s.utf8ByteSize := by
  have hlength : ∀ cs : List Char, byteLength cs = String.utf8Len cs := by
    intro cs
    induction cs with
    | nil => rfl
    | cons c cs ih => rw [byteLength_cons, String.utf8Len_cons, ih, Nat.add_comm]
  rw [hlength, ← String.utf8ByteSize_ofList, String.ofList_toList]

namespace Span

/-- A part of the text. -/
def Within (text : String) (s : Span) : Prop := s.start ≤ s.stop ∧ s.stop ≤ text.utf8ByteSize

/-- Whatever is in the second span is in the first. -/
def Covers (s s' : Span) : Prop := s.start ≤ s'.start ∧ s'.stop ≤ s.stop

theorem Covers.refl (s : Span) : s.Covers s := ⟨Nat.le_refl _, Nat.le_refl _⟩

end Span

end Text

namespace Toml

open Reader
open Text (Span StartsAt)

variable {text : String} {c c' : Cursor}

theorem position_le_size (h : (Cursor.ofText text).Reaches c) :
    c.position ≤ text.utf8ByteSize := by
  obtain ⟨before, htext, hposition⟩ := ofText_reaches h
  rw [← Text.byteLength_toList, htext, Text.byteLength_append, hposition]
  omega

/-! ## Keys -/

namespace Key

/-- The key was read between these two places. -/
structure ReadBetween (c c' : Cursor) (k : Key) : Prop where
  behind : c.position ≤ k.span.start
  le : k.span.start ≤ k.span.stop
  before : k.span.stop ≤ c'.position

theorem part_done {k : Key} (h : part c = .done k c') : k.ReadBetween c c' := by
  simp only [part, bind_done_iff, pure_done_iff, spanned_done_iff] at h
  obtain ⟨_, c₁, hspaces, ⟨name, span⟩, c₂, ⟨hname, rfl⟩, _, c₃, hbehind, rfl, rfl⟩ := h
  exact ⟨(Forward.reaches hspaces).position_le, (Forward.reaches hname).position_le,
    (Forward.reaches hbehind).position_le⟩

theorem dotted_done {x : List Key × Key} (h : dotted c = .done x c') :
    ∀ k ∈ x.1 ++ [x.2], k.ReadBetween c c' := by
  simp only [dotted, checked_done_iff, within_done_iff, bind_done_iff, pure_done_iff] at h
  obtain ⟨_, ⟨first, c₁, hfirst, more, c₂, hmore, rfl, rfl⟩, hx⟩ := h
  have hparts : ∀ k ∈ first :: more, k.ReadBetween c c₂ := by
    obtain ⟨hreaches, hbetween⟩ := many_done hmore
    have hle := hreaches.position_le
    have hstart := (Forward.reaches hfirst).position_le
    refine List.forall_mem_cons.mpr ⟨?_, fun k hk => ?_⟩
    · obtain ⟨hbehind, hspan, hbefore⟩ := part_done hfirst
      exact ⟨hbehind, hspan, hbefore.trans hle⟩
    · obtain ⟨c₃, c₄, hc₃, hpart, hc₄⟩ := hbetween k hk
      obtain ⟨_, c₅, hpoint, hpart⟩ := bind_done_iff.mp hpart
      obtain ⟨hbehind, hspan, hbefore⟩ := part_done hpart
      have hle₃ := hc₃.position_le
      have hle₄ := hc₄.position_le
      have hle₅ := (Forward.reaches hpoint).position_le
      exact ⟨by omega, hspan, by omega⟩
  split at hx
  · obtain rfl := Except.ok.inj hx
    have hall : (first :: more).dropLast ++ [more.getLast?.getD first] = first :: more := by
      rcases List.eq_nil_or_concat more with rfl | ⟨front, last, rfl⟩
      · rfl
      · rw [List.concat_eq_append, ← List.cons_append, List.dropLast_concat,
          List.getLast?_concat, Option.getD_some]
    intro k hk
    exact hparts k (hall ▸ hk)
  · cases hx

theorem ReadBetween.within {k : Key} (h : k.ReadBetween c c')
    (hc' : (Cursor.ofText text).Reaches c') : k.span.Within text :=
  ⟨h.le, h.before.trans (position_le_size hc')⟩

/-- The key is a part of the text, and the value that it leads to, if it has a text of its own,
does not start in front of it. -/
structure Leads (text : String) (k : Key) (m : Literal) : Prop where
  within : k.span.Within text
  before : ∀ s ∈ m.span?, k.span.start ≤ s.start

end Key

/-! ## Values -/

namespace Literal

/-- All spans in the value are parts of the text, those of its inline tables start with a brace,
and its keys lead to what they stand for. -/
inductive Placed (text : String) : Literal → Prop
  | scalar {span : Span} {value : Scalar} : span.Within text → Placed text (.scalar span value)
  | array {span : Span} {items : List Literal} : span.Within text →
      (∀ m ∈ items, Placed text m) → Placed text (.array span items)
  | inline {span : Option Span} {entries : List (Key × Literal)} :
      (∀ s ∈ span, s.Within text ∧ StartsAt text s.start '\x7b') →
      (∀ e ∈ entries, e.1.Leads text e.2) → (∀ e ∈ entries, Placed text e.2) →
      Placed text (.inline span entries)

/-- The keys of the entries lead to their values, which are placed. -/
def PlacedIn (text : String) (e : Key × Literal) : Prop := e.1.Leads text e.2 ∧ e.2.Placed text

theorem Placed.entries {span : Option Span} {es : List (Key × Literal)}
    (h : Placed text (.inline span es)) : ∀ e ∈ es, PlacedIn text e := by
  cases h with
  | inline hspan hleads hes => exact fun e he => ⟨hleads e he, hes e he⟩

/-- A table that a dotted key makes has no span. -/
theorem placed_made {k : Key} {es : List (Key × Literal)} (hk : k.span.Within text)
    (hes : ∀ e ∈ es, PlacedIn text e) : PlacedIn text (k, .inline none es) :=
  ⟨⟨hk, nofun⟩, .inline nofun (fun e he => (hes e he).1) fun e he => (hes e he).2⟩

theorem placed_insertAt {key : Key} {m : Literal} (hm : PlacedIn text (key, m)) :
    ∀ {path : List Key} {seen : List String} {es es' : List (Key × Literal)},
    (∀ k ∈ path, k.span.Within text) → (∀ e ∈ es, PlacedIn text e) →
    insertAt key m seen path es = .ok es' → ∀ e ∈ es', PlacedIn text e
  | [], seen, es, es', _, hes, h => by
    refine forall_entries_of_alterEntry (fun k o a hnew _ ha => ?_) hes h
    cases o with
    | none =>
      obtain rfl := hnew rfl
      exact Except.ok.inj ha ▸ hm
    | some b => cases ha
  | k :: path, seen, es, es', hpath, hes, h => by
    obtain ⟨hfirst, hmore⟩ := List.forall_mem_cons.mp hpath
    refine forall_entries_of_alterEntry (fun k' o a hnew ho ha => ?_) hes h
    split at ha
    · obtain ⟨inner, hinner, rfl⟩ := map_eq_ok_iff.mp ha
      obtain rfl := hnew rfl
      exact placed_made hfirst (placed_insertAt hm hmore (List.forall_mem_nil _) hinner)
    · obtain ⟨inner, hinner, rfl⟩ := map_eq_ok_iff.mp ha
      obtain ⟨hleads, hplaced⟩ := ho _ rfl
      exact placed_made hleads.within (placed_insertAt hm hmore hplaced.entries hinner)
    · cases ha
    · cases ha

/-- A pair that was read has its key in front of its value. -/
theorem PairBehind.leads {p : (List Key × Key) × Literal}
    (h : PairBehind (.ofText text) p) : p.1.2.Leads text p.2 ∧
      ∀ k ∈ p.1.1, k.span.Within text := by
  obtain ⟨depth, c₁, c₂, c₃, c₄, hc₁, hkey, hc₃, hvalue⟩ := h
  have hc₂ := hc₁.trans (Forward.reaches hkey)
  have hkeys := Key.dotted_done hkey
  have hlast := hkeys p.1.2 (List.mem_append_right _ (List.mem_singleton_self _))
  refine ⟨⟨hlast.within hc₂, fun s hs => ?_⟩, fun k hk => ?_⟩
  · rw [span?_of_reader hvalue] at hs
    obtain rfl := Option.some.inj hs
    exact (hlast.le.trans hlast.before).trans hc₃.position_le
  · exact (hkeys k (List.mem_append_left _ hk)).within hc₂

theorem placed_entriesOf {pairs : List ((List Key × Key) × Literal)}
    (hpairs : ∀ p ∈ pairs, PairBehind (.ofText text) p ∧ p.2.Placed text)
    {es : List (Key × Literal)} (h : entriesOf pairs = .ok es) : ∀ e ∈ es, PlacedIn text e := by
  refine foldlM_induction (P := fun es => ∀ e ∈ es, PlacedIn text e)
    (fun p hp _ _ hes h => ?_) (List.forall_mem_nil _) h
  obtain ⟨hbehind, hplaced⟩ := hpairs p hp
  obtain ⟨hleads, hpath⟩ := hbehind.leads
  exact placed_insertAt ⟨hleads, hplaced⟩ hpath hes h

theorem ReadBehind.within {m : Literal} (h : m.ReadBehind (.ofText text)) :
    ∀ s ∈ m.span?, s.Within text := by
  obtain ⟨depth, c, c', hc, hread⟩ := h
  intro s hs
  rw [span?_of_reader hread] at hs
  obtain rfl := Option.some.inj hs
  exact ⟨(Forward.reaches hread).position_le, position_le_size (hc.trans (Forward.reaches hread))⟩

/-- What is read of an inline table starts with its brace. -/
theorem brace_of_reader {depth : Nat} {span : Option Span} {es : List (Key × Literal)}
    (h : reader depth c = .done (.inline span es) c') : c.rest.head? = some '\x7b' := by
  have hread : ∀ {inner : Option (Reader Literal)}, readWith inner c = .done (.inline span es) c' →
      c.rest.head? = some '\x7b' := by
    intro inner h
    obtain ⟨x, _, hpeek, h⟩ := bind_done_iff.mp h
    obtain ⟨hx, rfl⟩ := peek?_done_iff.mp hpeek
    split at h
    · simp at h
    · exact hx
    · simp at h
  cases depth with
  | zero => exact hread h
  | succ depth => exact hread h

theorem ReadBehind.startsAt {span : Span} {es : List (Key × Literal)}
    (h : ReadBehind (.ofText text) (.inline (some span) es)) :
    StartsAt text span.start '\x7b' := by
  obtain ⟨depth, c, c', hc, hread⟩ := h
  obtain rfl := Option.some.inj (span?_of_reader hread)
  exact startsAt_of_reaches hc (brace_of_reader hread)

theorem placed_reader {depth : Nat} {m : Literal} (hc : (Cursor.ofText text).Reaches c)
    (h : reader depth c = .done m c') : m.Placed text := by
  refine reader_induction (fun span value hread => ?_) (fun span items hread hitems => ?_)
    (fun span pairs es hread hpairs hes => ?_) hc h
  · exact .scalar (hread.within span rfl)
  · exact .array (hread.within span rfl) hitems
  · have hentries := placed_entriesOf hpairs hes
    refine .inline (fun s hs => ?_) (fun e he => (hentries e he).1) fun e he => (hentries e he).2
    obtain rfl := Option.some.inj hs
    exact ⟨hread.within span rfl, hread.startsAt⟩

end Literal

/-! ## What lines write -/

/-- What is written of the part is a part of the text. -/
def Part.Placed (text : String) : Part → Prop
  | .pair key m => Literal.PlacedIn text (key, m)
  | .opened table => table.2.Within text

theorem placed_of_mem_linesOf {ls : List Line} {path : List Key} {key : Key} {m : Literal}
    (hls : linesOf text = some ls) (h : .pair path key m ∈ ls) :
    Literal.PlacedIn text (key, m) := by
  obtain ⟨c, c', hc, hread⟩ := read_of_mem_linesOf hls h
  obtain ⟨c₁, c₂, c₃, hkey, hc₂, hvalue, hc₃⟩ := Line.pair_done hread
  have hbehind : Literal.PairBehind (.ofText text) ((path, key), m) :=
    ⟨_, c, c₁, c₂, c₃, hc, hkey, hc₂, hvalue⟩
  exact ⟨hbehind.leads.1, Literal.placed_reader ((hc.trans (Forward.reaches hkey)).trans hc₂) hvalue⟩

theorem placed_of_mem_partsOf {ls : List Line} (hls : linesOf text = some ls)
    (hplaces : Progress.Places text text.utf8ByteSize (openings ls)) :
    ∀ part ∈ partsOf ls, part.Placed text := by
  intro part hpart
  rcases List.mem_append.mp hpart with hopened | hvalue
  · obtain ⟨o, ho, rfl⟩ := List.mem_map.mp hopened
    obtain ⟨-, hle, hstop⟩ := hplaces o ho
    exact ⟨hle, hstop⟩
  · obtain ⟨l, hl, hvalue⟩ := List.mem_filterMap.mp hvalue
    cases l with
    | pair path key m =>
      obtain rfl := Option.some.inj hvalue
      exact placed_of_mem_linesOf hls hl
    | header path key span => cases hvalue

/-! ## Nodes -/

/-- The entry is a part of the text, and reaches over the text of its node. -/
structure EntryOf.Spanned (text : String) (e : Entry) : Prop where
  within : ∀ s ∈ e.span, s.Within text
  covers : ∀ s ∈ e.node.span?, ∃ s' ∈ e.span, s'.Covers s

namespace Node

structure Spanned (text : String) (n : Node) : Prop where
  within : ∀ s ∈ n.span?, s.Within text
  entries : ∀ e ∈ n.entries, e.Spanned text

/-- So are all nodes that are part of the node. -/
def AllSpanned (text : String) (n : Node) : Prop := ∀ {part}, n.Contains part → part.Spanned text

theorem allSpanned_scalar {id : Nat} {span : Option Span} {value : Scalar}
    (hspan : ∀ s ∈ span, s.Within text) : (scalar id span value).AllSpanned text := by
  intro part hpart
  cases hpart
  exact ⟨hspan, List.forall_mem_nil _⟩

theorem allSpanned_array {id : Nat} {span : Option Span} {items : List Node}
    (hspan : ∀ s ∈ span, s.Within text) (hitems : ∀ n ∈ items, n.AllSpanned text) :
    (array id span items).AllSpanned text := by
  intro part hpart
  cases hpart with
  | refl => exact ⟨hspan, List.forall_mem_nil _⟩
  | item hmem hpart => exact hitems _ hmem hpart

theorem allSpanned_table {id : Nat} {span : Option Span} {entries : List Entry}
    (hspan : ∀ s ∈ span, s.Within text)
    (hentries : ∀ e ∈ entries, e.Spanned text ∧ e.node.AllSpanned text) :
    (table id span entries).AllSpanned text := by
  intro part hpart
  cases hpart with
  | refl => exact ⟨hspan, fun e he => (hentries e he).1⟩
  | entry hmem hpart => exact (hentries _ hmem).2 hpart

end Node

namespace Literal

theorem span?_toNode (m : Literal) (next : Nat) : (m.toNode next).1.span? = m.span? := by
  cases m <;> rfl

theorem Placed.within {m : Literal} (h : m.Placed text) : ∀ s ∈ m.span?, s.Within text := by
  intro s hs
  cases h with
  | scalar hspan => exact Option.some.inj hs ▸ hspan
  | array hspan _ => exact Option.some.inj hs ▸ hspan
  | inline hspan _ _ => exact (hspan s hs).1

/-- A pair reaches from its key to the end of its value. -/
theorem PlacedIn.spanned {key : Key} {m : Literal} (h : PlacedIn text (key, m)) (next : Nat) :
    EntryOf.Spanned text ⟨key.name, joinSpans (some key.span) (m.toNode next).1.span?,
      (m.toNode next).1⟩ := by
  obtain ⟨⟨hwithin, hbefore⟩, hplaced⟩ := h
  rw [span?_toNode]
  cases hspan : m.span? with
  | none =>
    refine ⟨fun s hs => ?_, fun s hs => ?_⟩
    · exact Option.some.inj hs ▸ hwithin
    · rw [span?_toNode, hspan] at hs
      cases hs
  | some span =>
    obtain ⟨hle, hstop⟩ := hplaced.within span hspan
    have hstart := hbefore span hspan
    refine ⟨fun s hs => ?_, fun s hs => ?_⟩
    · obtain rfl := Option.some.inj hs
      exact ⟨hstart.trans hle, hstop⟩
    · rw [span?_toNode, hspan] at hs
      obtain rfl := Option.some.inj hs
      exact ⟨_, rfl, hstart, Nat.le_refl _⟩

theorem Placed.allSpanned {m : Literal} (h : m.Placed text) (next : Nat) :
    (m.toNode next).1.AllSpanned text := by
  induction h generalizing next with
  | scalar hspan => exact Node.allSpanned_scalar fun s hs => Option.some.inj hs ▸ hspan
  | array hspan _ ih =>
    refine Node.allSpanned_array (fun s hs => Option.some.inj hs ▸ hspan) fun n hn => ?_
    obtain ⟨m, hm, next, rfl⟩ := exists_of_mem_toNodes hn
    exact ih m hm next
  | inline hspan hleads hes ih =>
    refine Node.allSpanned_table (fun s hs => (hspan s hs).1) fun e he => ?_
    obtain ⟨x, hx, next, rfl⟩ := exists_of_mem_toEntries he
    exact ⟨PlacedIn.spanned ⟨hleads x hx, hes x hx⟩ next, ih x hx next⟩

end Literal

theorem TableOf.placed_parts {names : List String} {t : Table}
    (h : ∀ part ∈ t.parts names, part.Placed text) : (∀ s ∈ t.origin.span?, s.Within text) ∧
      ∀ e ∈ t.entries, ∀ part ∈ e.2.parts e.1 (names ++ [e.1.name]), part.Placed text := by
  rw [TableOf.parts_eq] at h
  refine ⟨fun s hs => ?_, fun e he part hpart => ?_⟩
  · have hopened : Part.opened (names, s) ∈ t.origin.parts names := by
      rw [Origin.parts, Option.mem_def.mp hs]
      exact List.mem_singleton_self _
    exact h _ (List.mem_append_left _ hopened)
  · exact h part (List.mem_append_right _ (List.mem_flatMap.mpr ⟨e, he, hpart⟩))

/-- If all parts of an item are parts of the text, then so are all nodes that it becomes. -/
theorem Item.Traced.allSpanned {reached : Nat} {i : Item} (h : i.Traced (.ofText text) reached)
    {o : Origin} (henclosed : i.Enclosed reached o) {key : Key} {names : List String}
    (hparts : ∀ part ∈ i.parts key names, part.Placed text) (next : Nat) :
    (Item.toEntry key i next).1.Spanned text ∧
      (Item.toEntry key i next).1.node.AllSpanned text := by
  induction h generalizing o key names next with
  | @literal m _ =>
    have hplaced : Literal.PlacedIn text (key, m) := hparts _ (List.mem_singleton_self _)
    exact ⟨hplaced.spanned next, hplaced.2.allSpanned next⟩
  | @table t _ ih =>
    have ht := Item.enclosed_table_iff.mp henclosed
    rw [Item.parts_table] at hparts
    obtain ⟨hspan, hentries⟩ := TableOf.placed_parts hparts
    rw [← ht.span?_eq] at hspan
    obtain ⟨origin, entries⟩ := t
    refine ⟨⟨hspan, fun s hs => ⟨s, hs, .refl s⟩⟩, Node.allSpanned_table hspan fun e he => ?_⟩
    obtain ⟨x, hx, next, rfl⟩ := Item.exists_of_mem_toEntries he
    exact ih x hx (ht x hx) (hentries x hx) next
  | @tables first ts hrows _ ih =>
    rw [Item.parts, Item.partsOfRows_eq] at hparts
    have hts := Item.enclosed_tables_iff.mp henclosed
    have hrow : ∀ t ∈ ts, (∀ s ∈ t.span?, s.Within text) ∧ ∀ e ∈ t.entries,
        ∀ part ∈ e.2.parts e.1 (names ++ [e.1.name]), part.Placed text := by
      intro t ht
      rw [(hts t ht).span?_eq]
      exact TableOf.placed_parts fun part hpart =>
        hparts part (List.mem_flatMap.mpr ⟨t, ht, hpart⟩)
    obtain ⟨last, hlast, span, hspan, hle, hentry⟩ := hrows.toEntry_eq key next
    have hwithin : ∀ s ∈ some (Span.mk first span.stop), s.Within text := by
      intro s hs
      obtain rfl := Option.some.inj hs
      have hstop := ((hrow last hlast).1 span hspan).2
      exact ⟨by show first ≤ span.stop; omega, hstop⟩
    rw [hentry]
    refine ⟨⟨hwithin, fun s hs => ⟨s, hs, .refl s⟩⟩, Node.allSpanned_array hwithin fun n hn => ?_⟩
    obtain ⟨t, ht, id, next, rfl⟩ := (Item.toRows_spans ts next).2 n hn
    obtain ⟨hspan, hentries⟩ := hrow t ht
    refine Node.allSpanned_table hspan fun e he => ?_
    obtain ⟨x, hx, next, rfl⟩ := Item.exists_of_mem_toEntries he
    exact ih t ht x hx (hts t ht x hx) (hentries x hx) next

/-! ## Tables -/

namespace Node

mutual

/-- The tables in a node, itself included, each with the names that lead to it and with its span.
`names` lead to the node; the items of an array have no names of their own. -/
def tables (names : List String) : Node → List (List String × Option Span)
  | .scalar _ _ _ => []
  | .array _ _ items => tablesOfItems names items
  | .table _ span entries => (names, span) :: tablesOfEntries names entries

def tablesOfItems (names : List String) : List Node → List (List String × Option Span)
  | [] => []
  | n :: ns => n.tables names ++ tablesOfItems names ns

def tablesOfEntries (names : List String) :
    List (EntryOf Node) → List (List String × Option Span)
  | [] => []
  | e :: es => e.node.tables (names ++ [e.key]) ++ tablesOfEntries names es

end

end Node

/-- The tables of a document below its root. -/
def Document.tables (d : Document) : List (List String × Option Span) :=
  Node.tablesOfEntries [] d.root.entries

/-- The table that a header opened. -/
def Part.opened? : Part → Option (List String × Span)
  | .pair _ _ => none
  | .opened table => some table

/-- The tables are those that headers opened, and others that have no span or start with a
brace. -/
def Lists (text : String) (opened : List (List String × Span))
    (tables : List (List String × Option Span)) : Prop :=
  ∃ others, tables.Perm (opened.map (fun o => (o.1, some o.2)) ++ others) ∧
    ∀ t ∈ others, ∀ s ∈ t.2, StartsAt text s.start '\x7b'

theorem Lists.append {opened opened' : List (List String × Span)}
    {tables tables' : List (List String × Option Span)} (h : Lists text opened tables)
    (h' : Lists text opened' tables') : Lists text (opened ++ opened') (tables ++ tables') := by
  obtain ⟨others, htables, hothers⟩ := h
  obtain ⟨others', htables', hothers'⟩ := h'
  refine ⟨others ++ others', ?_, List.forall_mem_append.mpr ⟨hothers, hothers'⟩⟩
  refine List.perm_iff_count.mpr fun x => ?_
  have hcount := htables.count_eq x
  have hcount' := htables'.count_eq x
  simp only [List.map_append, List.count_append] at hcount hcount' ⊢
  omega

theorem Lists.others {tables : List (List String × Option Span)}
    (h : ∀ t ∈ tables, ∀ s ∈ t.2, StartsAt text s.start '\x7b') : Lists text [] tables :=
  ⟨tables, .refl _, h⟩

theorem Lists.origin (names : List String) (o : Origin) :
    Lists text ((o.parts names).filterMap Part.opened?) [(names, o.span?)] := by
  cases hspan : o.span? with
  | none =>
    rw [Origin.parts, hspan]
    exact .others (by simp)
  | some s =>
    rw [Origin.parts, hspan]
    exact ⟨[], .refl _, List.forall_mem_nil _⟩

namespace Node

theorem exists_of_mem_tablesOfItems {names : List String} {t : List String × Option Span} :
    ∀ {ns : List Node}, t ∈ tablesOfItems names ns → ∃ n ∈ ns, t ∈ n.tables names
  | n :: ns, h => by
    rcases List.mem_append.mp h with hfirst | hmore
    · exact ⟨n, List.mem_cons_self .., hfirst⟩
    · obtain ⟨n', hn', ht⟩ := exists_of_mem_tablesOfItems hmore
      exact ⟨n', List.mem_cons_of_mem _ hn', ht⟩

theorem exists_of_mem_tablesOfEntries {names : List String} {t : List String × Option Span} :
    ∀ {es : List Entry}, t ∈ tablesOfEntries names es →
      ∃ e ∈ es, t ∈ e.node.tables (names ++ [e.key])
  | e :: es, h => by
    rcases List.mem_append.mp h with hfirst | hmore
    · exact ⟨e, List.mem_cons_self .., hfirst⟩
    · obtain ⟨e', he', ht⟩ := exists_of_mem_tablesOfEntries hmore
      exact ⟨e', List.mem_cons_of_mem _ he', ht⟩

end Node

/-- The tables in a value are inline. -/
theorem Literal.Placed.startsAt {m : Literal} (h : m.Placed text) {names : List String}
    {next : Nat} : ∀ t ∈ (m.toNode next).1.tables names, ∀ s ∈ t.2,
      StartsAt text s.start '\x7b' := by
  induction h generalizing names next with
  | scalar _ => exact List.forall_mem_nil _
  | array _ _ ih =>
    intro t ht
    obtain ⟨n, hn, ht⟩ := Node.exists_of_mem_tablesOfItems ht
    obtain ⟨m, hm, next, rfl⟩ := exists_of_mem_toNodes hn
    exact ih m hm t ht
  | inline hspan _ _ ih =>
    refine List.forall_mem_cons.mpr ⟨fun s hs => (hspan s hs).2, fun t ht => ?_⟩
    obtain ⟨e, he, ht⟩ := Node.exists_of_mem_tablesOfEntries ht
    obtain ⟨x, hx, next, rfl⟩ := exists_of_mem_toEntries he
    exact ih x hx t ht

namespace Item

theorem key_toEntry (key : Key) (i : Item) (next : Nat) :
    (toEntry key i next).1.key = key.name := by
  cases i <;> rfl

variable {reached : Nat}

mutual

/-- The tables that an item becomes are those among its parts that headers opened. -/
theorem lists_toEntry : ∀ (key : Key) (i : Item) (names : List String) (next : Nat) {o : Origin},
    i.Enclosed reached o → (∀ part ∈ i.parts key names, part.Placed text) →
    Lists text ((i.parts key names).filterMap Part.opened?)
      ((toEntry key i next).1.node.tables names)
  | key, .literal m, names, next, o, _, hplaced =>
    .others (hplaced (.pair key m) (List.mem_singleton_self _)).2.startsAt
  | key, .table ⟨origin, entries⟩, names, next, o, h, hplaced => by
    have ht := enclosed_table_iff.mp h
    rw [parts, List.filterMap_append, toEntry, ht.span?_eq]
    exact (Lists.origin names origin).append (lists_toEntries entries names next ht
      fun part hpart => hplaced part (List.mem_append_right _ hpart))
  | key, .tables ts, names, next, o, h, hplaced =>
    lists_toRows ts names next (enclosed_tables_iff.mp h) hplaced

theorem lists_toEntries : ∀ (es : List (Key × Item)) (names : List String) (next : Nat)
    {o : Origin}, (∀ e ∈ es, e.2.Enclosed reached o) →
    (∀ part ∈ partsIn names es, part.Placed text) →
    Lists text ((partsIn names es).filterMap Part.opened?)
      (Node.tablesOfEntries names (toEntries es next).1)
  | [], _, _, _, _, _ => .others (List.forall_mem_nil _)
  | (key, i) :: es, names, next, o, h, hplaced => by
    obtain ⟨hfirst, hmore⟩ := List.forall_mem_append.mp hplaced
    obtain ⟨hi, hes⟩ := List.forall_mem_cons.mp h
    rw [partsIn, List.filterMap_append]
    refine Lists.append ?_ (lists_toEntries es names (toEntry key i next).2 hes hmore)
    rw [key_toEntry]
    exact lists_toEntry key i (names ++ [key.name]) next hi hfirst

theorem lists_toRows : ∀ (ts : List (TableOf Item)) (names : List String) (next : Nat),
    (∀ t ∈ ts, TableOf.Enclosed reached t) →
    (∀ part ∈ partsOfRows names ts, part.Placed text) →
    Lists text ((partsOfRows names ts).filterMap Part.opened?)
      (Node.tablesOfItems names (toRows ts next).1)
  | [], _, _, _, _ => .others (List.forall_mem_nil _)
  | ⟨origin, entries⟩ :: ts, names, next, h, hplaced => by
    obtain ⟨hfirst, hmore⟩ := List.forall_mem_append.mp hplaced
    obtain ⟨ht, hts⟩ := List.forall_mem_cons.mp h
    rw [partsOfRows, List.filterMap_append, List.filterMap_append, toRows, ht.span?_eq]
    refine Lists.append ?_ (lists_toRows ts names ((toEntries entries next).2 + 1) hts hmore)
    exact (Lists.origin names origin).append (lists_toEntries entries names next ht
      fun part hpart => hfirst part (List.mem_append_right _ hpart))

end

/-! ## Tables under the same names -/

theorem exists_sublist_tables {names : List String} {e : Key × Item} :
    ∀ {es : List (Key × Item)} (next : Nat), e ∈ es → ∃ next',
      ((toEntry e.1 e.2 next').1.node.tables (names ++ [e.1.name])).Sublist
        (Node.tablesOfEntries names (toEntries es next).1)
  | (key, i) :: es, next, h => by
    rw [toEntries, Node.tablesOfEntries, key_toEntry]
    rcases List.mem_cons.mp h with rfl | hmore
    · exact ⟨next, List.sublist_append_left ..⟩
    · obtain ⟨next', hsublist⟩ := exists_sublist_tables (toEntry key i next).2 hmore
      exact ⟨next', hsublist.trans (List.sublist_append_right ..)⟩

/-- The tables in the node that a table becomes, the node included. -/
def tablesOf (names : List String) (t : Table) (id next : Nat) :
    List (List String × Option Span) :=
  (Node.table id t.span? (toEntries t.entries next).1).tables names

theorem sublist_toRows {names : List String} {f : Table → List (List String × Option Span)} :
    ∀ (ts : List Table) (next : Nat),
    (∀ t ∈ ts, ∀ id next, (f t).Sublist (tablesOf names t id next)) →
    (ts.flatMap f).Sublist (Node.tablesOfItems names (toRows ts next).1)
  | [], _, _ => .slnil
  | ⟨origin, entries⟩ :: ts, next, h => by
    obtain ⟨hfirst, hmore⟩ := List.forall_mem_cons.mp h
    exact (hfirst _ next).append (sublist_toRows ts _ hmore)

/-- The tables that headers opened under some names, in the order of their rows. -/
def openedUnder (names ns : List String) (t : Table) : List (List String × Option Span) :=
  (t.openedAt ns).map fun s => (names ++ ns, some s)

theorem openedUnder_entries {n : String} {ns : List String}
    (ih : ∀ {t : Table} (names : List String) (id next : Nat), TableOf.Enclosed reached t →
      (openedUnder names ns t).Sublist (tablesOf names t id next))
    {t : Table} (names : List String) (next : Nat) (ht : TableOf.Enclosed reached t) :
    (openedUnder names (n :: ns) t).Sublist
      (Node.tablesOfEntries names (toEntries t.entries next).1) := by
  have hnames : ∀ u : Table, ((u.openedAt ns).map fun s => (names ++ n :: ns, some s)) =
      openedUnder (names ++ [n]) ns u := by simp [openedUnder]
  -- the tables that the name leads to are among those of its entry
  have hentry : ∀ {i : Item}, t.named? n = some i → i.Enclosed reached t.origin ∧
      ∃ key next', ((toEntry key i next').1.node.tables (names ++ [n])).Sublist
        (Node.tablesOfEntries names (toEntries t.entries next).1) := by
    intro i hi
    obtain ⟨⟨key, _⟩, hfind, rfl⟩ := Option.map_eq_some_iff.mp hi
    obtain rfl : key.name = n := by simpa using List.find?_some hfind
    have hmem := List.mem_of_find?_eq_some hfind
    exact ⟨ht _ hmem, key, exists_sublist_tables next hmem⟩
  rw [openedUnder, TableOf.openedAt]
  split
  · next inner hinner =>
    obtain ⟨henclosed, key, next', hsublist⟩ := hentry hinner
    rw [hnames]
    exact (ih (names ++ [n]) _ next' (enclosed_table_iff.mp henclosed)).trans hsublist
  · next rows hrows =>
    obtain ⟨henclosed, key, next', hsublist⟩ := hentry hrows
    have hts := enclosed_tables_iff.mp henclosed
    rw [List.map_flatMap]
    simp only [hnames]
    exact (sublist_toRows rows next' fun u hu id next => ih _ id next (hts u hu)).trans hsublist
  · exact List.nil_sublist _

theorem openedUnder_sublist : ∀ (ns : List String) {t : Table} (names : List String)
    (id next : Nat), TableOf.Enclosed reached t →
    (openedUnder names ns t).Sublist (tablesOf names t id next)
  | [], t, names, id, next, ht => by
    rw [openedUnder, TableOf.openedAt, tablesOf, ht.span?_eq, Node.tables, List.append_nil]
    cases t.origin.span? with
    | none => exact List.nil_sublist _
    | some s => exact (List.nil_sublist _).cons_cons _
  | n :: ns, t, names, id, next, ht =>
    (openedUnder_entries (openedUnder_sublist ns) names next ht).cons _

end Item

/-! ## Documents -/

theorem filterMap_opened?_partsOf (ls : List Line) :
    (partsOf ls).filterMap Part.opened? = openings ls := by
  have hopened : ((openings ls).map Part.opened).filterMap Part.opened? = openings ls := by
    rw [List.filterMap_map]
    exact List.filterMap_some
  have hvalues : (ls.filterMap Line.value?).filterMap Part.opened? = [] := by
    refine List.filterMap_eq_nil_iff.mpr fun part hpart => ?_
    obtain ⟨l, -, hvalue⟩ := List.mem_filterMap.mp hpart
    cases l with
    | pair path key m => exact Option.some.inj hvalue ▸ rfl
    | header path key span => cases hvalue
  rw [partsOf, List.filterMap_append, hopened, hvalues, List.append_nil]

theorem span?_root_of_parse {source : Text.Named} {d : Document}
    (h : Document.parse source = .ok d) :
    d.root.span? = some ⟨0, source.text.utf8ByteSize⟩ := by
  unfold Document.parse at h
  split at h
  · cases h
  · obtain rfl := Except.ok.inj h
    rfl

/-- The root is no part. -/
theorem Progress.Accounts.partsIn_root {ls : List Line} {p : Progress} (h : p.Accounts ls) :
    p.root.parts [] = Item.partsIn [] p.root.entries := by
  have hspan : p.root.origin.span? = none := by
    cases hspan : p.root.origin.span? with
    | none => rfl
    | some s =>
      exfalso
      have hroot : Part.opened ([], s) ∈ p.root.parts [] := by
        rw [TableOf.parts, Origin.parts, hspan]
        exact List.mem_append_left _ (List.mem_singleton_self _)
      have hopened : ([], s) ∈ (partsOf ls).filterMap Part.opened? :=
        List.mem_filterMap.mpr ⟨_, h.parts.mem_iff.mp hroot, rfl⟩
      rw [filterMap_opened?_partsOf] at hopened
      exact ne_nil_of_mem_openings hopened rfl
  rw [TableOf.parts, Origin.parts, hspan]
  rfl

theorem map_textsAt (ns : List String) (tables : List (List String × Span)) :
    ((textsAt ns tables).map fun s => (ns, some s)) =
      (tables.filter (·.1 = ns)).map fun o => (o.1, some o.2) := by
  rw [textsAt, List.map_map]
  refine List.map_congr_left fun o ho => ?_
  obtain rfl : o.1 = ns := by simpa using (List.mem_filter.mp ho).2
  rfl

/-- The tables that headers opened under the same names are in the order of the headers. -/
theorem Progress.Accounts.sublist_tables {ls : List Line} {p : Progress} {reached : Nat}
    (h : p.Accounts ls) (henclosed : p.root.Enclosed reached) :
    ∀ ns : List String, (((openings ls).filter (·.1 = ns)).map fun o => (o.1, some o.2)).Sublist
      (Node.tablesOfEntries [] (Item.toEntries p.root.entries 0).1)
  | [] => by
    have hnone : (openings ls).filter (·.1 = []) = [] :=
      List.filter_eq_nil_iff.mpr fun o ho => by simpa using ne_nil_of_mem_openings ho
    rw [hnone]
    exact List.nil_sublist _
  | n :: ns => by
    rw [← map_textsAt, ← h.order]
    exact Item.openedUnder_entries (Item.openedUnder_sublist ns) [] 0 henclosed

/-- **Headers cover their bodies.** The tables of a document below its root are those that its
headers open, each with a span from the bracket of the header to the end of the last pair in
front of the next one, or of the header itself; and others, which have no span or are inline.
Tables under the same names, as the rows of an array are, stand in the order of their headers. All
spans of the tree are parts of the text, and the span of an entry covers that of its node. -/
theorem headers_cover_bodies {source : Text.Named} {d : Document}
    (h : Document.parse source = .ok d) : ∃ ls others, linesOf source.text = some ls ∧
      d.tables.Perm ((openings ls).map (fun o => (o.1, some o.2)) ++ others) ∧
      (∀ names, (((openings ls).filter (·.1 = names)).map fun o => (o.1, some o.2)).Sublist
        d.tables) ∧
      (∀ o ∈ openings ls, StartsAt source.text o.2.start '[') ∧
      (∀ t ∈ others, ∀ s ∈ t.2, StartsAt source.text s.start '\x7b') ∧
      ∀ n, d.root.Contains n → n.Spanned source.text := by
  obtain ⟨root, c, next, span, hdocument, hroot⟩ := document_of_parse h
  obtain ⟨ls, p, hls, rfl, hrecorded⟩ := Progress.recorded_document hdocument
  have hplaces := hrecorded.places.mono (position_le_size hrecorded.traced.1)
  have hparts : ∀ part ∈ p.root.parts [], part.Placed source.text := fun part hpart =>
    placed_of_mem_partsOf hls hplaces part (hrecorded.accounts.parts.mem_iff.mp hpart)
  have hbelow : ∀ part ∈ Item.partsIn [] p.root.entries, part.Placed source.text :=
    hrecorded.accounts.partsIn_root ▸ hparts
  -- the tables are told by the parts, and these by the lines
  have hopened : ((Item.partsIn [] p.root.entries).filterMap Part.opened?).Perm (openings ls) := by
    rw [← hrecorded.accounts.partsIn_root, ← filterMap_opened?_partsOf ls]
    exact hrecorded.accounts.parts.filterMap _
  obtain ⟨others, htables, hothers⟩ :=
    Item.lists_toEntries p.root.entries [] 0 hrecorded.enclosed hbelow
  refine ⟨ls, others, hls, ?_, fun names => ?_, fun o ho => (hplaces o ho).1, hothers, ?_⟩
  · rw [Document.tables, hroot]
    exact htables.trans ((hopened.map _).append_right _)
  · rw [Document.tables, hroot]
    exact hrecorded.accounts.sublist_tables hrecorded.enclosed names
  · intro n hn
    have hspan := span?_root_of_parse h
    rw [hroot] at hn hspan
    refine Node.allSpanned_table (fun s hs => ?_) (fun e he => ?_) hn
    · obtain rfl := Option.some.inj (hspan.symm.trans hs)
      exact ⟨Nat.zero_le _, Nat.le_refl _⟩
    · obtain ⟨x, hx, next, rfl⟩ := Item.exists_of_mem_toEntries he
      exact (hrecorded.traced.2 x hx).allSpanned (hrecorded.enclosed x hx)
        ((TableOf.placed_parts hparts).2 x hx) next

/-- A header that is longer than one after it, two rows, and two tables that no header opens. -/
theorem headers_cover_bodies_nested :
    let source : Text.Named :=
      ⟨none, "[a.b]\nx.y = 1\n\n[[r]]\nt = \x7b u = 2 \x7d # v\n[a]\n[[r]]\n"⟩
    ∃ d ls, Document.parse source = .ok d ∧ linesOf source.text = some ls ∧
      openings ls = [(["a", "b"], ⟨0, 13⟩), (["r"], ⟨15, 34⟩), (["a"], ⟨39, 42⟩),
        (["r"], ⟨43, 48⟩)] ∧
      d.tables = [(["r"], some ⟨15, 34⟩), (["r", "t"], some ⟨25, 34⟩), (["r"], some ⟨43, 48⟩),
        (["a"], some ⟨39, 42⟩), (["a", "b"], some ⟨0, 13⟩), (["a", "b", "x"], none)] ∧
      [(["r"], some ⟨15, 34⟩), (["r"], some ⟨43, 48⟩)].Sublist d.tables ∧
      (∀ o ∈ openings ls, StartsAt source.text o.2.start '[') ∧
      ∀ n, d.root.Contains n → n.Spanned source.text := by
  intro source
  have htables : (Document.parse source).toOption.map Document.tables
      = some [(["r"], some ⟨15, 34⟩), (["r", "t"], some ⟨25, 34⟩), (["r"], some ⟨43, 48⟩),
        (["a"], some ⟨39, 42⟩), (["a", "b"], some ⟨0, 13⟩), (["a", "b", "x"], none)] := by
    decide +kernel
  have hopenings : (linesOf source.text).map openings
      = some [(["a", "b"], ⟨0, 13⟩), (["r"], ⟨15, 34⟩), (["a"], ⟨39, 42⟩),
        (["r"], ⟨43, 48⟩)] := by decide +kernel
  cases hd : Document.parse source with
  | error issue =>
    rw [hd] at htables
    cases htables
  | ok d =>
    rw [hd] at htables
    obtain ⟨ls, others, hls, -, horder, hopened, -, hspanned⟩ := headers_cover_bodies hd
    rw [hls] at hopenings
    have hrows := horder ["r"]
    rw [Option.some.inj hopenings] at hrows
    exact ⟨d, ls, rfl, hls, Option.some.inj hopenings, Option.some.inj htables, hrows, hopened,
      hspanned⟩

end Toml

end Configurable
