import Configurable.Proofs.HeaderTables
import Configurable.Proofs.Lines
import Configurable.Proofs.TableEnds

/-!
# What lines put into tables

A line of a document puts one thing into the root table: a pair its value, a header a table
with its text. These are the parts of the table (`TableOf.parts`); tables that are made on the
way to another are none. A change at the end of a path adds to the parts of the root what it
adds there, and takes from them what it takes there (`exists_changedAt`). So the parts of a
document are those that its lines tell, whatever the order in which they stand in the tables
(`Progress.Accounts`): a pair only extends the table of the header in front of it. Tables under
the same names, which are rows or below rows, stand in the order of their headers.
-/

namespace Configurable.Toml

open Reader
open Text (Span)

/-! ## Parts -/

/-- What a line puts into a table: a value under a key, or a table with the names that lead to it
and with its text. -/
inductive Part where
  | pair (key : Key) (value : Literal)
  | opened (table : List String × Span)

/-- The table itself, if a header opened it. -/
def Origin.parts (names : List String) (o : Origin) : List Part :=
  (o.span?.map (names, ·)).toList.map .opened

@[simp] theorem Origin.parts_header {names : List String} {span : Span} :
    (Origin.header span).parts names = [.opened (names, span)] := rfl

@[simp] theorem Origin.parts_longerHeader {names : List String} :
    Origin.longerHeader.parts names = [] := rfl

namespace Item

mutual

/-- The parts in an item that stands under a key. `names` lead to the item. -/
def parts (key : Key) (names : List String) : Item → List Part
  | .literal value => [.pair key value]
  | .table ⟨origin, entries⟩ => origin.parts names ++ partsIn names entries
  | .tables rows => partsOfRows names rows

def partsIn (names : List String) : List (Key × Item) → List Part
  | [] => []
  | (key, i) :: es => i.parts key (names ++ [key.name]) ++ partsIn names es

def partsOfRows (names : List String) : List (TableOf Item) → List Part
  | [] => []
  | ⟨origin, entries⟩ :: rows =>
    origin.parts names ++ partsIn names entries ++ partsOfRows names rows

end

end Item

namespace TableOf

/-- The parts of the table itself and of what it holds. -/
def parts (names : List String) (t : Table) : List Part :=
  t.origin.parts names ++ Item.partsIn names t.entries

/-- The table at the end of a path; of an array of tables the last one is on the way. -/
def at? : List Key → Table → Option Table
  | [], t => some t
  | k :: path, t =>
    match t.get? k with
    | some (.table inner) => at? path inner
    | some (.tables ts) => ts.getLast?.bind (at? path)
    | _ => none

end TableOf

section

variable {names : List String} {key : Key} {t : Table}

theorem Item.parts_table : (Item.table t).parts key names = t.parts names := by
  cases t
  rfl

theorem Item.partsIn_eq : ∀ es : List (Key × Item), partsIn names es =
    es.flatMap fun e => e.2.parts e.1 (names ++ [e.1.name])
  | [] => rfl
  | (key, i) :: es => by rw [partsIn, List.flatMap_cons, partsIn_eq es]

theorem Item.partsOfRows_eq : ∀ ts : List Table, partsOfRows names ts =
    ts.flatMap (TableOf.parts names)
  | [] => rfl
  | ⟨origin, entries⟩ :: ts => by rw [partsOfRows, List.flatMap_cons, partsOfRows_eq ts]; rfl

theorem TableOf.parts_eq (t : Table) : t.parts names = t.origin.parts names ++
    t.entries.flatMap fun e => e.2.parts e.1 (names ++ [e.1.name]) := by
  rw [parts, Item.partsIn_eq]

@[simp] theorem TableOf.parts_empty {origin : Origin} :
    parts names (.empty origin) = origin.parts names := List.append_nil _

end

/-! ## Changing one entry -/

/-- Giving `y` for `y'` and then `z` for `z'` where `y'` was, is giving `z` for `z'`. -/
theorem perm_trade {α : Type} {x x' y y' z z' : List α} (h : (x' ++ y).Perm (x ++ y'))
    (h' : (y' ++ z).Perm (y ++ z')) : (x' ++ z).Perm (x ++ z') := by
  classical
  refine List.perm_iff_count.mpr fun a => ?_
  have hcount := h.count_eq a
  have hcount' := h'.count_eq a
  simp only [List.count_append] at hcount hcount' ⊢
  omega

namespace TableOf

section

variable {names : List String} {t t' : Table} {key k : Key} {path : List Key}

theorem get?_of_before {before after : List (Key × Item)} {origin : Origin} (o : Option Item)
    (hk : k.name = key.name) (hbefore : ∀ e ∈ before, e.1.name ≠ key.name)
    (hafter : o = none → after = []) :
    get? ⟨origin, before ++ ((o.map (k, ·)).toList ++ after)⟩ key = o := by
  have hnone : before.find? (fun e => decide (e.1.name = key.name)) = none := by
    refine List.find?_eq_none.mpr fun e he => ?_
    simpa using hbefore e he
  cases o with
  | none => simp [get?, hnone, hafter rfl]
  | some i => simp [get?, List.find?_append, hnone, hk]

/-- What changing one entry does to the parts. A new entry has the key itself. -/
theorem alter_cases {f : Option Item → Except Cause Item} (h : t.alter key f = .ok t') :
    ∃ k i, (t.get? key = none → k = key) ∧ f (t.get? key) = .ok i ∧ t'.get? key = some i ∧
      t'.origin = t.origin ∧ ∀ names,
        (t'.parts names ++ (t.get? key).elim [] (Item.parts k (names ++ [key.name]))).Perm
          (t.parts names ++ i.parts k (names ++ [key.name])) := by
  obtain ⟨es, hes, rfl⟩ := map_eq_ok_iff.mp h
  obtain ⟨before, after, k, o, i, hk, hbefore, hnew, hi, hold, rfl⟩ := alterEntry_cases hes
  obtain ⟨origin, entries⟩ := t
  obtain rfl : entries = _ := hold
  rw [get?_of_before o hk hbefore fun ho => (hnew ho).2]
  refine ⟨k, i, fun ho => (hnew ho).1, hi, get?_of_before (some i) hk hbefore nofun, rfl,
    fun names => ?_⟩
  simp only [parts_eq, List.flatMap_append, List.flatMap_cons]
  classical
  refine List.perm_iff_count.mpr fun x => ?_
  cases o with
  | none => simp [(hnew rfl).2, hk]
  | some b =>
    simp [hk]
    omega

/-! ## Changes at the end of a path -/

/-- What is known of every table on the way: its values were read, its arrays of tables are not
empty, and its keys are unique. -/
structure Regular (s : Cursor) (reached : Nat) (t : Table) : Prop where
  traced : t.Traced s reached
  unambiguous : t.Unambiguous

variable {s : Cursor} {reached : Nat}

theorem regular_empty (origin : Origin) : Regular s reached (.empty origin) :=
  ⟨traced_empty origin, unambiguous_empty origin⟩

theorem Regular.table {inner : Table} (ht : t.Regular s reached)
    (hget : t.get? key = some (.table inner)) : inner.Regular s reached := by
  refine ⟨?_, unambiguous_item_iff.mp (unambiguous_of_get? ht.unambiguous hget)⟩
  cases traced_of_get? ht.traced hget with
  | table hentries => exact hentries

theorem Regular.tables {ts : List Table} (ht : t.Regular s reached)
    (hget : t.get? key = some (.tables ts)) : ∃ rows last, ts = rows ++ [last] ∧
      last.Regular s reached := by
  cases traced_of_get? ht.traced hget with
  | tables hrows hentries =>
    obtain ⟨stop, hhead⟩ := hrows.head
    have hne : ts ≠ [] := by
      rintro rfl
      cases hhead
    obtain ⟨rows, last, rfl⟩ := List.eq_nil_or_concat ts |>.resolve_left hne
    rw [List.concat_eq_append] at *
    have hmem : last ∈ rows ++ [last] := List.mem_append_right _ (List.mem_singleton_self last)
    have hunambiguous := unambiguous_items_iff.mp (unambiguous_of_get? ht.unambiguous hget)
    exact ⟨rows, last, rfl, hentries last hmem, hunambiguous last hmem⟩

/-- At the end of the path `inner` was changed to `inner'`, and so `t` to `t'`. -/
structure ChangedAt (path : List Key) (inner inner' t t' : Table) : Prop where
  from_path : ∀ u, t.at? path = some u → u = inner
  at_path : t'.at? path = some inner'
  origin : inner'.origin = inner.origin → t'.origin = t.origin
  parts : ∀ names, (t'.parts names ++ inner.parts (names ++ TableOf.names path)).Perm
    (t.parts names ++ inner'.parts (names ++ TableOf.names path))
  order : ∀ ns, ∃ earlier, t.openedAt ns = earlier ++ inner.openedBelow path ns ∧
    t'.openedAt ns = earlier ++ inner'.openedBelow path ns

theorem ChangedAt.self : ChangedAt [] t t' t t' where
  from_path _ hu := (Option.some.inj hu).symm
  at_path := rfl
  origin := id
  parts names := by simpa [TableOf.names] using List.perm_append_comm
  order _ := ⟨[], rfl, rfl⟩

/-- Under a key that leads to `below` the changes are those that were made there. -/
theorem ChangedAt.under {below below' inner inner' : Table}
    (hchanged : ChangedAt path inner inner' below below')
    (hfrom : ∀ u, t.at? (k :: path) = some u → below.at? path = some u)
    (hat : t'.at? (k :: path) = below'.at? path) (horigin : t'.origin = t.origin)
    (hparts : ∀ names, (t'.parts names ++ below.parts (names ++ [k.name])).Perm
      (t.parts names ++ below'.parts (names ++ [k.name])))
    (hothers : ∀ n, n ≠ k.name → t'.named? n = t.named? n)
    (horder : ∀ ns, ∃ earlier, t.openedAt (k.name :: ns) = earlier ++ below.openedAt ns ∧
      t'.openedAt (k.name :: ns) = earlier ++ below'.openedAt ns) :
    ChangedAt (k :: path) inner inner' t t' where
  from_path u hu := hchanged.from_path u (hfrom u hu)
  at_path := hat.trans hchanged.at_path
  origin _ := horigin
  parts names := by
    have hnames : names ++ TableOf.names (k :: path) =
        names ++ [k.name] ++ TableOf.names path := by simp [TableOf.names]
    rw [hnames]
    exact perm_trade (hparts names) (hchanged.parts (names ++ [k.name]))
  order
    | [] => ⟨t.openedAt [], (List.append_nil _).symm, by
        rw [openedAt, horigin]
        exact (List.append_nil _).symm⟩
    | n :: ns => by
      by_cases hn : k.name = n
      · subst hn
        obtain ⟨earlier, hold, hnew⟩ := horder ns
        obtain ⟨inside, hold', hnew'⟩ := hchanged.order ns
        refine ⟨earlier ++ inside, ?_, ?_⟩
        · rw [hold, hold', openedBelow, if_pos rfl, List.append_assoc]
        · rw [hnew, hnew', openedBelow, if_pos rfl, List.append_assoc]
      · refine ⟨t.openedAt (n :: ns), ?_, ?_⟩
        · rw [openedBelow, if_neg hn, List.append_nil]
        · rw [openedBelow, if_neg hn, List.append_nil, openedAt_cons (hothers n (Ne.symm hn))]

/-- What is done to the table at the end of a path, and that nothing else is. -/
theorem exists_changedAt {way : Way} {f : Table → Except Cause Table} :
    ∀ {path : List Key} {seen : List String} {t t' : Table}, t.Regular s reached →
    descend way f seen path t = .ok t' → ∃ inner inner', inner.Regular s reached ∧
      f inner = .ok inner' ∧ ChangedAt path inner inner' t t'
  | [], seen, t, t', ht, h => ⟨t, t', ht, h, .self⟩
  | k :: path, seen, t, t', ht, h => by
    obtain ⟨k', i, -, hi, hget', horigin, hparts⟩ := alter_cases h
    have hothers : ∀ n, n ≠ k.name → t'.named? n = t.named? n := fun n => named?_alter h
    have hnew : t'.named? k.name = some i := hget'
    cases hget : t.get? k with
    | none =>
      have hold : t.named? k.name = none := hget
      rw [hget] at hi hparts
      obtain ⟨made, hmade, rfl⟩ := map_eq_ok_iff.mp hi
      obtain ⟨inner, inner', hregular, hf, hchanged⟩ :=
        exists_changedAt (regular_empty way.origin) hmade
      refine ⟨inner, inner', hregular, hf, hchanged.under ?_ ?_ horigin (fun names => ?_) hothers
        fun ns => ⟨[], ?_, ?_⟩⟩
      · intro u hu
        simp [at?, hget] at hu
      · simp [at?, hget']
      · -- a table that is made on the way has no header
        have hempty : (Origin.parts (names ++ [k.name]) way.origin) = [] := by cases way <;> rfl
        rw [parts_empty, hempty]
        simpa [Item.parts_table] using hparts names
      · rw [openedAt, hold, openedAt_empty (by cases way <;> rfl)]
        rfl
      · rw [openedAt, hnew]
        rfl
    | some item =>
      have hold : t.named? k.name = some item := hget
      rw [hget] at hi hparts
      cases item with
      | literal v => cases hi
      | table below =>
        simp only at hi
        split at hi
        · cases hi
        · obtain ⟨below', hbelow, rfl⟩ := map_eq_ok_iff.mp hi
          obtain ⟨inner, inner', hregular, hf, hchanged⟩ :=
            exists_changedAt (ht.table hget) hbelow
          refine ⟨inner, inner', hregular, hf, hchanged.under ?_ ?_ horigin (fun names => ?_)
            hothers fun ns => ⟨[], ?_, ?_⟩⟩
          · intro u hu
            simpa [at?, hget] using hu
          · simp [at?, hget']
          · simpa [Item.parts_table] using hparts names
          · rw [openedAt, hold]
            rfl
          · rw [openedAt, hnew]
            rfl
      | tables ts =>
        obtain ⟨rows, last, rfl, hlast⟩ := ht.tables hget
        simp only [List.getLast?_concat, List.dropLast_concat] at hi
        obtain ⟨last', hbelow, rfl⟩ := map_eq_ok_iff.mp hi
        obtain ⟨inner, inner', hregular, hf, hchanged⟩ := exists_changedAt hlast hbelow
        refine ⟨inner, inner', hregular, hf, hchanged.under ?_ ?_ horigin (fun names => ?_)
          hothers fun ns => ⟨rows.flatMap (openedAt ns), ?_, ?_⟩⟩
        · intro u hu
          simpa [at?, hget] using hu
        · simp [at?, hget']
        · -- the rows in front of the last one stay as they are
          have hrows := hparts names
          simp only [Option.elim_some, Item.parts, Item.partsOfRows_eq, List.flatMap_append,
            List.flatMap_cons, List.flatMap_nil, List.append_nil] at hrows
          refine perm_trade hrows ?_
          rw [List.append_assoc, List.append_assoc]
          exact List.perm_append_comm.append_left _
        · simp [openedAt, hold]
        · simp [openedAt, hnew]

theorem at?_append : ∀ (path : List Key) {path' : List Key} {t : Table},
    t.at? (path ++ path') = (t.at? path).bind (at? path')
  | [], _, _ => rfl
  | k :: path, path', t => by
    rw [List.cons_append, at?, at?]
    cases t.get? k with
    | none => rfl
    | some item =>
      cases item with
      | literal v => rfl
      | table inner => exact at?_append path
      | tables ts =>
        simp only
        cases ts.getLast? with
        | none => rfl
        | some last => exact at?_append path

/-! ## Pairs -/

/-- A value that is put under a new key. -/
theorem alter_literal {f : Option Item → Except Cause Item} (value : Literal)
    (hf : ∀ o i, f o = .ok i → o = none ∧ i = .literal value) (h : t.alter key f = .ok t') :
    t'.origin = t.origin ∧
      (∀ names, (t'.parts names).Perm (t.parts names ++ [.pair key value])) ∧
      ∀ ns, t'.openedAt ns = t.openedAt ns := by
  obtain ⟨k, i, hnew, hi, hget', horigin, hparts⟩ := alter_cases h
  obtain ⟨hnone, rfl⟩ := hf _ _ hi
  obtain rfl := hnew hnone
  refine ⟨horigin, fun names => ?_, fun ns => ?_⟩
  · have hvalue := hparts names
    rw [hnone] at hvalue
    simpa [Item.parts] using hvalue
  · cases ns with
    | nil => rw [openedAt, openedAt, horigin]
    | cons n ns =>
      by_cases hn : n = k.name
      · subst hn
        have hold : t.named? k.name = none := hnone
        have hnew : t'.named? k.name = some (.literal value) := hget'
        rw [openedAt, openedAt, hold, hnew]
      · exact openedAt_cons (named?_alter h hn)

/-- A pair puts its value somewhere below the table that is at the end of the header path, and
extends the text of that table. -/
theorem insertPair_changes {current : List Key} {value : Literal} {span : Span} {u : Table}
    (ht : t.Regular s reached) (hspan : value.span? = some span) (hu : t.at? current = some u)
    (h : t.insertPair current path key value = .ok t') :
    ∃ u', t'.at? current = some u' ∧ u'.origin = u.origin.extendTo span.stop ∧
      (∀ names, (t'.parts names ++ u.origin.parts (names ++ TableOf.names current)).Perm
        (t.parts names ++ ((u.origin.extendTo span.stop).parts (names ++ TableOf.names current) ++
          [.pair key value]))) ∧
      ∀ ns, ∃ earlier, t.openedAt ns = earlier ++ u.openedBelow current ns ∧ t'.openedAt ns =
        earlier ++ openedBelow { u with origin := u.origin.extendTo span.stop } current ns := by
  obtain ⟨_, u', hregular, hdotted, hchanged⟩ := exists_changedAt ht h
  obtain rfl := hchanged.from_path u hu
  simp only [hspan] at hdotted
  -- behind the dotted key there is only a new value
  obtain ⟨v, v', -, hput, hinside⟩ := exists_changedAt
    (t := { u with origin := u.origin.extendTo span.stop }) ⟨hregular.1, hregular.2⟩ hdotted
  have hvalue : v'.origin = v.origin ∧
      (∀ names, (v'.parts names).Perm (v.parts names ++ [.pair key value])) ∧
      ∀ ns, v'.openedAt ns = v.openedAt ns := by
    split at hput
    · cases hput
    · refine alter_literal value (fun o i hi => ?_) hput
      cases o with
      | none => exact ⟨rfl, (Except.ok.inj hi).symm⟩
      | some j => cases hi
  refine ⟨u', hchanged.at_path, hinside.origin hvalue.1, fun names => ?_, fun ns => ?_⟩
  · refine perm_trade (hchanged.parts names) ?_
    have hwhole := (hinside.parts (names ++ TableOf.names current)).trans
      ((hvalue.2.1 _).append_left _)
    classical
    refine List.perm_iff_count.mpr fun x => ?_
    have hcount := hwhole.count_eq x
    simp only [parts, List.count_append] at hcount ⊢
    omega
  · -- a value is no table, so nothing but the text of the table changes
    have hsame : ∀ ns, u'.openedAt ns =
        openedAt ns { u with origin := u.origin.extendTo span.stop } := by
      intro ns
      obtain ⟨earlier, hold, hnew⟩ := hinside.order ns
      rw [hold, hnew, openedBelow_congr hvalue.2.2]
    rw [← openedBelow_congr hsame]
    exact hchanged.order ns

/-! ## Headers -/

variable {shown : String} {span : Span}

theorem get?_eq : t.get? key = (t.entries.find? fun e => e.1.name = key.name).map Prod.snd := rfl

theorem entries_putLast {i : Item} : (t.putLast key i).entries =
    (t.entries.filter fun e => e.1.name ≠ key.name) ++ [(key, i)] := rfl

theorem get?_putLast {i : Item} : (t.putLast key i).get? key = some i := by
  have hnone : (t.entries.filter fun e => e.1.name ≠ key.name).find?
      (fun e => e.1.name = key.name) = none := by
    refine List.find?_eq_none.mpr fun e he => ?_
    simpa using (List.mem_filter.mp he).2
  rw [get?_eq, entries_putLast, List.find?_append, hnone]
  simp

/-- A table that is put last takes the place of what the key stood for. -/
theorem parts_putLast {o : Option Table} (ht : t.Unambiguous) (hget : t.get? key = o.map .table)
    (u : Table) (names : List String) :
    ((t.putLast key (.table u)).parts names ++
        o.elim [] (TableOf.parts (names ++ [key.name]))).Perm
      (t.parts names ++ u.parts (names ++ [key.name])) := by
  have horigin : (t.putLast key (.table u)).origin = t.origin := rfl
  rw [parts_eq t, parts_eq (t.putLast key (.table u)), entries_putLast, horigin]
  simp only [List.flatMap_append, List.flatMap_singleton, Item.parts_table]
  cases o with
  | none =>
    have hnames : ∀ e ∈ t.entries, e.1.name ≠ key.name := by
      intro e he
      have := List.find?_eq_none.mp (Option.map_eq_none_iff.mp hget) e he
      simpa using this
    have hkept : (t.entries.filter fun e => e.1.name ≠ key.name) = t.entries :=
      List.filter_eq_self.mpr fun e he => by simpa using hnames e he
    rw [hkept]
    simp
  | some below =>
    obtain ⟨e, hfind, hbelow⟩ := Option.map_eq_some_iff.mp hget
    obtain ⟨hk, before, after, hentries, hbefore⟩ := List.find?_eq_some_iff_append.mp hfind
    have hk : e.1.name = key.name := by simpa using hk
    -- no entry behind it has the same key
    have hafter : ∀ e ∈ after, e.1.name ≠ key.name := by
      have hnames := ht.names
      rw [hentries, List.map_append, List.map_cons] at hnames
      have hnodup := (List.nodup_append.mp hnames).2.1
      intro e' he' heq
      exact (List.nodup_cons.mp hnodup).1 (List.mem_map.mpr ⟨e', he', heq.trans hk.symm⟩)
    have hkept : (t.entries.filter fun e => e.1.name ≠ key.name) = before ++ after := by
      rw [hentries, List.filter_append, List.filter_cons_of_neg (by simpa using hk)]
      rw [List.filter_eq_self.mpr fun e he => by simpa using hbefore e he,
        List.filter_eq_self.mpr fun e he => by simpa using hafter e he]
    rw [hkept, hentries]
    classical
    refine List.perm_iff_count.mpr fun x => ?_
    simp [hk, hbelow, Item.parts_table]
    omega

/-- A table with this header was opened at the end of the path, behind all others under its
names. -/
def Opened (path : List Key) (span : Span) (t t' : Table) : Prop :=
  ∃ u, u.origin = .header span ∧ t'.at? path = some u ∧
    (∀ names, (t'.parts names).Perm
      (t.parts names ++ [.opened (names ++ TableOf.names path, span)])) ∧
    ∀ ns, t'.openedAt ns = t.openedAt ns ++ if ns = TableOf.names path then [span] else []

theorem ChangedAt.opened {inner inner' u : Table} (hchanged : ChangedAt path inner inner' t t')
    (horigin : u.origin = .header span) (hu : inner'.at? [key] = some u)
    (hparts : ∀ names, (inner'.parts names).Perm
      (inner.parts names ++ [.opened (names ++ [key.name], span)]))
    (horder : ∀ ns, inner'.openedAt ns =
      inner.openedAt ns ++ if ns = [key.name] then [span] else []) :
    Opened (path ++ [key]) span t t' := by
  have hnames : TableOf.names (path ++ [key]) = TableOf.names path ++ [key.name] := by
    simp [TableOf.names]
  refine ⟨u, horigin, by rw [at?_append, hchanged.at_path, Option.bind_some, hu],
    fun names => ?_, fun ns => ?_⟩
  · have htrade := perm_trade (z := []) (hchanged.parts names)
      (by simpa using hparts (names ++ TableOf.names path))
    rw [hnames, ← List.append_assoc]
    simpa using htrade
  · obtain ⟨earlier, hold, hnew⟩ := hchanged.order ns
    rw [hold, hnew, openedBelow_append horder, hnames, List.append_assoc]

theorem opened_openTable (ht : t.Regular s reached)
    (h : t.openTable path key shown span = .ok t') :
    Opened (path ++ [key]) span t t' := by
  obtain ⟨inner, inner', hregular, hopen, hchanged⟩ := exists_changedAt ht h
  split at hopen
  · next hget =>
    obtain rfl := Except.ok.inj hopen
    refine hchanged.opened (u := .empty (.header span)) rfl ?_ (fun names => ?_)
      (openedAt_append rfl (fun n hn => named?_putLast hn) fun ns => ?_)
    · simp [at?, get?_putLast]
    · simpa using parts_putLast (o := none) hregular.unambiguous hget (.empty (.header span)) names
    · have hold : inner.named? key.name = none := hget
      have hnew : (inner.putLast key (.table (.empty (.header span)))).named? key.name =
          some (.table (.empty (.header span))) := get?_putLast
      rw [openedAt, openedAt, hold, hnew]
      exact openedAt_header
  · next below hget =>
    split at hopen
    · next himplied =>
      obtain rfl := Except.ok.inj hopen
      refine hchanged.opened (u := { below with origin := .header span }) rfl ?_ (fun names => ?_)
        (openedAt_append rfl (fun n hn => named?_putLast hn) fun ns => ?_)
      · simp [at?, get?_putLast]
      · have hput := parts_putLast (o := some below) hregular.unambiguous hget
          { below with origin := .header span } names
        -- without its own header the table was listed as empty ones are
        have hopened : TableOf.parts (names ++ [key.name]) { below with origin := .header span } =
            [.opened (names ++ [key.name], span)] ++ below.parts (names ++ [key.name]) := by
          simp [parts, himplied]
        rw [Option.elim_some, hopened, ← List.append_assoc] at hput
        exact (List.perm_append_right_iff _).mp hput
      · have hold : inner.named? key.name = some (.table below) := hget
        have hnew : (inner.putLast key (.table { below with origin := .header span })).named?
            key.name = some (.table { below with origin := .header span }) := get?_putLast
        rw [openedAt, openedAt, hold, hnew]
        cases ns with
        | nil =>
          show (Origin.header span).span?.toList = below.origin.span?.toList ++ [span]
          rw [himplied]
          rfl
        | cons n ns => simp [openedAt, named?]
    · cases hopen
  · cases hopen

theorem opened_appendTable (ht : t.Regular s reached)
    (h : t.appendTable path key shown span = .ok t') :
    Opened (path ++ [key]) span t t' := by
  obtain ⟨inner, inner', hregular, hopen, hchanged⟩ := exists_changedAt ht h
  obtain ⟨k, i, -, hi, hget', horigin, hparts⟩ := alter_cases hopen
  have hnew : inner'.named? key.name = some i := hget'
  split at hi
  · next hget =>
    have hold : inner.named? key.name = none := hget
    obtain rfl := Except.ok.inj hi
    refine hchanged.opened (u := .empty (.header span)) rfl ?_ (fun names => ?_)
      (openedAt_append horigin (fun n => named?_alter hopen) fun ns => ?_)
    · simp [at?, hget']
    · have hrow := hparts names
      rw [hget] at hrow
      simpa [Item.parts, Item.partsOfRows_eq] using hrow
    · simp [openedAt, hold, hnew, openedAt_header]
  · next ts hget =>
    have hold : inner.named? key.name = some (.tables ts) := hget
    obtain rfl := Except.ok.inj hi
    refine hchanged.opened (u := .empty (.header span)) rfl ?_ (fun names => ?_)
      (openedAt_append horigin (fun n => named?_alter hopen) fun ns => ?_)
    · simp [at?, hget']
    · classical
      refine List.perm_iff_count.mpr fun x => ?_
      have hcount := (hparts names).count_eq x
      simp [hget, Item.parts, Item.partsOfRows_eq] at hcount ⊢
      omega
    · simp [openedAt, hold, hnew, openedAt_header]
  · cases hi

end

end TableOf

/-! ## Documents -/

/-- What a line puts into the tables that are there. -/
def Line.value? : Line → Option Part
  | .pair _ key value => some (.pair key value)
  | .header _ _ _ => none

/-- What some lines put into tables: the tables that their headers open, and the values of their
pairs. -/
def partsOf (ls : List Line) : List Part := (openings ls).map .opened ++ ls.filterMap Line.value?

theorem dropLast_append_toList {α : Type} (l : List α) : l.dropLast ++ l.getLast?.toList = l := by
  rcases List.eq_nil_or_concat l with rfl | ⟨front, last, rfl⟩
  · rfl
  · simp

/-- The texts of the tables under some names. -/
def textsAt (ns : List String) (tables : List (List String × Span)) : List Span :=
  (tables.filter (·.1 = ns)).map Prod.snd

theorem textsAt_append (ns : List String) (tables tables' : List (List String × Span)) :
    textsAt ns (tables ++ tables') = textsAt ns tables ++ textsAt ns tables' := by
  rw [textsAt, List.filter_append, List.map_append]
  rfl

theorem textsAt_singleton {names ns : List String} {span : Span} :
    textsAt ns [(names, span)] = if ns = names then [span] else [] := by
  by_cases h : ns = names
  · simp [textsAt, h]
  · simp [textsAt, h, Ne.symm h]

theorem textsAt_toList {names ns : List String} {o : Option Span} :
    textsAt ns (o.map (names, ·)).toList = if ns = names then o.toList else [] := by
  cases o with
  | none => simp [textsAt]
  | some span => exact textsAt_singleton

namespace Progress

/-- The parts of the root are those of the lines so far, tables under the same names are in the
order of their headers, and the path of the last header leads to the table that it opened. -/
structure Accounts (ls : List Line) (p : Progress) : Prop where
  parts : (p.root.parts []).Perm (partsOf ls)
  order : ∀ ns, p.root.openedAt ns = textsAt ns (openings ls)
  current : ∃ t, p.root.at? p.current = some t ∧
    t.origin.span?.map (TableOf.names p.current, ·) = (openings ls).getLast?

section

variable {s : Cursor} {reached : Nat} {ls : List Line} {p : Progress} {root : Table}
variable {path : List Key} {key : Key}

theorem accounts_start : Accounts [] start :=
  ⟨.nil, TableOf.openedAt_empty rfl, _, rfl, rfl⟩

theorem Accounts.pair {value : Literal} {span : Span} (h : p.Accounts ls)
    (hregular : p.root.Regular s reached) (hspan : value.span? = some span)
    (hinsert : p.root.insertPair p.current path key value = .ok root) :
    Accounts (ls ++ [.pair path key value]) ⟨root, p.current⟩ := by
  obtain ⟨u, hu, hlast⟩ := h.current
  obtain ⟨u', hu', horigin, hparts, horder⟩ :=
    TableOf.insertPair_changes hregular hspan hu hinsert
  -- the text of the last table goes on
  have hextended : (u.origin.extendTo span.stop).span?.map (TableOf.names p.current, ·) =
      (openings ls).getLast?.map (extendedTo span.stop) := by
    rw [← hlast]
    cases u.origin <;> rfl
  have hopenings := openings_pair path key hspan ls
  refine ⟨?_, fun ns => ?_, u', hu', ?_⟩
  · have hroot := hparts []
    have hbefore := h.parts
    rw [partsOf, ← dropLast_append_toList (openings ls)] at hbefore
    rw [partsOf, hopenings]
    simp only [List.nil_append, Origin.parts, hlast, hextended, List.filterMap_append,
      List.map_append] at hroot hbefore ⊢
    classical
    refine List.perm_iff_count.mpr fun x => ?_
    have hcount := hroot.count_eq x
    have hcount' := hbefore.count_eq x
    simp only [List.count_append, List.filterMap_cons, List.filterMap_nil, Line.value?]
      at hcount hcount' ⊢
    omega
  · obtain ⟨earlier, hold, hnew⟩ := horder ns
    have hbefore := h.order ns
    rw [← dropLast_append_toList (openings ls), ← hlast, textsAt_append, textsAt_toList, hold]
      at hbefore
    rw [hopenings, ← hextended, textsAt_append, textsAt_toList, hnew]
    by_cases hns : ns = TableOf.names p.current
    · subst hns
      rw [TableOf.openedBelow_names, if_pos rfl] at hbefore
      rw [TableOf.openedBelow_names, if_pos rfl, List.append_cancel_right hbefore]
    · rw [TableOf.openedBelow_origin _ hns, hbefore, if_neg hns, if_neg hns]
  · rw [horigin, hextended, hopenings]
    cases hopened : (openings ls).getLast? with
    | none => simp [List.getLast?_eq_none_iff.mp hopened]
    | some last => simp

theorem Accounts.header {span : Span} (h : p.Accounts ls)
    (hopened : TableOf.Opened (path ++ [key]) span p.root root) :
    Accounts (ls ++ [.header path key span]) ⟨root, path ++ [key]⟩ := by
  obtain ⟨u, horigin, hu, hroot, horder⟩ := hopened
  refine ⟨?_, fun ns => ?_, u, hu, ?_⟩
  · have htrade := (hroot []).trans (h.parts.append_right _)
    refine htrade.trans ?_
    rw [partsOf, partsOf, openings_header]
    simp only [List.map_append, List.filterMap_append, List.append_assoc, List.map_cons,
      List.map_nil, List.filterMap_cons, List.filterMap_nil, Line.value?, List.append_nil]
    exact List.perm_append_comm.append_left _
  · rw [horder, h.order, openings_header, textsAt_append, textsAt_singleton]
  · rw [openings_header, List.getLast?_concat, horigin]
    rfl

end

/-! ## Places -/

section

variable {text : String} {s c c' : Cursor} {ls : List Line} {p p' : Progress} {l : Option Line}
variable {path : List Key} {key : Key}

/-- The text of the tables starts with a bracket each, and ends in front of the place reached. -/
def Places (text : String) (reached : Nat) (tables : List (List String × Span)) : Prop :=
  ∀ o ∈ tables, Text.StartsAt text o.2.start '[' ∧ o.2.start ≤ o.2.stop ∧ o.2.stop ≤ reached

theorem Places.mono {reached later : Nat} {tables : List (List String × Span)}
    (h : Places text reached tables) (hle : reached ≤ later) : Places text later tables := by
  intro o ho
  obtain ⟨hstarts, hstart, hstop⟩ := h o ho
  exact ⟨hstarts, hstart, hstop.trans hle⟩

theorem Places.pair {value : Literal} (h : Places text c.position (openings ls))
    (hread : Line.reader c = .done (some (.pair path key value)) c') :
    Places text c'.position (openings (ls ++ [.pair path key value])) := by
  obtain ⟨c₁, c₂, c₃, hkey, hc₂, hvalue, hc₃⟩ := Line.pair_done hread
  have hle₁ := (Forward.reaches hkey).position_le
  have hle₂ := hc₂.position_le
  have hle₃ := (Forward.reaches hvalue).position_le
  have hle := hc₃.position_le
  intro o ho
  rw [openings_pair path key (Literal.span?_of_reader hvalue)] at ho
  rcases List.mem_append.mp ho with hkept | hlast
  · exact (h.mono (by omega)) o ((List.dropLast_sublist _).subset hkept)
  · obtain ⟨last, hmem, rfl⟩ := Option.map_eq_some_iff.mp (Option.mem_toList.mp hlast)
    obtain ⟨hstarts, hstart, hstop⟩ := h last (List.mem_of_getLast? hmem)
    refine ⟨hstarts, ?_, hle⟩
    show last.2.start ≤ c₃.position
    omega

theorem Places.header {span : Span} (h : Places text c.position (openings ls))
    (hc : (Cursor.ofText text).Reaches c)
    (hread : Line.reader c = .done (some (.header path key span)) c') :
    Places text c'.position (openings (ls ++ [.header path key span])) := by
  obtain ⟨hbracket, hstart, hle, hstop⟩ := Line.header_done hread
  intro o ho
  rw [openings_header] at ho
  rcases List.mem_append.mp ho with hkept | hnew
  · exact h.mono (Forward.reaches hread).position_le o hkept
  · rw [List.mem_singleton.mp hnew]
    exact ⟨hstart ▸ startsAt_of_reaches hc hbracket, hle, hstop⟩

/-- What is known behind some lines: the tables that headers opened are those that the lines
tell, they are in front of the place reached, and values are where their tables are. -/
structure Recorded (text : String) (ls : List Line) (p : Progress) (c : Cursor) : Prop where
  traced : p.Traced (.ofText text) c
  unambiguous : p.root.Unambiguous
  accounts : p.Accounts ls
  places : Places text c.position (openings ls)
  enclosed : p.root.Enclosed c.position

theorem Recorded.enter (h : Recorded text ls p c) (hstatement : p.statement c = .done p' c')
    (hread : Line.reader c = .done l c') (henters : Line.Enters l p p') :
    Recorded text (ls ++ l.toList) p' c' := by
  have htraced : p'.Traced (.ofText text) c' := statement_induction
    (fun h hc => h.forward hc) traced_pair traced_header h.traced hstatement
  have hunambiguous : p'.root.Unambiguous := statement_induction
    (P := fun p _ => p.root.Unambiguous) (fun h _ => h) unambiguous_pair unambiguous_header
    h.unambiguous hstatement
  have hregular : p.root.Regular (.ofText text) c.position := ⟨h.traced.2, h.unambiguous⟩
  cases henters with
  | nothing p =>
    have hle := (Forward.reaches hread).position_le
    rw [Option.toList_none, List.append_nil]
    exact ⟨htraced, hunambiguous, h.accounts, h.places.mono hle, h.enclosed.mono hle⟩
  | pair hinsert =>
    obtain ⟨c₁, c₂, c₃, hkey, hc₂, hvalue, hc₃⟩ := Line.pair_done hread
    have hspan := Literal.span?_of_reader hvalue
    have hle := (((Forward.reaches hkey).trans hc₂).trans (Forward.reaches hvalue)).position_le
    have henclosed := TableOf.enclosed_insertPair (h.enclosed.mono hle) hspan hinsert
    exact ⟨htraced, hunambiguous, h.accounts.pair hregular hspan hinsert, h.places.pair hread,
      henclosed.mono hc₃.position_le⟩
  | table hopen =>
    obtain ⟨-, hstart, hle, hstop⟩ := Line.header_done hread
    have henclosed := TableOf.enclosed_openTable (h.enclosed.mono (by omega)) hopen
    exact ⟨htraced, hunambiguous, h.accounts.header (TableOf.opened_openTable hregular hopen),
      h.places.header h.traced.1 hread, henclosed.mono hstop⟩
  | row happend =>
    have hle := (Forward.reaches hread).position_le
    have henclosed := TableOf.enclosed_appendTable h.enclosed happend
    exact ⟨htraced, hunambiguous, h.accounts.header (TableOf.opened_appendTable hregular happend),
      h.places.header h.traced.1 hread, henclosed.mono hle⟩

theorem recorded_document {root : Table} (h : document (.ofText text) = .done root c) :
    ∃ ls p, linesOf text = some ls ∧ p.root = root ∧ Recorded text ls p c :=
  document_lines (P := Recorded text) (fun h hstatement hread henters =>
    h.enter hstatement hread henters)
    (fun hc => ⟨⟨hc, TableOf.traced_empty _⟩, TableOf.unambiguous_empty _, accounts_start,
      List.forall_mem_nil _, TableOf.enclosed_empty _⟩) h

end

end Progress

end Configurable.Toml
