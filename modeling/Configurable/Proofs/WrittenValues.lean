import Configurable.Proofs.GrammarForward
import Configurable.Proofs.Judged

/-!
# Where the values of a document are written

The tables of a document are put together statement by statement. Whatever they hold in the
end was read somewhere: its scalars and arrays by the reader of values, from the very bytes that
their spans cover (`Literal.Traced`), and the tables of an array of tables by headers in double
brackets, of which the first comes first in the text (`Rows`).

The invariant is one of every table that a document goes through (`Item.Traced`). It has a
bound, the place reached so far: a header that a value extends, or that is the next of its
array, ends behind everything that was read before.
-/

namespace Configurable.Toml

open Reader
open Text (Span byteLength)

/-! ## Changing an entry -/

/-- One entry is changed, where it is, or there was none with this key and it comes last. -/
theorem alterEntry_cases {α ε : Type} {key : Key} {f : Option α → Except ε α}
    {es es' : List (Key × α)} (h : alterEntry key f es = .ok es') : ∃ before after k o a,
      k.name = key.name ∧ (∀ e ∈ before, e.1.name ≠ key.name) ∧
      (o = none → k = key ∧ after = []) ∧ f o = .ok a ∧
      es = before ++ ((o.map (k, ·)).toList ++ after) ∧ es' = before ++ (k, a) :: after := by
  induction es generalizing es' with
  | nil =>
    obtain ⟨a, ha, rfl⟩ := map_eq_ok_iff.mp h
    exact ⟨[], [], key, none, a, rfl, List.forall_mem_nil _, fun _ => ⟨rfl, rfl⟩, ha, rfl, rfl⟩
  | cons e es ih =>
    unfold alterEntry at h
    split at h
    · next hk =>
      obtain ⟨a, ha, rfl⟩ := map_eq_ok_iff.mp h
      exact ⟨[], es, e.1, some e.2, a, hk, List.forall_mem_nil _,
        fun ho => absurd ho (Option.some_ne_none _), ha, rfl, rfl⟩
    · next hk =>
      obtain ⟨es₁, hes₁, rfl⟩ := map_eq_ok_iff.mp h
      obtain ⟨before, after, k', o, a, hk', hbefore, hafter, ha, rfl, rfl⟩ := ih hes₁
      exact ⟨e :: before, after, k', o, a, hk', List.forall_mem_cons.mpr ⟨hk, hbefore⟩,
        hafter, ha, rfl, rfl⟩

/-- What holds of every entry but may fail where one is changed holds of all if the change keeps
it. -/
theorem forall_entries_of_alterEntry {α ε : Type} {Q : Key × α → Prop} {key : Key}
    {f : Option α → Except ε α} {es es' : List (Key × α)}
    (hf : ∀ k o a, (o = none → k = key) → (∀ b ∈ o, Q (k, b)) → f o = .ok a → Q (k, a))
    (hes : ∀ e ∈ es, Q e) (h : alterEntry key f es = .ok es') : ∀ e ∈ es', Q e := by
  obtain ⟨before, after, k, o, a, -, -, hnew, ha, rfl, rfl⟩ := alterEntry_cases h
  have hold : ∀ b ∈ o, Q (k, b) := by
    rintro b rfl
    exact hes _ (by simp)
  intro e he
  rcases List.mem_append.mp he with hbefore | he
  · exact hes e (List.mem_append_left _ hbefore)
  · rcases List.mem_cons.mp he with rfl | hafter
    · exact hf k o a (fun ho => (hnew ho).1) hold ha
    · exact hes e (List.mem_append_right _ (List.mem_append_right _ hafter))

/-- The keys play no part in what holds of everything that they stand for. -/
theorem forall_of_alterEntry {α ε : Type} {P : α → Prop} {key : Key} {f : Option α → Except ε α}
    {es es' : List (Key × α)} (hf : ∀ o a, (∀ b ∈ o, P b) → f o = .ok a → P a)
    (hes : ∀ e ∈ es, P e.2) (h : alterEntry key f es = .ok es') : ∀ e ∈ es', P e.2 :=
  forall_entries_of_alterEntry (Q := fun e => P e.2) (fun _ o a _ ho ha => hf o a ho ha) hes h

/-- What every step keeps holds at the end. -/
theorem foldlM_induction {α β ε : Type} {P : β → Prop} {f : β → α → Except ε β} :
    ∀ {as : List α} {b b' : β}, (∀ a ∈ as, ∀ b b', P b → f b a = .ok b' → P b') → P b →
    as.foldlM f b = .ok b' → P b'
  | [], b, b', _, hb, h => Except.ok.inj h ▸ hb
  | a :: as, b, b', hstep, hb, h => by
    obtain ⟨ha, has⟩ := List.forall_mem_cons.mp hstep
    obtain ⟨b₁, hfirst, h⟩ := bind_eq_ok_iff.mp h
    exact foldlM_induction has (ha b b₁ hb hfirst) h

/-! ## Values -/

namespace Literal

/-- Behind `s` the value was read. -/
def ReadBehind (s : Cursor) (m : Literal) : Prop :=
  ∃ depth c c', s.Reaches c ∧ reader depth c = .done m c'

/-- Behind `s` the pair was read, first its key and then its value. -/
def PairBehind (s : Cursor) (p : (List Key × Key) × Literal) : Prop :=
  ∃ depth c₁ c₂ c₃ c₄, s.Reaches c₁ ∧ Key.dotted c₁ = .done p.1 c₂ ∧ c₂.Reaches c₃ ∧
    reader depth c₃ = .done p.2 c₄

/-- Behind `s` all scalars and arrays were read that are part of the value. -/
inductive Traced (s : Cursor) : Literal → Prop
  | scalar {span : Span} {value : Scalar} : ReadBehind s (.scalar span value) →
      Traced s (.scalar span value)
  | array {span : Span} {items : List Literal} : ReadBehind s (.array span items) →
      (∀ m ∈ items, Traced s m) → Traced s (.array span items)
  | inline {span : Option Span} {entries : List (Key × Literal)} :
      (∀ e ∈ entries, Traced s e.2) → Traced s (.inline span entries)

variable {s c c' : Cursor}

theorem Traced.entries {span : Option Span} {es : List (Key × Literal)}
    (h : Traced s (.inline span es)) : ∀ e ∈ es, Traced s e.2 := by
  cases h with
  | inline h => exact h

theorem traced_insertAt {key : Key} {m : Literal} (hm : Traced s m) :
    ∀ {path : List Key} {seen : List String} {es es' : List (Key × Literal)},
    (∀ e ∈ es, Traced s e.2) → insertAt key m seen path es = .ok es' → ∀ e ∈ es', Traced s e.2
  | [], seen, es, es', hes, h => by
    refine forall_of_alterEntry (fun o a _ ha => ?_) hes h
    cases o with
    | none => exact Except.ok.inj ha ▸ hm
    | some b => cases ha
  | k :: path, seen, es, es', hes, h => by
    refine forall_of_alterEntry (fun o a ho ha => ?_) hes h
    split at ha
    · obtain ⟨inner, hinner, rfl⟩ := map_eq_ok_iff.mp ha
      exact .inline (traced_insertAt hm (List.forall_mem_nil _) hinner)
    · obtain ⟨inner, hinner, rfl⟩ := map_eq_ok_iff.mp ha
      exact .inline (traced_insertAt hm (ho _ rfl).entries hinner)
    · cases ha
    · cases ha

theorem traced_entriesOf {pairs : List ((List Key × Key) × Literal)}
    (hpairs : ∀ p ∈ pairs, Traced s p.2) {es : List (Key × Literal)}
    (h : entriesOf pairs = .ok es) : ∀ e ∈ es, Traced s e.2 :=
  foldlM_induction (P := fun es => ∀ e ∈ es, Traced s e.2)
    (fun p hp _ _ hes h => traced_insertAt (hpairs p hp) hes h) (List.forall_mem_nil _) h

/-- The entries between braces are made of pairs that were read one after the other, each with
its key in front of its value. -/
theorem inlineEntries_done {value : Reader Literal} [Forward value] {es : List (Key × Literal)}
    (h : inlineEntries value c = .done es c') : ∃ pairs, entriesOf pairs = .ok es ∧
      ∀ p ∈ pairs, ∃ c₁ c₂ c₃ c₄, c.Reaches c₁ ∧ Key.dotted c₁ = .done p.1 c₂ ∧ c₂.Reaches c₃ ∧
        value c₃ = .done p.2 c₄ := by
  simp only [inlineEntries, bind_done_iff, commit_done_iff, checked_done_iff, pure_done_iff] at h
  obtain ⟨_, c₁, hopen, es₁, c₂, ⟨ps, ⟨ps₁, c₃, hps, _, c₄, -, rfl, -⟩, hentries⟩,
    -, -, -, rfl, -⟩ := h
  refine ⟨_, hentries, fun p hp => ?_⟩
  obtain ⟨c₅, c₆, h₅, hpair, -⟩ := separated_done hps p hp
  simp only [inlinePair, bind_done_iff, commit_done_iff, pure_done_iff] at hpair
  obtain ⟨key, c₇, hkey, _, c₈, hequals, _, c₉, hspaces, m, c₁₀, hm, _, _, -, rfl, -⟩ := hpair
  exact ⟨c₅, c₇, c₉, c₁₀, (Forward.reaches hopen).trans h₅, hkey,
    (Forward.reaches hequals).trans (Forward.reaches hspaces), hm⟩

/-- A value has the span of the bytes it was read from. -/
theorem span?_of_reader {depth : Nat} {m : Literal} (h : reader depth c = .done m c') :
    m.span? = some ⟨c.position, c'.position⟩ := by
  have hread : ∀ {inner : Option (Reader Literal)}, readWith inner c = .done m c' →
      m.span? = some ⟨c.position, c'.position⟩ := by
    intro inner h
    obtain ⟨_, _, hpeek, h⟩ := bind_done_iff.mp h
    obtain ⟨-, rfl⟩ := peek?_done_iff.mp hpeek
    split at h
    all_goals
      obtain ⟨⟨x, span⟩, c₁, hspanned, h⟩ := bind_done_iff.mp h
      obtain ⟨-, rfl⟩ := spanned_done_iff.mp hspanned
      obtain ⟨rfl, rfl⟩ := pure_done_iff.mp h
      rfl
  cases depth with
  | zero => exact hread h
  | succ depth => exact hread h

/-- The items between brackets were read one after the other. -/
theorem arrayOf_done {value : Reader Literal} [Forward value] {items : List Literal}
    (h : arrayOf value c = .done items c') :
    ∀ m ∈ items, ∃ c₁ c₂, c.Reaches c₁ ∧ value c₁ = .done m c₂ := by
  simp only [arrayOf, bind_done_iff, commit_done_iff, pure_done_iff] at h
  obtain ⟨_, c₁, hopen, items₁, c₂, hitems, -, -, -, rfl, -⟩ := h
  obtain ⟨_, _, hpeek, hitems⟩ := bind_done_iff.mp hitems
  obtain ⟨-, rfl⟩ := peek?_done_iff.mp hpeek
  split at hitems
  · obtain ⟨rfl, -⟩ := pure_done_iff.mp hitems
    exact List.forall_mem_nil _
  · obtain ⟨ms, c₃, hseparated, hitems⟩ := bind_done_iff.mp hitems
    -- a comma behind the last value changes nothing
    have hitems : items₁ = ms := by
      simp only at hitems
      split at hitems
      · simp only [bind_done_iff, pure_done_iff] at hitems
        obtain ⟨_, _, -, _, _, -, rfl, -⟩ := hitems
        rfl
      · simp only [bind_done_iff, pure_done_iff] at hitems
        obtain ⟨_, _, -, rfl, -⟩ := hitems
        rfl
    subst hitems
    intro m hm
    obtain ⟨c₄, c₅, h₄, hread, -⟩ := separated_done hseparated m hm
    simp only [bind_done_iff, pure_done_iff] at hread
    obtain ⟨_, c₆, hblanks, m', c₇, hvalue', _, _, -, rfl, -⟩ := hread
    exact ⟨c₆, c₇, ((Forward.reaches hopen).trans h₄).trans (Forward.reaches hblanks), hvalue'⟩

section

variable {P : Literal → Prop}
variable (hscalar : ∀ span value, ReadBehind s (.scalar span value) → P (.scalar span value))
variable (harray : ∀ span items, ReadBehind s (.array span items) → (∀ m ∈ items, P m) →
  P (.array span items))
variable (hinline : ∀ span pairs es, ReadBehind s (.inline (some span) es) →
  (∀ p ∈ pairs, PairBehind s p ∧ P p.2) → entriesOf pairs = .ok es → P (.inline (some span) es))

include hscalar harray hinline

theorem readWith_induction {inner : Option (Reader Literal)} {depth : Nat} {m : Literal}
    (hdepth : reader depth = readWith inner)
    (hinner : ∀ value ∈ inner, ∃ depth, value = reader depth ∧
      ∀ {c c' m}, s.Reaches c → value c = .done m c' → P m)
    (hc : s.Reaches c) (h : readWith inner c = .done m c') : P m := by
  have hread : ReadBehind s m := ⟨depth, c, c', hc, hdepth ▸ h⟩
  obtain ⟨_, _, hpeek, h⟩ := bind_done_iff.mp h
  obtain ⟨-, rfl⟩ := peek?_done_iff.mp hpeek
  split at h
  · obtain ⟨⟨items, span⟩, _, hspanned, h⟩ := bind_done_iff.mp h
    obtain ⟨rfl, -⟩ := pure_done_iff.mp h
    obtain ⟨hitems, -⟩ := spanned_done_iff.mp hspanned
    cases inner with
    | none => cases hitems
    | some value =>
      obtain ⟨depth, rfl, hvalue⟩ := hinner value rfl
      refine harray span items hread fun m hm => ?_
      obtain ⟨c₁, c₂, hc₁, hm⟩ := arrayOf_done hitems m hm
      exact hvalue (hc.trans hc₁) hm
  · obtain ⟨⟨es, span⟩, _, hspanned, h⟩ := bind_done_iff.mp h
    obtain ⟨rfl, -⟩ := pure_done_iff.mp h
    obtain ⟨hes, -⟩ := spanned_done_iff.mp hspanned
    cases inner with
    | none => cases hes
    | some value =>
      obtain ⟨depth, rfl, hvalue⟩ := hinner value rfl
      obtain ⟨pairs, hentries, hpairs⟩ := inlineEntries_done hes
      refine hinline span pairs es hread (fun p hp => ?_) hentries
      obtain ⟨c₁, c₂, c₃, c₄, hc₁, hkey, hc₃, hp⟩ := hpairs p hp
      have hc₁ := hc.trans hc₁
      exact ⟨⟨depth, c₁, c₂, c₃, c₄, hc₁, hkey, hc₃, hp⟩,
        hvalue ((hc₁.trans (Forward.reaches hkey)).trans hc₃) hp⟩
  · obtain ⟨⟨x, span⟩, _, -, h⟩ := bind_done_iff.mp h
    obtain ⟨rfl, -⟩ := pure_done_iff.mp h
    exact hscalar span x hread

/-- What holds of scalars, and of arrays and inline tables if it holds of their parts, holds of
every value that is read. -/
theorem reader_induction {depth : Nat} {m : Literal} (hc : s.Reaches c)
    (h : reader depth c = .done m c') : P m := by
  induction depth generalizing c c' m with
  | zero =>
    have hdepth : reader 0 = readWith none := rfl
    exact readWith_induction hscalar harray hinline hdepth
      (fun _ hvalue => absurd hvalue (Option.not_mem_none _)) hc h
  | succ depth ih =>
    have hdepth : reader (depth + 1) = readWith (some (reader depth)) := rfl
    refine readWith_induction hscalar harray hinline hdepth (fun value hvalue => ?_) hc h
    obtain rfl := Option.some.inj hvalue
    exact ⟨depth, rfl, ih⟩

end

theorem traced_reader {depth : Nat} {m : Literal} (hc : s.Reaches c)
    (h : reader depth c = .done m c') : Traced s m :=
  reader_induction (fun _ _ hread => .scalar hread) (fun _ _ hread hitems => .array hread hitems)
    (fun _ _ _ _ hpairs hes => .inline (traced_entriesOf (fun p hp => (hpairs p hp).2) hes)) hc h

end Literal

/-! ## Tables -/

/-- Behind `s` a header in double brackets was read that starts at this byte. -/
def HeaderBehind (s : Cursor) (start : Nat) : Prop :=
  ∃ c c' header, s.Reaches c ∧ c.position = start ∧
    Progress.headerLine "[[" "]]" c = .done header c'

/-- Tables of headers in double brackets. The first starts at `first`, and none ends before it
could have been opened. -/
structure Rows (s : Cursor) (reached first : Nat) (ts : List Table) : Prop where
  le_reached : first + 2 ≤ reached
  head : ∃ stop, ts.head?.map TableOf.origin = some (.header ⟨first, stop⟩)
  row : ∀ t ∈ ts, ∃ span, t.origin = .header span ∧ HeaderBehind s span.start ∧
    first + 2 ≤ span.stop

/-- The values to which an item leads were read behind `s`, and its arrays of tables are made
of headers, all of them before `reached`. -/
inductive Item.Traced (s : Cursor) (reached : Nat) : Item → Prop
  | literal {m : Literal} : m.Traced s → Traced s reached (.literal m)
  | table {t : Table} : (∀ e ∈ t.entries, Traced s reached e.2) → Traced s reached (.table t)
  | tables {first : Nat} {ts : List Table} : Rows s reached first ts →
      (∀ t ∈ ts, ∀ e ∈ t.entries, Traced s reached e.2) → Traced s reached (.tables ts)

/-- What a table holds is traced. -/
def TableOf.Traced (s : Cursor) (reached : Nat) (t : Table) : Prop :=
  ∀ e ∈ t.entries, e.2.Traced s reached

/-- The way a table came to be is the same, but a header may have been extended. -/
def Origin.Grows (reached : Nat) (o o' : Origin) : Prop :=
  o' = o ∨ ∃ stop, reached ≤ stop ∧ o' = o.extendTo stop

theorem Origin.Grows.trans {reached : Nat} {o o' o'' : Origin} (h : o.Grows reached o')
    (h' : o'.Grows reached o'') : o.Grows reached o'' := by
  rcases h' with rfl | ⟨stop', hle', rfl⟩
  · exact h
  · rcases h with rfl | ⟨stop, hle, rfl⟩
    · exact Or.inr ⟨stop', hle', rfl⟩
    · exact Or.inr ⟨stop', hle', by cases o <;> rfl⟩

section

variable {s : Cursor} {reached : Nat} {t t' : Table} {key : Key}

namespace Rows

variable {first : Nat} {ts : List Table}

theorem mono {later : Nat} (h : Rows s reached first ts) (hle : reached ≤ later) :
    Rows s later first ts := ⟨Nat.le_trans h.le_reached hle, h.head, h.row⟩

theorem single {span : Span} (h : HeaderBehind s span.start) (hle : span.start + 2 ≤ span.stop) :
    Rows s span.stop span.start [.empty (.header span)] :=
  ⟨hle, ⟨span.stop, rfl⟩, List.forall_mem_singleton.mpr ⟨span, rfl, h, hle⟩⟩

theorem append {span : Span} (h : Rows s reached first ts) (hspan : HeaderBehind s span.start)
    (hle : reached ≤ span.stop) : Rows s reached first (ts ++ [.empty (.header span)]) := by
  refine ⟨h.le_reached, ?_, fun t ht => ?_⟩
  · obtain ⟨stop, hhead⟩ := h.head
    refine ⟨stop, ?_⟩
    cases ts with
    | nil => cases hhead
    | cons t ts => exact hhead
  · rcases List.mem_append.mp ht with hmem | hnew
    · exact h.row t hmem
    · rw [List.mem_singleton.mp hnew]
      exact ⟨span, rfl, hspan, Nat.le_trans h.le_reached hle⟩

theorem replaceLast {last : Table} (h : Rows s reached first ts) (hlast : ts.getLast? = some last)
    (hgrows : last.origin.Grows reached t'.origin) :
    Rows s reached first (ts.dropLast ++ [t']) := by
  obtain ⟨rows, rfl⟩ := List.getLast?_eq_some_iff.mp hlast
  rw [List.dropLast_concat]
  obtain ⟨span, horigin, hheader, hle⟩ :=
    h.row last (List.mem_append_right _ (List.mem_singleton_self _))
  -- what the new last row starts with and how far it goes
  have hnew : ∃ stop, t'.origin = .header ⟨span.start, stop⟩ ∧ first + 2 ≤ stop := by
    rcases hgrows with hsame | ⟨stop, hstop, hextended⟩
    · exact ⟨span.stop, hsame.trans horigin, hle⟩
    · rw [horigin] at hextended
      exact ⟨stop, hextended, Nat.le_trans h.le_reached hstop⟩
  obtain ⟨stop, hnew, hlestop⟩ := hnew
  refine ⟨h.le_reached, ?_, fun t ht => ?_⟩
  · obtain ⟨stop', hhead⟩ := h.head
    cases rows with
    | nil =>
      have hfirst : span.start = first := by
        have := horigin.symm.trans (Option.some.inj hhead)
        injection this with this
        rw [this]
      exact ⟨stop, by rw [← hfirst]; exact congrArg some hnew⟩
    | cons row rows => exact ⟨stop', hhead⟩
  · rcases List.mem_append.mp ht with hmem | hlast
    · exact h.row t (List.mem_append_left _ hmem)
    · rw [List.mem_singleton.mp hlast]
      exact ⟨⟨span.start, stop⟩, hnew, hheader, hlestop⟩

end Rows

theorem Item.Traced.mono {later : Nat} {i : Item} (h : i.Traced s reached)
    (hle : reached ≤ later) : i.Traced s later := by
  induction h with
  | literal h => exact .literal h
  | table _ ih => exact .table ih
  | tables hrows _ ih => exact .tables (hrows.mono hle) ih

namespace TableOf

theorem Traced.mono {later : Nat} (h : t.Traced s reached) (hle : reached ≤ later) :
    t.Traced s later := fun e he => (h e he).mono hle

theorem traced_empty (origin : Origin) : Traced s reached (.empty origin) :=
  List.forall_mem_nil _

theorem traced_alter {f : Option Item → Except Cause Item} (ht : t.Traced s reached)
    (hf : ∀ o i, (∀ j ∈ o, j.Traced s reached) → f o = .ok i → i.Traced s reached)
    (h : t.alter key f = .ok t') : t'.Traced s reached ∧ t'.origin = t.origin := by
  obtain ⟨es, hes, rfl⟩ := map_eq_ok_iff.mp h
  exact ⟨forall_of_alterEntry hf ht hes, rfl⟩

theorem traced_putLast {i : Item} (ht : t.Traced s reached) (hi : i.Traced s reached) :
    (t.putLast key i).Traced s reached := by
  intro e he
  rcases List.mem_append.mp he with hkept | hnew
  · exact ht e ((List.mem_filter.mp hkept).1)
  · rw [List.mem_singleton.mp hnew]
    exact hi

theorem traced_of_get? {i : Item} (ht : t.Traced s reached) (h : t.get? key = some i) :
    i.Traced s reached := by
  obtain ⟨e, he, rfl⟩ := Option.map_eq_some_iff.mp h
  exact ht e (List.mem_of_find?_eq_some he)

/-- A change at the end of a path keeps what it keeps there. -/
theorem traced_descend {way : Way} {f : Table → Except Cause Table}
    (hf : ∀ {t t'}, t.Traced s reached → f t = .ok t' →
      t'.Traced s reached ∧ t.origin.Grows reached t'.origin) :
    ∀ {path : List Key} {seen : List String} {t t' : Table}, t.Traced s reached →
    descend way f seen path t = .ok t' → t'.Traced s reached ∧ t.origin.Grows reached t'.origin
  | [], seen, t, t', ht, h => hf ht h
  | k :: path, seen, t, t', ht, h => by
    have hkeeps := traced_alter ht (fun o i ho hi => ?_) h
    · exact ⟨hkeeps.1, Or.inl hkeeps.2⟩
    · split at hi
      · obtain ⟨inner, hinner, rfl⟩ := map_eq_ok_iff.mp hi
        exact .table (traced_descend hf (traced_empty _) hinner).1
      · cases hi
      · next inner =>
        split at hi
        · cases hi
        · obtain ⟨inner', hinner, rfl⟩ := map_eq_ok_iff.mp hi
          cases ho _ rfl with
          | table hentries => exact .table (traced_descend hf hentries hinner).1
      · next ts =>
        cases ho _ rfl with
        | tables hrows hentries =>
          split at hi
          · exact Except.ok.inj hi ▸ .tables hrows hentries
          · next last hlast =>
            obtain ⟨last', hinner, rfl⟩ := map_eq_ok_iff.mp hi
            have hmem := List.mem_of_getLast? hlast
            obtain ⟨htraced, hgrows⟩ := traced_descend hf (hentries last hmem) hinner
            refine .tables (hrows.replaceLast hlast hgrows) fun row hrow => ?_
            rcases List.mem_append.mp hrow with hkept | hnew
            · exact hentries row ((List.dropLast_sublist ts).subset hkept)
            · rw [List.mem_singleton.mp hnew]
              exact htraced

theorem traced_insertPair {current path : List Key} {m : Literal} {span : Span}
    (ht : t.Traced s span.stop) (hm : m.Traced s) (hspan : m.span? = some span)
    (h : t.insertPair current path key m = .ok t') : t'.Traced s span.stop := by
  refine (traced_descend (fun {t t'} ht h => ?_) ht h).1
  simp only [hspan] at h
  -- the header is extended, and then the dotted key is followed to the place of the value
  have hextended : t.origin.Grows span.stop (t.origin.extendTo span.stop) :=
    Or.inr ⟨span.stop, Nat.le_refl _, rfl⟩
  have htraced : TableOf.Traced s span.stop
      { t with origin := t.origin.extendTo span.stop } := ht
  have hput := traced_descend (fun {t t'} ht h => ?_) htraced h
  · exact ⟨hput.1, hextended.trans hput.2⟩
  · split at h
    · cases h
    · have hkeeps := traced_alter ht (fun o i _ hi => ?_) h
      · exact ⟨hkeeps.1, Or.inl hkeeps.2⟩
      · split at hi
        · exact Except.ok.inj hi ▸ .literal hm
        · cases hi

variable {path : List Key} {shown : String} {span : Span}

theorem traced_openTable (ht : t.Traced s reached)
    (h : t.openTable path key shown span = .ok t') : t'.Traced s reached := by
  refine (traced_descend (fun {t t'} ht h => ?_) ht h).1
  split at h
  · exact Except.ok.inj h ▸ ⟨traced_putLast ht (.table (traced_empty _)), Or.inl rfl⟩
  · next inner hinner =>
    split at h
    · cases traced_of_get? ht hinner with
      | table hentries =>
        exact Except.ok.inj h ▸ ⟨traced_putLast ht (.table hentries), Or.inl rfl⟩
    · cases h
  · cases h

theorem traced_appendTable (ht : t.Traced s span.stop) (hspan : HeaderBehind s span.start)
    (hle : span.start + 2 ≤ span.stop) (h : t.appendTable path key shown span = .ok t') :
    t'.Traced s span.stop := by
  refine (traced_descend (fun {t t'} ht h => ?_) ht h).1
  have hkeeps := traced_alter ht (fun o i ho hi => ?_) h
  · exact ⟨hkeeps.1, Or.inl hkeeps.2⟩
  · split at hi
    · refine Except.ok.inj hi ▸ .tables (.single hspan hle) fun row hrow => ?_
      rw [List.mem_singleton.mp hrow]
      exact traced_empty _
    · next ts =>
      cases ho _ rfl with
      | tables hrows hentries =>
        refine Except.ok.inj hi ▸ .tables (hrows.append hspan (Nat.le_refl _)) fun row hrow => ?_
        rcases List.mem_append.mp hrow with hmem | hnew
        · exact hentries row hmem
        · rw [List.mem_singleton.mp hnew]
          exact traced_empty _
    · cases hi

end TableOf

end

/-! ## Statements -/

namespace Progress

section

variable {P : Progress → Cursor → Prop}
variable (hforward : ∀ {p c c'}, P p c → c.Reaches c' → P p c')
variable (hpair : ∀ {p p' c c'}, P p c → p.pair c = .done p' c' → P p' c')
variable (hheader : ∀ {p p' c c'}, P p c → p.header c = .done p' c' → P p' c')

include hforward hpair hheader

/-- Comments, empty lines and blanks only lead on in the text. -/
theorem statement_induction {p p' : Progress} {c c' : Cursor} (hp : P p c)
    (h : p.statement c = .done p' c') : P p' c' := by
  obtain ⟨x, c₁, hpeek, h⟩ := bind_done_iff.mp h
  obtain ⟨-, rfl⟩ := peek?_done_iff.mp hpeek
  -- behind the line there may be blanks
  have hblanks : ∀ {p₁ : Progress} {c₁ : Cursor}, P p₁ c₁ →
      (do spaces; pure p₁ : Reader Progress) c₁ = .done p' c' → P p' c' := by
    intro p₁ c₁ hp₁ h
    obtain ⟨_, c₂, hspaces, h⟩ := bind_done_iff.mp h
    obtain ⟨rfl, rfl⟩ := pure_done_iff.mp h
    exact hforward hp₁ (Forward.reaches hspaces)
  split at h
  · cases h
  · obtain ⟨_, c₁, hcomment, h⟩ := bind_done_iff.mp h
    exact hblanks (hforward hp (Forward.reaches hcomment)) h
  · obtain ⟨p₁, c₁, hread, h⟩ := bind_done_iff.mp h
    exact hblanks (hheader hp (commit_done_iff.mp hread)) h
  · obtain ⟨_, c₁, hnewline, h⟩ := bind_done_iff.mp h
    exact hblanks (hforward hp (Forward.reaches hnewline)) h
  · obtain ⟨_, c₁, hnewline, h⟩ := bind_done_iff.mp h
    exact hblanks (hforward hp (Forward.reaches hnewline)) h
  · obtain ⟨p₁, c₁, hread, h⟩ := bind_done_iff.mp h
    exact hblanks (hpair hp (commit_done_iff.mp hread)) h

/-- What holds at the start and is kept by pairs and headers holds of every document. -/
theorem document_induction {text : String} {root : Table} {c' : Cursor}
    (hstart : ∀ {c}, (Cursor.ofText text).Reaches c → P start c)
    (h : document (.ofText text) = .done root c') : ∃ p, p.root = root ∧ P p c' := by
  simp only [document, bind_done_iff, pure_done_iff, endOfText_done_iff] at h
  obtain ⟨_, c₁, hmark, _, c₂, hspaces, p, c₃, hstatements, _, _, ⟨-, rfl⟩, rfl, rfl⟩ := h
  exact ⟨p, rfl, iterate_done (P := P)
    (fun hp h => statement_induction @hforward @hpair @hheader hp h)
    (hstart ((Forward.reaches hmark).trans (Forward.reaches hspaces))) hstatements⟩

end

/-- All that the statements so far have made is traced. -/
def Traced (s : Cursor) (p : Progress) (c : Cursor) : Prop :=
  s.Reaches c ∧ p.root.Traced s c.position

variable {s c c' : Cursor} {p p' : Progress}

theorem Traced.forward (h : p.Traced s c) (hc : c.Reaches c') : p.Traced s c' :=
  ⟨h.1.trans hc, h.2.mono hc.position_le⟩

theorem traced_pair (hp : p.Traced s c) (h : p.pair c = .done p' c') : p'.Traced s c' := by
  have hc := Forward.reaches h
  simp only [pair, checked_done_iff, bind_done_iff, commit_done_iff, pure_done_iff] at h
  obtain ⟨_, ⟨key, c₁, hkey, _, c₂, hequals, _, c₃, hspaces, m, c₄, hm, _, c₅, hrest, rfl, rfl⟩,
    hinsert⟩ := h
  obtain ⟨root, hroot, rfl⟩ := map_eq_ok_iff.mp hinsert
  have hc₃ := ((Forward.reaches hkey).trans (Forward.reaches hequals)).trans
    (Forward.reaches hspaces)
  have hc₄ := hc₃.trans (Forward.reaches hm)
  have htraced := TableOf.traced_insertPair (hp.2.mono hc₄.position_le)
    (Literal.traced_reader (hp.1.trans hc₃) hm) (Literal.span?_of_reader hm) hroot
  exact ⟨hp.1.trans hc, htraced.mono (Forward.reaches hrest).position_le⟩

theorem headerLine_done {opening closing : String} {header : (List Key × Key) × Span}
    (h : headerLine opening closing c = .done header c') : header.2.start = c.position ∧
      c.position + byteLength opening.toList ≤ header.2.stop ∧ header.2.stop ≤ c'.position := by
  simp only [headerLine, bind_done_iff, commit_done_iff, pure_done_iff, spanned_done_iff] at h
  obtain ⟨x, c₁, ⟨⟨_, c₂, hopening, _, c₃, hkey, _, c₄, hclosing, -, rfl⟩, hspan⟩,
    _, c₅, hrest, rfl, rfl⟩ := h
  have hread := (word_done_iff.mp hopening).position
  have hkey := (Forward.reaches hkey).position_le
  have hclosing := (Forward.reaches hclosing).position_le
  have hrest := (Forward.reaches hrest).position_le
  rw [hspan]
  refine ⟨rfl, ?_, hrest⟩
  show _ ≤ c₄.position
  omega

theorem traced_header (hp : p.Traced s c) (h : p.header c = .done p' c') : p'.Traced s c' := by
  have hc := Forward.reaches h
  obtain ⟨cs, c₁, hupcoming, h⟩ := bind_done_iff.mp (within_done_iff.mp h)
  obtain ⟨-, rfl⟩ := upcoming_done_iff.mp hupcoming
  split at h
  · obtain ⟨header, hheader, h⟩ := checked_done_iff.mp h
    obtain ⟨root, hroot, rfl⟩ := map_eq_ok_iff.mp h
    obtain ⟨hstart, hopening, hstop⟩ := headerLine_done hheader
    have hle : header.2.start + 2 ≤ header.2.stop := hstart ▸ hopening
    have hroot := TableOf.traced_appendTable (hp.2.mono (by omega))
      ⟨c, c', header, hp.1, hstart.symm, hheader⟩ hle hroot
    exact ⟨hp.1.trans hc, hroot.mono hstop⟩
  · split at h
    · cases h
    · obtain ⟨header, hheader, h⟩ := checked_done_iff.mp h
      obtain ⟨root, hroot, rfl⟩ := map_eq_ok_iff.mp h
      exact ⟨hp.1.trans hc, TableOf.traced_openTable (hp.2.mono hc.position_le) hroot⟩

theorem traced_document {text : String} {root : Table}
    (h : document (.ofText text) = .done root c') :
    root.Traced (.ofText text) c'.position := by
  obtain ⟨p, rfl, hp⟩ := document_induction (P := Progress.Traced (.ofText text))
    (fun h hc => h.forward hc) (fun hp h => traced_pair hp h) (fun hp h => traced_header hp h)
    (fun hc => ⟨hc, TableOf.traced_empty _⟩) h
  exact hp.2

end Progress

end Configurable.Toml
