import Configurable.Proofs.WrittenValues

/-!
# The tables under some names

Names lead to a table, or behind an array of tables to one in each row. What is listed are the
texts of those that headers opened, row by row (`TableOf.openedAt`). A table at the end of a path
is the last one that its names lead to, since of an array only the last row is on the way. So
what changes there changes the end of one list (`TableOf.openedBelow`), and no other list.
-/

namespace Configurable.Toml.TableOf

open Text (Span)

/-! ## Names -/

/-- What a name stands for. -/
def named? (n : String) (t : Table) : Option Item :=
  (t.entries.find? fun e => e.1.name = n).map Prod.snd

/-- The tables that the names lead to, by their texts and as far as headers opened them. -/
def openedAt : List String → Table → List Span
  | [], t => t.origin.span?.toList
  | n :: ns, t =>
    match t.named? n with
    | some (.table inner) => openedAt ns inner
    | some (.tables rows) => rows.flatMap (openedAt ns)
    | _ => []

/-- Those of them that are at or below the table at the end of a path. -/
def openedBelow (u : Table) : List Key → List String → List Span
  | [], ns => u.openedAt ns
  | _ :: _, [] => []
  | k :: path, n :: ns => if k.name = n then u.openedBelow path ns else []

variable {t t' u u' : Table} {key : Key} {i : Item} {n : String} {span : Span}

theorem openedAt_empty {origin : Origin} (h : origin.span? = none) :
    ∀ ns, openedAt ns (.empty origin) = []
  | [] => by rw [openedAt, empty, h]; rfl
  | _ :: _ => rfl

theorem openedAt_cons {ns : List String} (h : t'.named? n = t.named? n) :
    t'.openedAt (n :: ns) = t.openedAt (n :: ns) := by
  rw [openedAt, openedAt, h]

theorem openedAt_header {ns : List String} :
    openedAt ns (.empty (.header span)) = if ns = [] then [span] else [] := by
  cases ns <;> rfl

/-- A table that is opened under a key comes behind those that the names led to. -/
theorem openedAt_append (horigin : t'.origin = t.origin)
    (hothers : ∀ n, n ≠ key.name → t'.named? n = t.named? n)
    (hkey : ∀ ns, t'.openedAt (key.name :: ns) =
      t.openedAt (key.name :: ns) ++ if ns = [] then [span] else []) :
    ∀ ns, t'.openedAt ns = t.openedAt ns ++ if ns = [key.name] then [span] else []
  | [] => by rw [openedAt, openedAt, horigin, if_neg nofun, List.append_nil]
  | n :: ns => by
    by_cases hn : n = key.name
    · subst hn
      rw [hkey ns]
      simp only [List.cons.injEq, true_and]
    · rw [openedAt_cons (hothers n hn), if_neg fun heq => hn (List.cons.inj heq).1,
        List.append_nil]

/-! ## Changes of one entry -/

theorem named?_alter {f : Option Item → Except Cause Item} (h : t.alter key f = .ok t')
    (hn : n ≠ key.name) : t'.named? n = t.named? n := by
  obtain ⟨es, hes, rfl⟩ := map_eq_ok_iff.mp h
  obtain ⟨before, after, k, o, i, hk, -, -, -, hold, rfl⟩ := alterEntry_cases hes
  have hother : k.name ≠ n := fun heq => hn (heq.symm.trans hk)
  rw [named?, named?, hold]
  cases o with
  | none => simp [List.find?_append, hother]
  | some j => simp [List.find?_append, hother]

theorem named?_putLast (hn : n ≠ key.name) : (t.putLast key i).named? n = t.named? n := by
  have hkept : ∀ es : List (Key × Item), (es.filter fun e => e.1.name ≠ key.name).find?
      (fun e => e.1.name = n) = es.find? fun e => e.1.name = n := by
    intro es
    rw [List.find?_filter]
    congr 1
    funext e
    by_cases he : e.1.name = n
    · simp [he, hn]
    · simp [he]
  show (((t.entries.filter fun e => e.1.name ≠ key.name) ++ [(key, i)]).find? _).map _ = _
  rw [List.find?_append, hkept]
  simp [named?, hn.symm]

/-! ## Changes at the end of a path -/

theorem openedBelow_names : ∀ path : List Key,
    u.openedBelow path (names path) = u.origin.span?.toList
  | [] => rfl
  | _ :: path => (if_pos rfl).trans (openedBelow_names path)

/-- With a text of its own a table differs only where the names lead to it. -/
theorem openedBelow_origin (origin : Origin) : ∀ {path : List Key} {ns : List String},
    ns ≠ names path → openedBelow { u with origin := origin } path ns = u.openedBelow path ns
  | [], [], h => absurd rfl h
  | [], _ :: _, _ => rfl
  | _ :: _, [], _ => rfl
  | _ :: _, _ :: _, h => by
    rw [openedBelow, openedBelow]
    split
    · next hk => exact openedBelow_origin origin fun hns => h (by rw [hns, ← hk]; rfl)
    · rfl

theorem openedBelow_congr (h : ∀ ns, u'.openedAt ns = u.openedAt ns) :
    ∀ (path : List Key) (ns : List String), u'.openedBelow path ns = u.openedBelow path ns
  | [], ns => h ns
  | _ :: _, [] => rfl
  | k :: path, n :: ns => by rw [openedBelow, openedBelow, openedBelow_congr h path ns]

/-- A table that is opened below the end of a path comes behind those that the same names lead
to. -/
theorem openedBelow_append {tail : List String}
    (h : ∀ ns, u'.openedAt ns = u.openedAt ns ++ if ns = tail then [span] else []) :
    ∀ (path : List Key) (ns : List String), u'.openedBelow path ns =
      u.openedBelow path ns ++ if ns = names path ++ tail then [span] else []
  | [], ns => h ns
  | k :: path, [] => rfl
  | k :: path, n :: ns => by
    have hnames : names (k :: path) ++ tail = k.name :: (names path ++ tail) := rfl
    rw [hnames, openedBelow, openedBelow]
    by_cases hk : k.name = n
    · subst hk
      rw [if_pos rfl, if_pos rfl, openedBelow_append h path ns]
      simp only [List.cons.injEq, true_and]
    · rw [if_neg hk, if_neg hk, if_neg fun heq => hk (List.cons.inj heq).1.symm]
      rfl

end Configurable.Toml.TableOf
