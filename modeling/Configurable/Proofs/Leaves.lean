import Configurable.Source.DocumentFile
import Configurable.Proofs.Numbering
import Mathlib.Data.List.Nodup

/-!
# Leaf entries

The entries of a document at which its tables end: scalars, arrays, arrays of tables and
tables without entries. A leaf is told by the way to it, entry by entry through tables
(`mem_leaves_iff`), and the leaves are listed in the order of the document.

Since nodes have numbers of their own, so do entries: an entry that tables lead to is known by
the number of its node (`eq_of_mem_inside`), and no leaf is listed twice (`nodup_leaves`).
-/

namespace Configurable.Toml

/-- An entry at which tables end, with the entries that enclose it, the outermost first. -/
structure Leaf where
  enclosing : List Entry
  entry : Entry

/-- All entries on the way to the leaf, the leaf last. -/
def Leaf.way (l : Leaf) : List Entry := l.enclosing ++ [l.entry]

namespace Node

mutual

/-- The leaves at or below an entry with this node. -/
def leavesIn (enclosing : List Entry) (e : Entry) : Node → List Leaf
  | .table _ _ entries =>
    if entries.isEmpty then [⟨enclosing, e⟩] else leavesOf (enclosing ++ [e]) entries
  | .array _ _ _ => [⟨enclosing, e⟩]
  | .scalar _ _ _ => [⟨enclosing, e⟩]

/-- The leaves at or below some entries. -/
def leavesOf (enclosing : List Entry) : List (EntryOf Node) → List Leaf
  | [] => []
  | e :: es => leavesIn enclosing e e.node ++ leavesOf enclosing es

end

def leaves (n : Node) : List Leaf := leavesOf [] n.entries

/-- Entry by entry, the way starts among these and goes on inside the tables. -/
def Leads : List Entry → (way : List Entry) → Prop
  | _, [] => True
  | es, e :: way => e ∈ es ∧ Leads e.node.entries way

/-- An entry whose node has no entries is the one leaf there. -/
theorem mem_single_iff {enclosing : List Entry} {e : Entry} {l : Leaf} {es : List Entry}
    {ls : List Leaf} (hleaf : e.node.entries = []) (hes : es = []) (hls : ls = [⟨enclosing, e⟩]) :
    l ∈ ls ↔ ∃ rest, l.way = enclosing ++ e :: rest ∧ Leads es rest ∧
      l.entry.node.entries = [] := by
  subst hes hls
  rw [List.mem_singleton]
  constructor
  · rintro rfl
    exact ⟨[], rfl, trivial, hleaf⟩
  · rintro ⟨rest, hway, hrest, -⟩
    cases rest with
    | nil =>
        obtain ⟨henclosing, hentry⟩ := List.append_inj' hway rfl
        obtain ⟨enclosing', entry⟩ := l
        obtain rfl := List.singleton_inj.mp hentry
        exact congrArg (Leaf.mk · entry) henclosing
    | cons first rest => cases hrest.1

mutual

theorem mem_leavesIn_iff : ∀ (n : Node) {enclosing : List Entry} {e : Entry} {l : Leaf},
    e.node = n → (l ∈ leavesIn enclosing e n ↔ ∃ rest, l.way = enclosing ++ e :: rest ∧
      Leads n.entries rest ∧ l.entry.node.entries = [])
  | .table id span [], enclosing, e, l, hn => mem_single_iff (by rw [hn]; rfl) rfl rfl
  | .array id span items, enclosing, e, l, hn => mem_single_iff (by rw [hn]; rfl) rfl rfl
  | .scalar id span value, enclosing, e, l, hn => mem_single_iff (by rw [hn]; rfl) rfl rfl
  | .table id span (e' :: es), enclosing, e, l, hn => by
      have hinner : l ∈ leavesIn enclosing e (.table id span (e' :: es)) ↔
          l ∈ leavesOf (enclosing ++ [e]) (e' :: es) := Iff.rfl
      rw [hinner, mem_leavesOf_iff (e' :: es)]
      constructor
      · rintro ⟨first, rest, hway, hfirst, hrest, hleaf⟩
        exact ⟨first :: rest, by simpa using hway, ⟨hfirst, hrest⟩, hleaf⟩
      · rintro ⟨rest, hway, hrest, hleaf⟩
        cases rest with
        | nil =>
            -- then the entry itself would be the leaf, but its table goes on
            obtain ⟨-, hentry⟩ := List.append_inj' hway rfl
            obtain rfl := List.singleton_inj.mp hentry
            rw [hn] at hleaf
            cases hleaf
        | cons first rest => exact ⟨first, rest, by simpa using hway, hrest.1, hrest.2, hleaf⟩

theorem mem_leavesOf_iff : ∀ (es : List (EntryOf Node)) {enclosing : List Entry} {l : Leaf},
    l ∈ leavesOf enclosing es ↔ ∃ first rest, l.way = enclosing ++ first :: rest ∧
      first ∈ es ∧ Leads first.node.entries rest ∧ l.entry.node.entries = []
  | [], enclosing, l => by simp [leavesOf]
  | e :: es, enclosing, l => by
      rw [leavesOf, List.mem_append, mem_leavesIn_iff e.node rfl, mem_leavesOf_iff es]
      simp only [List.mem_cons]
      constructor
      · rintro (⟨rest, hway, hrest⟩ | ⟨first, rest, hway, hfirst, hrest⟩)
        · exact ⟨e, rest, hway, Or.inl rfl, hrest⟩
        · exact ⟨first, rest, hway, Or.inr hfirst, hrest⟩
      · rintro ⟨first, rest, hway, rfl | hfirst, hrest⟩
        · exact Or.inl ⟨rest, hway, hrest⟩
        · exact Or.inr ⟨first, rest, hway, hfirst, hrest⟩

end

theorem mem_leaves_iff {n : Node} {l : Leaf} :
    l ∈ n.leaves ↔ Leads n.entries l.way ∧ l.entry.node.entries = [] := by
  rw [leaves, mem_leavesOf_iff]
  constructor
  · rintro ⟨first, rest, hway, hfirst, hrest, hleaf⟩
    rw [hway]
    exact ⟨⟨hfirst, hrest⟩, hleaf⟩
  · rintro ⟨hleads, hleaf⟩
    cases hway : l.way with
    | nil => simp [Leaf.way] at hway
    | cons first rest =>
        rw [hway] at hleads
        exact ⟨first, rest, rfl, hleads.1, hleads.2, hleaf⟩

/-! ## Telling entries apart -/

mutual

/-- All entries that tables lead to, however deep. -/
def inside : Node → List Entry
  | .table _ _ entries => insideOf entries
  | .array _ _ _ => []
  | .scalar _ _ _ => []

def insideOf : List (EntryOf Node) → List Entry
  | [] => []
  | e :: es => e :: (e.node.inside ++ insideOf es)

end

theorem inside_eq (n : Node) : n.inside = insideOf n.entries := by
  cases n with
  | scalar id span value => rfl
  | array id span items => rfl
  | table id span entries => rfl

theorem mem_insideOf {e e' : Entry} : ∀ {es : List Entry}, e ∈ es → e' = e ∨ e' ∈ e.node.inside →
    e' ∈ insideOf es
  | e₀ :: es, h, h' => by
      rw [insideOf, List.mem_cons, List.mem_append]
      rcases List.mem_cons.mp h with rfl | hmem
      · exact h'.imp_right Or.inl
      · exact Or.inr (Or.inr (mem_insideOf hmem h'))

theorem mem_inside_of_leads {e : Entry} : ∀ {es way : List Entry}, Leads es way → e ∈ way →
    e ∈ insideOf es
  | es, first :: way, ⟨hfirst, hway⟩, h => by
      refine mem_insideOf hfirst ?_
      rcases List.mem_cons.mp h with rfl | hmem
      · exact Or.inl rfl
      · rw [inside_eq]
        exact Or.inr (mem_inside_of_leads hway hmem)

mutual

theorem sublist_ids_inside : ∀ n : Node, (n.id :: n.inside.map (·.node.id)).Sublist n.ids
  | .scalar _ _ _ => List.Sublist.refl _
  | .array id _ items => (List.nil_sublist (idsOfItems items)).cons_cons id
  | .table id _ entries => (sublist_ids_insideOf entries).cons_cons id

theorem sublist_ids_insideOf : ∀ es : List (EntryOf Node),
    ((insideOf es).map (·.node.id)).Sublist (idsOfEntries es)
  | [] => List.Sublist.refl _
  | e :: es => by
      rw [insideOf, List.map_cons, List.map_append, ← List.cons_append]
      exact (sublist_ids_inside e.node).append (sublist_ids_insideOf es)

end

/-- Entries that tables lead to are known by the numbers of their nodes. -/
theorem eq_of_mem_inside {n : Node} (h : n.ids.Nodup) {e e' : Entry} (he : e ∈ n.inside)
    (he' : e' ∈ n.inside) (hid : e.node.id = e'.node.id) : e = e' := by
  have hids : (n.id :: n.inside.map (·.node.id)).Nodup := (sublist_ids_inside n).nodup h
  exact List.inj_on_of_nodup_map (List.nodup_cons.mp hids).2 he he' hid

theorem id_mem_ids (n : Node) : n.id ∈ n.ids :=
  (sublist_ids_inside n).subset (List.mem_cons_self ..)

theorem sublist_ids_single {n : Node} {e : Entry} {ls : List Leaf} {enclosing : List Entry}
    (hn : e.node = n) (hls : ls = [⟨enclosing, e⟩]) :
    (ls.map (·.entry.node.id)).Sublist n.ids := by
  subst hn hls
  exact List.singleton_sublist.mpr (id_mem_ids e.node)

mutual

theorem sublist_ids_leavesIn : ∀ (n : Node) {enclosing : List Entry} {e : Entry}, e.node = n →
    ((leavesIn enclosing e n).map (·.entry.node.id)).Sublist n.ids
  | .table _ _ [], _, _, hn => sublist_ids_single hn rfl
  | .array _ _ _, _, _, hn => sublist_ids_single hn rfl
  | .scalar _ _ _, _, _, hn => sublist_ids_single hn rfl
  | .table id _ (e' :: es), _, _, _ => (sublist_ids_leavesOf (e' :: es)).cons id

theorem sublist_ids_leavesOf : ∀ (es : List (EntryOf Node)) {enclosing : List Entry},
    ((leavesOf enclosing es).map (·.entry.node.id)).Sublist (idsOfEntries es)
  | [], _ => List.Sublist.refl _
  | e :: es, _ => by
      rw [leavesOf, List.map_append]
      exact (sublist_ids_leavesIn e.node rfl).append (sublist_ids_leavesOf es)

end

theorem nodup_leaves {n : Node} (h : n.ids.Nodup) : n.leaves.Nodup := by
  have hids : (idsOfEntries n.entries).Sublist n.ids := by
    cases n with
    | scalar id span value => exact List.nil_sublist _
    | array id span items => exact List.nil_sublist _
    | table id span entries => exact List.sublist_cons_self ..
  exact List.Nodup.of_map _ ((sublist_ids_leavesOf n.entries).nodup (hids.nodup h))

end Node

end Configurable.Toml
