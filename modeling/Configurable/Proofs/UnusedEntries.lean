import Configurable.Source.Any
import Configurable.Proofs.DocumentStructure
import Configurable.Proofs.History
import Configurable.Proofs.Leaves
import Configurable.Proofs.Soundness

/-!
# Entries that were not used

A document reports its leaves, in order, apart from those that were used or stand in an entry
that was used (`unused_eq`). Lookups and marks alike use all entries that a variable has, in
whichever sections, and nothing else (`mem_consumed_mark`). So at the end of a pass, where
every source is called once for every declared variable, the leaves are reported that no
declared variable names and that stand in no entry that one names (`reports_unnamed`).

What is used is kept by the numbers of nodes. That these tell entries apart is what makes a
report about entries (`untouched_iff`).
-/

namespace Configurable

namespace DocumentFile

open Toml (Node Entry EntryOf Document Leaf)

/-! ## What is left to report -/

/-- The keys on the way, one below the other. -/
def pathOf (way : List Entry) : String := (way.map EntryOf.key).foldl joinKeys ""

/-- The text under which a leaf is reported. -/
def leafLabel (d : Document) (l : Leaf) : String :=
  if l.entry.node.isTable then pathOf l.way else labelOf d (pathOf l.way) l.entry.node

def leafWarning (d : Document) (l : Leaf) : Diagnostic :=
  .warning (.unusedEntry (leafLabel d l)) (locationIn d l.entry.place?)

/-- Neither the leaf nor an entry that encloses it was used. -/
def Untouched (consumed : List Nat) (l : Leaf) : Prop := ∀ e ∈ l.way, e.node.id ∉ consumed

instance (consumed : List Nat) (l : Leaf) : Decidable (Untouched consumed l) :=
  inferInstanceAs (Decidable (∀ e ∈ l.way, e.node.id ∉ consumed))

/-- The leaves that are left, with the texts under which they are reported. -/
def labelled (d : Document) (consumed : List Nat) (ls : List Leaf) : List (String × Entry) :=
  (ls.filter (Untouched consumed)).map fun l => (leafLabel d l, l.entry)

section

variable {d : Document} {consumed : List Nat}

theorem pathOf_append (enclosing : List Entry) (e : Entry) :
    pathOf (enclosing ++ [e]) = joinKeys (pathOf enclosing) e.key := by
  simp [pathOf]

/-- A leaf that is no table is reported with its value. -/
theorem leafLabel_of_value {enclosing : List Entry} {e : Entry} (h : e.node.isTable = false) :
    leafLabel d ⟨enclosing, e⟩ = labelOf d (pathOf (enclosing ++ [e])) e.node := by
  simp [leafLabel, h, Leaf.way]

theorem labelled_append (ls ls' : List Leaf) :
    labelled d consumed (ls ++ ls') = labelled d consumed ls ++ labelled d consumed ls' := by
  simp [labelled]

theorem labelled_single {enclosing : List Entry} {e : Entry}
    (h : ∀ a ∈ enclosing ++ [e], a.node.id ∉ consumed) :
    labelled d consumed [⟨enclosing, e⟩] = [(leafLabel d ⟨enclosing, e⟩, e)] := by
  have huntouched : Untouched consumed ⟨enclosing, e⟩ := h
  simp [labelled, huntouched]

/-- What stands in an entry that was used is not reported. -/
theorem labelled_of_used {enclosing : List Entry} {e : Entry} (h : e.node.id ∈ consumed) :
    labelled d consumed (Node.leavesIn enclosing e e.node) = [] := by
  have hnone : (Node.leavesIn enclosing e e.node).filter (Untouched consumed) = [] := by
    refine List.filter_eq_nil_iff.mpr fun l hl => ?_
    obtain ⟨rest, hway, -⟩ := (Node.mem_leavesIn_iff e.node rfl).mp hl
    rw [decide_eq_true_eq]
    exact fun huntouched => huntouched e (by simp [hway]) h
  rw [labelled, hnone]
  rfl

mutual

theorem unusedIn_eq : ∀ (n : Node) {enclosing : List Entry} {e : Entry}, e.node = n →
    (∀ a ∈ enclosing ++ [e], a.node.id ∉ consumed) →
    unusedIn d consumed e (pathOf (enclosing ++ [e])) n
      = labelled d consumed (Node.leavesIn enclosing e n)
  | .scalar _ _ _, enclosing, e, hn, h => by
      rw [Node.leavesIn, labelled_single h, leafLabel_of_value (by rw [hn]; rfl), hn]
      rfl
  | .array _ _ _, enclosing, e, hn, h => by
      rw [Node.leavesIn, labelled_single h, leafLabel_of_value (by rw [hn]; rfl), hn]
      rfl
  | .table _ _ [], enclosing, e, hn, h => by
      have hlabel : leafLabel d ⟨enclosing, e⟩ = pathOf (enclosing ++ [e]) := by
        simp [leafLabel, hn, Node.isTable, Leaf.way]
      show [(pathOf (enclosing ++ [e]), e)] = labelled d consumed [⟨enclosing, e⟩]
      rw [labelled_single h, hlabel]
  | .table _ _ (e' :: es), enclosing, e, hn, h => unusedOf_eq (e' :: es) h

theorem unusedOf_eq : ∀ (es : List (EntryOf Node)) {enclosing : List Entry},
    (∀ a ∈ enclosing, a.node.id ∉ consumed) →
    unusedOf d consumed (pathOf enclosing) es = labelled d consumed (Node.leavesOf enclosing es)
  | [], _, _ => rfl
  | e :: es, enclosing, h => by
      rw [Node.leavesOf, labelled_append, unusedOf, unusedOf_eq es h]
      by_cases hused : e.node.id ∈ consumed
      · rw [if_pos hused, labelled_of_used hused]
      · have hway : ∀ a ∈ enclosing ++ [e], a.node.id ∉ consumed := by
          intro a ha
          rcases List.mem_append.mp ha with henclosing | hself
          · exact h a henclosing
          · rwa [List.mem_singleton.mp hself]
        rw [if_neg hused, ← pathOf_append, unusedIn_eq e.node rfl hway]

end

theorem unused_eq {f : DocumentFile} (hd : f.document = some d) :
    f.unused = labelled d f.consumed d.root.leaves := by
  unfold unused
  rw [hd]
  exact unusedOf_eq d.root.entries (List.forall_mem_nil _)

theorem complete_log {f : DocumentFile} (hd : f.document = some d) :
    (complete f).1 = (d.root.leaves.filter (Untouched f.consumed)).map (leafWarning d) := by
  unfold complete
  rw [hd]
  simp only [unused_eq hd, labelled, List.map_map]
  rfl

end

/-! ## What is used -/

/-- Some section of the variable's module, to which tables lead, has this entry for it. -/
def Names (root : ModuleId) (d : Document) (v : VariableId) (e : Entry) : Prop :=
  ∃ s ∈ sections root v.module, ∃ n, placeAt d.root s.path = .table n ∧ n.entry? v.name = some e

variable {d : Document} {f f' : DocumentFile} {v : VariableId} {e : Entry}

theorem entryIn?_eq_some_iff {s : Section} {x : Section × Entry} : entryIn? d v s = some x ↔
    x.1 = s ∧ ∃ n, placeAt d.root s.path = .table n ∧ n.entry? v.name = some x.2 := by
  obtain ⟨s', e⟩ := x
  unfold entryIn?
  split
  · next n hn =>
    simp only [Option.map_eq_some_iff, Prod.mk.injEq]
    constructor
    · rintro ⟨e', he', rfl, rfl⟩
      exact ⟨rfl, n, hn, he'⟩
    · rintro ⟨rfl, n', hn', he⟩
      obtain rfl := Place.table.inj (hn.symm.trans hn')
      exact ⟨e, he, rfl, rfl⟩
  · next hne => exact iff_of_false (by simp) fun ⟨_, n, hn, _⟩ => hne n hn

theorem names_iff {root : ModuleId} :
    Names root d v e ↔ ∃ s, (s, e) ∈ entriesFor root d v := by
  simp only [Names, entriesFor, List.mem_filterMap, entryIn?_eq_some_iff]
  constructor
  · rintro ⟨s, hs, hentry⟩
    exact ⟨s, s, hs, rfl, hentry⟩
  · rintro ⟨s, _, hs, rfl, hentry⟩
    exact ⟨s, hs, hentry⟩

theorem consumed_locate (f : DocumentFile) (d : Document) (v : VariableId) :
    (f.locate d v).2.consumed = f.consumed ++ (entriesFor f.root d v).map (·.2.node.id) := by
  unfold locate
  simp only
  split
  · rfl
  · split
    · rfl
    · split
      · rfl
      · rfl
  · rfl

/-- A call for a variable uses every entry that a section has for it, whether one was found,
or too many. -/
theorem mem_consumed_mark {w : Variable} {id : Nat} (hd : f.document = some d) :
    id ∈ (mark w f).consumed ↔
      id ∈ f.consumed ∨ ∃ e, Names f.root d w.id e ∧ e.node.id = id := by
  have hmark : mark w f = (f.locate d w.id).2 := by
    unfold mark
    rw [hd]
  rw [hmark, consumed_locate, List.mem_append, List.mem_map]
  refine or_congr_right ?_
  constructor
  · rintro ⟨⟨s, e⟩, hentry, hid⟩
    exact ⟨e, names_iff.mpr ⟨s, hentry⟩, hid⟩
  · rintro ⟨e, hnames, hid⟩
    obtain ⟨s, hentry⟩ := names_iff.mp hnames
    exact ⟨(s, e), hentry, hid⟩

/-- The later state has used what the earlier one had and the entries that the variables
name, and nothing else. -/
structure HasUsed (f : DocumentFile) (d : Document) (vs : List VariableId)
    (f' : DocumentFile) : Prop where
  same : SameDocument f f'
  mem_iff : ∀ id, id ∈ f'.consumed ↔
    id ∈ f.consumed ∨ ∃ v ∈ vs, ∃ e, Names f.root d v e ∧ e.node.id = id

theorem HasUsed.mark {vs : List VariableId} (h : HasUsed f d vs f') (hd : f.document = some d)
    (w : Variable) : HasUsed f d (vs ++ [w.id]) (mark w f') := by
  refine ⟨h.same.trans (sameDocument_mark w f'), fun id => ?_⟩
  rw [mem_consumed_mark (h.same.document.trans hd), h.mem_iff id, h.same.root]
  simp [or_assoc, or_and_right, exists_or]

/-- After some calls the entries are used that the called variables name. -/
theorem hasUsed_of_called {g : TypeGraph} {as : List Action} (hd : f.document = some d)
    (h : Source.Called g f as f') : HasUsed f d (as.filterMap Action.subject?) f' := by
  induction h with
  | nil => exact ⟨.refl f, by simp⟩
  | @read as f' kind w _ ih =>
      -- what a lookup does to the state is what a mark does
      show HasUsed f d _ (read g kind w f').2
      rw [read_state, List.filterMap_append]
      exact ih.mark hd w
  | mark w _ ih =>
      rw [List.filterMap_append]
      exact ih.mark hd w

/-! ## What is reported -/

theorem mem_insideOf_placeAt : ∀ {path : List String} {n m : Node}, placeAt n path = .table m →
    e ∈ m.entries → e ∈ n.inside
  | [], n, m, h, he => by
      obtain rfl := Place.table.inj h
      rw [Node.inside_eq]
      exact Node.mem_insideOf he (Or.inl rfl)
  | key :: path, n, m, h, he => by
      unfold placeAt at h
      split at h
      · cases h
      · next first hfirst =>
        split at h
        · rw [Node.inside_eq]
          exact Node.mem_insideOf (List.mem_of_find?_eq_some hfirst)
            (Or.inr (mem_insideOf_placeAt h he))
        · cases h

theorem Names.mem_inside {root : ModuleId} (h : Names root d v e) : e ∈ d.root.inside := by
  obtain ⟨s, -, n, hplace, hentry⟩ := h
  exact mem_insideOf_placeAt hplace (List.mem_of_find?_eq_some hentry)

/-- Numbers tell entries apart, so a leaf is untouched if no entry on the way to it is named. -/
theorem untouched_iff {root : ModuleId} {vs : List VariableId} {consumed : List Nat} {l : Leaf}
    (hids : d.root.ids.Nodup) (hl : l ∈ d.root.leaves)
    (hconsumed : ∀ id, id ∈ consumed ↔ ∃ v ∈ vs, ∃ e, Names root d v e ∧ e.node.id = id) :
    Untouched consumed l ↔ ∀ e ∈ l.way, ∀ v ∈ vs, ¬ Names root d v e := by
  obtain ⟨hleads, -⟩ := Node.mem_leaves_iff.mp hl
  refine forall₂_congr fun e he => ?_
  have hinside : e ∈ d.root.inside := by
    rw [Node.inside_eq]
    exact Node.mem_inside_of_leads hleads he
  rw [hconsumed]
  constructor
  · exact fun hfree v hv hnames => hfree ⟨v, hv, e, hnames, rfl⟩
  · rintro hfree ⟨v, hv, e', hnames, hid⟩
    obtain rfl := Node.eq_of_mem_inside hids hnames.mem_inside hinside hid
    exact hfree v hv hnames

theorem embeds_document : Source.Embeds ConfigSource.document :=
  ⟨fun _ _ => rfl, fun _ _ _ _ => rfl, fun _ _ => rfl, fun _ => rfl⟩

theorem nodup_ids_of_load {files : FileTree} {origin : DocumentOrigin}
    (h : load files origin = .ok d) : d.root.ids.Nodup := by
  obtain ⟨source, -, hparse⟩ := bind_eq_ok_iff.mp h
  split at hparse
  · next d' hd' =>
    obtain rfl := Except.ok.inj hparse
    exact Document.nodup_ids_of_parse hd'
  · cases hparse

/-- What a document says of a variable that is looked up is an error. -/
theorem isError_of_lookup {σ : Type} [Source σ] {ι : DocumentFile → σ} (hι : Source.Embeds ι)
    {g : TypeGraph} {w : Variable} {diagnostic : Diagnostic}
    (h : (Source.lookup g w (ι f)).1 = .error diagnostic) : diagnostic.isError = true := by
  have hsound := ConfigSource.lookup_sound g w (.document f)
  unfold Source.lookup at h hsound
  cases hk : Kind.ofType? g w.type with
  | none =>
      simp only [hk] at h
      cases h
  | some kind =>
      simp only [hk, embeds_document.read] at hsound
      simp only [hk, hι.read] at h
      have herror : (Source.read g kind w f).1 = .error diagnostic := h
      rw [Prod.map_fst, id, herror] at hsound
      exact hsound

/-- After some calls, a leaf is untouched if no variable that was called for names it or an
entry that encloses it. -/
theorem untouched_iff_of_called {g : TypeGraph} {as : List Action} {l : Leaf}
    (hd : f.document = some d) (hids : d.root.ids.Nodup) (hconsumed : f.consumed = [])
    (h : Source.Called g f as f') (hl : l ∈ d.root.leaves) :
    Untouched f'.consumed l ↔
      ∀ e ∈ l.way, ∀ v ∈ as.filterMap Action.subject?, ¬ Names f.root d v e := by
  refine untouched_iff hids hl fun id => ?_
  rw [(hasUsed_of_called hd h).mem_iff id, hconsumed]
  exact or_iff_right List.not_mem_nil

open Classical in
/-- **Unused entries.** At the end of a pass a document reports, each once and in the order of
the document, exactly those leaves that no declared variable names and that stand in no entry
that a declared variable names; before, it makes no warnings. It does not matter which other
sources there are, nor what came of the variables. -/
theorem reports_unnamed {σ : Type} [Source σ] {ι : DocumentFile → σ} (hι : Source.Embeds ι)
    (files : FileTree) (g : TypeGraph) (D : Declarations) {sources : List σ} {i : Nat}
    {root : ModuleId} {origin : DocumentOrigin} {d : Document}
    (hi : sources[i]? = some (ι (ofOrigin root origin))) (hd : load files origin = .ok d) :
    let p := Pass.resolved files g D sources
    d.root.leaves.Nodup
      ∧ (Pass.run files g D sources).log = p.log ++ p.lastReports.flatten
      ∧ p.lastReports[i]? = some ((d.root.leaves.filter fun l =>
          ∀ e ∈ l.way, ∀ x ∈ D.declared, ¬ Names root d x.id e).map (leafWarning d))
      ∧ (Source.start files (ι (ofOrigin root origin))).1 = []
      ∧ ∀ (w : Variable) (f : DocumentFile) (diagnostic : Diagnostic),
          (Source.lookup g w (ι f)).1 = .error diagnostic → diagnostic.isError = true := by
  intro p
  have hids := nodup_ids_of_load hd
  have hstart : Source.start files (ofOrigin root origin)
      = ([], { ofOrigin root origin with document := some d }) := by
    show start files (ofOrigin root origin) = _
    unfold start
    rw [show (ofOrigin root origin).origin = origin from rfl, hd]
    rfl
  refine ⟨Node.nodup_leaves hids, Pass.log_run files g D sources, ?_, ?_,
    fun w f diagnostic h => isError_of_lookup hι h⟩
  · obtain ⟨as, s, h⟩ := Pass.attended_resolved (g := g) files D hi
    have hcalled := h.called
    rw [hι.start, hstart] at hcalled
    obtain ⟨f', rfl, hcalled'⟩ := Source.Called.of_embeds hι hcalled
    have hsame := (hasUsed_of_called rfl hcalled').same
    have hreport : p.lastReports[i]? = some (complete f').1 := by
      simp only [Pass.lastReports, List.getElem?_map, p, h.source, Option.map_some, hι.complete]
      rfl
    rw [hreport, complete_log hsame.document]
    refine congrArg (fun ls => some (ls.map (leafWarning d)))
      (List.filter_congr fun l hl => decide_eq_decide.mpr ?_)
    rw [untouched_iff_of_called rfl hids rfl hcalled' hl, h.subjects]
    -- a variable is put to the sources if and only if it is declared
    refine forall₂_congr fun e _ => ?_
    constructor
    · intro hfree x hx hnames
      obtain ⟨w, hw, hid⟩ := Declarations.exists_first_iff.mpr ⟨x, hx, rfl⟩
      exact hfree x.id (hid ▸ List.mem_map_of_mem hw) hnames
    · intro hfree v hv hnames
      obtain ⟨w, hw, rfl⟩ := List.mem_map.mp hv
      obtain ⟨x, hx, hid⟩ := Declarations.exists_first_iff.mp ⟨w, hw, rfl⟩
      exact hfree x hx (hid ▸ hnames)
  · rw [hι.start, hstart]
    rfl

open Classical in
/-- `x` stands in two sections and gets no value, and `m.r.x` is named as an entry of the
module `m.r`. That leaves `z`, for which there is no variable. -/
theorem reports_unnamed_of_ambiguous :
    let root : ModuleId := ⟨"o", "m", "1"⟩
    let D : Declarations := [(root, [⟨"x", .primitive .int, true⟩]),
      (⟨"o", "m.r", "1"⟩, [⟨"x", .primitive .int, true⟩])]
    let source : Text.Named := ⟨none, "m.x = 'a'\nm.r = { x = 3, z = 4 }\no.m.x = 1\n"⟩
    let sources := [ConfigSource.document (ofOrigin root (.content source.text))]
    Source.Embeds ConfigSource.document ∧
      sources[0]? = some (.document (ofOrigin root (.content source.text))) ∧
      ∃ d, load ⟨[]⟩ (.content source.text) = .ok d ∧
        (d.root.leaves.filter fun l => ∀ e ∈ l.way, ∀ x ∈ D.declared, ¬ Names root d x.id e).map
            (leafWarning d)
          = [.warning (.unusedEntry "m.r.z=4") (some ⟨source, ⟨25, 30⟩⟩)] := by
  intro root D source sources
  have hloads : (load ⟨[]⟩ (.content source.text)).toOption.isSome = true := by decide +kernel
  have hreport : (Pass.resolved ⟨[]⟩ .empty D sources).lastReports[0]?
      = some [.warning (.unusedEntry "m.r.z=4") (some ⟨source, ⟨25, 30⟩⟩)] := by decide +kernel
  have hi : sources[0]? = some (.document (ofOrigin root (.content source.text))) := rfl
  refine ⟨embeds_document, hi, ?_⟩
  cases hd : load ⟨[]⟩ (.content source.text) with
  | error diagnostic =>
      rw [hd] at hloads
      cases hloads
  | ok d =>
      have h := (reports_unnamed embeds_document ⟨[]⟩ .empty D hi hd).2.2.1
      exact ⟨d, rfl, Option.some.inj (h.symm.trans hreport)⟩

end DocumentFile

end Configurable
