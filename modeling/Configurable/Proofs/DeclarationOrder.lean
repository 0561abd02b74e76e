import Configurable.Proofs.DocumentStructure
import Configurable.Proofs.Pass
import Mathlib.Data.List.Nodup

/-!
# The order of declarations

Documents have the same values for a variable whenever it comes, with one exception. Where a
document is malformed, the first variable that meets the malformed section gets an error and
no value, and all later ones are looked for in the documents behind it. So a variable has its
value or not depending on whether another one comes before it, if a document behind a
malformed section that both meet has a value for it (`OrderSensitive.differs`). For all others
the order is irrelevant (`values_perm`).

The values of a pass are described by what documents answer in the state in which they were
read (`mem_values_run`), since the calls before a lookup only matter for the sections
that count as reported then.
-/

namespace Configurable

namespace DocumentFile

variable {g : TypeGraph} {v : Variable} {f : DocumentFile} {ws : List Variable}

/-! ## Answers after marks -/

def markAll (ws : List Variable) (f : DocumentFile) : DocumentFile :=
  ws.foldl (fun f w => mark w f) f

theorem sameDocument_markAll : ∀ (ws : List Variable) (f : DocumentFile),
    SameDocument f (markAll ws f)
  | [], f => .refl f
  | w :: ws, f => (sameDocument_mark w f).trans (sameDocument_markAll ws (mark w f))

theorem mem_reported_markAll : ∀ {ws : List Variable} {f : DocumentFile} {label : String},
    label ∈ (markAll ws f).reported ↔ label ∈ f.reported ∨ ∃ w ∈ ws, f.MeetsIn w.id label
  | [], f, label => by simp [markAll]
  | w :: ws, f, label => by
      have htail : label ∈ (markAll ws (mark w f)).reported ↔ _ := mem_reported_markAll
      refine htail.trans ?_
      simp only [mem_reported_mark, (sameDocument_mark w f).meetsIn, List.mem_cons,
        exists_eq_or_imp, or_assoc]

/-- One of the variables meets the malformed section that this one meets. -/
def SharesSection (f : DocumentFile) (v : VariableId) (ws : List Variable) : Prop :=
  ∃ w ∈ ws, ∃ label, f.MeetsIn w.id label ∧ f.MeetsIn v label

theorem SharesSection.mono {v : VariableId} {ws' : List Variable} (h : f.SharesSection v ws)
    (hsub : ∀ w ∈ ws, w ∈ ws') : f.SharesSection v ws' := by
  obtain ⟨w, hw, label, hmeets⟩ := h
  exact ⟨w, hsub w hw, label, hmeets⟩

theorem lookup_of_shares (h : f.SharesSection v.id ws) :
    (Source.lookup g v (markAll ws f)).1 = .ok none := by
  obtain ⟨w, hw, label, hmeetsw, hmeets⟩ := h
  exact lookup_of_reported ((sameDocument_markAll ws f).meetsIn.mpr hmeets)
    (mem_reported_markAll.mpr (Or.inr ⟨w, hw, hmeetsw⟩))

/-- A variable that comes first gets an error there, if any document has a value for it. -/
theorem lookup_of_shares_first {f' : DocumentFile} {value : Value} (hf : f.reported = [])
    (hvalue : (Source.lookup g v f').1 = .ok (some value)) (h : f.SharesSection v.id ws) :
    ∃ e, (Source.lookup g v f).1 = .error e := by
  obtain ⟨w, -, label, -, hmeets⟩ := h
  exact lookup_of_not_reported hvalue hmeets (hf ▸ List.not_mem_nil)

theorem lookup_of_not_shares (hf : f.reported = []) (h : ¬ f.SharesSection v.id ws) :
    (Source.lookup g v (markAll ws f)).1 = (Source.lookup g v f).1 := by
  refine lookup_congr (sameDocument_markAll ws f) fun label hmeets => ?_
  rw [mem_reported_markAll, hf]
  exact or_iff_left fun ⟨w, hw, hmeetsw⟩ => h ⟨w, hw, label, hmeetsw, hmeets⟩

end DocumentFile

/-! ## Values -/

section

variable {g : TypeGraph} {v : Variable} {value : Value} {fs : List DocumentFile}

/-- A pass that has come to the variable after the others gives it the value: a document has
it, and those before have nothing or only a malformed section that one of the others meets. -/
def Gives (g : TypeGraph) (fs : List DocumentFile) (others : List Variable) (v : Variable)
    (value : Value) : Prop :=
  g.isConfigurable v.type = true ∧ ∃ earlier f later, fs = earlier ++ f :: later ∧
    (Source.lookup g v f).1 = .ok (some value) ∧
    ∀ f' ∈ earlier, (Source.lookup g v f').1 = .ok none ∨ f'.SharesSection v.id others

theorem Gives.mono {ws ws' : List Variable} (h : Gives g fs ws v value)
    (hsub : ∀ w ∈ ws, w ∈ ws') : Gives g fs ws' v value := by
  obtain ⟨hconf, earlier, f, later, hfs, hf, hearlier⟩ := h
  exact ⟨hconf, earlier, f, later, hfs, hf,
    fun f' hf' => (hearlier f' hf').imp_right (·.mono hsub)⟩

theorem answer_iff_gives {ws : List Variable} (hfs : ∀ f ∈ fs, f.reported = []) :
    (Pass.ask g v (Pass.firstAnswer g v) (fs.map (DocumentFile.markAll ws))).answer
      = .ok (some value) ↔ Gives g fs ws v value := by
  unfold Pass.firstAnswer Gives
  by_cases hconf : g.isConfigurable v.type = true
  · rw [if_pos hconf, Pass.answer_ask_iff]
    constructor
    · rintro ⟨before, s, after, hmap, hs, hbefore⟩
      obtain ⟨earlier, rest, rfl, rfl, hrest⟩ := List.map_eq_append_iff.mp hmap
      obtain ⟨f, later, rfl, rfl, rfl⟩ := List.map_eq_cons_iff.mp hrest
      refine ⟨hconf, earlier, f, later, rfl, ?_, fun f' hf' => ?_⟩
      · by_cases hshares : f.SharesSection v.id ws
        · rw [DocumentFile.lookup_of_shares hshares] at hs
          cases hs
        · rwa [DocumentFile.lookup_of_not_shares (hfs f (by simp)) hshares] at hs
      · by_cases hshares : f'.SharesSection v.id ws
        · exact Or.inr hshares
        · have hnone := hbefore _ (List.mem_map_of_mem hf')
          rw [DocumentFile.lookup_of_not_shares (hfs f' (by simp [hf'])) hshares] at hnone
          exact Or.inl hnone
    · rintro ⟨-, earlier, f, later, rfl, hf, hearlier⟩
      refine ⟨earlier.map (DocumentFile.markAll ws), DocumentFile.markAll ws f,
        later.map (DocumentFile.markAll ws), by simp, ?_, fun s hs => ?_⟩
      · have hshares : ¬ f.SharesSection v.id ws := fun ⟨_, _, label, _, hmeets⟩ =>
          DocumentFile.not_meetsIn_of_value hf label hmeets
        rwa [DocumentFile.lookup_of_not_shares (hfs f (by simp)) hshares]
      · obtain ⟨f', hf', rfl⟩ := List.mem_map.mp hs
        by_cases hshares : f'.SharesSection v.id ws
        · exact DocumentFile.lookup_of_shares hshares
        · rw [DocumentFile.lookup_of_not_shares (hfs f' (by simp [hf'])) hshares]
          exact (hearlier f' hf').resolve_right hshares
  · rw [if_neg hconf, Pass.answer_ask_settled (by simp)]
    exact iff_of_false (by simp) fun h => hconf h.1

end

namespace Declarations

/-- If no variable is declared twice, all are put to the sources. -/
theorem stepsOf_eq (module : ModuleId) : ∀ (names : List String) {ds : List Declaration},
    (ds.map Declaration.name).Nodup → (∀ d ∈ ds, d.name ∉ names) →
      stepsOf module names ds = ds.map fun d => .first (.ofDeclaration module d)
  | _, [], _, _ => rfl
  | names, d :: ds, hnodup, hnames => by
      obtain ⟨hd, hds⟩ := List.nodup_cons.mp hnodup
      obtain ⟨hdnames, hdsnames⟩ := List.forall_mem_cons.mp hnames
      unfold stepsOf
      rw [if_neg hdnames, List.map_cons, stepsOf_eq module _ hds fun e he => ?_]
      rw [List.mem_cons, not_or]
      exact ⟨fun heq => hd (heq ▸ List.mem_map_of_mem he), hdsnames e he⟩

theorem steps_eq : ∀ {D : Declarations}, (D.declared.map Variable.id).Nodup →
    D.steps = D.declared.map .first
  | [], _ => rfl
  | (module, ds) :: D, h => by
      have hsplit : declared ((module, ds) :: D)
          = ds.map (Variable.ofDeclaration module) ++ declared D := rfl
      rw [hsplit, List.map_append] at h
      obtain ⟨hds, hD, -⟩ := List.nodup_append.mp h
      have hnames : (ds.map Declaration.name).Nodup := by
        refine List.Nodup.of_map (fun name => (⟨module, name⟩ : VariableId)) ?_
        rwa [List.map_map] at hds ⊢
      have htail := steps_eq hD
      have hhead := stepsOf_eq module [] hnames (by simp)
      rw [hsplit, List.map_append, ← htail, List.map_map]
      show stepsOf module [] ds ++ steps D = _
      rw [hhead]
      rfl

/-- Declarations of the same variables, with the modules and the variables of each module in
any order. -/
structure SameVariables (D D' : Declarations) : Prop where
  keys : D'.keys.Nodup
  declared : D'.declared.Perm D.declared

/-- Moving a module and one of its variables to the front changes only the order. -/
theorem perm_front (A B : Declarations) (module : ModuleId) (ds ds' : List Declaration)
    (d : Declaration) :
    (declared ((module, d :: (ds ++ ds')) :: (A ++ B))).Perm
      (declared (A ++ (module, ds ++ d :: ds') :: B)) := by
  have hgroup : ((d :: (ds ++ ds')).map (Variable.ofDeclaration module)).Perm
      ((ds ++ d :: ds').map (Variable.ofDeclaration module)) := List.perm_middle.symm.map _
  have hmodules : (declared ((module, ds ++ d :: ds') :: (A ++ B))).Perm
      (declared (A ++ (module, ds ++ d :: ds') :: B)) := List.perm_middle.symm.flatMap_right _
  exact (hgroup.append_right (declared (A ++ B))).trans hmodules

theorem exists_front {D : Declarations} (hD : D.keys.Nodup) {v : Variable}
    (hv : v ∈ D.declared) : ∃ D' rest, SameVariables D D' ∧ D'.declared = v :: rest := by
  obtain ⟨⟨module, group⟩, hgroup, hv⟩ := List.mem_flatMap.mp hv
  obtain ⟨d, hd, rfl⟩ := List.mem_map.mp hv
  obtain ⟨A, B, rfl⟩ := List.append_of_mem hgroup
  obtain ⟨ds, ds', rfl⟩ := List.append_of_mem hd
  refine ⟨(module, d :: (ds ++ ds')) :: (A ++ B), _, ⟨?_, perm_front A B module ds ds' d⟩, rfl⟩
  have hperm : (Entries.keys ((module, d :: (ds ++ ds')) :: (A ++ B))).Perm
      (Entries.keys (A ++ (module, ds ++ d :: ds') :: B)) := by
    simp only [Entries.keys, List.map_append, List.map_cons]
    exact List.perm_middle.symm
  exact hperm.nodup_iff.mpr hD

theorem exists_back {D : Declarations} (hD : D.keys.Nodup) {v : Variable}
    (hv : v ∈ D.declared) : ∃ D' rest, SameVariables D D' ∧ D'.declared = rest ++ [v] := by
  obtain ⟨⟨module, group⟩, hgroup, hv⟩ := List.mem_flatMap.mp hv
  obtain ⟨d, hd, rfl⟩ := List.mem_map.mp hv
  obtain ⟨A, B, rfl⟩ := List.append_of_mem hgroup
  obtain ⟨ds, ds', rfl⟩ := List.append_of_mem hd
  have hback : declared (A ++ B ++ [(module, ds ++ ds' ++ [d])])
      = declared (A ++ B) ++ (ds ++ ds').map (Variable.ofDeclaration module)
        ++ [.ofDeclaration module d] := by
    simp [declared]
  refine ⟨A ++ B ++ [(module, ds ++ ds' ++ [d])], _, ⟨?_, ?_⟩, hback⟩
  · have hperm : (Entries.keys (A ++ B ++ [(module, ds ++ ds' ++ [d])])).Perm
        (Entries.keys (A ++ (module, ds ++ d :: ds') :: B)) := by
      simp only [Entries.keys, List.map_append, List.map_cons, List.map_nil]
      exact (List.perm_append_singleton ..).trans List.perm_middle.symm
    exact hperm.nodup_iff.mpr hD
  · rw [hback]
    have hfront : (.ofDeclaration module d :: (declared (A ++ B)
        ++ (ds ++ ds').map (Variable.ofDeclaration module))).Perm
          (declared ((module, d :: (ds ++ ds')) :: (A ++ B))) := List.perm_append_comm.cons _
    exact (List.perm_append_singleton ..).trans (hfront.trans (perm_front A B module ds ds' d))

end Declarations

namespace Pass

variable {g : TypeGraph} {fs : List DocumentFile} {ws : List Variable} {p : Pass DocumentFile}

/-- Whatever the answers are, a variable leaves behind the same documents. -/
theorem sources_ask (v : Variable) : ∀ (a : Answer) (ss : List DocumentFile),
    (ask g v a ss).sources = ss.map (DocumentFile.mark v)
  | _, [] => by unfold ask; rfl
  | a, s :: ss => by
      by_cases ha : a = .ok none
      · subst ha
        rw [ask_cons_open, List.map_cons, ← DocumentFile.lookup_state g v s,
          ← sources_ask v _ ss]
      · rw [ask_cons_settled ha, List.map_cons, ← sources_ask v a ss]
        rfl

/-- Where a pass over documents stands after these variables, all of which are different. -/
structure Resolved (g : TypeGraph) (fs : List DocumentFile) (ws : List Variable)
    (p : Pass DocumentFile) : Prop where
  sources : p.sources = fs.map (DocumentFile.markAll ws)
  values : ∀ e, e ∈ p.values ↔ ∃ before v after, ws = before ++ v :: after ∧ v.id = e.1 ∧
    Gives g fs before v e.2

theorem mem_keep_iff {v : Variable} {values : Values} (hv : v.id ∉ values.keys) (a : Answer)
    (e : VariableId × Value) :
    e ∈ keep v values a ↔ e ∈ values ∨ v.id = e.1 ∧ a = .ok (some e.2) := by
  obtain ⟨id, value⟩ := e
  match a with
  | .ok none => simp [keep]
  | .error d => simp [keep]
  | .ok (some value') =>
      show (id, value) ∈ values.insert v.id value' ↔ _
      rw [Entries.insert_of_not_mem hv, List.mem_append, List.mem_singleton]
      simp [eq_comm]

theorem snoc_eq_iff {α : Type} {xs before after : List α} {x y : α} :
    xs ++ [x] = before ++ y :: after ↔
      (xs = before ∧ x = y ∧ after = [])
        ∨ ∃ rest, after = rest ++ [x] ∧ xs = before ++ y :: rest := by
  rcases List.eq_nil_or_concat after with rfl | ⟨rest, z, rfl⟩
  · rw [List.append_singleton_inj]
    simp
  · rw [List.concat_eq_append, ← List.cons_append, ← List.append_assoc,
      List.append_singleton_inj]
    constructor
    · rintro ⟨rfl, rfl⟩
      exact Or.inr ⟨rest, rfl, rfl⟩
    · rintro (⟨-, -, h⟩ | ⟨rest', h, rfl⟩)
      · simp at h
      · obtain ⟨rfl, rfl⟩ := List.append_singleton_inj.mp h
        exact ⟨rfl, rfl⟩

theorem Resolved.resolveVariable (hfs : ∀ f ∈ fs, f.reported = []) {v : Variable}
    (hv : ∀ w ∈ ws, w.id ≠ v.id) (h : Resolved g fs ws p) :
    Resolved g fs (ws ++ [v]) (p.resolveVariable g v) := by
  have hkeys : v.id ∉ p.values.keys := by
    intro hmem
    obtain ⟨e, he, hid⟩ := List.mem_map.mp hmem
    obtain ⟨before, w, after, rfl, hw, -⟩ := (h.values e).mp he
    exact hv w (by simp) (hw.trans hid)
  constructor
  · show (ask g v (firstAnswer g v) p.sources).sources = _
    rw [sources_ask, h.sources, List.map_map]
    refine List.map_congr_left fun f _ => ?_
    simp [DocumentFile.markAll]
  · intro e
    show e ∈ keep v p.values (ask g v (firstAnswer g v) p.sources).answer ↔ _
    rw [mem_keep_iff hkeys, h.sources, answer_iff_gives hfs, h.values e]
    simp only [snoc_eq_iff]
    constructor
    · rintro (⟨before, w, after, rfl, hid, hgives⟩ | ⟨hid, hgives⟩)
      · exact ⟨before, w, after ++ [v], Or.inr ⟨after, rfl, rfl⟩, hid, hgives⟩
      · exact ⟨ws, v, [], Or.inl ⟨rfl, rfl, rfl⟩, hid, hgives⟩
    · rintro ⟨before, w, after, ⟨rfl, rfl, rfl⟩ | ⟨rest, rfl, rfl⟩, hid, hgives⟩
      · exact Or.inr ⟨hid, hgives⟩
      · exact Or.inl ⟨before, w, rest, rfl, hid, hgives⟩

theorem Resolved.foldl (hfs : ∀ f ∈ fs, f.reported = []) : ∀ (vs : List Variable)
    {ws : List Variable} {p : Pass DocumentFile}, ((ws ++ vs).map Variable.id).Nodup →
      Resolved g fs ws p →
      Resolved g fs (ws ++ vs) ((vs.map Step.first).foldl (step g) p)
  | [], ws, p, _, h => by simpa using h
  | v :: vs, ws, p, hnodup, h => by
      have hv : ∀ w ∈ ws, w.id ≠ v.id := by
        rw [List.map_append, List.nodup_append] at hnodup
        intro w hw
        exact hnodup.2.2 w.id (List.mem_map_of_mem hw) v.id (by simp)
      have hnext := h.resolveVariable hfs hv
      have hrest : ((ws ++ [v] ++ vs).map Variable.id).Nodup := by simpa using hnodup
      simpa [step] using hnext.foldl hfs vs hrest

/-- The documents as they are when they were read. -/
def documents (files : FileTree) (root : ModuleId) (origins : List DocumentOrigin) :
    List DocumentFile :=
  origins.map fun origin => (Source.start files (DocumentFile.ofOrigin root origin)).2

theorem reported_documents {files : FileTree} {root : ModuleId} {origins : List DocumentOrigin}
    {f : DocumentFile} (h : f ∈ documents files root origins) : f.reported = [] := by
  obtain ⟨origin, -, rfl⟩ := List.mem_map.mp h
  show (DocumentFile.start files _).2.reported = []
  unfold DocumentFile.start
  split
  · rfl
  · rfl

/-- The values of a pass over documents, by what the documents say in the first place. -/
theorem mem_values_run (files : FileTree) {D : Declarations} (root : ModuleId)
    (origins : List DocumentOrigin) (hids : (D.declared.map Variable.id).Nodup)
    (e : VariableId × Value) :
    e ∈ (run files g D (origins.map (DocumentFile.ofOrigin root))).values ↔
      ∃ before v after, D.declared = before ++ v :: after ∧ v.id = e.1 ∧
        Gives g (documents files root origins) before v e.2 := by
  have hstart : Resolved g (documents files root origins) []
      (started files (origins.map (DocumentFile.ofOrigin root))) := by
    refine ⟨?_, fun e => ?_⟩
    · simp [started, callAll, ofSources, documents, DocumentFile.markAll, Function.comp_def]
    · simp [started, callAll, ofSources]
  have hresolved := hstart.foldl (fun f hf => reported_documents hf) D.declared
    (by simpa using hids)
  rw [values_run, resolved, Declarations.steps_eq hids]
  exact hresolved.values e

/-! ## Declaring in another order -/

/-- The variables other than this one. -/
def others (v : Variable) (ws : List Variable) : List Variable := ws.filter (·.id ≠ v.id)

/-- A document has a value for the variable. Those before it have nothing for it, except that
at least one is malformed where the variable would be, and wherever one is, another variable
meets the same malformed section. -/
def OrderSensitive (g : TypeGraph) (fs : List DocumentFile) (ws : List Variable)
    (v : Variable) : Prop :=
  g.isConfigurable v.type = true ∧ ∃ earlier f later value, fs = earlier ++ f :: later ∧
    (Source.lookup g v f).1 = .ok (some value) ∧
    (∀ f' ∈ earlier, (Source.lookup g v f').1 = .ok none
      ∨ f'.SharesSection v.id (others v ws)) ∧
    ∃ f' ∈ earlier, f'.SharesSection v.id (others v ws)

theorem OrderSensitive.of_mem_iff {ws' : List Variable} {v : Variable}
    (hmem : ∀ w, w ∈ ws → w ∈ ws') (h : OrderSensitive g fs ws v) :
    OrderSensitive g fs ws' v := by
  have hothers : ∀ w ∈ others v ws, w ∈ others v ws' := by
    intro w hw
    obtain ⟨hw, hid⟩ := List.mem_filter.mp hw
    exact List.mem_filter.mpr ⟨hmem w hw, hid⟩
  obtain ⟨hconf, earlier, f, later, value, hfs, hf, hearlier, f', hf', hshares⟩ := h
  exact ⟨hconf, earlier, f, later, value, hfs, hf,
    fun f'' hf'' => (hearlier f'' hf'').imp_right (·.mono hothers), f', hf', hshares.mono hothers⟩

/-- In a list of different variables those before one are among the others. -/
theorem mem_others_of_before {before after : List Variable} {v : Variable}
    (hnodup : ((before ++ v :: after).map Variable.id).Nodup) :
    ∀ w ∈ before, w ∈ others v (before ++ v :: after) := by
  intro w hw
  rw [List.map_append, List.nodup_append] at hnodup
  have hne : w.id ≠ v.id := hnodup.2.2 w.id (List.mem_map_of_mem hw) v.id (by simp)
  exact List.mem_filter.mpr ⟨List.mem_append_left _ hw, by simpa using hne⟩

/-- A variable that is not sensitive has the same value whatever comes before it. -/
theorem gives_of_not_sensitive {before : List Variable} {v : Variable} {value : Value}
    (hsub : ∀ w ∈ before, w ∈ others v ws) (h : ¬ OrderSensitive g fs ws v)
    (hgives : Gives g fs before v value) (before' : List Variable) :
    Gives g fs before' v value := by
  obtain ⟨hconf, earlier, f, later, hfs, hf, hearlier⟩ := hgives
  refine ⟨hconf, earlier, f, later, hfs, hf, fun f' hf' => Or.inl ?_⟩
  refine (hearlier f' hf').resolve_right fun hshares => h ?_
  exact ⟨hconf, earlier, f, later, value, hfs, hf,
    fun f'' hf'' => (hearlier f'' hf'').imp_right (·.mono hsub), f', hf', hshares.mono hsub⟩

theorem OrderSensitive.gives {v : Variable} (h : OrderSensitive g fs ws v) :
    ∃ value, Gives g fs (others v ws) v value := by
  obtain ⟨hconf, earlier, f, later, value, hfs, hf, hearlier, -⟩ := h
  exact ⟨value, hconf, earlier, f, later, hfs, hf, hearlier⟩

/-- A sensitive variable that comes first has no value. -/
theorem OrderSensitive.not_gives (hfs : ∀ f ∈ fs, f.reported = []) {v : Variable}
    (h : OrderSensitive g fs ws v) (value : Value) : ¬ Gives g fs [] v value := by
  rintro ⟨-, earlier, f, later, hsplit, hf, hearlier⟩
  obtain ⟨-, earlier', f', later', value', rfl, hf', hearlier', f₀, hf₀, hshares⟩ := h
  have herror : ∀ f'' ∈ earlier', ∀ ws, f''.SharesSection v.id ws →
      ∃ e, (Source.lookup g v f'').1 = .error e := fun f'' hf'' _ =>
    DocumentFile.lookup_of_shares_first (hfs f'' (by simp [hf''])) hf'
  have hnone : ∀ f'' ∈ earlier, (Source.lookup g v f'').1 = .ok none :=
    fun f'' hf'' => (hearlier f'' hf'').resolve_right fun ⟨w, hw, _⟩ => (List.not_mem_nil hw)
  obtain ⟨e, he⟩ := herror f₀ hf₀ _ hshares
  rcases List.append_eq_append_iff.mp hsplit with ⟨between, rfl, -⟩ | ⟨between, rfl, hrest⟩
  · have := hnone f₀ (List.mem_append_left _ hf₀)
    rw [he] at this
    cases this
  · -- The document with the value is among those that have nothing or an error.
    cases between with
    | nil =>
        have := hnone f₀ (by simpa using hf₀)
        rw [he] at this
        cases this
    | cons f'' between =>
        obtain ⟨rfl, -⟩ := List.cons.inj hrest
        rcases hearlier' f (by simp) with hnothing | hshares'
        · rw [hf] at hnothing
          cases hnothing
        · obtain ⟨e', he'⟩ := herror f (by simp) _ hshares'
          rw [hf] at he'
          cases he'

theorem values_subset {files : FileTree} {D D' : Declarations} {root : ModuleId}
    {origins : List DocumentOrigin} {e : VariableId × Value}
    (hids : (D.declared.map Variable.id).Nodup) (hperm : D'.declared.Perm D.declared)
    (h : ∀ v ∈ D.declared, v.id = e.1 →
      ¬ OrderSensitive g (documents files root origins) D.declared v)
    (he : e ∈ (run files g D (origins.map (DocumentFile.ofOrigin root))).values) :
    e ∈ (run files g D' (origins.map (DocumentFile.ofOrigin root))).values := by
  obtain ⟨before, v, after, hD, hid, hgives⟩ := (mem_values_run files root origins hids e).mp he
  have hv : v ∈ D.declared := by simp [hD]
  have hsub : ∀ w ∈ before, w ∈ others v D.declared := by
    rw [hD] at hids ⊢
    exact mem_others_of_before hids
  obtain ⟨before', after', hD'⟩ := List.append_of_mem (hperm.mem_iff.mpr hv)
  have hids' : (D'.declared.map Variable.id).Nodup := (hperm.map _).nodup_iff.mpr hids
  exact (mem_values_run files root origins hids' e).mpr
    ⟨before', v, after', hD', hid, gives_of_not_sensitive hsub (h v hv hid) hgives before'⟩

/-- A sensitive variable has a value if it is declared last and none if it is declared
first. -/
theorem OrderSensitive.differs {files : FileTree} {D : Declarations} {root : ModuleId}
    {origins : List DocumentOrigin} (hkeys : D.keys.Nodup)
    (hids : (D.declared.map Variable.id).Nodup) {v : Variable} (hv : v ∈ D.declared)
    (h : OrderSensitive g (documents files root origins) D.declared v) :
    ∃ D₁ D₂ e, Declarations.SameVariables D D₁ ∧ Declarations.SameVariables D D₂ ∧
      e ∉ (run files g D₁ (origins.map (DocumentFile.ofOrigin root))).values ∧
      e ∈ (run files g D₂ (origins.map (DocumentFile.ofOrigin root))).values := by
  obtain ⟨D₁, rest₁, hsame₁, hD₁⟩ := Declarations.exists_front hkeys hv
  obtain ⟨D₂, rest₂, hsame₂, hD₂⟩ := Declarations.exists_back hkeys hv
  have hids₁ : (D₁.declared.map Variable.id).Nodup := (hsame₁.declared.map _).nodup_iff.mpr hids
  have hids₂ : (D₂.declared.map Variable.id).Nodup := (hsame₂.declared.map _).nodup_iff.mpr hids
  obtain ⟨value, hgives⟩ := h.gives
  refine ⟨D₁, D₂, (v.id, value), hsame₁, hsame₂, fun he => ?_, ?_⟩
  · obtain ⟨before, w, after, hsplit, hid, hfirst⟩ :=
      (mem_values_run files root origins hids₁ _).mp he
    rw [hD₁] at hsplit hids₁
    cases before with
    | nil =>
        obtain ⟨rfl, -⟩ := List.cons.inj hsplit
        exact h.not_gives (fun f hf => reported_documents hf) value hfirst
    | cons u before =>
        obtain ⟨rfl, rfl⟩ := List.cons.inj hsplit
        exact (List.nodup_cons.mp hids₁).1 (List.mem_map.mpr ⟨w, by simp, hid⟩)
  · refine (mem_values_run files root origins hids₂ _).mpr ⟨rest₂, v, [], hD₂, rfl, ?_⟩
    refine hgives.mono fun w hw => ?_
    obtain ⟨hw, hne⟩ := List.mem_filter.mp hw
    have hw₂ : w ∈ rest₂ ++ [v] := hD₂ ▸ hsame₂.declared.mem_iff.mpr hw
    refine (List.mem_append.mp hw₂).resolve_right fun hwv => ?_
    obtain rfl := List.mem_singleton.mp hwv
    simp at hne

/-- **Order of declarations.** Two passes over the same documents, for declarations of the
same variables in different orders and without duplicates, record the same values for all
variables that are not sensitive to the order. -/
theorem values_perm (files : FileTree) (g : TypeGraph) (root : ModuleId)
    (origins : List DocumentOrigin) {D D' : Declarations}
    (hids : (D.declared.map Variable.id).Nodup) (hperm : D'.declared.Perm D.declared) :
    ∀ e, (∀ v ∈ D.declared, v.id = e.1 →
        ¬ OrderSensitive g (documents files root origins) D.declared v) →
      (e ∈ (run files g D' (origins.map (DocumentFile.ofOrigin root))).values
        ↔ e ∈ (run files g D (origins.map (DocumentFile.ofOrigin root))).values) := by
  intro e h
  have hids' : (D'.declared.map Variable.id).Nodup := (hperm.map _).nodup_iff.mpr hids
  refine ⟨values_subset hids' hperm.symm fun v hv hid hsensitive => ?_,
    values_subset hids hperm h⟩
  exact h v (hperm.mem_iff.mp hv) hid (hsensitive.of_mem_iff fun w => hperm.mem_iff.mp)

/-- The first document is malformed for a dependency. Whatever the order, `x` of the root has its
value from the second one, while that of the dependency depends on it. -/
theorem values_perm_elsewhere :
    let m : ModuleId := ⟨"o", "m", "1"⟩
    let dep : ModuleId := ⟨"o", "dep", "1"⟩
    let x : Declaration := ⟨"x", .primitive .int, false⟩
    let y : Declaration := ⟨"y", .primitive .int, false⟩
    let D : Declarations := [(m, [x, y]), (dep, [x, y])]
    let D' : Declarations := [(dep, [y, x]), (m, [y, x])]
    let sources := [DocumentOrigin.content "o.dep = 5\n",
      .content "[m]\nx = 1\n[o.dep]\nx = 2\ny = 3\n"].map (DocumentFile.ofOrigin m)
    (D.declared.map Variable.id).Nodup ∧ D'.declared.Perm D.declared ∧
      ((⟨m, "x"⟩, .int 1) ∈ (run ⟨[]⟩ .empty D' sources).values
        ↔ (⟨m, "x"⟩, .int 1) ∈ (run ⟨[]⟩ .empty D sources).values) ∧
      (run ⟨[]⟩ .empty D sources).values.keys = [⟨m, "x"⟩, ⟨dep, "y"⟩] ∧
      (run ⟨[]⟩ .empty D' sources).values.keys = [⟨dep, "x"⟩, ⟨m, "x"⟩] := by
  intro m dep x y D D' sources
  refine ⟨by decide, by decide, ?_, by decide +kernel, by decide +kernel⟩
  refine values_perm ⟨[]⟩ .empty m _ (by decide) (by decide) _ ?_
  rintro v hv hid ⟨-, earlier, f, later, value, hdocuments, hf, -, f', hf', hshares⟩
  have hreported : f'.reported = [] :=
    reported_documents (hdocuments ▸ List.mem_append_left _ hf')
  obtain ⟨e, he⟩ := DocumentFile.lookup_of_shares_first hreported hf hshares
  -- only the first document is before another, and it has nothing for `x` of the root
  have honly : ∀ w ∈ D.declared, w.id = ⟨m, "x"⟩ →
      w = ⟨⟨m, "x"⟩, .primitive .int, false⟩ := by decide
  obtain rfl := honly v hv hid
  have hnone : ((Source.lookup .empty (⟨⟨m, "x"⟩, .primitive .int, false⟩ : Variable)
      (Source.start ⟨[]⟩ (DocumentFile.ofOrigin m (.content "o.dep = 5\n"))).2).1.toOption).isSome
        = true := by
    decide +kernel
  cases earlier with
  | nil => cases hf'
  | cons first rest =>
    rw [List.cons_append] at hdocuments
    obtain ⟨hfirst, hrest⟩ := List.cons.inj hdocuments
    have hlength := congrArg List.length hrest
    simp only [List.length_map, List.length_append, List.length_cons, List.length_nil] at hlength
    obtain rfl := List.length_eq_zero_iff.mp (show rest.length = 0 by omega)
    rw [List.mem_singleton.mp hf', ← hfirst] at he
    rw [he] at hnone
    cases hnone

/-- The second document has values for `x` and for `y`, and the first is malformed for both:
the one that is declared first has no value. -/
theorem values_differ :
    let m : ModuleId := ⟨"o", "m", "1"⟩
    let x : Declaration := ⟨"x", .primitive .int, false⟩
    let y : Declaration := ⟨"y", .primitive .int, false⟩
    let sources := [DocumentOrigin.content "m = 5\n", .content "[m]\nx = 1\ny = 2\n"].map
      (DocumentFile.ofOrigin m)
    (Declarations.declared [(m, [y, x])]).Perm (Declarations.declared [(m, [x, y])]) ∧
      (run ⟨[]⟩ .empty [(m, [x, y])] sources).values.keys = [⟨m, "y"⟩] ∧
      (run ⟨[]⟩ .empty [(m, [y, x])] sources).values.keys = [⟨m, "x"⟩] := by
  decide +kernel

end Pass

end Configurable
