import Configurable.Source.DocumentFile
import Configurable.Proofs.Reading
import Configurable.Proofs.Session

/-!
# Problems of a document's structure

A section may be there without being a table. A variable *meets* such a section if none of
its module's sections holds it and this one is the first that is malformed. The problem is
reported for the section and not for the variable, and at most once.

`locate_of_meets` and `locate_of_not_meets` say all that a call does about it, so what a
session reports (`countP_reports`) is an induction on the calls: the first call that meets
the section decides. If it is a lookup, the problem is its answer. If it is a mark, the
section counts as reported although nobody was told, and no later lookup reports it.
-/

namespace Configurable

namespace DocumentFile

open Text (Span)
open Toml (Entry Document)

/-! ## Meeting a malformed section -/

/-- The section leads through tables to one that has an entry of this name. -/
def Holds (d : Document) (name : String) (s : Section) : Prop :=
  ∃ n, placeAt d.root s.path = .table n ∧ n.entry? name ≠ none

/-- The section's path is there, but ends in or goes through something that is no table. -/
def Malformed (d : Document) (s : Section) : Prop :=
  ∃ span, placeAt d.root s.path = .notATable span

/-- No section holds the variable, and the first malformed one has this label. -/
structure Meets (root : ModuleId) (d : Document) (v : VariableId) (label : String) : Prop where
  unheld : ∀ s ∈ sections root v.module, ¬ Holds d v.name s
  first : ∃ before s after, sections root v.module = before ++ s :: after ∧
    (∀ s' ∈ before, ¬ Malformed d s') ∧ Malformed d s ∧ s.label = label

/-- The variable meets a malformed section in the document that was read. -/
def MeetsIn (f : DocumentFile) (v : VariableId) (label : String) : Prop :=
  ∃ d, f.document = some d ∧ Meets f.root d v label

theorem entryIn?_eq_none_iff {d : Document} {v : VariableId} {s : Section} :
    entryIn? d v s = none ↔ ¬ Holds d v.name s := by
  unfold entryIn? Holds
  split
  · next n hn => simp [hn]
  · next hne =>
    refine ⟨fun _ ⟨n, hn, _⟩ => hne n hn, fun _ => rfl⟩

theorem invalidIn?_eq_none_iff {d : Document} {s : Section} :
    invalidIn? d s = none ↔ ¬ Malformed d s := by
  unfold invalidIn? Malformed
  split
  · next span hspan => simp [hspan]
  · next hne =>
    refine ⟨fun _ ⟨span, hspan⟩ => hne span hspan, fun _ => rfl⟩

theorem invalidIn?_eq_some_iff {d : Document} {s : Section} {x : Section × Option Span} :
    invalidIn? d s = some x ↔ x.1 = s ∧ placeAt d.root s.path = .notATable x.2 := by
  obtain ⟨s', span⟩ := x
  unfold invalidIn?
  split
  · next span' hspan' =>
    rw [hspan']
    constructor
    · intro h
      obtain ⟨rfl, rfl⟩ := Prod.mk.injEq .. |>.mp (Option.some.inj h)
      exact ⟨rfl, rfl⟩
    · rintro ⟨rfl, h⟩
      obtain rfl := Place.notATable.inj h
      rfl
  · next hne => exact iff_of_false (by simp) fun h => hne _ h.2

theorem entriesFor_eq_nil_iff {root : ModuleId} {d : Document} {v : VariableId} :
    entriesFor root d v = [] ↔ ∀ s ∈ sections root v.module, ¬ Holds d v.name s := by
  unfold entriesFor
  rw [List.filterMap_eq_nil_iff]
  exact forall₂_congr fun s _ => entryIn?_eq_none_iff

theorem meets_iff {root : ModuleId} {d : Document} {v : VariableId} {label : String} :
    Meets root d v label ↔ entriesFor root d v = [] ∧
      ∃ s span, invalidFor? root d v = some (s, span) ∧ s.label = label := by
  unfold invalidFor?
  simp only [List.findSome?_eq_some_iff]
  constructor
  · rintro ⟨hunheld, before, s, after, hsections, hbefore, ⟨span, hspan⟩, hlabel⟩
    exact ⟨entriesFor_eq_nil_iff.mpr hunheld, s, span,
      ⟨before, s, after, hsections, invalidIn?_eq_some_iff.mpr ⟨rfl, hspan⟩,
        fun s' hs' => invalidIn?_eq_none_iff.mpr (hbefore s' hs')⟩, hlabel⟩
  · rintro ⟨hnil, s, span, ⟨before, s', after, hsections, hs', hbefore⟩, hlabel⟩
    obtain ⟨rfl, hspan⟩ := invalidIn?_eq_some_iff.mp hs'
    exact ⟨entriesFor_eq_nil_iff.mp hnil, before, s, after, hsections,
      fun s' hs' => invalidIn?_eq_none_iff.mp (hbefore s' hs'), ⟨span, hspan⟩, hlabel⟩

theorem Meets.unique {root : ModuleId} {d : Document} {v : VariableId} {l l' : String}
    (h : Meets root d v l) (h' : Meets root d v l') : l = l' := by
  obtain ⟨-, s, span, hs, rfl⟩ := meets_iff.mp h
  obtain ⟨-, s', span', hs', rfl⟩ := meets_iff.mp h'
  rw [hs] at hs'
  obtain ⟨rfl, -⟩ := Prod.mk.injEq .. |>.mp (Option.some.inj hs')
  rfl

instance (root : ModuleId) (d : Document) (v : VariableId) (label : String) :
    Decidable (Meets root d v label) :=
  decidable_of_iff ((entriesFor root d v).isEmpty = true ∧
      ((invalidFor? root d v).any fun (s, _) => s.label = label) = true) <| by
    rw [meets_iff, List.isEmpty_iff, Option.any_eq_true]
    simp

instance (f : DocumentFile) (v : VariableId) (label : String) :
    Decidable (f.MeetsIn v label) :=
  decidable_of_iff ((f.document.any fun d => Meets f.root d v label) = true) <| by
    simp [MeetsIn, Option.any_eq_true]

/-! ## What looking for a variable does about it -/

theorem locate_of_meets {f : DocumentFile} {d : Document} {v : VariableId} {label : String}
    (h : Meets f.root d v label) : ∃ location,
      f.locate d v = if label ∈ f.reported then (.ok none, f)
        else (.error (.error (.notASection label) location),
          { f with reported := f.reported ++ [label] }) := by
  obtain ⟨hnil, s, span, hs, rfl⟩ := meets_iff.mp h
  refine ⟨locationIn d span, ?_⟩
  unfold locate
  simp only [hnil, hs, List.map_nil, List.append_nil]

theorem invalidFor?_of_not_meets {root : ModuleId} {d : Document} {v : VariableId}
    (h : ∀ label, ¬ Meets root d v label) (hnil : entriesFor root d v = []) :
    invalidFor? root d v = none := by
  cases hs : invalidFor? root d v with
  | none => rfl
  | some x => exact absurd (meets_iff.mpr ⟨hnil, x.1, x.2, hs, rfl⟩) (h x.1.label)

/-- Otherwise no section is reported, and none counts as reported. -/
theorem locate_of_not_meets {f : DocumentFile} {d : Document} {v : VariableId}
    (h : ∀ label, ¬ Meets f.root d v label) :
    Judged (fun e => ∀ label, e.problem ≠ .notASection label) (fun _ => True) (f.locate d v).1
      ∧ (f.locate d v).2.reported = f.reported := by
  unfold locate
  simp only
  split
  · exact ⟨trivial, rfl⟩
  · next hnil =>
    rw [invalidFor?_of_not_meets h hnil]
    exact ⟨trivial, rfl⟩
  · exact ⟨fun label hlabel => (Problem.noConfusion hlabel), rfl⟩

/-- A section counts as reported from the first time on that a variable meets it. -/
theorem mem_reported_locate {f : DocumentFile} {d : Document} {v : VariableId}
    {label : String} :
    label ∈ (f.locate d v).2.reported ↔ label ∈ f.reported ∨ Meets f.root d v label := by
  by_cases h : ∃ l, Meets f.root d v l
  · obtain ⟨l, hl⟩ := h
    obtain ⟨location, hlocate⟩ := locate_of_meets hl
    have hlabel : Meets f.root d v label ↔ label = l :=
      ⟨fun hm => hm.unique hl, fun heq => heq ▸ hl⟩
    rw [hlocate, hlabel]
    split
    · next hmem => exact ⟨Or.inl, fun hor => hor.elim id fun heq => heq ▸ hmem⟩
    · rw [List.mem_append, List.mem_singleton]
  · rw [(locate_of_not_meets (not_exists.mp h)).2]
    exact ⟨Or.inl, fun hor => hor.resolve_right fun hm => h ⟨label, hm⟩⟩

/-- Two sources with the same document, of which they may have used and reported different
parts. -/
structure SameDocument (f f' : DocumentFile) : Prop where
  root : f'.root = f.root
  origin : f'.origin = f.origin
  document : f'.document = f.document

theorem SameDocument.refl (f : DocumentFile) : SameDocument f f := ⟨rfl, rfl, rfl⟩

theorem SameDocument.trans {f f' f'' : DocumentFile} (h : SameDocument f f')
    (h' : SameDocument f' f'') : SameDocument f f'' :=
  ⟨h'.root.trans h.root, h'.origin.trans h.origin, h'.document.trans h.document⟩

theorem SameDocument.meetsIn {f f' : DocumentFile} (h : SameDocument f f') {v : VariableId}
    {label : String} : f'.MeetsIn v label ↔ f.MeetsIn v label := by
  unfold MeetsIn
  rw [h.root, h.document]

theorem sameDocument_locate (f : DocumentFile) (d : Document) (v : VariableId) :
    SameDocument f (f.locate d v).2 := by
  unfold locate
  simp only
  split
  · exact ⟨rfl, rfl, rfl⟩
  · split
    · exact ⟨rfl, rfl, rfl⟩
    · split
      · exact ⟨rfl, rfl, rfl⟩
      · exact ⟨rfl, rfl, rfl⟩
  · exact ⟨rfl, rfl, rfl⟩

theorem sameDocument_mark (v : Variable) (f : DocumentFile) : SameDocument f (mark v f) := by
  unfold mark
  split
  · exact .refl f
  · exact sameDocument_locate f _ v.id

/-- Reading a variable and marking it use and report the same. -/
theorem read_state (g : TypeGraph) (kind : Kind) (v : Variable) (f : DocumentFile) :
    (read g kind v f).2 = mark v f := by
  unfold read mark
  split
  · rfl
  · rfl

theorem mem_reported_mark {f : DocumentFile} {v : Variable} {label : String} :
    label ∈ (mark v f).reported ↔ label ∈ f.reported ∨ f.MeetsIn v.id label := by
  unfold mark MeetsIn
  split
  · next hnone => simp [hnone]
  · next d hd =>
    rw [mem_reported_locate, hd]
    simp

/-! ## What an answer depends on -/

theorem locate_congr {f f' : DocumentFile} {d : Document} {v : VariableId}
    (hroot : f'.root = f.root)
    (h : ∀ label, Meets f.root d v label → (label ∈ f'.reported ↔ label ∈ f.reported)) :
    (f'.locate d v).1 = (f.locate d v).1 := by
  unfold locate
  simp only [hroot]
  split
  · rfl
  · next hnil =>
    split
    · rfl
    · next s span hs =>
      have hreported := h s.label (meets_iff.mpr ⟨hnil, s, span, hs, rfl⟩)
      by_cases hmem : s.label ∈ f.reported
      · rw [if_pos hmem, if_pos (hreported.mpr hmem)]
      · rw [if_neg hmem, if_neg fun hmem' => hmem (hreported.mp hmem')]
  · rfl

theorem read_answer {g : TypeGraph} {kind : Kind} {v : Variable} {f : DocumentFile}
    {d : Document} (hd : f.document = some d) :
    (read g kind v f).1 = (f.locate d v.id).1.bind fun
      | none => .ok none
      | some e => (Conversion.Reading.readAs ⟨g, d, v.name⟩ kind ⟨e.node, e.span⟩ v.type
          (.variable v.name)).map some := by
  unfold read
  split
  · next hnone => cases hnone.symm.trans hd
  · next d' hd' =>
    obtain rfl := Option.some.inj (hd'.symm.trans hd)
    rfl

/-- Of what happened before, an answer depends only on whether the section that the variable
meets counts as reported. -/
theorem lookup_congr {g : TypeGraph} {v : Variable} {f f' : DocumentFile}
    (hsame : SameDocument f f')
    (h : ∀ label, f.MeetsIn v.id label → (label ∈ f'.reported ↔ label ∈ f.reported)) :
    (Source.lookup g v f').1 = (Source.lookup g v f).1 := by
  unfold Source.lookup
  split
  · next kind _ =>
    show (read g kind v f').1 = (read g kind v f).1
    cases hd : f.document with
    | none =>
        unfold read
        rw [hsame.document, hd]
    | some d =>
        rw [read_answer hd, read_answer (hsame.document.trans hd),
          locate_congr hsame.root fun label hm => h label ⟨d, hd, hm⟩]
  · rfl

theorem lookup_state (g : TypeGraph) (v : Variable) (f : DocumentFile) :
    (Source.lookup g v f).2 = mark v f := by
  unfold Source.lookup
  split
  · next kind _ => exact read_state g kind v f
  · rfl

theorem lookup_of_reported {g : TypeGraph} {v : Variable} {f : DocumentFile} {label : String}
    (h : f.MeetsIn v.id label) (hmem : label ∈ f.reported) :
    (Source.lookup g v f).1 = .ok none := by
  obtain ⟨d, hd, hm⟩ := h
  obtain ⟨location, hlocate⟩ := locate_of_meets hm
  unfold Source.lookup
  split
  · next kind _ =>
    show (read g kind v f).1 = .ok none
    rw [read_answer hd, hlocate, if_pos hmem]
    rfl
  · rfl

/-- What a malformed section does to a variable for which some document has a value. -/
theorem lookup_of_not_reported {g : TypeGraph} {v : Variable} {f f' : DocumentFile}
    {label : String} {value : Value} (hvalue : (Source.lookup g v f').1 = .ok (some value))
    (h : f.MeetsIn v.id label) (hmem : label ∉ f.reported) :
    ∃ e, (Source.lookup g v f).1 = .error e := by
  obtain ⟨d, hd, hm⟩ := h
  obtain ⟨location, hlocate⟩ := locate_of_meets hm
  unfold Source.lookup at hvalue ⊢
  split at hvalue
  · next kind _ =>
    refine ⟨.error (.notASection label) location, ?_⟩
    show (read g kind v f).1 = _
    rw [read_answer hd, hlocate, if_neg hmem]
    rfl
  · cases hvalue

theorem not_meetsIn_of_value {g : TypeGraph} {v : Variable} {f : DocumentFile} {value : Value}
    (h : (Source.lookup g v f).1 = .ok (some value)) (label : String) :
    ¬ f.MeetsIn v.id label := by
  intro hmeets
  by_cases hmem : label ∈ f.reported
  · rw [lookup_of_reported hmeets hmem] at h
    cases h
  · obtain ⟨e, he⟩ := lookup_of_not_reported h hmeets hmem
    rw [he] at h
    cases h

/-! ## What a call reports -/

/-- The reply that tells of the section. -/
def reportsSection (label : String) : Reply → Bool
  | .answered (.error d) => d.problem = .notASection label
  | .answered (.ok _) | .logged _ | .marked => false

theorem reportsSection_of_judged {label : String} {answer : Answer}
    (h : Judged (fun e => ∀ label, e.problem ≠ .notASection label) (fun _ => True) answer) :
    reportsSection label (.answered answer) = false := by
  cases answer with
  | ok found => rfl
  | error e => exact decide_eq_false (h label)

theorem reportsSection_read {g : TypeGraph} {kind : Kind} {v : Variable} {f : DocumentFile}
    {label : String} :
    reportsSection label (.answered (read g kind v f).1) = true
      ↔ f.MeetsIn v.id label ∧ label ∉ f.reported := by
  unfold read MeetsIn
  split
  · next hnone =>
    rw [hnone]
    exact iff_of_false Bool.false_ne_true fun ⟨⟨_, hd, _⟩, _⟩ => nomatch hd
  · next d hd =>
    rw [hd]
    simp only [Option.some.injEq, exists_eq_left']
    by_cases h : ∃ l, Meets f.root d v.id l
    · obtain ⟨l, hl⟩ := h
      obtain ⟨location, hlocate⟩ := locate_of_meets hl
      have hlabel : Meets f.root d v.id label ↔ l = label :=
        ⟨fun hm => hl.unique hm, fun heq => heq ▸ hl⟩
      rw [hlocate, hlabel]
      split
      · next hmem =>
        exact iff_of_false Bool.false_ne_true fun ⟨heq, hnot⟩ => hnot (heq ▸ hmem)
      · next hnot =>
        have hreports : reportsSection label (.answered
            (.error (.error (.notASection l) location))) = true ↔ l = label := by
          simp [reportsSection, Diagnostic.error]
        exact hreports.trans ⟨fun heq => ⟨heq, heq ▸ hnot⟩, fun hand => hand.1⟩
    · refine iff_of_false (ne_true_of_eq_false (reportsSection_of_judged ?_))
        fun hand => h ⟨label, hand.1⟩
      refine (locate_of_not_meets (not_exists.mp h)).1.bind fun found _ => ?_
      cases found with
      | none => trivial
      | some e =>
          refine ((Conversion.Reading.readAs_reads ..).map fun _ _ => trivial).imp
            (fun refusal hrefusal l heq => ?_) fun _ ha => ha
          have habout := hrefusal.2
          rw [heq] at habout
          cases habout

/-- The document is what the source's origin gives, as it is from the first start on. -/
def Loaded (files : FileTree) (f : DocumentFile) : Prop :=
  f.document = (load files f.origin).toOption

theorem loaded_start (files : FileTree) (f : DocumentFile) : Loaded files (start files f).2 := by
  unfold Loaded start
  split
  · next hload => rw [hload]; rfl
  · next hload => rw [hload]; rfl

theorem Loaded.of_same {files : FileTree} {f f' : DocumentFile} (h : Loaded files f)
    (hsame : SameDocument f f') : Loaded files f' := by
  unfold Loaded
  rw [hsame.document, hsame.origin]
  exact h

variable {files : FileTree} {g : TypeGraph} {f : DocumentFile} {label : String}

/-- No call changes the document, since a further start reads the same one. -/
theorem sameDocument_serve (h : Loaded files f) (r : Request) :
    SameDocument f (Source.serve files g f r).2 := by
  cases r with
  | start =>
      unfold Loaded at h
      show SameDocument f (start files f).2
      unfold start
      split
      · next hload =>
        rw [hload] at h
        exact ⟨rfl, rfl, h.symm⟩
      · next hload =>
        rw [hload] at h
        exact ⟨rfl, rfl, h.symm⟩
  | read kind v =>
      show SameDocument f (read g kind v f).2
      rw [read_state]
      exact sameDocument_mark v f
  | mark v => exact sameDocument_mark v f
  | complete =>
      show SameDocument f (complete f).2
      unfold complete
      split
      · exact .refl f
      · exact ⟨rfl, rfl, rfl⟩

/-- The call is about a variable that meets the section. -/
def MetBy (f : DocumentFile) (label : String) (r : Request) : Prop :=
  ∃ v, r.subject? = some v ∧ f.MeetsIn v label

theorem metBy_read {kind : Kind} {v : Variable} :
    f.MetBy label (.read kind v) ↔ f.MeetsIn v.id label := by
  simp [MetBy, Request.subject?]

theorem metBy_mark {v : Variable} : f.MetBy label (.mark v) ↔ f.MeetsIn v.id label := by
  simp [MetBy, Request.subject?]

/-- Lookups and marks alike make a section that they meet count as reported. -/
theorem mem_reported_serve {r : Request} :
    label ∈ (Source.serve files g f r).2.reported ↔ label ∈ f.reported ∨ f.MetBy label r := by
  cases r with
  | start =>
      show label ∈ (start files f).2.reported ↔ _
      unfold start
      split
      · simp [MetBy, Request.subject?]
      · simp [MetBy, Request.subject?]
  | read kind v =>
      show label ∈ (read g kind v f).2.reported ↔ _
      rw [read_state, mem_reported_mark, metBy_read]
  | mark v =>
      show label ∈ (mark v f).reported ↔ _
      rw [mem_reported_mark, metBy_mark]
  | complete =>
      show label ∈ (complete f).2.reported ↔ _
      unfold complete
      split
      · simp [MetBy, Request.subject?]
      · simp [MetBy, Request.subject?]

/-- Only a lookup reports, and only what does not count as reported yet. -/
theorem reportsSection_serve {r : Request} :
    reportsSection label (Source.serve files g f r).1 = true
      ↔ (∃ kind v, r = .read kind v) ∧ f.MetBy label r ∧ label ∉ f.reported := by
  cases r with
  | start => simp [Source.serve, reportsSection]
  | read kind v =>
      refine reportsSection_read.trans ?_
      rw [metBy_read]
      exact ⟨fun h => ⟨⟨kind, v, rfl⟩, h⟩, fun h => h.2⟩
  | mark v => simp [Source.serve, reportsSection]
  | complete => simp [Source.serve, reportsSection]

/-! ## What a session reports -/

/-- The first of the calls that meet the section is a lookup. -/
def LookupMeetsFirst (f : DocumentFile) (label : String) (rs : List Request) : Prop :=
  ∃ before kind v after, rs = before ++ .read kind v :: after ∧ f.MeetsIn v.id label ∧
    ∀ r ∈ before, ¬ f.MetBy label r

theorem lookupMeetsFirst_of_met {r : Request} {rs : List Request} (h : f.MetBy label r) :
    f.LookupMeetsFirst label (r :: rs) ↔ ∃ kind v, r = .read kind v := by
  constructor
  · rintro ⟨before, kind, v, after, hrs, -, hbefore⟩
    cases before with
    | nil => exact ⟨kind, v, (List.cons.inj hrs).1⟩
    | cons r' before =>
        obtain ⟨rfl, -⟩ := List.cons.inj hrs
        exact absurd h (hbefore r (List.mem_cons_self ..))
  · rintro ⟨kind, v, rfl⟩
    exact ⟨[], kind, v, rs, rfl, metBy_read.mp h, by simp⟩

theorem lookupMeetsFirst_of_not_met {r : Request} {rs : List Request}
    (h : ¬ f.MetBy label r) :
    f.LookupMeetsFirst label (r :: rs) ↔ f.LookupMeetsFirst label rs := by
  constructor
  · rintro ⟨before, kind, v, after, hrs, hv, hbefore⟩
    cases before with
    | nil =>
        obtain ⟨rfl, -⟩ := List.cons.inj hrs
        exact absurd (metBy_read.mpr hv) h
    | cons r' before =>
        obtain ⟨rfl, rfl⟩ := List.cons.inj hrs
        exact ⟨before, kind, v, after, rfl, hv, (List.forall_mem_cons.mp hbefore).2⟩
  · rintro ⟨before, kind, v, after, rfl, hv, hbefore⟩
    exact ⟨r :: before, kind, v, after, rfl, hv, List.forall_mem_cons.mpr ⟨h, hbefore⟩⟩

theorem SameDocument.lookupMeetsFirst {f' : DocumentFile} (h : SameDocument f f')
    {rs : List Request} : f'.LookupMeetsFirst label rs ↔ f.LookupMeetsFirst label rs := by
  simp only [LookupMeetsFirst, MetBy, h.meetsIn]

theorem countP_of_reported : ∀ {f : DocumentFile} {rs : List Request}, label ∈ f.reported →
    (Source.replies files g f rs).countP (reportsSection label) = 0
  | _, [], _ => rfl
  | f, r :: rs, h => by
      have hhead : ¬ reportsSection label (Source.serve files g f r).1 = true :=
        fun hr => (reportsSection_serve.mp hr).2.2 h
      unfold Source.replies
      rw [List.countP_cons_of_neg hhead]
      exact countP_of_reported (mem_reported_serve.mpr (Or.inl h))

theorem countP_of_not_reported : ∀ {f : DocumentFile} {rs : List Request}, Loaded files f →
    label ∉ f.reported →
      (Source.replies files g f rs).countP (reportsSection label) ≤ 1
        ∧ ((Source.replies files g f rs).countP (reportsSection label) = 1
            ↔ f.LookupMeetsFirst label rs)
  | f, [], _, _ => by
      refine ⟨Nat.zero_le 1, iff_of_false Nat.zero_ne_one ?_⟩
      rintro ⟨before, kind, v, after, hrs, -⟩
      simp at hrs
  | f, r :: rs, hl, h => by
      unfold Source.replies
      by_cases hmet : f.MetBy label r
      · -- This call decides: afterwards the section counts as reported.
        have hrest : (Source.replies files g (Source.serve files g f r).2 rs).countP
            (reportsSection label) = 0 :=
          countP_of_reported (mem_reported_serve.mpr (Or.inr hmet))
        rw [lookupMeetsFirst_of_met hmet]
        by_cases hread : ∃ kind v, r = .read kind v
        · rw [List.countP_cons_of_pos (reportsSection_serve.mpr ⟨hread, hmet, h⟩), hrest]
          exact ⟨Nat.le_refl 1, iff_of_true rfl hread⟩
        · rw [List.countP_cons_of_neg fun hr => hread (reportsSection_serve.mp hr).1, hrest]
          exact ⟨Nat.zero_le 1, iff_of_false Nat.zero_ne_one hread⟩
      · have hsame := sameDocument_serve (g := g) hl r
        rw [List.countP_cons_of_neg fun hr => hmet (reportsSection_serve.mp hr).2.1,
          lookupMeetsFirst_of_not_met hmet, ← hsame.lookupMeetsFirst]
        exact countP_of_not_reported (hl.of_same hsame) fun hmem =>
          (mem_reported_serve.mp hmem).elim h hmet

/-- **Once at most, and exactly once if a lookup comes first.** In a session with a document
that was read, the problem of a section is the answer of at most one call. It is the answer of
one if the first call that meets the section is a lookup, and of none if that is a mark. -/
theorem countP_reports (files : FileTree) (g : TypeGraph) (root : ModuleId)
    (origin : DocumentOrigin) (label : String) (rs : List Request) :
    (Source.replies files g (start files (ofOrigin root origin)).2 rs).countP
        (reportsSection label) ≤ 1
      ∧ ((Source.replies files g (start files (ofOrigin root origin)).2 rs).countP
          (reportsSection label) = 1
        ↔ (start files (ofOrigin root origin)).2.LookupMeetsFirst label rs) := by
  refine countP_of_not_reported (loaded_start files _) ?_
  unfold start
  split
  · exact List.not_mem_nil
  · exact List.not_mem_nil

/-- With `m = 5` where `[m]` should be, a mark of `x` keeps the lookup of `y` from telling. -/
theorem mark_hides_section :
    let m : ModuleId := ⟨"o", "m", "1"⟩
    let x : Variable := ⟨⟨m, "x"⟩, .readonly, true⟩
    let y : Variable := ⟨⟨m, "y"⟩, .primitive .int, true⟩
    let f := (start ⟨[]⟩ (ofOrigin m (.content "m = 5\n"))).2
    f.MeetsIn y.id "m" ∧
      (Source.replies ⟨[]⟩ .empty f [.mark x, .read (.primitive .int) y]).countP
        (reportsSection "m") = 0 := by
  decide +kernel

end DocumentFile

end Configurable
