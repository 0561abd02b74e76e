import Configurable.Proofs.Bindings
import Configurable.Proofs.Transcript
import Configurable.Proofs.UnusedEntries

/-!
# Every entry is accounted for

What is in a source is used by a call or reported at the end, and nothing is reported twice.
On one side stands what a history of calls has used: the arguments that name a variable that
was heard, and the entries that a called variable names (`consumed_after`). On the other side
stands the end: the source reports what is left, knows before whether there is anything, and
is silent from then on (`Completes`).

That it stays silent is carried by `Settled`: the source still has what it was made from, and
nothing of it is left. No call undoes this, not even another start, since a start reads the
same again and what was used stays used.
-/

namespace Configurable

namespace Source

variable {σ : Type} [Source σ] {files : FileTree} {g : TypeGraph}

/-- At its end a source reports this, and can tell before whether it is anything. Afterwards
there is nothing left to report, whatever the source is called for. -/
structure Completes (files : FileTree) (g : TypeGraph) (s : σ) (log : Log) : Prop where
  report : (complete s).1 = log
  pending : hasUnused s = true ↔ log ≠ []
  silent : ∀ rs, hasUnused (after files g (complete s).2 rs) = false
    ∧ (complete (after files g (complete s).2 rs)).1 = []

/-- A property that calls keep holds after any calls. -/
theorem after_induction {P : σ → Prop} (hserve : ∀ s r, P s → P (serve files g s r).2) :
    ∀ (rs : List Request) {s : σ}, P s → P (after files g s rs)
  | [], _, h => h
  | r :: rs, s, h => after_induction hserve rs (hserve s r h)

theorem Completes.of_settled (Settled : σ → Prop) {s : σ}
    (hsilent : ∀ s', Settled s' → hasUnused s' = false ∧ (complete s').1 = [])
    (hserve : ∀ s' r, Settled s' → Settled (serve files g s' r).2)
    (hpending : hasUnused s = true ↔ (complete s).1 ≠ []) (h : Settled (complete s).2) :
    Completes files g s (complete s).1 :=
  ⟨rfl, hpending, fun rs => hsilent _ (after_induction hserve rs h)⟩

/-! ## Lookups and marks -/

theorem called_after {s : σ} : ∀ {rs : List Request}, (∀ r ∈ rs, r.subject? ≠ none) →
    Called g s (rs.map Request.action) (after files g s rs) := by
  intro rs
  induction rs using List.reverseRecOn with
  | nil => exact fun _ => .nil
  | append_singleton rs r ih =>
      intro h
      have hrest := ih fun r' hr' => h r' (List.mem_append_left _ hr')
      have hlast : r.subject? ≠ none := h r (by simp)
      rw [List.map_append, after_concat]
      cases r with
      | start => exact absurd rfl hlast
      | read kind v => exact hrest.read kind v
      | mark v => exact hrest.mark v
      | complete => exact absurd rfl hlast

theorem filterMap_subject?_action (rs : List Request) :
    (rs.map Request.action).filterMap Action.subject? = rs.filterMap Request.subject? := by
  rw [List.filterMap_map]
  congr 1
  funext r
  cases r with
  | start => rfl
  | read kind v => rfl
  | mark v => rfl
  | complete => rfl

end Source

/-! ## Command lines -/

namespace CommandLine

variable {files : FileTree} {g : TypeGraph} {c : CommandLine}

/-- The entries are those of the arguments, and all of them were used. -/
structure Settled (c : CommandLine) : Prop where
  sound : Sound c
  used : ∀ e ∈ c.entries, e.1 ∈ c.consumed

theorem subset_consumed_serve (files : FileTree) (g : TypeGraph) (c : CommandLine)
    (r : Request) : c.consumed ⊆ (Source.serve files g c r).2.consumed := by
  cases r with
  | start => exact List.Subset.refl _
  | read kind v =>
      show c.consumed ⊆ (c.take v.id).2.consumed
      cases hrefuses : c.refuses v.id with
      | true =>
          rw [take_of_refuses hrefuses]
          exact List.Subset.refl _
      | false =>
          obtain ⟨claims, heq, -⟩ := take_of_not_refuses hrefuses
          rw [heq]
          exact List.subset_append_left ..
  | mark v =>
      show c.consumed ⊆ (mark v c).consumed
      rw [mark_eq]
      exact List.subset_append_left ..
  | complete => exact List.subset_append_left ..

theorem Settled.serve (h : Settled c) (r : Request) :
    Settled (Source.serve files g c r).2 := by
  have hsound := h.sound.serve files g r
  have hsame : (Source.serve files g c r).2.entries = c.entries := by
    rw [hsound.entries, h.sound.entries, (grows_serve files g c r).arguments]
  refine ⟨hsound, fun e he => ?_⟩
  exact subset_consumed_serve files g c r (h.used e (hsame ▸ he))

theorem unused_eq_nil_iff : c.unused = [] ↔ ∀ e ∈ c.entries, e.1 ∈ c.consumed := by
  simp [unused, List.filter_eq_nil_iff]

theorem settled_complete (h : Sound c) : Settled (complete c).2 := by
  refine ⟨⟨h.entries, h.owned⟩, fun e he => ?_⟩
  show e.1 ∈ c.consumed ++ c.unused.map Prod.fst
  by_cases hused : e.1 ∈ c.consumed
  · exact List.mem_append_left _ hused
  · have hunused : e ∈ c.unused := List.mem_filter.mpr ⟨he, decide_eq_true hused⟩
    exact List.mem_append_right _ (List.mem_map_of_mem hunused)

theorem completes (files : FileTree) (g : TypeGraph) (h : Sound c) :
    Source.Completes files g c ((c.entries.filter fun (key, _) => key ∉ c.consumed).map
      fun (key, text) => .warning (.unusedArgument s!"{key}={text}") none) := by
  refine .of_settled Settled (fun c' h' => ?_) (fun c' r h' => h'.serve r) ?_
    (settled_complete h)
  · have hnone : c'.unused = [] := unused_eq_nil_iff.mpr h'.used
    constructor
    · show (!c'.unused.isEmpty) = false
      rw [hnone]
      rfl
    · show (complete c').1 = []
      rw [complete, hnone]
      rfl
  · show (!c.unused.isEmpty) = true ↔ (complete c).1 ≠ []
    simp [complete]

end CommandLine

/-! ## Documents -/

namespace DocumentFile

open Toml (Node Entry EntryOf Document Leaf)

variable {files : FileTree} {g : TypeGraph} {f f' : DocumentFile} {d : Document}

/-- The document is that of the origin, and nothing of it is left. -/
structure Settled (files : FileTree) (f : DocumentFile) : Prop where
  loaded : Loaded files f
  used : f.unused = []

theorem Untouched.mono {consumed consumed' : List Nat} {l : Leaf} (h : Untouched consumed' l)
    (hsubset : consumed ⊆ consumed') : Untouched consumed l :=
  fun e he hid => h e he (hsubset hid)

theorem unused_eq_nil_iff (hd : f.document = some d) :
    f.unused = [] ↔ ∀ l ∈ d.root.leaves, ¬ Untouched f.consumed l := by
  simp [unused_eq hd, labelled, List.filter_eq_nil_iff]

theorem unused_of_absent (hd : f.document = none) : f.unused = [] := by
  unfold unused
  rw [hd]

theorem subset_consumed_mark (v : Variable) (f : DocumentFile) :
    f.consumed ⊆ (mark v f).consumed := by
  cases hd : f.document with
  | none =>
      unfold mark
      rw [hd]
      exact List.Subset.refl _
  | some d => exact fun id hid => (mem_consumed_mark hd).mpr (Or.inl hid)

theorem subset_consumed_serve (files : FileTree) (g : TypeGraph) (f : DocumentFile)
    (r : Request) : f.consumed ⊆ (Source.serve files g f r).2.consumed := by
  cases r with
  | start =>
      show f.consumed ⊆ (start files f).2.consumed
      unfold start
      split
      · exact List.Subset.refl _
      · exact List.Subset.refl _
  | read kind v =>
      show f.consumed ⊆ (read g kind v f).2.consumed
      rw [read_state]
      exact subset_consumed_mark v f
  | mark v => exact subset_consumed_mark v f
  | complete =>
      show f.consumed ⊆ (complete f).2.consumed
      unfold complete
      split
      · exact List.Subset.refl _
      · exact List.subset_append_left ..

theorem Settled.serve (h : Settled files f) (r : Request) :
    Settled files (Source.serve files g f r).2 := by
  have hsame : SameDocument f (Source.serve files g f r).2 := sameDocument_serve h.loaded r
  refine ⟨h.loaded.of_same hsame, ?_⟩
  cases hd : f.document with
  | none => exact unused_of_absent (hsame.document.trans hd)
  | some d =>
      refine (unused_eq_nil_iff (hsame.document.trans hd)).mpr fun l hl huntouched => ?_
      exact (unused_eq_nil_iff hd).mp h.used l hl
        (huntouched.mono (subset_consumed_serve files g f r))

theorem settled_complete (h : Loaded files f) : Settled files (complete f).2 := by
  have hsame : SameDocument f (complete f).2 := sameDocument_serve (g := .empty) h .complete
  refine ⟨h.of_same hsame, ?_⟩
  cases hd : f.document with
  | none => exact unused_of_absent (hsame.document.trans hd)
  | some d =>
      refine (unused_eq_nil_iff (hsame.document.trans hd)).mpr fun l hl huntouched => ?_
      have hold : Untouched f.consumed l :=
        huntouched.mono (subset_consumed_serve files .empty f .complete)
      have hreported : (leafLabel d l, l.entry) ∈ f.unused := by
        rw [unused_eq hd, labelled]
        exact List.mem_map_of_mem (List.mem_filter.mpr ⟨hl, decide_eq_true hold⟩)
      have hused : l.entry.node.id ∈ (complete f).2.consumed := by
        unfold complete
        rw [hd]
        exact List.mem_append_right _ (List.mem_map_of_mem hreported)
      exact huntouched l.entry (by simp [Leaf.way]) hused

theorem completes (h : Loaded files f) : Source.Completes files g f (complete f).1 := by
  refine .of_settled (Settled files) (fun f' h' => ?_) (fun f' r h' => h'.serve r) ?_
    (settled_complete h)
  · constructor
    · show (!f'.unused.isEmpty) = false
      rw [h'.used]
      rfl
    · show (complete f').1 = []
      unfold complete
      split
      · rfl
      · rw [h'.used]
        rfl
  · show (!f.unused.isEmpty) = true ↔ (complete f).1 ≠ []
    unfold complete
    split
    · next hd => simp [unused_of_absent hd]
    · simp

theorem start_eq (files : FileTree) (f : DocumentFile) :
    (start files f).2 = { f with document := (load files f.origin).toOption } := by
  unfold start
  split
  · next hload => rw [hload]; rfl
  · next hload => rw [hload]; rfl

theorem sameDocument_after (rs : List Request) (h : Loaded files f) :
    SameDocument f (Source.after files g f rs) := by
  have hstep : ∀ f' r, SameDocument f f' → SameDocument f (Source.serve files g f' r).2 :=
    fun f' r hsame => hsame.trans (sameDocument_serve (h.of_same hsame) r)
  exact Source.after_induction hstep rs (.refl f)

/-- After lookups and marks, the entries that were used are those that a variable names for
which there was a call. -/
theorem consumed_after {rs : List Request} {e : Entry} (hd : f.document = some d)
    (hids : d.root.ids.Nodup) (hconsumed : f.consumed = [])
    (hrs : ∀ r ∈ rs, r.subject? ≠ none) (he : e ∈ d.root.inside) :
    e.node.id ∈ (Source.after files g f rs).consumed ↔
      ∃ v ∈ rs.filterMap Request.subject?, Names f.root d v e := by
  have hcalled : Source.Called g f (rs.map Request.action) (Source.after files g f rs) :=
    Source.called_after hrs
  rw [(hasUsed_of_called hd hcalled).mem_iff, hconsumed, Source.filterMap_subject?_action]
  constructor
  · rintro (hmem | ⟨v, hv, e', hnames, hid⟩)
    · cases hmem
    · obtain rfl := Node.eq_of_mem_inside hids hnames.mem_inside he hid
      exact ⟨v, hv, hnames⟩
  · rintro ⟨v, hv, hnames⟩
    exact Or.inr ⟨v, hv, e, hnames, rfl⟩

end DocumentFile

namespace Source

/-- **Accounting.** After a start and any lookups and marks, what a command line has in its
arguments was named by a variable that was heard, or it is reported at the end, each key once
and in order; what is a leaf of a document was named, or stands in an entry that was named,
by a variable for which there was a call, or it is reported at the end, each leaf once and in
order. Nothing else is reported then, and nothing at all afterwards. -/
theorem completes_accounted (files : FileTree) (g : TypeGraph) (root : ModuleId)
    {rs : List Request} (hrs : ∀ r ∈ rs, r.subject? ≠ none) :
    (∀ arguments : List String,
      let c₀ := (Source.start files (CommandLine.ofArguments root arguments)).2
      let c := after files g c₀ rs
      let entries := CommandLine.parseArguments arguments
      entries.keys.Nodup
        ∧ (∀ key ∈ entries.keys, key ∈ c.consumed ↔
          ∃ v ∈ (c₀.audience (rs.map Request.action)).heard, key ∈ CommandLine.forms root v)
        ∧ Completes files g c ((entries.filter fun (key, _) => key ∉ c.consumed).map
            fun (key, text) => .warning (.unusedArgument s!"{key}={text}") none))
    ∧ ∀ origin : DocumentOrigin,
      let f₀ := (Source.start files (DocumentFile.ofOrigin root origin)).2
      let f := after files g f₀ rs
      (∀ d, DocumentFile.load files origin = .ok d →
        d.root.leaves.Nodup
          ∧ (∀ e ∈ d.root.inside, e.node.id ∈ f.consumed ↔
            ∃ v ∈ rs.filterMap Request.subject?, DocumentFile.Names root d v e)
          ∧ Completes files g f ((d.root.leaves.filter
              (DocumentFile.Untouched f.consumed)).map (DocumentFile.leafWarning d)))
      ∧ ∀ e, DocumentFile.load files origin = .error e → Completes files g f [] := by
  constructor
  · intro arguments c₀ c entries
    have haccounts : CommandLine.Accounts c₀ (rs.map Request.action) c :=
      .of_called rfl rfl (called_after hrs)
    have hentries : c.entries = entries := haccounts.entries
    have hsound : CommandLine.Sound c := (CommandLine.sound_start root arguments).after files g rs
    refine ⟨Entries.nodup_keys_ofList _, fun key hkey => ?_, ?_⟩
    · exact haccounts.consumed key (Entries.isSome_get?_iff.mpr hkey)
    · have hcompletes := CommandLine.completes files g hsound
      rwa [hentries] at hcompletes
  · intro origin f₀ f
    have hstart : f₀ = ⟨root, origin, (DocumentFile.load files origin).toOption, [], []⟩ :=
      DocumentFile.start_eq files _
    have hloaded₀ : DocumentFile.Loaded files f₀ := DocumentFile.loaded_start files _
    have hsame : DocumentFile.SameDocument f₀ f := DocumentFile.sameDocument_after rs hloaded₀
    have hdocument : f.document = (DocumentFile.load files origin).toOption := by
      rw [hsame.document, hstart]
    have hcompletes := DocumentFile.completes (g := g) (hloaded₀.of_same hsame)
    constructor
    · intro d hd
      rw [hd] at hdocument hstart
      have hids := DocumentFile.nodup_ids_of_load hd
      refine ⟨Toml.Node.nodup_leaves hids, fun e he => ?_, ?_⟩
      · have hused : e.node.id ∈ f.consumed ↔
            ∃ v ∈ rs.filterMap Request.subject?, DocumentFile.Names f₀.root d v e :=
          DocumentFile.consumed_after (by rw [hstart]; rfl) hids (by rw [hstart]) hrs he
        rwa [show f₀.root = root by rw [hstart]] at hused
      · rwa [DocumentFile.complete_log hdocument] at hcompletes
    · intro e he
      rw [he] at hdocument
      have hreport : (DocumentFile.complete f).1 = [] := by
        unfold DocumentFile.complete
        rw [hdocument]
        rfl
      rwa [hreport] at hcompletes

/-- `x` is looked up, and the table `m.r` is marked as a whole; `z` is left in both sources. -/
theorem completes_accounted_of_marked_table :
    let root : ModuleId := ⟨"o", "m", "1"⟩
    let rs : List Request := [.read (.primitive .int) ⟨⟨root, "x"⟩, .primitive .int, true⟩,
      .mark ⟨⟨root, "r"⟩, .primitive .int, true⟩]
    let c := after ⟨[]⟩ .empty (Source.start ⟨[]⟩
      (CommandLine.ofArguments root ["-Cz=2", "-Cm.x=1", "-Cr=", "-Cz=3"])).2 rs
    let source : Text.Named := ⟨none, "m.r = { x = 3, z = 4 }\nm.z = [ ]\nm.x = 'a'\n"⟩
    let f := after ⟨[]⟩ .empty (Source.start ⟨[]⟩
      (DocumentFile.ofOrigin root (.content source.text))).2 rs
    (∀ r ∈ rs, r.subject? ≠ none)
      ∧ Completes ⟨[]⟩ .empty c [.warning (.unusedArgument "z=3") none]
      ∧ Completes ⟨[]⟩ .empty f
          [.warning (.unusedEntry "m.z=[ ]") (some ⟨source, ⟨25, 32⟩⟩)] := by
  intro root rs c source f
  have hrs : ∀ r ∈ rs, r.subject? ≠ none := by decide +kernel
  obtain ⟨hcommandLine, hdocument⟩ := completes_accounted ⟨[]⟩ .empty root hrs
  refine ⟨hrs, ?_, ?_⟩
  · have h := (hcommandLine ["-Cz=2", "-Cm.x=1", "-Cr=", "-Cz=3"]).2.2
    have hreport : (complete c).1 = [.warning (.unusedArgument "z=3") none] := by
      decide +kernel
    rwa [← h.report.symm.trans hreport]
  · have hreport : (complete f).1
        = [.warning (.unusedEntry "m.z=[ ]") (some ⟨source, ⟨25, 32⟩⟩)] := by decide +kernel
    have hloads : (DocumentFile.load ⟨[]⟩ (.content source.text)).toOption.isSome = true := by
      decide +kernel
    cases hd : DocumentFile.load ⟨[]⟩ (.content source.text) with
    | error e =>
        rw [hd] at hloads
        cases hloads
    | ok d =>
        have h := ((hdocument (.content source.text)).1 d hd).2.2
        rwa [← h.report.symm.trans hreport]

end Source

end Configurable
