import Configurable.Source.Any
import Configurable.Proofs.Pass
import Configurable.Proofs.Reading

/-!
# Soundness of a pass

A pass whose log has no errors has given every required variable a value, and no pass records
a value that is not of the type its variable was declared with.

The first half is about the loops alone: `Settles` is kept by every step, whatever sources
are, as long as their refusals are errors. The second half comes from the readings
(`ofText_conforms`, `readAs_reads`) through what the two sources answer with
(`ConfigSource.lookup_sound`).
-/

namespace Configurable

/-! ## What a source answers with -/

/-- An answer that is sound for a variable: a value satisfies `P`, a refusal is an error. -/
abbrev SoundAnswer (P : Value → Prop) (a : Answer) : Prop :=
  Judged (·.isError = true) (fun found => ∀ value, found = some value → P value) a

theorem SoundAnswer.none (P : Value → Prop) : SoundAnswer P (.ok none) := fun _ h => by cases h

/-- A value that was read, as an answer. -/
theorem SoundAnswer.some {P : Value → Prop} {x : Except Diagnostic Value} (h : Reads P x) :
    SoundAnswer P (x.map some) :=
  (h.imp (fun _ hd => hd.1) fun _ ha => ha).map fun _ ha _ hv => Option.some.inj hv ▸ ha

variable {g : TypeGraph} {v : Variable} {kind : Kind}

theorem CommandLine.take_judged (c : CommandLine) (id : VariableId) :
    Judged (·.isError = true) (fun _ => True) (c.take id).1 := by
  unfold take
  split
  · trivial
  · exact rfl
  · simp only
    split
    · trivial
    · split
      · trivial
      · exact rfl

theorem CommandLine.read_sound (hk : Kind.ofType? g v.type = some kind) (c : CommandLine) :
    SoundAnswer (Conforms g · v.type) (CommandLine.read g kind v c).1 := by
  refine (take_judged c v.id).bind fun found _ => ?_
  cases found with
  | none => exact SoundAnswer.none _
  | some text => exact SoundAnswer.some (Conversion.ofText_conforms hk text)

theorem DocumentFile.locate_judged (f : DocumentFile) (d : Toml.Document) (id : VariableId) :
    Judged (·.isError = true) (fun _ => True) (f.locate d id).1 := by
  unfold locate
  simp only
  split
  · trivial
  · split
    · trivial
    · split
      · trivial
      · exact rfl
  · exact rfl

theorem DocumentFile.read_sound (hk : Kind.ofType? g v.type = some kind) (f : DocumentFile) :
    SoundAnswer (Conforms g · v.type) (DocumentFile.read g kind v f).1 := by
  unfold read
  split
  · exact SoundAnswer.none _
  · next d _ =>
    refine (locate_judged f d v.id).bind fun found _ => ?_
    cases found with
    | none => exact SoundAnswer.none _
    | some e =>
        exact SoundAnswer.some ((Conversion.Reading.readAs_reads ..).imp (fun _ hd => hd)
          fun _ hv => hv hk)

/-- Looking a variable up gives a value of its type or an error, for command lines and
documents in any state. -/
theorem ConfigSource.lookup_sound (g : TypeGraph) (v : Variable) (s : ConfigSource) :
    SoundAnswer (Conforms g · v.type) (Source.lookup g v s).1 := by
  unfold Source.lookup
  split
  · next kind hk =>
    cases s with
    | commandLine c => exact c.read_sound hk
    | document f => exact f.read_sound hk
  · exact SoundAnswer.none _

namespace Pass

variable {σ : Type} [Source σ]

/-! ## What steps keep -/

/-- What a pass owes to the steps it has taken: a recorded value belongs to a variable that
was put to the sources and satisfies `P` for it, and without an error in the log no step was
a repetition and every required variable has a value. -/
structure Settles (P : Variable → Value → Prop) (p : Pass σ) (done : List Step) : Prop where
  recorded : ∀ e ∈ p.values, ∃ v, .first v ∈ done ∧ v.id = e.1 ∧ P v e.2
  required : p.log.hasErrors = false → ∀ st ∈ done, ∃ v, st = .first v ∧
    (v.required = true → (p.values.get? v.id).isSome = true)

/-- The answer to a variable is sound: it is its own refusal, or what some source has. -/
theorem answer_sound {P : Variable → Value → Prop}
    (hlookup : ∀ (w : Variable) (s : σ), g.isConfigurable w.type = true →
      SoundAnswer (P w) (Source.lookup g w s).1) (ss : List σ) :
    SoundAnswer (P v) (ask g v (firstAnswer g v) ss).answer := by
  unfold firstAnswer
  split
  · next hconf => exact answer_ask (SoundAnswer.none _) fun s _ => hlookup v s hconf
  · rw [answer_ask_settled (by simp)]
    exact rfl

theorem Settles.first {P : Variable → Value → Prop} {p : Pass σ} {done : List Step}
    (hlookup : ∀ (w : Variable) (s : σ), g.isConfigurable w.type = true →
      SoundAnswer (P w) (Source.lookup g w s).1) (h : Settles P p done) :
    Settles P (p.resolveVariable g v) (done ++ [.first v]) := by
  have hsound := answer_sound (v := v) hlookup p.sources
  have hold : ∀ e ∈ p.values, ∃ w, .first w ∈ done ++ [.first v] ∧ w.id = e.1 ∧ P w e.2 := by
    intro e he
    obtain ⟨w, hw, hid, hP⟩ := h.recorded e he
    exact ⟨w, List.mem_append_left _ hw, hid, hP⟩
  unfold resolveVariable
  simp only
  generalize (ask g v (firstAnswer g v) p.sources).answer = answer at hsound
  match answer, hsound with
  | .ok (some value), hvalue =>
      refine ⟨fun e he => ?_, fun hlog st hst => ?_⟩
      · rcases Entries.mem_insert he with rfl | hmem
        · exact ⟨v, by simp, rfl, hvalue value rfl⟩
        · exact hold e hmem
      · rcases List.mem_append.mp hst with hdone | hnew
        · obtain ⟨w, rfl, hw⟩ := h.required (by simpa [report] using hlog) st hdone
          exact ⟨w, rfl, fun hreq => Entries.isSome_get?_insert (hw hreq)⟩
        · obtain rfl := List.mem_singleton.mp hnew
          refine ⟨v, rfl, fun _ => ?_⟩
          show ((p.values.insert v.id value).get? v.id).isSome = true
          rw [Entries.get?_insert, if_pos rfl]
          rfl
  | .ok none, _ =>
      refine ⟨hold, fun hlog st hst => ?_⟩
      simp only [report, Log.hasErrors_append, Bool.or_eq_false_iff] at hlog
      rcases List.mem_append.mp hst with hdone | hnew
      · exact h.required hlog.1 st hdone
      · obtain rfl := List.mem_singleton.mp hnew
        refine ⟨v, rfl, fun hreq => ?_⟩
        simp [hreq] at hlog
  | .error d, hd =>
      refine ⟨hold, fun hlog => ?_⟩
      have hd' : d.isError = true := hd
      simp [report, hd'] at hlog

theorem Settles.repeated {P : Variable → Value → Prop} {p : Pass σ} {done : List Step}
    (h : Settles P p done) (name : String) (module : ModuleId) :
    Settles P (p.step g (.repeated name module)) (done ++ [.repeated name module]) := by
  refine ⟨fun e he => ?_, fun hlog => ?_⟩
  · obtain ⟨w, hw, hid, hP⟩ := h.recorded e he
    exact ⟨w, List.mem_append_left _ hw, hid, hP⟩
  · simp [step] at hlog

theorem Settles.foldl {P : Variable → Value → Prop}
    (hlookup : ∀ (w : Variable) (s : σ), g.isConfigurable w.type = true →
      SoundAnswer (P w) (Source.lookup g w s).1) :
    ∀ (todo : List Step) {done : List Step} {p : Pass σ}, Settles P p done →
      Settles P (todo.foldl (step g) p) (done ++ todo)
  | [], done, p, h => by simpa using h
  | st :: todo, done, p, h => by
      have hnext : Settles P (p.step g st) (done ++ [st]) := by
        cases st with
        | first v => exact h.first hlookup
        | repeated name module => exact h.repeated name module
      simpa using hnext.foldl hlookup todo

/-- A pass settles all its steps before it completes the sources. -/
theorem settles_resolved {P : Variable → Value → Prop}
    (hlookup : ∀ (w : Variable) (s : σ), g.isConfigurable w.type = true →
      SoundAnswer (P w) (Source.lookup g w s).1)
    (files : FileTree) (D : Declarations) (sources : List σ) :
    Settles P (resolved files g D sources) D.steps := by
  have hstart : Settles P (started files sources) [] := by
    refine ⟨fun e he => ?_, fun _ st hst => ?_⟩
    · cases he
    · cases hst
  simpa [resolved] using hstart.foldl hlookup D.steps

/-- **Soundness.** If the log of a pass over command lines and documents has no errors, every
required variable has a value. Whatever the log says, a recorded value belongs to a variable
whose type can be configured, and conforms to the type it was first declared with. -/
theorem run_sound (files : FileTree) (g : TypeGraph) (D : Declarations)
    (sources : List ConfigSource) :
    ((run files g D sources).log.hasErrors = false →
        ∀ v ∈ D.declared, v.required = true →
          ∃ value, (run files g D sources).values.get? v.id = some value)
      ∧ ∀ e ∈ (run files g D sources).values, ∃ v ∈ D.firsts,
          v.id = e.1 ∧ g.isConfigurable v.type = true ∧ Conforms g e.2 v.type := by
  have hsettles := settles_resolved
    (P := fun v value => g.isConfigurable v.type = true ∧ Conforms g value v.type)
    (fun w s hconf => (ConfigSource.lookup_sound g w s).imp (fun _ hd => hd)
      fun _ hvalue value hval => ⟨hconf, hvalue value hval⟩) files D sources
  constructor
  · intro hlog v hv hreq
    rw [log_run, Log.hasErrors_append, Bool.or_eq_false_iff] at hlog
    rw [values_run]
    rcases Declarations.mem_steps_of_declared hv with hfirst | hrepeated
    · obtain ⟨w, hw, hvalue⟩ := hsettles.required hlog.1 _ hfirst
      obtain rfl := Step.first.inj hw
      exact Option.isSome_iff_exists.mp (hvalue hreq)
    · obtain ⟨w, hw, -⟩ := hsettles.required hlog.1 _ hrepeated
      cases hw
  · intro e he
    rw [values_run] at he
    obtain ⟨v, hv, hid, hconf, hvalue⟩ := hsettles.recorded e he
    exact ⟨v, Declarations.mem_firsts.mpr hv, hid, hconf, hvalue⟩

end Pass

end Configurable
