import Configurable.Proofs.UnusedArguments
import Mathlib.Data.List.Induction
import Mathlib.Data.List.Nodup

/-!
# The order of arguments

What a command line answers is decided by the text that each key has, which is that of the
key's last argument (`get?_parseArguments`). Two command lines that agree on these texts keep
the same claims, use the same keys and give the same answers to all calls (`SameTexts`). Only
the list of arguments that were not used is in the order of the keys' first arguments.

A pass tells its sources apart by their answers alone. So if one source is replaced by another
that answers alike, nothing changes until the sources are completed (`Pass.Twins`), and of the
whole pass at most the order of that source's last report (`run_reordered`).
-/

namespace Configurable

/-! ## Sources that answer alike -/

namespace Source

variable {σ : Type} [Source σ] {R : σ → σ → Prop} {s s' : σ}

/-- Sources that are related answer alike, and are related again after every call. -/
structure AnswersAlike (R : σ → σ → Prop) : Prop where
  start : ∀ files s s', R s s' → (Source.start files s).1 = (Source.start files s').1
    ∧ R (Source.start files s).2 (Source.start files s').2
  read : ∀ g kind v s s', R s s' → (Source.read g kind v s).1 = (Source.read g kind v s').1
    ∧ R (Source.read g kind v s).2 (Source.read g kind v s').2
  mark : ∀ v s s', R s s' → R (Source.mark v s) (Source.mark v s')

theorem AnswersAlike.lookup (hR : AnswersAlike R) (g : TypeGraph) (v : Variable) (h : R s s') :
    (Source.lookup g v s).1 = (Source.lookup g v s').1
      ∧ R (Source.lookup g v s).2 (Source.lookup g v s').2 := by
  unfold Source.lookup
  split
  · next kind _ => exact hR.read g kind v s s' h
  · exact ⟨rfl, hR.mark v s s' h⟩

end Source

namespace Pass

variable {σ : Type} [Source σ] {R : σ → σ → Prop} {g : TypeGraph} {n : Nat} {p p' : Pass σ}

/-- The same sources, but for the one at an index, in whose place are two that are related. -/
def DifferAt (R : σ → σ → Prop) (n : Nat) (ss ss' : List σ) : Prop :=
  ∃ before s s' after, ss = before ++ s :: after ∧ ss' = before ++ s' :: after
    ∧ before.length = n ∧ R s s'

/-- Two passes of which all is the same but one source, in whose place are two that are
related. -/
structure Twins (R : σ → σ → Prop) (n : Nat) (p p' : Pass σ) : Prop where
  sources : DifferAt R n p.sources p'.sources
  calls : p.calls = p'.calls
  log : p.log = p'.log
  values : p.values = p'.values

/-- The sources behind others are asked with the answer that those have come to. -/
theorem ask_append (v : Variable) : ∀ (a : Answer) (ss ss' : List σ),
    ask g v a (ss ++ ss')
      = ⟨(ask g v (ask g v a ss).answer ss').answer,
          (ask g v a ss).sources ++ (ask g v (ask g v a ss).answer ss').sources,
          (ask g v a ss).actions ++ (ask g v (ask g v a ss).answer ss').actions⟩
  | a, [], ss' => by rw [List.nil_append, ask]; rfl
  | a, s :: ss, ss' => by
      by_cases h : a = .ok none
      · subst h
        rw [List.cons_append, ask_cons_open, ask_cons_open, ask_append v _ ss ss']
        rfl
      · rw [List.cons_append, ask_cons_settled h, ask_cons_settled h, ask_append v a ss ss']
        rfl

theorem length_sources_ask (v : Variable) : ∀ (a : Answer) (ss : List σ),
    (ask g v a ss).sources.length = ss.length
  | a, [] => by rw [ask]
  | a, s :: ss => by
      by_cases h : a = .ok none
      · subst h
        rw [ask_cons_open]
        exact congrArg (· + 1) (length_sources_ask v _ ss)
      · rw [ask_cons_settled h]
        exact congrArg (· + 1) (length_sources_ask v a ss)

/-- A variable that is put to the sources comes to the same answer by the same calls. -/
theorem ask_differAt (hR : Source.AnswersAlike R) (v : Variable) (a : Answer) {ss ss' : List σ}
    (h : DifferAt R n ss ss') :
    (ask g v a ss).answer = (ask g v a ss').answer
      ∧ (ask g v a ss).actions = (ask g v a ss').actions
      ∧ DifferAt R n (ask g v a ss).sources (ask g v a ss').sources := by
  obtain ⟨before, s, s', after, rfl, rfl, hlength, hs⟩ := h
  have hbefore : (ask g v a before).sources.length = n := by
    rw [length_sources_ask, hlength]
  rw [ask_append, ask_append]
  by_cases hopen : (ask g v a before).answer = .ok none
  · obtain ⟨hanswer, hrelated⟩ := hR.lookup g v hs
    rw [hopen, ask_cons_open, ask_cons_open, hanswer]
    exact ⟨rfl, rfl, _, _, _, _, rfl, rfl, hbefore, hrelated⟩
  · rw [ask_cons_settled hopen, ask_cons_settled hopen]
    exact ⟨rfl, rfl, _, _, _, _, rfl, rfl, hbefore, hR.mark v s s' hs⟩

theorem Twins.step (hR : Source.AnswersAlike R) (h : Twins R n p p') (st : Step) :
    Twins R n (p.step g st) (p'.step g st) := by
  cases st with
  | repeated name module =>
      exact ⟨h.sources, h.calls, congrArg (· ++ _) h.log, h.values⟩
  | first v =>
      obtain ⟨hanswer, hactions, hsources⟩ := ask_differAt (g := g) hR v (firstAnswer g v) h.sources
      refine ⟨hsources, ?_, ?_, ?_⟩
      · simp only [Pass.step, resolveVariable, hactions, h.calls]
      · simp only [Pass.step, resolveVariable, hanswer, h.log]
      · simp only [Pass.step, resolveVariable, hanswer, h.values]

theorem Twins.foldl (hR : Source.AnswersAlike R) : ∀ (todo : List Step) {p p' : Pass σ},
    Twins R n p p' → Twins R n (todo.foldl (Pass.step g) p) (todo.foldl (Pass.step g) p')
  | [], _, _, h => h
  | st :: todo, _, _, h => (h.step hR st).foldl hR todo

theorem twins_started (hR : Source.AnswersAlike R) (files : FileTree) {ss ss' : List σ}
    (h : DifferAt R n ss ss') : Twins R n (started files ss) (started files ss') := by
  obtain ⟨before, s, s', after, rfl, rfl, hlength, hs⟩ := h
  obtain ⟨hlog, hrelated⟩ := hR.start files s s' hs
  refine ⟨⟨before.map (Prod.snd ∘ Source.start files), _, _,
    after.map (Prod.snd ∘ Source.start files), ?_, ?_, by simpa using hlength, hrelated⟩,
    ?_, ?_, rfl⟩
  · simp [started, callAll, ofSources]
  · simp [started, callAll, ofSources]
  · simp [started, callAll, ofSources]
  · simp [started, callAll, ofSources, hlog]

/-- Until the sources are completed, two passes are the same in which sources that answer
alike stand in one place. -/
theorem twins_resolved (hR : Source.AnswersAlike R) (files : FileTree) (g : TypeGraph)
    (D : Declarations) {ss ss' : List σ} (h : DifferAt R n ss ss') :
    Twins R n (resolved files g D ss) (resolved files g D ss') :=
  (twins_started hR files h).foldl hR D.steps

/-- At the end of such passes the logs differ in the last report of that one source. -/
theorem Twins.log_completed (h : Twins R n p p') : ∃ s s' first last, R s s'
    ∧ p.sources[n]? = some s ∧ p'.sources[n]? = some s'
    ∧ (p.callAll .complete Source.complete).log = first ++ (Source.complete s).1 ++ last
    ∧ (p'.callAll .complete Source.complete).log = first ++ (Source.complete s').1 ++ last := by
  obtain ⟨before, s, s', after, hp, hp', rfl, hs⟩ := h.sources
  refine ⟨s, s', p.log ++ before.flatMap fun s => (Source.complete s).1,
    after.flatMap fun s => (Source.complete s).1, hs, by simp [hp], by simp [hp'], ?_, ?_⟩
  · simp [callAll, hp, List.flatMap_map]
  · simp [callAll, hp', h.log, List.flatMap_map]

theorem Twins.calls_completed (h : Twins R n p p') :
    (p.callAll .complete Source.complete).calls = (p'.callAll .complete Source.complete).calls := by
  obtain ⟨before, s, s', after, hp, hp', -, -⟩ := h.sources
  simp [callAll, hp, hp', h.calls]

end Pass

namespace CommandLine

variable {c c' : CommandLine}

/-! ## The text of a key -/

/-- The text of the last argument that has the key. -/
def lastText? (arguments : List String) (key : String) : Option String :=
  ((arguments.filterMap parseArgument?).reverse.find? (·.1 = key)).map Prod.snd

theorem get?_parseArguments (arguments : List String) (key : String) :
    (parseArguments arguments).get? key = lastText? arguments key := by
  unfold parseArguments lastText? Entries.ofList
  induction arguments.filterMap parseArgument? using List.reverseRecOn with
  | nil => rfl
  | append_singleton pairs pair ih =>
      rw [List.foldl_concat, Entries.get?_insert, List.reverse_concat, List.find?_cons]
      by_cases hkey : pair.1 = key
      · simp [hkey]
      · simp [hkey, ih]

/-! ## Command lines with the same texts -/

/-- Two command lines whose arguments agree on the texts of the keys, if not on their order,
and that have been used alike. -/
structure SameTexts (c c' : CommandLine) : Prop where
  root : c.root = c'.root
  arguments : ∀ key, lastText? c.arguments key = lastText? c'.arguments key
  texts : ∀ key, c.entries.get? key = c'.entries.get? key
  nodup : c.entries.keys.Nodup
  nodup' : c'.entries.keys.Nodup
  claims : c.claims = c'.claims
  consumed : c.consumed = c'.consumed

theorem SameTexts.presentForms (h : SameTexts c c') (v : VariableId) :
    c.presentForms v = c'.presentForms v := by
  simp only [CommandLine.presentForms, Entries.contains, h.root, h.texts]

theorem SameTexts.textOf (h : SameTexts c c') (form : String) : c.textOf form = c'.textOf form := by
  simp only [CommandLine.textOf, h.texts]

theorem SameTexts.find (h : SameTexts c c') (v : VariableId) : c.find v = c'.find v := by
  simp only [CommandLine.find, h.presentForms, h.textOf]

/-- Forms are listed in their own order, not in that of the arguments. -/
theorem SameTexts.listed (h : SameTexts c c') (present : List String) :
    c.listed present = c'.listed present := by
  simp only [CommandLine.listed, h.textOf]

theorem SameTexts.claim (h : SameTexts c c') (v : VariableId) (key : String) :
    SameTexts (c.claim v key) (c'.claim v key) := by
  have hclaims : c.claims ++ [(key, v)] = c'.claims ++ [(key, v)] := by rw [h.claims]
  unfold CommandLine.claim
  rw [← h.claims] at hclaims ⊢
  split
  · exact h
  · exact { h with claims := hclaims }

theorem SameTexts.foldl_claim (v : VariableId) : ∀ (keys : List String) {c c' : CommandLine},
    SameTexts c c' → SameTexts (keys.foldl (CommandLine.claim · v ·) c)
      (keys.foldl (CommandLine.claim · v ·) c')
  | [], _, _, h => h
  | key :: keys, _, _, h => (h.claim v key).foldl_claim v keys

theorem SameTexts.consume (h : SameTexts c c') (keys : List String) :
    SameTexts (c.consume keys) (c'.consume keys) :=
  { h with consumed := congrArg (· ++ keys) h.consumed }

theorem SameTexts.take (h : SameTexts c c') (v : VariableId) :
    (c.take v).1 = (c'.take v).1 ∧ SameTexts (c.take v).2 (c'.take v).2 := by
  unfold CommandLine.take
  rw [h.find v]
  cases c'.find v with
  | absent => exact ⟨rfl, h⟩
  | ambiguous present =>
      simp only [h.listed]
      exact ⟨trivial, (h.foldl_claim v present).consume present⟩
  | bound form text present =>
      have htaken := (h.foldl_claim v (v.qualifiedName :: present)).consume present
      simp only [h.claims]
      split
      · exact ⟨rfl, htaken⟩
      · split
        · exact ⟨rfl, htaken⟩
        · exact ⟨rfl, h⟩

theorem SameTexts.start (h : SameTexts c c') : SameTexts c.start c'.start :=
  { h with
    texts := fun key => by
      simp only [CommandLine.start, get?_parseArguments, h.arguments]
    nodup := Entries.nodup_keys_ofList _
    nodup' := Entries.nodup_keys_ofList _ }

theorem sameTexts_ofArguments (root : ModuleId) {arguments arguments' : List String}
    (h : ∀ key, lastText? arguments key = lastText? arguments' key) :
    SameTexts (.ofArguments root arguments) (.ofArguments root arguments') :=
  ⟨rfl, h, fun _ => rfl, List.nodup_nil, List.nodup_nil, rfl, rfl⟩

/-- What was not used is the same, in whichever order. -/
theorem SameTexts.unused_perm (h : SameTexts c c') : c.unused.Perm c'.unused := by
  have hmem : ∀ e, e ∈ c.entries ↔ e ∈ c'.entries := by
    rintro ⟨key, text⟩
    rw [← Entries.get?_eq_some_iff h.nodup, ← Entries.get?_eq_some_iff h.nodup', h.texts]
  have hentries : c.entries.Perm c'.entries :=
    (List.perm_ext_iff_of_nodup (List.Nodup.of_map _ h.nodup) (List.Nodup.of_map _ h.nodup')).mpr
      hmem
  unfold CommandLine.unused
  rw [h.consumed]
  exact hentries.filter _

theorem SameTexts.complete_perm (h : SameTexts c c') :
    (CommandLine.complete c).1.Perm (CommandLine.complete c').1 := h.unused_perm.map _

/-! ## In a pass -/

/-- Among sources of another type. -/
def Related {σ : Type} (ι : CommandLine → σ) (s s' : σ) : Prop :=
  ∃ c c', s = ι c ∧ s' = ι c' ∧ SameTexts c c'

theorem answersAlike_related {σ : Type} [Source σ] {ι : CommandLine → σ} (hι : Source.Embeds ι) :
    Source.AnswersAlike (Related ι) where
  start := by
    rintro files _ _ ⟨c, c', rfl, rfl, h⟩
    rw [hι.start, hι.start]
    exact ⟨rfl, _, _, rfl, rfl, h.start⟩
  read := by
    rintro g kind v _ _ ⟨c, c', rfl, rfl, h⟩
    obtain ⟨hfound, hafter⟩ := h.take v.id
    rw [hι.read, hι.read]
    refine ⟨?_, _, _, rfl, rfl, hafter⟩
    show (CommandLine.read g kind v c).1 = (CommandLine.read g kind v c').1
    simp only [CommandLine.read, hfound]
  mark := by
    rintro v _ _ ⟨c, c', rfl, rfl, h⟩
    rw [hι.mark, hι.mark]
    refine ⟨_, _, rfl, rfl, ?_⟩
    show SameTexts (CommandLine.mark v c) (CommandLine.mark v c')
    rw [mark_eq, mark_eq, h.presentForms]
    exact h.consume _

/-- **The order of arguments.** Two lists of arguments give each key the same last text. Then
two passes with them, in the same place among the same other sources, make the same calls and
record the same values in the same order. Their logs are the same up to the order of the
warnings that the command line makes when it is completed, all of which are about arguments
that were not used. -/
theorem run_reordered {σ : Type} [Source σ] {ι : CommandLine → σ} (hι : Source.Embeds ι)
    (files : FileTree) (g : TypeGraph) (D : Declarations) (before after : List σ)
    (root : ModuleId) {arguments arguments' : List String}
    (h : ∀ key, lastText? arguments key = lastText? arguments' key) :
    let sources := before ++ ι (.ofArguments root arguments) :: after
    let sources' := before ++ ι (.ofArguments root arguments') :: after
    let p := Pass.run files g D sources
    let p' := Pass.run files g D sources'
    p.values = p'.values ∧ p.calls = p'.calls
      ∧ ∃ c c' first last,
        (Pass.resolved files g D sources).sources[before.length]? = some (ι c)
        ∧ (Pass.resolved files g D sources').sources[before.length]? = some (ι c')
        ∧ p.log = first ++ (complete c).1 ++ last ∧ p'.log = first ++ (complete c').1 ++ last
        ∧ (complete c).1.Perm (complete c').1
        ∧ ∀ d ∈ (complete c).1, ∃ key text : String,
          d = .warning (.unusedArgument s!"{key}={text}") none := by
  intro sources sources' p p'
  have hsources : Pass.DifferAt (Related ι) before.length sources sources' :=
    ⟨before, _, _, after, rfl, rfl, rfl, _, _, rfl, rfl, sameTexts_ofArguments root h⟩
  have htwins := Pass.twins_resolved (answersAlike_related hι) files g D hsources
  obtain ⟨_, _, first, last, ⟨c, c', rfl, rfl, hsame⟩, hc, hc', hlog, hlog'⟩ := htwins.log_completed
  rw [hι.complete] at hlog hlog'
  refine ⟨?_, ?_, c, c', first, last, hc, hc', ?_, ?_, hsame.complete_perm, ?_⟩
  · simp only [p, p', Pass.values_run, htwins.values]
  · simp only [p, p', Pass.run_eq, htwins.calls_completed]
  · simp only [p, Pass.run_eq, hlog]
    rfl
  · simp only [p', Pass.run_eq, hlog']
    rfl
  · intro d hd
    obtain ⟨⟨key, text⟩, -, rfl⟩ := List.mem_map.mp hd
    exact ⟨key, text, rfl⟩

/-- The arguments give `x` the same text, once in one argument and once in the last of two, and
the document has `y`. What is left is reported in the order of the keys' first arguments. -/
theorem run_reordered_repeated :
    let m : ModuleId := ⟨"o", "m", "1"⟩
    let D : Declarations := [(m, [⟨"x", .primitive .int, true⟩, ⟨"y", .primitive .int, true⟩])]
    let arguments := ["-Cx=1", "-Ca=2", "-Cb=3"]
    let arguments' := ["-Cb=3", "-Cx=0", "-Ca=2", "-Cx=1"]
    let after := [ConfigSource.document (.ofOrigin m (.content "[m]\ny = 5\n"))]
    let p := Pass.run ⟨[]⟩ .empty D (.commandLine (.ofArguments m arguments) :: after)
    let p' := Pass.run ⟨[]⟩ .empty D (.commandLine (.ofArguments m arguments') :: after)
    let unusedA := Diagnostic.warning (.unusedArgument "a=2") none
    let unusedB := Diagnostic.warning (.unusedArgument "b=3") none
    Source.Embeds ConfigSource.commandLine
      ∧ (∀ key, lastText? arguments key = lastText? arguments' key)
      ∧ p.values = p'.values ∧ p.values.keys = [⟨m, "x"⟩, ⟨m, "y"⟩]
      ∧ p.log = [unusedA, unusedB] ∧ p'.log = [unusedB, unusedA] := by
  intro m D arguments arguments' after p p' unusedA unusedB
  have hpairs : arguments.filterMap parseArgument? = [("x", "1"), ("a", "2"), ("b", "3")] := by
    decide +kernel
  have hpairs' : arguments'.filterMap parseArgument?
      = [("b", "3"), ("x", "0"), ("a", "2"), ("x", "1")] := by decide +kernel
  have htexts : ∀ key, lastText? arguments key = lastText? arguments' key := by
    intro key
    unfold lastText?
    rw [hpairs, hpairs']
    by_cases hx : "x" = key
    · subst hx
      decide
    · by_cases hb : "b" = key
      · subst hb
        decide
      · simp [List.find?_cons, hx, hb]
  refine ⟨embeds_commandLine, htexts, ?_, by decide +kernel, by decide +kernel, by decide +kernel⟩
  exact (run_reordered embeds_commandLine ⟨[]⟩ .empty D [] after m htexts).1

end CommandLine

end Configurable
