import Configurable.Source.Any
import Configurable.Proofs.Transcript

/-!
# A pass by its transcript

Calls, values and log of a pass are read off the one transcript that keeps the rules
(`resolve_records`), which know nothing of the loops. The induction is on the declarations;
what it carries along is that each source is in the state that its requests so far have left
it in (`Told`).
-/

namespace Configurable

/-! ## Declarations in order -/

namespace Declarations

/-- Only the members of `seen` matter. -/
theorem inOrder_congr : ∀ {vs : List Variable} {seen seen' : List VariableId},
    (∀ id, id ∈ seen ↔ id ∈ seen') → inOrder seen vs = inOrder seen' vs
  | [], _, _, _ => rfl
  | v :: vs, seen, seen', h => by
      have htail : ∀ id, id ∈ v.id :: seen ↔ id ∈ v.id :: seen' := by simp [h]
      simp only [inOrder, h, inOrder_congr htail]

theorem inOrder_append : ∀ (seen : List VariableId) (vs ws : List Variable),
    inOrder seen (vs ++ ws)
      = inOrder seen vs ++ inOrder ((vs.map Variable.id).reverse ++ seen) ws
  | _, [], _ => rfl
  | seen, v :: vs, ws => by
      simp only [List.cons_append, inOrder, inOrder_append (v.id :: seen) vs ws, List.map_cons,
        List.reverse_cons, List.append_assoc, List.nil_append]

/-- Within a module a declaration repeats an earlier one if it has the same name. -/
theorem stepsOf_eq_inOrder (module : ModuleId) : ∀ (ds : List Declaration)
    {names : List String} {seen : List VariableId},
    (∀ name, name ∈ names ↔ (⟨module, name⟩ : VariableId) ∈ seen) →
      stepsOf module names ds = inOrder seen (ds.map (Variable.ofDeclaration module))
  | [], _, _, _ => rfl
  | d :: ds, names, seen, h => by
      have hid : (Variable.ofDeclaration module d).id = ⟨module, d.name⟩ := rfl
      rw [List.map_cons, inOrder, stepsOf, hid]
      by_cases hd : d.name ∈ names
      · rw [if_pos hd, if_pos ((h d.name).mp hd)]
        congr 1
        refine stepsOf_eq_inOrder module ds fun name => ?_
        rw [h name, List.mem_cons, or_iff_right_of_imp]
        intro heq
        rw [heq]
        exact (h d.name).mp hd
      · rw [if_neg hd, if_neg fun hmem => hd ((h d.name).mpr hmem)]
        congr 1
        refine stepsOf_eq_inOrder module ds fun name => ?_
        simp [h name]

/-- If every module has one list of declarations, a pass comes to the declarations in their
order, and to each as the first of its variable or as a repetition. -/
theorem steps_eq_inOrder : ∀ {D : Declarations} (seen : List VariableId), D.keys.Nodup →
    (∀ id ∈ seen, id.module ∉ D.keys) → D.steps = inOrder seen D.declared
  | [], _, _, _ => rfl
  | (module, ds) :: D, seen, hD, hseen => by
      obtain ⟨hmodule, hrest⟩ := List.nodup_cons.mp hD
      have hdeclared : declared ((module, ds) :: D)
          = ds.map (Variable.ofDeclaration module) ++ declared D := rfl
      have hhead : stepsOf module [] ds
          = inOrder seen (ds.map (Variable.ofDeclaration module)) := by
        refine stepsOf_eq_inOrder module ds fun name => iff_of_false List.not_mem_nil fun hmem => ?_
        exact hseen _ hmem (List.mem_cons_self ..)
      have htail := steps_eq_inOrder (D := D)
        (((ds.map (Variable.ofDeclaration module)).map Variable.id).reverse ++ seen) hrest
        fun id hid => by
          rcases List.mem_append.mp hid with hnew | hold
          · obtain ⟨v, hv, rfl⟩ := List.mem_map.mp (List.mem_reverse.mp hnew)
            obtain ⟨d, -, rfl⟩ := List.mem_map.mp hv
            exact hmodule
          · exact fun hmem => hseen id hold (List.mem_cons_of_mem _ hmem)
      rw [hdeclared, inOrder_append, ← hhead, ← htail]
      rfl

end Declarations

namespace Pass

variable {σ : Type} [Source σ] {files : FileTree} {g : TypeGraph} {v : Variable} {kind : Kind}

/-! ## One turn -/

def marks (v : Variable) (ss : List σ) : List Exchange := ss.map fun _ => ⟨.mark v, .marked⟩

/-- The exchanges in which a variable of a kind is put to sources. -/
def exchanges (g : TypeGraph) (kind : Kind) (v : Variable) : List σ → List Exchange
  | [] => []
  | s :: ss =>
    ⟨.read kind v, .answered (Source.read g kind v s).1⟩ ::
      match (Source.read g kind v s).1 with
      | .ok none => exchanges g kind v ss
      | .ok (some _) | .error _ => marks v ss

theorem exchanges_cons_open {s : σ} (h : (Source.read g kind v s).1 = .ok none) (ss : List σ) :
    exchanges g kind v (s :: ss)
      = ⟨.read kind v, .answered (.ok none)⟩ :: exchanges g kind v ss := by
  simp only [exchanges, h]

theorem exchanges_cons_settled {s : σ} (h : (Source.read g kind v s).1 ≠ .ok none)
    (ss : List σ) : exchanges g kind v (s :: ss)
      = ⟨.read kind v, .answered (Source.read g kind v s).1⟩ :: marks v ss := by
  unfold exchanges
  split
  · next heq => exact absurd heq h
  · rfl
  · rfl

/-- Putting a variable to sources is to have these exchanges with them. -/
structure Served (files : FileTree) (g : TypeGraph) (ss : List σ) (xs : List Exchange)
    (asked : Asked σ) : Prop where
  length : xs.length = ss.length
  sources : asked.sources = List.zipWith (fun s x => (Source.serve files g s x.request).2) ss xs
  replies : xs.map Exchange.reply
    = List.zipWith (fun s x => (Source.serve files g s x.request).1) ss xs
  actions : asked.actions = xs.map (·.request.action)

theorem Served.cons {s s' : σ} {ss : List σ} {x : Exchange} {xs : List Exchange}
    {asked : Asked σ} (hserve : Source.serve files g s x.request = (x.reply, s'))
    (h : Served files g ss xs asked) :
    Served files g (s :: ss) (x :: xs)
      ⟨asked.answer, s' :: asked.sources, x.request.action :: asked.actions⟩ := by
  refine ⟨by simp [h.length], ?_, ?_, ?_⟩
  · simp [hserve, h.sources]
  · simp [hserve, h.replies]
  · simp [h.actions]

/-- The exchange with the source at an index. -/
theorem Served.at {ss : List σ} {xs : List Exchange} {asked : Asked σ}
    (h : Served files g ss xs asked) {i : Nat} {s : σ} (hs : ss[i]? = some s) :
    ∃ x, xs[i]? = some x ∧ (Source.serve files g s x.request).1 = x.reply
      ∧ asked.sources[i]? = some (Source.serve files g s x.request).2 := by
  have hi : i < xs.length := h.length ▸ (List.getElem?_eq_some_iff.mp hs).1
  have hx : xs[i]? = some xs[i] := List.getElem?_eq_getElem hi
  have hreply := congrArg (·[i]?) h.replies
  simp only [List.getElem?_map, List.getElem?_zipWith, hs, hx] at hreply
  refine ⟨xs[i], hx, (Option.some.inj hreply).symm, ?_⟩
  simp only [h.sources, List.getElem?_zipWith, hs, hx]

theorem served_marks (files : FileTree) {a : Answer} (ha : a ≠ .ok none) : ∀ ss : List σ,
    Served files g ss (marks v ss) (ask g v a ss)
  | [] => by
      unfold ask
      exact ⟨rfl, rfl, rfl, rfl⟩
  | s :: ss => by
      rw [ask_cons_settled ha]
      exact (served_marks files ha ss).cons (x := ⟨.mark v, .marked⟩) rfl

theorem served_exchanges (files : FileTree) (hk : Kind.ofType? g v.type = some kind) :
    ∀ ss : List σ, Served files g ss (exchanges g kind v ss) (ask g v (.ok none) ss)
  | [] => by
      unfold ask
      exact ⟨rfl, rfl, rfl, rfl⟩
  | s :: ss => by
      rw [ask_cons_open, Source.lookup_of_kind hk, Source.lookupAction_of_kind hk]
      by_cases h : (Source.read g kind v s).1 = .ok none
      · rw [exchanges_cons_open h, h]
        refine (served_exchanges files hk ss).cons (x := ⟨.read kind v, .answered (.ok none)⟩) ?_
        rw [Source.serve, h]
      · rw [exchanges_cons_settled h]
        exact (served_marks files h ss).cons
          (x := ⟨.read kind v, .answered (Source.read g kind v s).1⟩) rfl

/-- What comes of a variable is the one answer among the exchanges that is not nothing. -/
theorem findSome?_exchanges {α : Type} (f : Reply → Option α) (hmarked : f .marked = none)
    (hnothing : f (.answered (.ok none)) = none) (hk : Kind.ofType? g v.type = some kind) :
    ∀ ss : List σ, (exchanges g kind v ss).findSome? (fun x => f x.reply)
      = f (.answered (ask g v (.ok none) ss).answer)
  | [] => by
      unfold ask
      exact hnothing.symm
  | s :: ss => by
      rw [ask_cons_open, Source.lookup_of_kind hk]
      by_cases h : (Source.read g kind v s).1 = .ok none
      · rw [h, exchanges_cons_open h, List.findSome?_cons, hnothing]
        exact findSome?_exchanges f hmarked hnothing hk ss
      · have hmarks : (marks v ss).findSome? (fun x => f x.reply) = none := by
          simp [marks, hmarked]
        rw [answer_ask_settled h, exchanges_cons_settled h, List.findSome?_cons, hmarks]
        cases f (.answered (Source.read g kind v s).1) <;> rfl

/-- A source is asked as long as all before it have nothing. -/
theorem request_exchanges : ∀ {ss : List σ} {before after : List Exchange} {x : Exchange},
    exchanges g kind v ss = before ++ x :: after →
      ((∀ y ∈ before, y.reply = .answered (.ok none)) → x.request = .read kind v)
        ∧ (¬ (∀ y ∈ before, y.reply = .answered (.ok none)) → x.request = .mark v)
  | [], before, after, x, hx => by simp [exchanges] at hx
  | s :: ss, [], after, x, hx => by
      obtain ⟨rfl, -⟩ := List.cons.inj hx
      exact ⟨fun _ => rfl, fun hnot => absurd (by simp) hnot⟩
  | s :: ss, y :: before, after, x, hx => by
      by_cases h : (Source.read g kind v s).1 = .ok none
      · rw [exchanges_cons_open h] at hx
        obtain ⟨rfl, hrest⟩ := List.cons.inj hx
        simpa using request_exchanges hrest
      · rw [exchanges_cons_settled h] at hx
        obtain ⟨rfl, hrest⟩ := List.cons.inj hx
        have hmark : x ∈ marks v ss := by simp [hrest]
        obtain ⟨s', -, rfl⟩ := List.mem_map.mp hmark
        exact ⟨fun hall => absurd (by simpa using hall _ (List.mem_cons_self ..)) h, fun _ => rfl⟩

/-- What a pass does with a variable is a regular turn, and the turn tells what comes of it. -/
theorem exists_turn (files : FileTree) (g : TypeGraph) (v : Variable) (ss : List σ) :
    ∃ xs, (Turn.first v xs).Regular g ss.length
      ∧ Served files g ss xs (ask g v (firstAnswer g v) ss)
      ∧ report v (ask g v (firstAnswer g v) ss).answer = (Turn.first v xs).report g
      ∧ ∀ values : Values, v.id ∉ values.keys →
        keep v values (ask g v (firstAnswer g v) ss).answer
          = values ++ ((Turn.first v xs).value?).toList := by
  unfold firstAnswer
  by_cases hconf : g.isConfigurable v.type = true
  · obtain ⟨kind, hk⟩ := Source.exists_kind hconf
    rw [if_pos hconf]
    have hrefusal := findSome?_exchanges Reply.refusal? rfl rfl hk ss
    have hvalue := findSome?_exchanges Reply.value? rfl rfl hk ss
    have hserved := served_exchanges files hk ss
    refine ⟨exchanges g kind v ss, ⟨hserved.length, fun before x after hx => ?_⟩, hserved, ?_,
      fun values hv => ?_⟩
    · obtain ⟨hread, hmark⟩ := request_exchanges hx
      exact ⟨fun hasked => ⟨kind, hk, hread hasked.2⟩,
        fun hnot => hmark fun hall => hnot ⟨hconf, hall⟩⟩
    · simp only [Turn.report, hconf, if_true, hrefusal, hvalue]
      cases (ask g v (.ok none) ss).answer with
      | ok found => cases found <;> rfl
      | error d => rfl
    · simp only [Turn.value?, hvalue]
      cases (ask g v (.ok none) ss).answer with
      | ok found =>
        cases found with
        | none => exact (List.append_nil values).symm
        | some value => exact Entries.insert_of_not_mem hv
      | error d => exact (List.append_nil values).symm
  · have hne : (Except.error (.error (.unsupportedType v.name (g.render v.type)) none) : Answer)
        ≠ .ok none := by simp
    have hserved := served_marks (v := v) (g := g) files hne ss
    rw [if_neg hconf]
    refine ⟨marks v ss, ⟨hserved.length, fun before x after hx => ?_⟩, hserved, ?_,
      fun values _ => ?_⟩
    · have hmark : x ∈ marks v ss := by simp [hx]
      obtain ⟨s, -, rfl⟩ := List.mem_map.mp hmark
      exact ⟨fun hasked => absurd hasked.1 hconf, fun _ => rfl⟩
    · rw [answer_ask_settled hne, Turn.report, if_neg hconf]
      rfl
    · rw [answer_ask_settled hne]
      simp [keep, Turn.value?, marks, Reply.value?]

/-! ## All turns -/

/-- The turns so far tell where the pass stands, and each source is as the requests made to
it leave it. -/
structure Told (files : FileTree) (g : TypeGraph) (sources : List σ) (p : Pass σ)
    (turns : List Turn) : Prop where
  regular : ∀ t ∈ turns, t.Regular g sources.length
  length : p.sources.length = sources.length
  states : ∀ i s, sources[i]? = some s → p.sources[i]? = some
    (Source.after files g s (.start :: (exchangesWith turns i).map Exchange.request))
  replies : ∀ i s, sources[i]? = some s →
    Source.replies files g s (.start :: (exchangesWith turns i).map Exchange.request)
      = .logged (Source.start files s).1 :: (exchangesWith turns i).map Exchange.reply
  calls : p.calls = (List.range sources.length).map (⟨·, .start⟩) ++ turns.flatMap Turn.calls
  log : p.log = (sources.map fun s => (Source.start files s).1).flatten
    ++ turns.flatMap (Turn.report g)
  values : p.values = turns.filterMap Turn.value?

theorem told_started (files : FileTree) (g : TypeGraph) (sources : List σ) :
    Told files g sources (started files sources) [] := by
  refine ⟨by simp, ?_, fun i s hs => ?_, fun i s _ => rfl, ?_, ?_, rfl⟩
  · simp [started, callAll, ofSources]
  · simp [started, callAll, ofSources, hs, exchangesWith, Source.after, Source.serve]
  · simp [started, callAll, ofSources]
  · simp [started, callAll, ofSources, List.flatMap_def, Function.comp_def]

variable {sources : List σ} {p : Pass σ} {turns : List Turn}

/-- The pass puts a variable to the sources. -/
theorem Told.first (h : Told files g sources p turns) (hv : v.id ∉ p.values.keys) :
    ∃ xs, Told files g sources (p.resolveVariable g v) (turns ++ [.first v xs]) := by
  obtain ⟨xs, hregular, hserved, hreport, hkeep⟩ := exists_turn files g v p.sources
  have hexchange : ∀ i s, sources[i]? = some s → ∃ x, xs[i]? = some x ∧
      (Source.serve files g (Source.after files g s
        (.start :: (exchangesWith turns i).map Exchange.request)) x.request).1 = x.reply
      ∧ (ask g v (firstAnswer g v) p.sources).sources[i]? = some (Source.after files g s
        (.start :: ((exchangesWith turns i).map Exchange.request ++ [x.request]))) := by
    intro i s hs
    obtain ⟨x, hx, hreply, hsource⟩ := hserved.at (h.states i s hs)
    have hafter := @Source.after_concat _ _ files g s
      (.start :: (exchangesWith turns i).map Exchange.request) x.request
    exact ⟨x, hx, hreply, hsource.trans (congrArg some hafter.symm)⟩
  refine ⟨xs, ?_, ?_, fun i s hs => ?_, fun i s hs => ?_, ?_, ?_, ?_⟩
  · rw [List.forall_mem_append, ← h.length]
    exact ⟨h.length ▸ h.regular, by simpa using hregular⟩
  · show (ask g v (firstAnswer g v) p.sources).sources.length = _
    simp [hserved.sources, hserved.length, h.length]
  · obtain ⟨x, hx, -, hsource⟩ := hexchange i s hs
    rw [exchangesWith_append, Turn.exchanges, hx, List.map_append]
    exact hsource
  · obtain ⟨x, hx, hreply, -⟩ := hexchange i s hs
    rw [exchangesWith_append, Turn.exchanges, hx, List.map_append, ← List.cons_append,
      Source.replies_append, h.replies i s hs, List.map_append, Option.toList_some,
      List.map_singleton, List.map_singleton, ← hreply]
    rfl
  · show p.calls ++ (ask g v (firstAnswer g v) p.sources).actions.zipIdx.map _ = _
    rw [hserved.actions, h.calls, List.flatMap_append, List.append_assoc]
    simp [Turn.calls, Turn.exchanges, List.zipIdx_map]
  · show p.log ++ report v _ = _
    rw [hreport, h.log, List.flatMap_append, List.append_assoc]
    simp
  · show keep v p.values _ = _
    rw [hkeep p.values hv, h.values, List.filterMap_append]
    cases hvalue : (Turn.first v xs).value? with
    | none => simp [hvalue]
    | some e => simp [hvalue]

theorem Told.repeated (h : Told files g sources p turns) (name : String) (module : ModuleId) :
    Told files g sources (p.step g (.repeated name module))
      (turns ++ [.repeated name module]) := by
  have hexchanges : ∀ i, exchangesWith (turns ++ [.repeated name module]) i
      = exchangesWith turns i := fun i => by simp [exchangesWith_append, Turn.exchanges]
  refine ⟨?_, h.length, fun i s hs => ?_, fun i s hs => ?_, ?_, ?_, ?_⟩
  · rw [List.forall_mem_append]
    exact ⟨h.regular, by simp [Turn.Regular]⟩
  · rw [hexchanges]
    exact h.states i s hs
  · rw [hexchanges]
    exact h.replies i s hs
  · show p.calls = _
    simp [h.calls, Turn.calls, Turn.exchanges]
  · show p.log ++ _ = _
    simp [h.log, Turn.report]
  · show p.values = _
    simp [h.values, Turn.value?]

theorem keys_resolveVariable (g : TypeGraph) (p : Pass σ) (v : Variable) :
    ∀ id ∈ (p.resolveVariable g v).values.keys, id ∈ v.id :: p.values.keys := by
  intro id hid
  obtain ⟨e, he, rfl⟩ := List.mem_map.mp hid
  have he : e ∈ keep v p.values (ask g v (firstAnswer g v) p.sources).answer := he
  unfold keep at he
  split at he
  · rcases Entries.mem_insert he with rfl | hold
    · exact List.mem_cons_self ..
    · exact List.mem_cons_of_mem _ (List.mem_map_of_mem hold)
  · exact List.mem_cons_of_mem _ (List.mem_map_of_mem he)
  · exact List.mem_cons_of_mem _ (List.mem_map_of_mem he)

theorem Told.foldl : ∀ (vs : List Variable) (seen : List VariableId) {p : Pass σ}
    {turns : List Turn}, Told files g sources p turns → (∀ id ∈ p.values.keys, id ∈ seen) →
      ∃ turns', turns'.map Turn.step = Declarations.inOrder seen vs ∧
        Told files g sources ((Declarations.inOrder seen vs).foldl (step g) p) (turns ++ turns')
  | [], _, _, turns, h, _ => ⟨[], rfl, by simpa [Declarations.inOrder] using h⟩
  | v :: vs, seen, p, turns, h, hkeys => by
      unfold Declarations.inOrder
      by_cases hv : v.id ∈ seen
      · obtain ⟨turns', hturns', h'⟩ := Told.foldl vs (v.id :: seen)
          (h.repeated v.name v.module) fun id hid => List.mem_cons_of_mem _ (hkeys id hid)
        rw [if_pos hv]
        exact ⟨.repeated v.name v.module :: turns', by simp [hturns', Turn.step], by simpa using h'⟩
      · obtain ⟨xs, hfirst⟩ := h.first fun hmem => hv (hkeys v.id hmem)
        obtain ⟨turns', hturns', h'⟩ := Told.foldl vs (v.id :: seen) hfirst
          fun id hid => (List.mem_cons.mp (keys_resolveVariable g p v id hid)).elim
            (fun heq => heq ▸ List.mem_cons_self ..)
            fun hold => List.mem_cons_of_mem _ (hkeys id hold)
        rw [if_neg hv]
        exact ⟨.first v xs :: turns', by simp [hturns', Turn.step], by simpa [step] using h'⟩

/-- Before the sources are completed, turns for all declarations tell where the pass stands. -/
theorem told_resolved (files : FileTree) (g : TypeGraph) {D : Declarations} (hD : D.keys.Nodup)
    (sources : List σ) : ∃ turns, turns.map Turn.step = Declarations.inOrder [] D.declared ∧
      Told files g sources (resolved files g D sources) turns := by
  have hstart := told_started files g sources
  obtain ⟨turns, hturns, h⟩ := hstart.foldl D.declared [] fun id hid => hid
  refine ⟨turns, hturns, ?_⟩
  rw [resolved, Declarations.steps_eq_inOrder [] hD (by simp)]
  simpa using h

/-! ## The pass -/

/-- **A pass by its transcript.** For declarations in which every module has one list, and
for sources of any kind, there is exactly one transcript that keeps the rules, and it is that
of the first resolution: its calls, values and log are those of the transcript. If sources
refuse with errors only, what is logged between the reports of the start and those of the
completion are errors. -/
theorem resolve_records (files : FileTree) (g : TypeGraph) {D : Declarations}
    (hD : D.keys.Nodup) (sources : List σ) :
    ∃ T : Transcript, T.Records files g D sources
      ∧ (∀ T' : Transcript, T'.Records files g D sources → T' = T)
      ∧ ((Resolver.ofSources sources).resolve files g D).1 = .ok T.values
      ∧ ((Resolver.ofSources sources).resolve files g D).2.phase = .done
      ∧ ((Resolver.ofSources sources).resolve files g D).2.pass.calls = T.calls sources.length
      ∧ ((Resolver.ofSources sources).resolve files g D).2.pass.log = T.log g
      ∧ ((∀ kind v (s : σ) d, (Source.read g kind v s).1 = .error d → d.isError = true) →
        ∀ d ∈ T.turns.flatMap (Turn.report g), d.isError = true) := by
  obtain ⟨turns, hturns, h⟩ := told_resolved files g hD sources
  let T : Transcript := ⟨sources.map fun s => (Source.start files s).1, turns,
    (resolved files g D sources).lastReports⟩
  have hrecords : T.Records files g D sources := by
    refine ⟨hturns, h.regular, by simp [T], by simp [T, lastReports, h.length], ?_⟩
    intro i s first last hs hfirst hlast
    obtain rfl : (Source.start files s).1 = first := by simpa [T, hs] using hfirst
    simp only [T, lastReports, List.getElem?_map, h.states i s hs] at hlast
    rw [Source.replies_append, h.replies i s hs, ← Option.some.inj hlast]
    rfl
  refine ⟨T, hrecords, fun T' h' => hrecords.unique h', ?_, rfl, ?_, ?_,
    hrecords.isError_report⟩
  · show Except.ok (run files g D sources).values = _
    rw [values_run, h.values]
    rfl
  · show (run files g D sources).calls = _
    rw [run_eq]
    simp [callAll, h.calls, h.length, Transcript.calls, T, Function.comp_def]
  · show (run files g D sources).log = _
    rw [log_run, h.log]
    rfl

/-- The argument is found first, so the document only marks its entry; the repeated
declaration is put to no source, and `y` is marked by both since no value has its type. -/
theorem records_of_overridden_entry :
    let m : ModuleId := ⟨"o", "m", "1"⟩
    let D : Declarations :=
      [(m, [⟨"x", .primitive .int, true⟩, ⟨"x", .primitive .int, true⟩, ⟨"y", .readonly, true⟩])]
    let sources := [ConfigSource.commandLine (.ofArguments m ["-Cx=1"]),
      .document (.ofOrigin m (.content "[m]\nx = 2\n"))]
    D.keys.Nodup ∧ ∃ T : Transcript, T.Records ⟨[]⟩ .empty D sources
      ∧ T.values.keys = [⟨m, "x"⟩]
      ∧ T.calls 2 = [⟨0, .start⟩, ⟨1, .start⟩,
        ⟨0, .read (.primitive .int) ⟨m, "x"⟩⟩, ⟨1, .mark ⟨m, "x"⟩⟩,
        ⟨0, .mark ⟨m, "y"⟩⟩, ⟨1, .mark ⟨m, "y"⟩⟩, ⟨0, .complete⟩, ⟨1, .complete⟩]
      ∧ T.log .empty = [.error (.duplicateVariable "x" "o/m:1") none,
        .error (.unsupportedType "y" "readonly") none] := by
  intro m D sources
  obtain ⟨T, hT, -, hvalues, -, hcalls, hlog, -⟩ :=
    resolve_records ⟨[]⟩ .empty (D := D) (by decide) sources
  refine ⟨by decide, T, hT, ?_, hcalls.symm.trans (by decide +kernel),
    hlog.symm.trans (by decide +kernel)⟩
  rw [← Except.ok.inj hvalues]
  decide +kernel

end Pass

end Configurable
