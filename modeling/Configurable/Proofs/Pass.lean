import Configurable.Resolver
import Configurable.Proofs.Entries

/-!
# A pass, step by step

A pass is a nested loop over modules, declarations and sources. Its outer two loops are one
fold over *steps*: a declaration that is the first of its name in its module is put to the
sources, one that repeats an earlier one is only reported (`resolveModules_eq`). What holds
of every pass is then an induction on the steps, with one lemma for each kind of step.

Nothing here depends on what sources are. In a step every source is called once, and the
call is a lookup as long as there is no answer (`ask_source`).
-/

namespace Configurable

/-! ## Steps -/

/-- A declaration as a pass comes to it. -/
inductive Step where
  | first (v : Variable)
  | repeated (name : String) (module : ModuleId)
deriving DecidableEq, Repr

namespace Step

/-- The variable that is put to the sources. -/
def subject? : Step → Option Variable
  | .first v => some v
  | .repeated _ _ => none

end Step

namespace Declarations

/-- The steps for the declarations of a module; `declared` holds the names so far. -/
def stepsOf (module : ModuleId) : (declared : List String) → List Declaration → List Step
  | _, [] => []
  | declared, d :: ds =>
    if d.name ∈ declared then .repeated d.name module :: stepsOf module declared ds
    else .first (.ofDeclaration module d) :: stepsOf module (d.name :: declared) ds

def steps (D : Declarations) : List Step := D.flatMap fun (module, ds) => stepsOf module [] ds

/-- All variables that are declared, repetitions included. -/
def declared (D : Declarations) : List Variable :=
  D.flatMap fun (module, ds) => ds.map (Variable.ofDeclaration module)

/-- The declarations that are the first of their names in their modules. -/
def firsts (D : Declarations) : List Variable := D.steps.filterMap Step.subject?

theorem mem_firsts {D : Declarations} {v : Variable} : v ∈ D.firsts ↔ .first v ∈ D.steps := by
  simp only [firsts, List.mem_filterMap]
  constructor
  · rintro ⟨st, hst, hv⟩
    cases st with
    | first w =>
        obtain rfl := Option.some.inj hv
        exact hst
    | repeated name module => cases hv
  · exact fun h => ⟨_, h, rfl⟩

theorem first_mem_stepsOf {module : ModuleId} {v : Variable} :
    ∀ {names : List String} {ds : List Declaration},
      .first v ∈ stepsOf module names ds ↔ ∃ before d after, ds = before ++ d :: after ∧
        d.name ∉ names ∧ (∀ e ∈ before, e.name ≠ d.name) ∧ v = .ofDeclaration module d
  | names, [] => by simp [stepsOf]
  | names, d :: ds => by
      unfold stepsOf
      constructor
      · intro h
        split at h
        · next hd =>
          obtain ⟨before, e, after, rfl, he, hbefore, hv⟩ :=
            first_mem_stepsOf.mp ((List.mem_cons.mp h).resolve_left Step.noConfusion)
          refine ⟨d :: before, e, after, rfl, he, fun e' he' => ?_, hv⟩
          rcases List.mem_cons.mp he' with rfl | hmem
          · exact fun heq => he (heq ▸ hd)
          · exact hbefore e' hmem
        · next hd =>
          rcases List.mem_cons.mp h with hv | hmem
          · exact ⟨[], d, ds, rfl, hd, by simp, Step.first.inj hv⟩
          · obtain ⟨before, e, after, rfl, he, hbefore, hv⟩ := first_mem_stepsOf.mp hmem
            rw [List.mem_cons, not_or] at he
            refine ⟨d :: before, e, after, rfl, he.2, fun e' he' => ?_, hv⟩
            rcases List.mem_cons.mp he' with rfl | hmem'
            · exact fun heq => he.1 heq.symm
            · exact hbefore e' hmem'
      · rintro ⟨before, e, after, hds, he, hbefore, rfl⟩
        cases before with
        | nil =>
            obtain ⟨rfl, rfl⟩ := List.cons.inj hds
            rw [if_neg he]
            exact List.mem_cons_self ..
        | cons d' before =>
            obtain ⟨rfl, rfl⟩ := List.cons.inj hds
            have hne : d.name ≠ e.name := hbefore d (List.mem_cons_self ..)
            have hrest : ∀ e' ∈ before, e'.name ≠ e.name :=
              fun e' he' => hbefore e' (List.mem_cons_of_mem _ he')
            split
            · exact List.mem_cons_of_mem _
                (first_mem_stepsOf.mpr ⟨before, e, after, rfl, he, hrest, rfl⟩)
            · refine List.mem_cons_of_mem _
                (first_mem_stepsOf.mpr ⟨before, e, after, rfl, ?_, hrest, rfl⟩)
              rw [List.mem_cons, not_or]
              exact ⟨hne.symm, he⟩

/-- A variable is put to the sources if no declaration before it in its module has its name. -/
theorem mem_firsts_iff {D : Declarations} {v : Variable} :
    v ∈ D.firsts ↔ ∃ module before d after, (module, before ++ d :: after) ∈ D ∧
      (∀ e ∈ before, e.name ≠ d.name) ∧ v = .ofDeclaration module d := by
  rw [mem_firsts, steps, List.mem_flatMap]
  constructor
  · rintro ⟨⟨module, ds⟩, hD, hv⟩
    obtain ⟨before, d, after, rfl, -, hbefore, rfl⟩ := first_mem_stepsOf.mp hv
    exact ⟨module, before, d, after, hD, hbefore, rfl⟩
  · rintro ⟨module, before, d, after, hD, hbefore, rfl⟩
    exact ⟨_, hD, first_mem_stepsOf.mpr ⟨before, d, after, rfl, by simp, hbefore, rfl⟩⟩

/-- What the steps of a module do with a declaration: it is the first of its name, or its
name was declared before. -/
theorem mem_stepsOf_of_mem {module : ModuleId} {d : Declaration} :
    ∀ {names : List String} {ds : List Declaration}, d ∈ ds →
      .first (.ofDeclaration module d) ∈ stepsOf module names ds
        ∨ .repeated d.name module ∈ stepsOf module names ds
  | names, e :: ds, h => by
      unfold stepsOf
      rcases List.mem_cons.mp h with rfl | hmem
      · split
        · exact Or.inr (List.mem_cons_self ..)
        · exact Or.inl (List.mem_cons_self ..)
      · split
        · exact (mem_stepsOf_of_mem hmem).imp (List.mem_cons_of_mem _) (List.mem_cons_of_mem _)
        · exact (mem_stepsOf_of_mem hmem).imp (List.mem_cons_of_mem _) (List.mem_cons_of_mem _)

theorem mem_steps_of_declared {D : Declarations} {v : Variable} (h : v ∈ D.declared) :
    .first v ∈ D.steps ∨ .repeated v.name v.module ∈ D.steps := by
  obtain ⟨⟨module, ds⟩, hD, hv⟩ := List.mem_flatMap.mp h
  obtain ⟨d, hd, rfl⟩ := List.mem_map.mp hv
  exact (mem_stepsOf_of_mem hd).imp (fun hs => List.mem_flatMap.mpr ⟨_, hD, hs⟩)
    (fun hs => List.mem_flatMap.mpr ⟨_, hD, hs⟩)

end Declarations

/-! ## Logs -/

namespace Log

@[simp] theorem hasErrors_append (a b : Log) :
    Log.hasErrors (a ++ b) = (Log.hasErrors a || Log.hasErrors b) := List.any_append

@[simp] theorem hasErrors_nil : Log.hasErrors [] = false := rfl

@[simp] theorem hasErrors_singleton (d : Diagnostic) : Log.hasErrors [d] = d.isError := by
  simp [hasErrors]

end Log

@[simp] theorem Diagnostic.isError_error (problem : Problem) (location : Option Location) :
    (Diagnostic.error problem location).isError = true := rfl

namespace Pass

variable {σ : Type} [Source σ]

/-! ## The loops as one fold -/

def step (g : TypeGraph) (p : Pass σ) : Step → Pass σ
  | .first v => p.resolveVariable g v
  | .repeated name module =>
    { p with log := p.log ++ [.error (.duplicateVariable name module.render) none] }

theorem resolveModule_eq (g : TypeGraph) (module : ModuleId) :
    ∀ (names : List String) (p : Pass σ) (ds : List Declaration),
      resolveModule g module names p ds
        = (Declarations.stepsOf module names ds).foldl (step g) p
  | _, _, [] => rfl
  | names, p, d :: ds => by
      unfold resolveModule Declarations.stepsOf
      split
      · exact resolveModule_eq g module names _ ds
      · exact resolveModule_eq g module (d.name :: names) _ ds

theorem resolveModules_eq (g : TypeGraph) (p : Pass σ) (D : Declarations) :
    resolveModules g p D = D.steps.foldl (step g) p := by
  unfold resolveModules Declarations.steps
  rw [List.foldl_flatMap]
  congr 1
  funext p ⟨module, ds⟩
  exact resolveModule_eq g module [] p ds

/-- A pass in which all sources are started and nothing is resolved yet. -/
def started (files : FileTree) (sources : List σ) : Pass σ :=
  (ofSources sources).callAll .start (Source.start files)

/-- A pass in which all variables are resolved and the sources are not completed yet. -/
def resolved (files : FileTree) (g : TypeGraph) (D : Declarations) (sources : List σ) : Pass σ :=
  D.steps.foldl (step g) (started files sources)

theorem run_eq (files : FileTree) (g : TypeGraph) (D : Declarations) (sources : List σ) :
    run files g D sources
      = (resolved files g D sources).callAll .complete Source.complete := by
  unfold run resolved
  rw [← resolveModules_eq]
  rfl

/-- What every source reports when the pass completes it. -/
def lastReports (p : Pass σ) : List Log := p.sources.map fun s => (Source.complete s).1

@[simp] theorem values_run (files : FileTree) (g : TypeGraph) (D : Declarations)
    (sources : List σ) :
    (run files g D sources).values = (resolved files g D sources).values := by
  rw [run_eq]; rfl

/-- The log of a pass ends with what the sources report at the end, in their order. -/
theorem log_run (files : FileTree) (g : TypeGraph) (D : Declarations) (sources : List σ) :
    (run files g D sources).log
      = (resolved files g D sources).log ++ (resolved files g D sources).lastReports.flatten := by
  rw [run_eq]
  simp [callAll, lastReports, List.flatMap_def, Function.comp_def]

/-! ## One variable -/

variable {g : TypeGraph} {v : Variable}

theorem ask_cons_open (s : σ) (ss : List σ) :
    ask g v (.ok none) (s :: ss)
      = ⟨(ask g v (Source.lookup g v s).1 ss).answer,
          (Source.lookup g v s).2 :: (ask g v (Source.lookup g v s).1 ss).sources,
          Source.lookupAction g v :: (ask g v (Source.lookup g v s).1 ss).actions⟩ := rfl

theorem ask_cons_settled {a : Answer} (h : a ≠ .ok none) (s : σ) (ss : List σ) :
    ask g v a (s :: ss)
      = ⟨(ask g v a ss).answer, Source.mark v s :: (ask g v a ss).sources,
          .mark v.id :: (ask g v a ss).actions⟩ := by
  match a, h with
  | .ok none, h => exact absurd rfl h
  | .ok (some _), _ => rfl
  | .error _, _ => rfl

/-- Once there is an answer it stays. -/
theorem answer_ask_settled {a : Answer} (h : a ≠ .ok none) :
    ∀ ss : List σ, (ask g v a ss).answer = a
  | [] => by unfold ask; rfl
  | s :: ss => by rw [ask_cons_settled h]; exact answer_ask_settled h ss

/-- The answer is the one there was before, or what some source has. -/
theorem answer_ask {P : Answer → Prop} :
    ∀ {a : Answer} {ss : List σ}, P a → (∀ s ∈ ss, P (Source.lookup g v s).1) →
      P (ask g v a ss).answer
  | a, [], ha, _ => by unfold ask; exact ha
  | a, s :: ss, ha, hss => by
      have htail : ∀ s' ∈ ss, P (Source.lookup g v s').1 :=
        fun s' hs' => hss s' (List.mem_cons_of_mem _ hs')
      by_cases h : a = .ok none
      · subst h
        rw [ask_cons_open]
        exact answer_ask (hss s (List.mem_cons_self ..)) htail
      · rw [ask_cons_settled h]
        exact answer_ask ha htail

/-- The answer is a value if some source has it and those before have nothing. -/
theorem answer_ask_iff {value : Value} : ∀ {ss : List σ},
    (ask g v (.ok none) ss).answer = .ok (some value) ↔
      ∃ before s after, ss = before ++ s :: after ∧
        (Source.lookup g v s).1 = .ok (some value) ∧
        ∀ s' ∈ before, (Source.lookup g v s').1 = .ok none
  | [] => by simp [ask]
  | s :: ss => by
      rw [ask_cons_open]
      by_cases hopen : (Source.lookup g v s).1 = .ok none
      · rw [hopen]
        refine answer_ask_iff.trans ⟨?_, ?_⟩
        · rintro ⟨before, s', after, rfl, hs', hbefore⟩
          exact ⟨s :: before, s', after, rfl, hs', List.forall_mem_cons.mpr ⟨hopen, hbefore⟩⟩
        · rintro ⟨before, s', after, hss, hs', hbefore⟩
          cases before with
          | nil =>
              obtain ⟨rfl, rfl⟩ := List.cons.inj hss
              rw [hopen] at hs'
              cases hs'
          | cons s'' before =>
              obtain ⟨rfl, rfl⟩ := List.cons.inj hss
              exact ⟨before, s', after, rfl, hs', (List.forall_mem_cons.mp hbefore).2⟩
      · rw [answer_ask_settled hopen]
        refine ⟨fun h => ⟨[], s, ss, rfl, h, by simp⟩, ?_⟩
        rintro ⟨before, s', after, hss, hs', hbefore⟩
        cases before with
        | nil =>
            obtain ⟨rfl, rfl⟩ := List.cons.inj hss
            exact hs'
        | cons s'' before =>
            obtain ⟨rfl, rfl⟩ := List.cons.inj hss
            exact absurd (hbefore s (List.mem_cons_self ..)) hopen

/-- Every source is called once, and its next state is what the call leaves behind. -/
theorem ask_source : ∀ {a : Answer} {ss : List σ} {i : Nat} {s : σ}, ss[i]? = some s →
    ((ask g v a ss).actions[i]? = some (Source.lookupAction g v)
        ∧ (ask g v a ss).sources[i]? = some (Source.lookup g v s).2)
      ∨ ((ask g v a ss).actions[i]? = some (.mark v.id)
        ∧ (ask g v a ss).sources[i]? = some (Source.mark v s))
  | a, s₀ :: ss, 0, s, h => by
      obtain rfl := Option.some.inj h
      by_cases ha : a = .ok none
      · subst ha
        rw [ask_cons_open]
        exact Or.inl ⟨rfl, rfl⟩
      · rw [ask_cons_settled ha]
        exact Or.inr ⟨rfl, rfl⟩
  | a, s₀ :: ss, i + 1, s, h => by
      have htail : ss[i]? = some s := h
      by_cases ha : a = .ok none
      · subst ha
        rw [ask_cons_open]
        exact ask_source htail
      · rw [ask_cons_settled ha]
        exact ask_source htail

end Pass

end Configurable
