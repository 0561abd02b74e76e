import Configurable.Proofs.Pass
import Configurable.Proofs.Session

/-!
# Transcripts

A transcript tells, for every declaration in turn, either that it repeats an earlier one, or
what every source was asked for it and what came back. Its rules (`Transcript.Records`) are
about the declarations and the answers only. They let every source be any machine at all,
since the replies of a source are those of its own session with the requests that the
transcript has for it.

The rules leave nothing open (`Transcript.Records.unique`): what was answered before settles a
request, and the state of the source that gets it settles the reply.
-/

namespace Configurable

/-- A call to a source and what came back. -/
@[ext]
structure Exchange where
  request : Request
  reply : Reply

/-- The call as a pass keeps it. -/
def Request.action : Request → Action
  | .start => .start
  | .read kind v => .read kind v.id
  | .mark v => .mark v.id
  | .complete => .complete

namespace Reply

/-- The value that a lookup has found. -/
def value? : Reply → Option Value
  | .answered (.ok found) => found
  | .answered (.error _) | .logged _ | .marked => none

/-- The diagnostic that a lookup was refused with. -/
def refusal? : Reply → Option Diagnostic
  | .answered (.error d) => some d
  | .answered (.ok _) | .logged _ | .marked => none

end Reply

/-! ## Transcripts -/

/-- What a pass does about a declaration. -/
inductive Turn where
  /-- The variable is put to the sources, with one exchange for each of them. -/
  | first (v : Variable) (exchanges : List Exchange)
  | repeated (name : String) (module : ModuleId)

namespace Turn

def step : Turn → Step
  | .first v _ => .first v
  | .repeated name module => .repeated name module

def exchanges : Turn → List Exchange
  | .first _ xs => xs
  | .repeated _ _ => []

/-- The first value that was found, for the variable. -/
def value? : Turn → Option (VariableId × Value)
  | .first v xs => (xs.findSome? (·.reply.value?)).map fun value => (v.id, value)
  | .repeated _ _ => none

/-- What the declaration comes to in the log. There is at most one diagnostic for each. -/
def report (g : TypeGraph) : Turn → Log
  | .repeated name module => [.error (.duplicateVariable name module.render) none]
  | .first v xs =>
    if g.isConfigurable v.type then
      match xs.findSome? (·.reply.refusal?), xs.findSome? (·.reply.value?) with
      | some refusal, _ => [refusal]
      | none, some _ => []
      | none, none => if v.required then [.error (.missingValue v.name) none] else []
    else [.error (.unsupportedType v.name (g.render v.type)) none]

/-- The rule of a turn. There is one exchange with each source. It asks the source for the
variable if the type can be configured and all sources before have answered that they have
nothing, and has it mark its entry otherwise. -/
def Regular (g : TypeGraph) (sources : Nat) : Turn → Prop
  | .repeated _ _ => True
  | .first v xs => xs.length = sources ∧ ∀ before x after, xs = before ++ x :: after →
    let asked := g.isConfigurable v.type = true ∧ ∀ y ∈ before, y.reply = .answered (.ok none)
    (asked → ∃ kind, Kind.ofType? g v.type = some kind ∧ x.request = .read kind v)
      ∧ (¬ asked → x.request = .mark v)

def calls (t : Turn) : List Call := t.exchanges.zipIdx.map fun (x, i) => ⟨i, x.request.action⟩

end Turn

/-- What the sources report when they are started, the turns of all declarations, and what
the sources report at the end. -/
structure Transcript where
  started : List Log
  turns : List Turn
  completed : List Log

/-- The exchanges with the source at an index. -/
def exchangesWith (turns : List Turn) (i : Nat) : List Exchange :=
  turns.filterMap fun t => t.exchanges[i]?

namespace Declarations

/-- The first declaration of each variable among others of the same variable; `seen` holds
the variables so far. -/
def inOrder : (seen : List VariableId) → List Variable → List Step
  | _, [] => []
  | seen, v :: vs =>
    (if v.id ∈ seen then .repeated v.name v.module else .first v) :: inOrder (v.id :: seen) vs

end Declarations

namespace Transcript

variable {σ : Type} [Source σ]

/-- All sources are called in order at the start, in every turn and at the end. -/
def calls (T : Transcript) (sources : Nat) : List Call :=
  (List.range sources).map (⟨·, .start⟩) ++ T.turns.flatMap Turn.calls
    ++ (List.range sources).map (⟨·, .complete⟩)

def values (T : Transcript) : Values := T.turns.filterMap Turn.value?

def log (g : TypeGraph) (T : Transcript) : Log :=
  T.started.flatten ++ T.turns.flatMap (Turn.report g) ++ T.completed.flatten

/-- The rules of a transcript: the turns are those of the declarations, each of them regular,
and the replies of a source are those of its session with the requests made to it. -/
structure Records (files : FileTree) (g : TypeGraph) (D : Declarations) (sources : List σ)
    (T : Transcript) : Prop where
  turns : T.turns.map Turn.step = Declarations.inOrder [] D.declared
  regular : ∀ t ∈ T.turns, t.Regular g sources.length
  started : T.started.length = sources.length
  completed : T.completed.length = sources.length
  replies : ∀ i s first last, sources[i]? = some s → T.started[i]? = some first →
    T.completed[i]? = some last →
    Source.replies files g s
        (.start :: (exchangesWith T.turns i).map Exchange.request ++ [.complete])
      = .logged first :: (exchangesWith T.turns i).map Exchange.reply ++ [.logged last]

end Transcript

/-! ## Refusals -/

namespace Source

variable {σ : Type} [Source σ] {files : FileTree} {g : TypeGraph}

/-- Only lookups are refused. -/
theorem exists_read_of_refusal {d : Diagnostic} : ∀ {s : σ} {rs : List Request},
    .answered (.error d) ∈ replies files g s rs →
      ∃ kind v, ∃ s' : σ, (Source.read g kind v s').1 = .error d
  | _, [], h => absurd h List.not_mem_nil
  | s, r :: rs, h => by
      rw [replies, List.mem_cons] at h
      rcases h with hhead | htail
      · cases r with
        | read kind v => exact ⟨kind, v, s, (Reply.answered.inj hhead).symm⟩
        | start => cases hhead
        | mark v => cases hhead
        | complete => cases hhead
      · exact exists_read_of_refusal htail

end Source

/-! ## There is one transcript -/

theorem exchangesWith_cons (t : Turn) (turns : List Turn) (i : Nat) :
    exchangesWith (t :: turns) i = (t.exchanges[i]?).toList ++ exchangesWith turns i := by
  unfold exchangesWith
  rw [List.filterMap_cons]
  cases t.exchanges[i]? with
  | none => rfl
  | some x => rfl

theorem exchangesWith_append (turns : List Turn) (t : Turn) (i : Nat) :
    exchangesWith (turns ++ [t]) i = exchangesWith turns i ++ (t.exchanges[i]?).toList := by
  have hlast := exchangesWith_cons t [] i
  rw [show exchangesWith [] i = [] from rfl, List.append_nil] at hlast
  rw [← hlast]
  exact List.filterMap_append

namespace Transcript

variable {σ : Type} [Source σ] {files : FileTree} {g : TypeGraph} {v : Variable}
  {sources : List σ} {turns : List Turn}

/-- The replies in the turns are those of the sources' sessions, from these states on. -/
def Plays (files : FileTree) (g : TypeGraph) (ss : List σ) (turns : List Turn) : Prop :=
  ∀ i s, ss[i]? = some s →
    Source.replies files g s ((exchangesWith turns i).map Exchange.request)
      = (exchangesWith turns i).map Exchange.reply

variable {ss : List σ} {xs xs' : List Exchange}

theorem Plays.repeated {name : String} {module : ModuleId}
    (h : Plays files g ss (.repeated name module :: turns)) : Plays files g ss turns := by
  intro i s hs
  have hsession := h i s hs
  rwa [exchangesWith_cons] at hsession

theorem Plays.first (h : Plays files g ss (.first v xs :: turns)) {i : Nat} {s : σ} {x : Exchange}
    (hs : ss[i]? = some s) (hx : xs[i]? = some x) :
    (Source.serve files g s x.request).1 = x.reply ∧
      Source.replies files g (Source.serve files g s x.request).2
        ((exchangesWith turns i).map Exchange.request) =
          (exchangesWith turns i).map Exchange.reply := by
  have hsession := h i s hs
  rw [exchangesWith_cons, Turn.exchanges, hx, Option.toList_some, List.singleton_append,
    List.map_cons, List.map_cons, Source.replies] at hsession
  exact List.cons.inj hsession

theorem Plays.later (h : Plays files g ss (.first v xs :: turns)) :
    Plays files g (List.zipWith (fun s x => (Source.serve files g s x.request).2) ss xs) turns := by
  intro i s' hs'
  rw [List.getElem?_zipWith] at hs'
  split at hs'
  · next s x hs hx =>
    obtain rfl := Option.some.inj hs'
    exact (h.first hs hx).2
  · cases hs'

/-- The rule of a turn and the replies before it settle a request. -/
theorem request_unique {n : Nat} {before after after' : List Exchange} {x x' : Exchange}
    (h : (Turn.first v xs).Regular g n) (h' : (Turn.first v xs').Regular g n)
    (hx : xs = before ++ x :: after) (hx' : xs' = before ++ x' :: after') :
    x.request = x'.request := by
  obtain ⟨hread, hmark⟩ := h.2 before x after hx
  obtain ⟨hread', hmark'⟩ := h'.2 before x' after' hx'
  by_cases hasked : g.isConfigurable v.type = true ∧ ∀ y ∈ before, y.reply = .answered (.ok none)
  · obtain ⟨kind, hkind, hrequest⟩ := hread hasked
    obtain ⟨kind', hkind', hrequest'⟩ := hread' hasked
    obtain rfl := Option.some.inj (hkind.symm.trans hkind')
    rw [hrequest, hrequest']
  · rw [hmark hasked, hmark' hasked]

/-- Source by source, the exchanges before settle the request and the state the reply. -/
theorem exchanges_unique {turns' : List Turn} (hregular : (Turn.first v xs).Regular g ss.length)
    (hregular' : (Turn.first v xs').Regular g ss.length)
    (h : Plays files g ss (.first v xs :: turns))
    (h' : Plays files g ss (.first v xs' :: turns')) : xs = xs' := by
  have hlength : xs.length = ss.length := hregular.1
  have hlength' : xs'.length = ss.length := hregular'.1
  have htake : ∀ n ≤ ss.length, xs.take n = xs'.take n := by
    intro n hn
    induction n with
    | zero => rfl
    | succ n ih =>
        have hbefore := ih (Nat.le_of_succ_le hn)
        have hx : n < xs.length := hlength ▸ hn
        have hx' : n < xs'.length := hlength' ▸ hn
        have hsplit : xs = xs.take n ++ xs[n] :: xs.drop (n + 1) := by
          rw [List.getElem_cons_drop, List.take_append_drop]
        have hsplit' : xs' = xs.take n ++ xs'[n] :: xs'.drop (n + 1) := by
          rw [hbefore, List.getElem_cons_drop, List.take_append_drop]
        have hrequest : xs[n].request = xs'[n].request :=
          request_unique hregular hregular' hsplit hsplit'
        have hreply : xs[n].reply = xs'[n].reply := by
          have hs : ss[n]? = some ss[n] := List.getElem?_eq_getElem hn
          rw [← (h.first hs (List.getElem?_eq_getElem hx)).1,
            ← (h'.first hs (List.getElem?_eq_getElem hx')).1, hrequest]
        rw [List.take_add_one, List.take_add_one, hbefore, List.getElem?_eq_getElem hx,
          List.getElem?_eq_getElem hx', Exchange.ext hrequest hreply]
  have hall := htake ss.length (Nat.le_refl _)
  rwa [← hlength, List.take_length, hlength, ← hlength', List.take_length] at hall

theorem turns_unique : ∀ {turns turns' : List Turn} {ss : List σ},
    turns.map Turn.step = turns'.map Turn.step →
    (∀ t ∈ turns, t.Regular g ss.length) → (∀ t ∈ turns', t.Regular g ss.length) →
    Plays files g ss turns → Plays files g ss turns' → turns = turns'
  | [], [], _, _, _, _, _, _ => rfl
  | [], _ :: _, _, hstep, _, _, _, _ => nomatch hstep
  | _ :: _, [], _, hstep, _, _, _, _ => nomatch hstep
  | t :: turns, t' :: turns', ss, hstep, hregular, hregular', h, h' => by
      obtain ⟨hhead, hsteps⟩ := List.cons.inj hstep
      obtain ⟨hfirst, hrest⟩ := List.forall_mem_cons.mp hregular
      obtain ⟨hfirst', hrest'⟩ := List.forall_mem_cons.mp hregular'
      cases t with
      | repeated name module =>
          cases t' with
          | repeated name' module' =>
              obtain ⟨rfl, rfl⟩ := Step.repeated.inj hhead
              rw [turns_unique hsteps hrest hrest' h.repeated h'.repeated]
          | first v' xs' => cases hhead
      | first v xs =>
          cases t' with
          | repeated name' module' => cases hhead
          | first v' xs' =>
              obtain rfl := Step.first.inj hhead
              obtain rfl := exchanges_unique hfirst hfirst' h h'
              have hlength : (List.zipWith (fun s x => (Source.serve files g s
                  (Exchange.request x)).2) ss xs).length = ss.length := by
                simp [show xs.length = ss.length from hfirst.1]
              rw [turns_unique hsteps (hlength ▸ hrest) (hlength ▸ hrest') h.later h'.later]

/-- The replies of a source in a transcript, one after the other. -/
theorem Records.sessions {D : Declarations} {T : Transcript} (h : T.Records files g D sources)
    {i : Nat} {s : σ} (hs : sources[i]? = some s) :
    T.started[i]? = some (Source.start files s).1 ∧
      Source.replies files g (Source.start files s).2
        ((exchangesWith T.turns i).map Exchange.request)
        = (exchangesWith T.turns i).map Exchange.reply ∧
      T.completed[i]? = some (Source.complete (Source.after files g (Source.start files s).2
        ((exchangesWith T.turns i).map Exchange.request))).1 := by
  have hi : i < sources.length := (List.getElem?_eq_some_iff.mp hs).1
  obtain ⟨first, hfirst⟩ : ∃ first, T.started[i]? = some first :=
    ⟨_, List.getElem?_eq_getElem (h.started ▸ hi)⟩
  obtain ⟨last, hlast⟩ : ∃ last, T.completed[i]? = some last :=
    ⟨_, List.getElem?_eq_getElem (h.completed ▸ hi)⟩
  obtain ⟨hstart, hrest⟩ := List.cons.inj (h.replies i s _ _ hs hfirst hlast)
  have hrest : Source.replies files g (Source.start files s).2
      ((exchangesWith T.turns i).map Exchange.request ++ [.complete])
      = (exchangesWith T.turns i).map Exchange.reply ++ [.logged last] := hrest
  rw [Source.replies_append] at hrest
  obtain ⟨hturns, hend⟩ := List.append_inj hrest (by simp [Source.length_replies])
  refine ⟨hfirst.trans ?_, hturns, hlast.trans ?_⟩
  · exact congrArg some (Reply.logged.inj hstart).symm
  · exact congrArg some (Reply.logged.inj (List.cons.inj hend).1).symm

theorem Records.unique {D : Declarations} {T T' : Transcript} (h : T.Records files g D sources)
    (h' : T'.Records files g D sources) : T' = T := by
  have hplays : ∀ {T : Transcript}, T.Records files g D sources →
      Plays files g (sources.map fun s => (Source.start files s).2) T.turns := by
    intro T h i s' hs'
    rw [List.getElem?_map, Option.map_eq_some_iff] at hs'
    obtain ⟨s, hs, rfl⟩ := hs'
    exact (Records.sessions h hs).2.1
  have hturns : T'.turns = T.turns := by
    refine turns_unique (h'.turns.trans h.turns.symm) ?_ ?_ (hplays h') (hplays h)
    · simpa using h'.regular
    · simpa using h.regular
  have hat : ∀ i : Nat, T'.started[i]? = T.started[i]? ∧ T'.completed[i]? = T.completed[i]? := by
    intro i
    cases hs : sources[i]? with
    | some s =>
        obtain ⟨hstarted, -, hcompleted⟩ := Records.sessions h hs
        obtain ⟨hstarted', -, hcompleted'⟩ := Records.sessions h' hs
        rw [hstarted, hstarted', hcompleted, hcompleted', hturns]
        exact ⟨rfl, rfl⟩
    | none =>
        have hi := List.getElem?_eq_none_iff.mp hs
        constructor
        · rw [List.getElem?_eq_none (h'.started ▸ hi), List.getElem?_eq_none (h.started ▸ hi)]
        · rw [List.getElem?_eq_none (h'.completed ▸ hi), List.getElem?_eq_none (h.completed ▸ hi)]
  cases T
  cases T'
  simp only [Transcript.mk.injEq]
  exact ⟨List.ext_getElem? fun i => (hat i).1, hturns, List.ext_getElem? fun i => (hat i).2⟩

/-- Every refusal in a turn is what some source answers to a lookup. -/
theorem Records.exists_read_of_turn {D : Declarations} {T : Transcript}
    (h : T.Records files g D sources) {xs : List Exchange} (ht : .first v xs ∈ T.turns)
    {x : Exchange} (hx : x ∈ xs) {d : Diagnostic} (hd : x.reply.refusal? = some d) :
    ∃ kind v, ∃ s : σ, (Source.read g kind v s).1 = .error d := by
  have hreply : x.reply = .answered (.error d) := by
    unfold Reply.refusal? at hd
    split at hd
    · next heq => rw [heq, Option.some.inj hd]
    · cases hd
    · cases hd
    · cases hd
  obtain ⟨i, hi, rfl⟩ := List.mem_iff_getElem.mp hx
  have hlt : i < sources.length := (h.regular _ ht).1 ▸ hi
  have hmem : xs[i] ∈ exchangesWith T.turns i :=
    List.mem_filterMap.mpr ⟨_, ht, List.getElem?_eq_getElem hi⟩
  have hsession := h.replies i sources[i] _ _ (List.getElem?_eq_getElem hlt)
    (List.getElem?_eq_getElem (h.started ▸ hlt)) (List.getElem?_eq_getElem (h.completed ▸ hlt))
  have hrefused : .answered (.error d) ∈ Source.replies files g sources[i]
      (.start :: (exchangesWith T.turns i).map Exchange.request ++ [.complete]) := by
    rw [hsession, ← hreply]
    exact List.mem_append_left _ (List.mem_cons_of_mem _ (List.mem_map_of_mem hmem))
  exact Source.exists_read_of_refusal hrefused

/-- If sources refuse with errors only, whatever is logged about a declaration is an error. -/
theorem Records.isError_report {D : Declarations} {T : Transcript} (h : T.Records files g D sources)
    (hrefusals : ∀ kind v (s : σ) d, (Source.read g kind v s).1 = .error d → d.isError = true) :
    ∀ d ∈ T.turns.flatMap (Turn.report g), d.isError = true := by
  intro d hd
  obtain ⟨t, ht, hd⟩ := List.mem_flatMap.mp hd
  cases t with
  | repeated name module =>
      obtain rfl := List.mem_singleton.mp hd
      rfl
  | first v xs =>
      simp only [Turn.report] at hd
      split at hd
      · split at hd
        · next hrefusal =>
          obtain rfl := List.mem_singleton.mp hd
          obtain ⟨x, hx, hreply⟩ := List.exists_of_findSome?_eq_some hrefusal
          obtain ⟨kind, w, s, hread⟩ := h.exists_read_of_turn ht hx hreply
          exact hrefusals kind w s _ hread
        · cases hd
        · split at hd
          · obtain rfl := List.mem_singleton.mp hd
            rfl
          · cases hd
      · obtain rfl := List.mem_singleton.mp hd
        rfl

end Transcript

end Configurable
