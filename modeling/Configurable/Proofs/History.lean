import Configurable.Proofs.Pass

/-!
# What one source sees of a pass

Seen from one of its sources, a pass is a start, then one call for each variable that is put
to the sources, lookup or mark, and a completion (`attended_resolved`). What a source does to
what it keeps can so be proved along the calls that were made to it (`Called`), without the
pass and without the other sources.

The source may be of a type that others in the list are not of. `Embeds` says what is needed
of such a list: that it calls the source as it would be called on its own.
-/

namespace Configurable

/-- The variable a call is about. -/
def Action.subject? : Action → Option VariableId
  | .read _ v | .mark v => some v
  | .start | .complete => none

namespace Source

variable {σ τ : Type} [Source σ] [Source τ] {g : TypeGraph}

/-! ## Calls between start and completion -/

/-- Lookups and marks, one after the other, take the source from one state to another. -/
inductive Called (g : TypeGraph) (s : σ) : List Action → σ → Prop where
  | nil : Called g s [] s
  | read {as : List Action} {s' : σ} (kind : Kind) (v : Variable) :
      Called g s as s' → Called g s (as ++ [.read kind v.id]) (Source.read g kind v s').2
  | mark {as : List Action} {s' : σ} (v : Variable) :
      Called g s as s' → Called g s (as ++ [.mark v.id]) (Source.mark v s')

theorem Called.lookup {s s' : σ} {as : List Action} (h : Called g s as s') (v : Variable) :
    Called g s (as ++ [lookupAction g v]) (Source.lookup g v s').2 := by
  unfold lookupAction Source.lookup
  split
  · next kind _ => exact h.read kind v
  · exact h.mark v

theorem subject?_lookupAction (g : TypeGraph) (v : Variable) :
    (lookupAction g v).subject? = some v.id := by
  unfold lookupAction
  split
  · rfl
  · rfl

/-- Sources of one type among those of another, where they do what they do on their own. -/
structure Embeds (ι : τ → σ) : Prop where
  start : ∀ files t, Source.start files (ι t) = (Source.start files t).map id ι
  read : ∀ g kind v t, Source.read g kind v (ι t) = (Source.read g kind v t).map id ι
  mark : ∀ v t, Source.mark v (ι t) = ι (Source.mark v t)
  complete : ∀ t, Source.complete (ι t) = (Source.complete t).map id ι

theorem Called.of_embeds {ι : τ → σ} (hι : Embeds ι) {t : τ} {s : σ} {as : List Action}
    (h : Called g (ι t) as s) : ∃ t', s = ι t' ∧ Called g t as t' := by
  induction h with
  | nil => exact ⟨t, rfl, .nil⟩
  | read kind v _ ih =>
      obtain ⟨t', rfl, ht'⟩ := ih
      exact ⟨_, by rw [hι.read]; rfl, ht'.read kind v⟩
  | mark v _ ih =>
      obtain ⟨t', rfl, ht'⟩ := ih
      exact ⟨_, hι.mark v t', ht'.mark v⟩

end Source

namespace Declarations

/-- A variable that is declared is put to the sources under one of its declarations. -/
theorem exists_first_iff {D : Declarations} {id : VariableId} :
    (∃ v ∈ D.firsts, v.id = id) ↔ ∃ v ∈ D.declared, v.id = id := by
  constructor
  · rintro ⟨v, hv, rfl⟩
    obtain ⟨module, before, d, after, hD, -, rfl⟩ := mem_firsts_iff.mp hv
    exact ⟨_, List.mem_flatMap.mpr ⟨_, hD, List.mem_map.mpr ⟨d, by simp, rfl⟩⟩, rfl⟩
  · rintro ⟨v, hv, rfl⟩
    obtain ⟨⟨module, ds⟩, hD, hv⟩ := List.mem_flatMap.mp hv
    obtain ⟨d, hd, rfl⟩ := List.mem_map.mp hv
    have hfound : (ds.find? (·.name = d.name)).isSome = true :=
      List.find?_isSome.mpr ⟨d, hd, by simp⟩
    obtain ⟨e, he⟩ := Option.isSome_iff_exists.mp hfound
    obtain ⟨hname, before, after, rfl, hbefore⟩ := List.find?_eq_some_iff_append.mp he
    have hname : e.name = d.name := by simpa using hname
    refine ⟨_, mem_firsts_iff.mpr ⟨module, before, e, after, hD, fun e' he' => ?_, rfl⟩, ?_⟩
    · have hne : ¬ e'.name = d.name := by simpa using hbefore e' he'
      rwa [hname]
    · simp [Variable.ofDeclaration, Variable.id, hname]

end Declarations

namespace Pass

variable {σ : Type} [Source σ] {g : TypeGraph}

/-! ## The calls to one source -/

/-- What the source at an index was called for, in order. -/
def callsTo (p : Pass σ) (i : Nat) : List Action :=
  (p.calls.filter (·.source = i)).map Call.action

theorem filter_zipIdx : ∀ (actions : List Action) (first i : Nat),
    (((actions.zipIdx first).map fun (action, i) => Call.mk i action).filter
      (·.source = first + i)).map Call.action = actions[i]?.toList
  | [], _, _ => rfl
  | a :: as, first, 0 => by
      have hrest : ((as.zipIdx (first + 1)).map fun (action, i) => Call.mk i action).filter
          (·.source = first) = [] := by
        rw [List.filter_eq_nil_iff]
        intro call hcall
        obtain ⟨⟨action, i⟩, hmem, rfl⟩ := List.mem_map.mp hcall
        have := List.le_snd_of_mem_zipIdx hmem
        simp only [decide_eq_true_eq]
        omega
      simp [List.zipIdx_cons, hrest]
  | a :: as, first, i + 1 => by
      have hhead : ¬ first = first + (i + 1) := by omega
      have htail := filter_zipIdx as (first + 1) i
      rw [Nat.add_right_comm] at htail
      simpa [List.zipIdx_cons, hhead, Nat.add_assoc] using htail

theorem callsTo_resolveVariable (p : Pass σ) (v : Variable) (i : Nat) :
    (p.resolveVariable g v).callsTo i
      = p.callsTo i ++ (ask g v (firstAnswer g v) p.sources).actions[i]?.toList := by
  have h := filter_zipIdx (ask g v (firstAnswer g v) p.sources).actions 0 i
  rw [Nat.zero_add] at h
  rw [← h]
  simp [callsTo, resolveVariable]

/-- A call to every source is one call to each. -/
theorem callsTo_each (action : Action) {n i : Nat} (hi : i < n) :
    (((List.range n).map fun j => Call.mk j action).filter (·.source = i)).map Call.action
      = [action] := by
  have hcalls : (List.range n).map (fun j => Call.mk j action)
      = ((List.replicate n action).zipIdx).map fun (action, j) => Call.mk j action := by
    refine List.ext_getElem (by simp) fun j hj hj' => ?_
    simp
  have hfilter := filter_zipIdx (List.replicate n action) 0 i
  rw [Nat.zero_add] at hfilter
  rw [hcalls, hfilter]
  simp [hi]

theorem callsTo_started (files : FileTree) {sources : List σ} {i : Nat}
    (h : i < sources.length) : (started files sources).callsTo i = [.start] := by
  have hcalls : (started files sources).calls
      = (List.range sources.length).map fun j => Call.mk j .start := by
    simp [started, callAll, ofSources]
  rw [callsTo, hcalls, callsTo_each .start h]

/-- Since its start, when it was in state `s`, the source at an index was called for these
variables one after the other, and nothing else happened to it. -/
structure Attended (g : TypeGraph) (s : σ) (i : Nat) (vs : List VariableId) (p : Pass σ)
    (as : List Action) (s' : σ) : Prop where
  source : p.sources[i]? = some s'
  calls : p.callsTo i = .start :: as
  called : Source.Called g s as s'
  subjects : as.filterMap Action.subject? = vs

theorem Attended.first {s s' : σ} {i : Nat} {vs : List VariableId} {p : Pass σ}
    {as : List Action} (h : Attended g s i vs p as s') (v : Variable) :
    ∃ as' s'', Attended g s i (vs ++ [v.id]) (p.resolveVariable g v) as' s'' := by
  have hcalls := callsTo_resolveVariable (g := g) p v i
  rw [h.calls] at hcalls
  rcases ask_source (g := g) (v := v) (a := firstAnswer g v) h.source with
    ⟨haction, hsource⟩ | ⟨haction, hsource⟩
  · rw [haction] at hcalls
    exact ⟨_, _, hsource, hcalls, h.called.lookup v, by
      simp [h.subjects, Source.subject?_lookupAction]⟩
  · rw [haction] at hcalls
    exact ⟨_, _, hsource, hcalls, h.called.mark v, by
      simp [h.subjects, Action.subject?]⟩

theorem Attended.foldl : ∀ (todo : List Step) {s s' : σ} {i : Nat} {vs : List VariableId}
    {p : Pass σ} {as : List Action}, Attended g s i vs p as s' →
      ∃ as' s'', Attended g s i (vs ++ (todo.filterMap Step.subject?).map Variable.id)
        (todo.foldl (step g) p) as' s''
  | [], _, s', _, _, _, as, h => ⟨as, s', by simpa using h⟩
  | .first v :: todo, _, _, _, _, _, _, h => by
      obtain ⟨as', s'', h'⟩ := h.first v
      obtain ⟨as'', s''', h''⟩ := h'.foldl todo
      exact ⟨as'', s''', by simpa [Step.subject?, step] using h''⟩
  | .repeated name module :: todo, _, _, _, _, p, _, h => by
      have hnext : Attended g _ _ _ (p.step g (.repeated name module)) _ _ :=
        ⟨h.source, h.calls, h.called, h.subjects⟩
      exact hnext.foldl todo

/-- Every source is started, and then called once for every variable in the order in which
the variables are put to the sources. -/
theorem attended_resolved (files : FileTree) (D : Declarations) {sources : List σ} {i : Nat}
    {s : σ} (h : sources[i]? = some s) :
    ∃ as s', Attended g (Source.start files s).2 i (D.firsts.map Variable.id)
      (resolved files g D sources) as s' := by
  have hlt : i < sources.length := (List.getElem?_eq_some_iff.mp h).1
  have hstart : Attended g (Source.start files s).2 i [] (started files sources) []
      (Source.start files s).2 :=
    ⟨by simp [started, callAll, ofSources, h], callsTo_started files hlt, .nil, rfl⟩
  simpa [resolved, Declarations.firsts] using hstart.foldl D.steps

end Pass

end Configurable
