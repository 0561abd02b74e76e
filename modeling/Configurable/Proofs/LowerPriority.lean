import Configurable.Proofs.History
import Configurable.Proofs.Refinement
import Mathlib.Data.List.Basic

/-!
# Sources of lower priority

A source that is added behind all others is told what the others have settled and tells them
nothing. In a transcript this is plain to see: without the last exchange of every turn, the
transcript of a pass is the transcript of the pass without the last source
(`Transcript.Records.earlier`), for it keeps the rules, and no other transcript does.

So the two passes can be compared turn by turn (`Turn.settled_earlier`, `Turn.open_earlier`).
Only where all other sources were asked and had nothing does the last one have a say.
-/

namespace Configurable

/-! ## Turns without their last exchange -/

namespace Turn

/-- The turn as the sources but the last have it. -/
def earlier : Turn → Turn
  | .first v xs => .first v xs.dropLast
  | .repeated name module => .repeated name module

/-- The variable was put to all sources, and they had nothing. -/
def IsOpen (g : TypeGraph) : Turn → Prop
  | .first v xs => g.isConfigurable v.type = true ∧ ∀ x ∈ xs, x.reply = .answered (.ok none)
  | .repeated _ _ => False

variable {g : TypeGraph} {n : Nat} {v : Variable} {xs : List Exchange} {x : Exchange}

/-- What a source behind all others changes about a variable. -/
structure Undisturbed (g : TypeGraph) (t : Turn) : Prop where
  /-- A refusal by another source stays all that comes of the variable. -/
  refused : ∀ x ∈ t.earlier.exchanges, ∀ d, x.reply = .answered (.error d) →
    (t.earlier.value? = none ∧ t.earlier.report g = [d]) ∧ t.value? = none ∧ t.report g = [d]
  /-- Nothing changes unless all others were asked and had nothing. -/
  settled : ¬ t.earlier.IsOpen g → t.value? = t.earlier.value? ∧ t.report g = t.earlier.report g
  /-- Otherwise the last source is asked, and its answer takes the place of theirs. -/
  unsettled : t.earlier.IsOpen g → ∃ v xs kind answer,
    t = .first v (xs ++ [⟨.read kind v, .answered answer⟩]) ∧ Kind.ofType? g v.type = some kind
      ∧ t.earlier.value? = none ∧ t.earlier.report g = Pass.report v (.ok none)
      ∧ t.value? = (Reply.answered answer).value?.map (fun value => (v.id, value))
      ∧ t.report g = Pass.report v answer

theorem step_earlier (t : Turn) : t.earlier.step = t.step := by
  cases t with
  | first v xs => rfl
  | repeated name module => rfl

theorem exchanges_earlier (t : Turn) : t.earlier.exchanges = t.exchanges.dropLast := by
  cases t with
  | first v xs => rfl
  | repeated name module => rfl

/-- A turn ends with the exchange with the last source. -/
theorem Regular.exists_concat (h : (Turn.first v xs).Regular g (n + 1)) :
    ∃ ys x, xs = ys ++ [x] :=
  ⟨_, _, (List.dropLast_concat_getLast (List.ne_nil_of_length_eq_add_one h.1)).symm⟩

theorem Regular.earlier {t : Turn} (h : t.Regular g (n + 1)) : t.earlier.Regular g n := by
  cases t with
  | repeated name module => trivial
  | first v xs =>
      obtain ⟨ys, last, rfl⟩ := h.exists_concat
      obtain ⟨hlength, hrule⟩ := h
      rw [Turn.earlier, List.dropLast_concat]
      refine ⟨by simpa using hlength, fun before x after hx => ?_⟩
      refine hrule before x (after ++ [last]) ?_
      rw [hx, List.append_assoc, List.cons_append]

/-- A source is marked unless all before have nothing. -/
theorem Regular.request (h : (Turn.first v xs).Regular g n) (hx : x ∈ xs) :
    x.request = .mark v ∨ ∃ kind before after, x.request = .read kind v ∧
      g.isConfigurable v.type = true ∧ xs = before ++ x :: after ∧
      ∀ y ∈ before, y.reply = .answered (.ok none) := by
  obtain ⟨before, after, hsplit⟩ := List.append_of_mem hx
  obtain ⟨hread, hmark⟩ := h.2 before x after hsplit
  by_cases hasked : g.isConfigurable v.type = true ∧ ∀ y ∈ before, y.reply = .answered (.ok none)
  · obtain ⟨kind, -, hrequest⟩ := hread hasked
    exact Or.inr ⟨kind, before, after, hrequest, hasked.1, hsplit, hasked.2⟩
  · exact Or.inl (hmark hasked)

end Turn

theorem exchangesWith_earlier {g : TypeGraph} {n i : Nat} {turns : List Turn}
    (h : ∀ t ∈ turns, t.Regular g (n + 1)) (hi : i < n) :
    exchangesWith (turns.map Turn.earlier) i = exchangesWith turns i := by
  unfold exchangesWith
  rw [List.filterMap_map]
  refine List.filterMap_congr fun t ht => ?_
  have hexchanges := t.exchanges_earlier
  have hregular := h t ht
  show t.earlier.exchanges[i]? = t.exchanges[i]?
  cases t with
  | repeated name module => rfl
  | first v xs =>
      have hlength : xs.length = n + 1 := hregular.1
      rw [hexchanges, List.getElem?_dropLast, if_pos]
      show i < xs.length - 1
      omega

/-! ## Replies to requests -/

namespace Source

variable {σ : Type} [Source σ] {files : FileTree} {g : TypeGraph}

/-- What is replied in a session is some reply to what was asked. -/
theorem exists_serve_of_replies : ∀ {s : σ} {xs : List Exchange},
    replies files g s (xs.map Exchange.request) = xs.map Exchange.reply →
    ∀ x ∈ xs, ∃ s' : σ, (serve files g s' x.request).1 = x.reply
  | _, [], _, _, hx => absurd hx List.not_mem_nil
  | s, y :: xs, h, x, hx => by
      rw [List.map_cons, List.map_cons, replies] at h
      obtain ⟨hhead, htail⟩ := List.cons.inj h
      rcases List.mem_cons.mp hx with rfl | hx
      · exact ⟨s, hhead⟩
      · exact exists_serve_of_replies htail x hx

end Source

namespace Transcript

variable {σ : Type} [Source σ] {files : FileTree} {g : TypeGraph} {D : Declarations}
  {sources ps : List σ} {q : σ} {T : Transcript} {t : Turn} {x : Exchange}

theorem Records.exists_serve (h : T.Records files g D sources) (ht : t ∈ T.turns)
    (hx : x ∈ t.exchanges) : ∃ s : σ, (Source.serve files g s x.request).1 = x.reply := by
  obtain ⟨i, hi⟩ := List.mem_iff_getElem?.mp hx
  have hlength : t.exchanges.length ≤ sources.length := by
    cases t with
    | first v xs => exact Nat.le_of_eq (h.regular _ ht).1
    | repeated name module => exact Nat.zero_le _
  obtain ⟨hlt, -⟩ := List.getElem?_eq_some_iff.mp hi
  have hs : sources[i]? = some sources[i] := List.getElem?_eq_getElem (by omega)
  have hmem : x ∈ exchangesWith T.turns i := List.mem_filterMap.mpr ⟨t, ht, hi⟩
  exact Source.exists_serve_of_replies (h.sessions hs).2.1 x hmem

theorem Records.reply_of_mark {v : Variable} (h : T.Records files g D sources) (ht : t ∈ T.turns)
    (hx : x ∈ t.exchanges) (hrequest : x.request = .mark v) : x.reply = .marked := by
  obtain ⟨s, hs⟩ := h.exists_serve ht hx
  rw [← hs, hrequest]
  rfl

theorem Records.reply_of_read {kind : Kind} {v : Variable} (h : T.Records files g D sources)
    (ht : t ∈ T.turns) (hx : x ∈ t.exchanges) (hrequest : x.request = .read kind v) :
    ∃ answer, x.reply = .answered answer := by
  obtain ⟨s, hs⟩ := h.exists_serve ht hx
  rw [← hs, hrequest]
  exact ⟨_, rfl⟩

/-! ## The pass without the last source -/

/-- The transcript as the sources but the last have it. -/
def earlier (T : Transcript) : Transcript :=
  ⟨T.started.dropLast, T.turns.map Turn.earlier, T.completed.dropLast⟩

/-- Without the exchanges with the last source a transcript is that of the other sources. -/
theorem Records.earlier (h : T.Records files g D (ps ++ [q])) :
    T.earlier.Records files g D ps := by
  have hregular : ∀ t ∈ T.turns, t.Regular g (ps.length + 1) := by
    simpa using h.regular
  have hstarted : T.started.length = ps.length + 1 := by simpa using h.started
  have hcompleted : T.completed.length = ps.length + 1 := by simpa using h.completed
  refine ⟨?_, ?_, by simp [Transcript.earlier, hstarted], by simp [Transcript.earlier, hcompleted],
    ?_⟩
  · rw [← h.turns, Transcript.earlier, List.map_map]
    exact List.map_congr_left fun t _ => t.step_earlier
  · intro t' ht'
    obtain ⟨t, ht, rfl⟩ := List.mem_map.mp ht'
    exact (hregular t ht).earlier
  · intro i s first last hs hfirst hlast
    have hi : i < ps.length := (List.getElem?_eq_some_iff.mp hs).1
    rw [Transcript.earlier, List.getElem?_dropLast, if_pos (by omega)] at hfirst hlast
    have hsource : (ps ++ [q])[i]? = some s := by rw [List.getElem?_append_left hi, hs]
    have hsession := h.replies i s first last hsource hfirst hlast
    rwa [← exchangesWith_earlier hregular hi] at hsession

/-! ## What becomes of a turn -/

/-- Where the other sources have settled the variable, the last one only marks its entry. -/
theorem Records.settled_earlier (h : T.Records files g D (ps ++ [q])) (ht : t ∈ T.turns)
    (hsettled : ¬ t.earlier.IsOpen g) :
    t.value? = t.earlier.value? ∧ t.report g = t.earlier.report g := by
  cases t with
  | repeated name module => exact ⟨rfl, rfl⟩
  | first v xs =>
      have hregular : (Turn.first v xs).Regular g (ps.length + 1) := by simpa using h.regular _ ht
      obtain ⟨ys, x, rfl⟩ := hregular.exists_concat
      rw [Turn.earlier, List.dropLast_concat] at hsettled ⊢
      have hreply : x.reply = .marked :=
        h.reply_of_mark ht (by simp [Turn.exchanges]) ((hregular.2 ys x [] rfl).2 hsettled)
      have hrefusal : Reply.refusal? x.reply = none := by rw [hreply]; rfl
      have hvalue : Reply.value? x.reply = none := by rw [hreply]; rfl
      simp [Turn.value?, Turn.report, List.findSome?_append, hrefusal, hvalue]

/-- Where the other sources have nothing, the last one is asked, and its answer is what comes
of the variable. -/
theorem Records.open_earlier (h : T.Records files g D (ps ++ [q])) (ht : t ∈ T.turns)
    (hopen : t.earlier.IsOpen g) : ∃ v xs kind answer,
      t = .first v (xs ++ [⟨.read kind v, .answered answer⟩]) ∧ Kind.ofType? g v.type = some kind
        ∧ t.earlier.value? = none ∧ t.earlier.report g = Pass.report v (.ok none)
        ∧ t.value? = (Reply.answered answer).value?.map (fun value => (v.id, value))
        ∧ t.report g = Pass.report v answer := by
  cases t with
  | repeated name module => exact hopen.elim
  | first v xs =>
      have hregular : (Turn.first v xs).Regular g (ps.length + 1) := by simpa using h.regular _ ht
      obtain ⟨ys, x, rfl⟩ := hregular.exists_concat
      rw [Turn.earlier, List.dropLast_concat] at hopen ⊢
      obtain ⟨kind, hkind, hrequest⟩ := (hregular.2 ys x [] rfl).1 hopen
      obtain ⟨answer, hreply⟩ := h.reply_of_read ht (by simp [Turn.exchanges]) hrequest
      obtain ⟨hconf, hnothing⟩ := hopen
      have hrefusals : ys.findSome? (·.reply.refusal?) = none :=
        List.findSome?_eq_none_iff.mpr fun y hy => by rw [hnothing y hy]; rfl
      have hvalues : ys.findSome? (·.reply.value?) = none :=
        List.findSome?_eq_none_iff.mpr fun y hy => by rw [hnothing y hy]; rfl
      refine ⟨v, ys, kind, answer, ?_, hkind, ?_, ?_, ?_, ?_⟩
      · rw [← hrequest, ← hreply]
      · simp [Turn.value?, hvalues]
      · simp [Turn.report, hconf, hrefusals, hvalues, Pass.report]
      · simp [Turn.value?, List.findSome?_append, hvalues, hreply]
      · simp only [Turn.report, hconf, if_true, List.findSome?_append, hrefusals, hvalues,
          Option.none_or, List.findSome?_singleton, hreply]
        cases answer with
        | ok found => cases found <;> rfl
        | error d => rfl

/-- A refusal is all that comes of its variable. -/
theorem Records.refused {d : Diagnostic} (h : T.Records files g D sources) (ht : t ∈ T.turns)
    (hx : x ∈ t.exchanges) (hd : x.reply = .answered (.error d)) :
    t.value? = none ∧ t.report g = [d] := by
  cases t with
  | repeated name module => exact absurd hx List.not_mem_nil
  | first v xs =>
      have hregular := h.regular _ ht
      rcases hregular.request hx with hmark | ⟨kind, before, after, -, hconf, hsplit, hbefore⟩
      · rw [h.reply_of_mark ht hx hmark] at hd
        cases hd
      -- behind a refusal sources are only marked
      have hafter : ∀ y ∈ after, y.reply = .marked := by
        intro y hy
        obtain ⟨first, last, rfl⟩ := List.append_of_mem hy
        obtain ⟨-, hmark⟩ := hregular.2 (before ++ x :: first) y last (by simp [hsplit])
        refine h.reply_of_mark ht (by simp [Turn.exchanges, hsplit]) (hmark fun hasked => ?_)
        cases hd.symm.trans (hasked.2 x (by simp))
      have hrefusal : xs.findSome? (·.reply.refusal?) = some d := by
        have hnone : before.findSome? (·.reply.refusal?) = none :=
          List.findSome?_eq_none_iff.mpr fun y hy => by rw [hbefore y hy]; rfl
        rw [hsplit, List.findSome?_append, hnone, List.findSome?_cons, hd]
        rfl
      have hvalue : xs.findSome? (·.reply.value?) = none := by
        refine List.findSome?_eq_none_iff.mpr fun y hy => ?_
        rw [hsplit, List.mem_append, List.mem_cons] at hy
        rcases hy with hy | rfl | hy
        · rw [hbefore y hy]; rfl
        · rw [hd]; rfl
        · rw [hafter y hy]; rfl
      exact ⟨by simp [Turn.value?, hvalue], by simp [Turn.report, hconf, hrefusal]⟩

/-! ## Values by their keys -/

theorem sublist_filterMap {α β : Type} {f f' : α → Option β} : ∀ {l : List α},
    (∀ a ∈ l, f a = none ∨ f a = f' a) → (l.filterMap f).Sublist (l.filterMap f')
  | [], _ => .slnil
  | a :: l, h => by
      have htail := sublist_filterMap fun b hb => h b (List.mem_cons_of_mem _ hb)
      rw [List.filterMap_cons, List.filterMap_cons]
      rcases h a (List.mem_cons_self ..) with hnone | hsame
      · rw [hnone]
        cases f' a with
        | none => exact htail
        | some b => exact htail.cons b
      · rw [hsame]
        cases f' a with
        | none => exact htail
        | some b => exact htail.cons_cons b

/-- What was met before is not recorded again. -/
theorem get?_values_of_seen {id : VariableId} : ∀ {turns : List Turn} {seen : List VariableId}
    {vs : List Variable}, turns.map Turn.step = Declarations.inOrder seen vs → id ∈ seen →
      Entries.get? (turns.filterMap Turn.value?) id = none
  | [], _, _, _, _ => rfl
  | _ :: _, _, [], h, _ => nomatch h
  | t :: turns, seen, v :: vs, h, hid => by
      obtain ⟨hhead, htail⟩ := List.cons.inj h
      have hrest := get?_values_of_seen htail (List.mem_cons_of_mem _ hid)
      rw [List.filterMap_cons]
      cases hvalue : t.value? with
      | none => exact hrest
      | some e =>
          cases t with
          | repeated name module => cases hvalue
          | first w xs =>
              obtain ⟨value, -, rfl⟩ := Option.map_eq_some_iff.mp hvalue
              have hnew : v.id ∉ seen := fun hmem => by
                rw [if_pos hmem] at hhead
                cases hhead
              rw [if_neg hnew] at hhead
              obtain rfl := Step.first.inj hhead
              have hne : w.id ≠ id := fun heq => hnew (heq ▸ hid)
              simp only [Entries.get?, if_neg hne, hrest]

/-- A variable has the value that its turn tells. -/
theorem get?_values_of_first {v : Variable} {xs : List Exchange} : ∀ {turns : List Turn}
    {seen : List VariableId} {vs : List Variable},
    turns.map Turn.step = Declarations.inOrder seen vs → .first v xs ∈ turns →
      v.id ∉ seen ∧ Entries.get? (turns.filterMap Turn.value?) v.id
        = (Turn.first v xs).value?.map Prod.snd
  | [], _, _, _, hv => absurd hv List.not_mem_nil
  | _ :: _, _, [], h, _ => nomatch h
  | t :: turns, seen, w :: vs, h, hv => by
      obtain ⟨hhead, htail⟩ := List.cons.inj h
      rw [List.filterMap_cons]
      rcases List.mem_cons.mp hv with rfl | hv
      · have hnew : w.id ∉ seen := fun hmem => by
          rw [if_pos hmem] at hhead
          cases hhead
        rw [if_neg hnew] at hhead
        obtain rfl := Step.first.inj hhead
        refine ⟨hnew, ?_⟩
        have hrest := get?_values_of_seen htail (List.mem_cons_self ..)
        cases hvalue : (Turn.first v xs).value? with
        | none => exact hrest
        | some e =>
            obtain ⟨value, -, rfl⟩ := Option.map_eq_some_iff.mp hvalue
            simp [Entries.get?]
      · obtain ⟨hnew, hrest⟩ := get?_values_of_first htail hv
        rw [List.mem_cons, not_or] at hnew
        refine ⟨hnew.2, ?_⟩
        cases hvalue : t.value? with
        | none => exact hrest
        | some e =>
            cases t with
            | repeated name module => cases hvalue
            | first u ys =>
                obtain ⟨value, -, rfl⟩ := Option.map_eq_some_iff.mp hvalue
                have hu : u.id = w.id := by
                  by_cases hmem : w.id ∈ seen
                  · rw [if_pos hmem] at hhead
                    cases hhead
                  · rw [if_neg hmem] at hhead
                    rw [Step.first.inj hhead]
                have hne : u.id ≠ v.id := fun heq => hnew.1 (heq ▸ hu)
                simp only [Entries.get?, if_neg hne, hrest]

end Transcript

namespace Pass

variable {σ : Type} [Source σ]

/-! ## The two passes -/

/-- The transcript of a pass tells its values, its log and its calls. -/
theorem exists_records (files : FileTree) (g : TypeGraph) {D : Declarations}
    (hD : D.keys.Nodup) (sources : List σ) :
    ∃ T : Transcript, T.Records files g D sources ∧ (run files g D sources).values = T.values
      ∧ (run files g D sources).log = T.log g
      ∧ (run files g D sources).calls = T.calls sources.length := by
  obtain ⟨turns, hturns, h⟩ := told_resolved files g hD sources
  refine ⟨⟨sources.map fun s => (Source.start files s).1, turns,
    (resolved files g D sources).lastReports⟩, ⟨hturns, h.regular, by simp,
    by simp [lastReports, h.length], fun i s first last hs hfirst hlast => ?_⟩, ?_, ?_, ?_⟩
  · obtain rfl : (Source.start files s).1 = first := by simpa [hs] using hfirst
    simp only [lastReports, List.getElem?_map, h.states i s hs] at hlast
    rw [Source.replies_append, h.replies i s hs, ← Option.some.inj hlast]
    rfl
  · rw [values_run, h.values]
    rfl
  · rw [log_run, h.log]
    rfl
  · rw [run_eq]
    simp [callAll, h.calls, h.length, Transcript.calls, Function.comp_def]

omit [Source σ] in
/-- The calls to a source are its start, one call in each turn and its completion. -/
theorem callsTo_of_calls {p : Pass σ} {T : Transcript} {n i : Nat} (h : p.calls = T.calls n)
    (hi : i < n) : p.callsTo i
      = .start :: (exchangesWith T.turns i).map (·.request.action) ++ [.complete] := by
  have hturns : ((T.turns.flatMap Turn.calls).filter (·.source = i)).map Call.action
      = (exchangesWith T.turns i).map (·.request.action) := by
    induction T.turns with
    | nil => rfl
    | cons t turns ih =>
        have hturn := filter_zipIdx (t.exchanges.map (·.request.action)) 0 i
        rw [Nat.zero_add, List.zipIdx_map, List.map_map] at hturn
        rw [List.flatMap_cons, List.filter_append, List.map_append, ih, exchangesWith_cons,
          List.map_append]
        congr 1
        refine hturn.trans ?_
        rw [List.getElem?_map]
        cases t.exchanges[i]? <;> rfl
  rw [callsTo, h, Transcript.calls, List.filter_append, List.filter_append, List.map_append,
    List.map_append, callsTo_each .start hi, callsTo_each .complete hi, hturns]
  rfl

/-- **Sources of lower priority.** A source is added behind all others. The transcript of the
pass is that of the pass without the source and one more exchange in every turn, so each of
the others gets the same calls with the same requests and gives the same replies. All that was
recorded is recorded still. A variable that a source has refused has no value, and the refusal
is all that is logged for it, in both passes. Only where all others have nothing is the new
source asked, and its answer takes the place of the report that there is no value. -/
theorem run_append_source (files : FileTree) (g : TypeGraph) {D : Declarations}
    (hD : D.keys.Nodup) (ps : List σ) (q : σ) :
    let p := run files g D ps
    let p' := run files g D (ps ++ [q])
    ∃ T : Transcript, T.Records files g D (ps ++ [q]) ∧ T.earlier.Records files g D ps
      ∧ (p'.values = T.values ∧ p'.log = T.log g)
      ∧ (p.values = T.earlier.values ∧ p.log = T.earlier.log g)
      ∧ (∀ i < ps.length, p'.callsTo i = p.callsTo i
        ∧ exchangesWith T.turns i = exchangesWith T.earlier.turns i)
      ∧ p.values.Sublist p'.values
      ∧ (∀ v xs, .first v xs ∈ T.turns →
        p'.values.get? v.id = (Turn.first v xs).value?.map Prod.snd
          ∧ p.values.get? v.id = (Turn.first v xs).earlier.value?.map Prod.snd)
      ∧ ∀ t ∈ T.turns, t.Undisturbed g := by
  intro p p'
  obtain ⟨T, hT, hvalues', hlog', hcalls'⟩ := exists_records files g hD (ps ++ [q])
  obtain ⟨T₀, hT₀, hvalues, hlog, hcalls⟩ := exists_records files g hD ps
  obtain rfl : T.earlier = T₀ := hT₀.unique hT.earlier
  have hregular : ∀ t ∈ T.turns, t.Regular g (ps.length + 1) := by simpa using hT.regular
  have hundisturbed : ∀ t ∈ T.turns, t.Undisturbed g := by
    refine fun t ht => ⟨fun x hx d hd => ⟨?_, ?_⟩, hT.settled_earlier ht, hT.open_earlier ht⟩
    · exact hT.earlier.refused (List.mem_map_of_mem ht) hx hd
    · rw [t.exchanges_earlier] at hx
      exact hT.refused ht ((List.dropLast_sublist _).subset hx) hd
  refine ⟨T, hT, hT.earlier, ⟨hvalues', hlog'⟩, ⟨hvalues, hlog⟩, fun i hi => ?_, ?_,
    fun v xs hv => ⟨?_, ?_⟩, hundisturbed⟩
  · have hexchanges : exchangesWith T.turns i = exchangesWith T.earlier.turns i :=
      (exchangesWith_earlier hregular hi).symm
    have hi' : i < (ps ++ [q]).length := by
      rw [List.length_append]
      exact Nat.lt_add_right _ hi
    exact ⟨by rw [callsTo_of_calls hcalls' hi', callsTo_of_calls hcalls hi, hexchanges], hexchanges⟩
  · show (run files g D ps).values.Sublist (run files g D (ps ++ [q])).values
    rw [hvalues, hvalues', Transcript.values, Transcript.values, Transcript.earlier,
      List.filterMap_map]
    refine Transcript.sublist_filterMap fun t ht => ?_
    by_cases hopen : t.earlier.IsOpen g
    · obtain ⟨-, -, -, -, -, -, hnone, -⟩ := (hundisturbed t ht).unsettled hopen
      exact Or.inl hnone
    · exact Or.inr ((hundisturbed t ht).settled hopen).1.symm
  · show Entries.get? (run files g D (ps ++ [q])).values v.id = _
    rw [hvalues']
    exact (Transcript.get?_values_of_first hT.turns hv).2
  · show Entries.get? (run files g D ps).values v.id = _
    rw [hvalues]
    exact (Transcript.get?_values_of_first hT.earlier.turns (List.mem_map_of_mem hv)).2

/-- With the document behind the arguments `z` gains a value. What is wrong with the argument
for `y` is reported as before, though the document has a value for it. -/
theorem run_append_document :
    let m : ModuleId := ⟨"o", "m", "1"⟩
    let D : Declarations := [(m, [⟨"x", .primitive .int, true⟩, ⟨"y", .primitive .int, true⟩,
      ⟨"z", .primitive .int, true⟩, ⟨"w", .primitive .int, true⟩])]
    let ps := [ConfigSource.commandLine (.ofArguments m ["-Cx=1", "-Cy=no"])]
    let q := ConfigSource.document (.ofOrigin m (.content "[m]\nx = 2\ny = 3\nz = 4\n"))
    D.keys.Nodup ∧ ∃ T : Transcript, T.Records ⟨[]⟩ .empty D (ps ++ [q])
      ∧ T.earlier.Records ⟨[]⟩ .empty D ps
      ∧ T.earlier.values.keys = [⟨m, "x"⟩] ∧ T.values.keys = [⟨m, "x"⟩, ⟨m, "z"⟩]
      ∧ T.earlier.log .empty = [.error (.typeMismatch "y" "int" "no") none,
        .error (.missingValue "z") none, .error (.missingValue "w") none]
      ∧ T.log .empty = [.error (.typeMismatch "y" "int" "no") none,
        .error (.missingValue "w") none] := by
  intro m D ps q
  have hD : D.keys.Nodup := by decide
  obtain ⟨T, hT, hearlier, ⟨hvalues', hlog'⟩, ⟨hvalues, hlog⟩, -⟩ :=
    run_append_source ⟨[]⟩ .empty hD ps q
  refine ⟨hD, T, hT, hearlier, ?_, ?_, hlog.symm.trans (by decide +kernel),
    hlog'.symm.trans (by decide +kernel)⟩
  · rw [← hvalues]
    decide +kernel
  · rw [← hvalues']
    decide +kernel

end Pass

end Configurable
