import Configurable.TypeGraph.Render
import Configurable.TypeGraph.Effective

/-!
# Where the links of intersections lead

The effective type is looked for in so many steps as the graph has types, and in a graph whose
definitions refer to each other in any way the links of intersections may go in a circle.
Where they do not, they end after fewer steps: on the way to an end no definition is met twice
(`le_unwritten_of_ends`), since from there on the way would be the same, and so without an end.
So the bound cuts no way short (`follow_of_ends`), and a way that has no end is left at one of
the intersections on it.
-/

namespace Configurable.TypeGraph

variable {g : TypeGraph} {t u : TypeRef} {n m steps : Nat}

/-- The type whose shape the values of an intersection have. -/
def behind? (g : TypeGraph) (t : TypeRef) : Option TypeRef :=
  match g.get t with
  | .intersection _ effective => some effective
  | _ => none

/-- Where so many links lead, if there are so many. -/
def behindBy? (g : TypeGraph) : Nat → TypeRef → Option TypeRef
  | 0, t => some t
  | n + 1, t => (g.behind? t).bind (g.behindBy? n)

def IsIntersection (g : TypeGraph) (t : TypeRef) : Prop :=
  ∃ constituents effective, g.get t = .intersection constituents effective

/-- The links from the type end at the other one, after so many. -/
structure Ends (g : TypeGraph) (t : TypeRef) (n : Nat) (u : TypeRef) : Prop where
  leads : g.behindBy? n t = some u
  done : ¬ g.IsIntersection u

/-! ## Single links -/

theorem behind?_eq_none_iff : g.behind? t = none ↔ ¬ g.IsIntersection t := by
  unfold behind? IsIntersection
  split
  · next constituents effective hdef => exact iff_of_false nofun fun h => h ⟨_, _, hdef⟩
  · next hother => exact iff_of_true rfl fun ⟨_, _, hdef⟩ => hother _ _ hdef

theorem isIntersection_of_behind? (h : g.behind? t = some u) : g.IsIntersection t := by
  unfold behind? at h
  split at h
  · next constituents effective hdef => exact ⟨_, _, hdef⟩
  · cases h

/-- Only a definition of the graph can be an intersection. -/
theorem IsIntersection.index (h : g.IsIntersection t) : ∃ i < g.defs.size, t = .defined i := by
  obtain ⟨constituents, effective, hdef⟩ := h
  exact exists_index (by simp [hdef]) (by simp [hdef])

theorem follow_of_not_isIntersection (h : ¬ g.IsIntersection t) : g.follow steps t = t := by
  cases steps with
  | zero => rfl
  | succ steps =>
      unfold follow
      split
      · next constituents effective hdef => exact absurd ⟨_, _, hdef⟩ h
      · rfl

theorem follow_succ (h : g.behind? t = some u) :
    g.follow (steps + 1) t = if u = t then t else g.follow steps u := by
  unfold behind? at h
  split at h
  · next constituents effective hdef =>
    obtain rfl := Option.some.inj h
    rw [follow, hdef]
  · cases h

/-! ## Ways -/

theorem behindBy?_succ : g.behindBy? (n + 1) t = (g.behind? t).bind (g.behindBy? n) := rfl

/-- A type that is behind itself is all there is on the way. -/
theorem behindBy?_self (h : g.behind? t = some t) (n : Nat) : g.behindBy? n t = some t := by
  induction n with
  | zero => rfl
  | succ n ih => rw [behindBy?_succ, h, Option.bind_some, ih]

theorem Ends.zero (h : g.Ends t 0 u) : t = u := Option.some.inj h.leads

theorem Ends.succ (h : g.Ends t (n + 1) u) : ∃ w, g.behind? t = some w ∧ g.Ends w n u := by
  obtain ⟨w, hw, hleads⟩ := Option.bind_eq_some_iff.mp h.leads
  exact ⟨w, hw, hleads, h.done⟩

theorem Ends.isIntersection (h : g.Ends t (n + 1) u) : g.IsIntersection t := by
  obtain ⟨w, hw, -⟩ := h.succ
  exact isIntersection_of_behind? hw

/-- All that is met before the end is an intersection. -/
theorem Ends.before : ∀ {n m : Nat} {t : TypeRef}, g.Ends t n u → m < n →
    ∃ w, g.behindBy? m t = some w ∧ g.IsIntersection w
  | _ + 1, 0, t, h, _ => ⟨t, rfl, h.isIntersection⟩
  | n + 1, m + 1, t, h, hlt => by
      obtain ⟨w, hw, hends⟩ := h.succ
      rw [behindBy?_succ, hw]
      exact hends.before (Nat.lt_of_succ_lt_succ hlt)

/-- There is one end, and one number of links that leads to it. -/
theorem Ends.unique {w : TypeRef} : ∀ {n m : Nat} {t : TypeRef}, g.Ends t n u → g.Ends t m w →
    n = m ∧ u = w
  | 0, 0, _, h, h' => ⟨rfl, h.zero.symm.trans h'.zero⟩
  | 0, m + 1, t, h, h' => absurd h'.isIntersection (h.zero ▸ h.done)
  | n + 1, 0, t, h, h' => absurd h.isIntersection (h'.zero ▸ h'.done)
  | n + 1, m + 1, t, h, h' => by
      obtain ⟨v, hv, hends⟩ := h.succ
      obtain ⟨v', hv', hends'⟩ := h'.succ
      obtain rfl := Option.some.inj (hv.symm.trans hv')
      obtain ⟨rfl, rfl⟩ := hends.unique hends'
      exact ⟨rfl, rfl⟩

/-- A way to an end meets every definition once. `met` are those that it met before, each of
them further from the end. -/
theorem le_unwritten_of_ends : ∀ {n : Nat} {t : TypeRef} (met : List Nat), g.Ends t n u →
    (∀ i ∈ met, ∃ m > n, g.Ends (.defined i) m u) → n ≤ g.unwritten met
  | 0, _, _, _, _ => Nat.zero_le _
  | n + 1, t, met, h, hmet => by
      obtain ⟨i, hi, rfl⟩ := h.isIntersection.index
      have hnew : i ∉ met := by
        intro hmem
        obtain ⟨m, hm, hends⟩ := hmet i hmem
        exact absurd (hends.unique h).1 (Nat.ne_of_gt hm)
      obtain ⟨w, -, hends⟩ := h.succ
      have hrest : n ≤ g.unwritten (i :: met) := by
        refine le_unwritten_of_ends (i :: met) hends fun j hj => ?_
        rcases List.mem_cons.mp hj with rfl | hj
        · exact ⟨n + 1, Nat.lt_succ_self n, h⟩
        · obtain ⟨m, hm, hends⟩ := hmet j hj
          exact ⟨m, Nat.lt_of_succ_lt hm, hends⟩
      exact Nat.lt_of_le_of_lt hrest (unwritten_cons_lt hi hnew)

theorem Ends.le_size (h : g.Ends t n u) : n ≤ g.defs.size := by
  refine Nat.le_trans (le_unwritten_of_ends [] h (by simp)) ?_
  exact Nat.le_trans (List.length_filter_le _ _) (by simp)

/-! ## Following a way -/

/-- Steps enough to come to the end lead to it. -/
theorem follow_of_ends : ∀ {n steps : Nat} {t : TypeRef}, g.Ends t n u → n ≤ steps →
    g.follow steps t = u
  | 0, steps, t, h, _ => by
      obtain rfl := h.zero
      exact follow_of_not_isIntersection h.done
  | n + 1, steps + 1, t, h, hle => by
      obtain ⟨w, hw, hends⟩ := h.succ
      rw [follow_succ hw, follow_of_ends hends (Nat.le_of_succ_le_succ hle)]
      split
      · next hself =>
        -- there is no end behind a type that is behind itself
        subst hself
        exact Option.some.inj ((behindBy?_self hw _).symm.trans hends.leads)
      · rfl

/-- Every step is a link. -/
theorem exists_behindBy?_follow : ∀ (steps : Nat) (t : TypeRef),
    ∃ n, g.behindBy? n t = some (g.follow steps t)
  | 0, _ => ⟨0, rfl⟩
  | steps + 1, t => by
      cases hbehind : g.behind? t with
      | none =>
          rw [follow_of_not_isIntersection (behind?_eq_none_iff.mp hbehind)]
          exact ⟨0, rfl⟩
      | some w =>
          rw [follow_succ hbehind]
          split
          · exact ⟨0, rfl⟩
          · obtain ⟨n, hn⟩ := exists_behindBy?_follow steps w
            exact ⟨n + 1, by rw [behindBy?_succ, hbehind, Option.bind_some, hn]⟩

/-- **The effective type is the end of the links if there is one.** In every graph, whatever its
definitions refer to: if the links of intersections lead from a type to one that is no
intersection, that is the first such on the way, and the effective type; looking further does not
change it, neither from there nor with more steps. Otherwise the effective type is one of the
intersections on the way. -/
theorem effective_ends (g : TypeGraph) (t : TypeRef) :
    (∀ n u, g.behindBy? n t = some u → ¬ g.IsIntersection u →
        g.effective t = u ∧ g.effective (g.effective t) = g.effective t
          ∧ (∀ m < n, ∃ w, g.behindBy? m t = some w ∧ g.IsIntersection w)
          ∧ n ≤ g.size ∧ ∀ steps ≥ g.size, g.follow steps t = u)
      ∧ ((∀ n u, g.behindBy? n t = some u → g.IsIntersection u) →
        g.IsIntersection (g.effective t) ∧ ∃ n, g.behindBy? n t = some (g.effective t)) := by
  constructor
  · intro n u hleads hdone
    have hends : g.Ends t n u := ⟨hleads, hdone⟩
    have hle : n ≤ g.size := Nat.le_trans hends.le_size (Nat.le_add_left _ _)
    have heffective : g.effective t = u := follow_of_ends hends hle
    refine ⟨heffective, ?_, fun m hm => hends.before hm, hle, fun steps hsteps => ?_⟩
    · rw [heffective]
      exact follow_of_not_isIntersection hdone
    · exact follow_of_ends hends (Nat.le_trans hle hsteps)
  · intro hendless
    obtain ⟨n, hn⟩ := exists_behindBy?_follow (g := g) g.size t
    exact ⟨hendless n _ hn, n, hn⟩

/-- A link forwards to a later definition and one back to an earlier, beside an intersection
that is behind itself. -/
theorem effective_ends_forwards :
    let g : TypeGraph := ⟨#[.array (.primitive .int),
      .intersection [.defined 2, .readonly] (.defined 2),
      .intersection [.defined 0, .readonly] (.defined 0), .intersection [.defined 3] (.defined 3)]⟩
    g.effective (.defined 1) = .defined 0
      ∧ g.effective (g.effective (.defined 1)) = g.effective (.defined 1)
      ∧ g.IsIntersection (g.effective (.defined 3)) := by
  intro g
  have hdone : ¬ g.IsIntersection (.defined 0) := by
    rintro ⟨constituents, effective, hdef⟩
    cases hdef
  obtain ⟨heffective, hagain, -⟩ := (effective_ends g (.defined 1)).1 2 (.defined 0) rfl hdone
  refine ⟨heffective, hagain, ((effective_ends g (.defined 3)).2 fun n u hleads => ?_).1⟩
  have hself : g.behindBy? n (.defined 3) = some (.defined 3) := behindBy?_self rfl n
  obtain rfl := Option.some.inj (hself.symm.trans hleads)
  exact ⟨_, _, rfl⟩

end Configurable.TypeGraph
