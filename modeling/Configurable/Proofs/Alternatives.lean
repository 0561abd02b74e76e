import Configurable.Conversion.Tree
import Configurable.Proofs.Conforms
import Mathlib.Logic.Relation

/-!
# The choice among the members of a union

A value is read against the first member of a union that takes it, and a member that is a
union itself stands for its own members. `Chosen` says what is taken, for any way of taking
values that are no unions: the members before the one that takes the value have to be
`Excluded`, each of them finally. Unions that contain themselves may have neither; where
following the members ends (`Readable`), one of the two holds (`excluded_or_chosen`), and
trying all alternatives in their order finds what is chosen (`findSome?_alternatives_iff`).
-/

namespace Configurable

namespace TypeGraph

variable {g : TypeGraph} {t u : TypeRef} {members : List TypeRef}

/-! ## Types whose unions end -/

def IsUnion (g : TypeGraph) (t : TypeRef) : Prop := ∃ members, g.effectiveDef t = .union members

/-- The first is a member of the second, which is a union. -/
def IsMember (g : TypeGraph) (m t : TypeRef) : Prop :=
  ∃ members, g.effectiveDef t = .union members ∧ m ∈ members

/-- Values of the second may have to be read against the first, whatever they are: it is a
member, the element type or the constraint of a map. Types of fields are not among them,
since what they may be is checked when there is a field. -/
def IsPart (g : TypeGraph) (u t : TypeRef) : Prop :=
  match g.effectiveDef t with
  | .union members => u ∈ members
  | .array element => u = element
  | .map constraint _ => u = constraint
  | _ => False

/-- Going from unions to their members ends, for the type and all its parts. -/
def Readable (g : TypeGraph) (t : TypeRef) : Prop :=
  ∀ u, Relation.ReflTransGen g.IsPart u t → Acc g.IsMember u

theorem IsMember.isPart (h : g.IsMember u t) : g.IsPart u t := by
  obtain ⟨members, hdef, hmem⟩ := h
  unfold IsPart
  rw [hdef]
  exact hmem

theorem Readable.acc (h : g.Readable t) : Acc g.IsMember t := h t .refl

theorem Readable.part (h : g.Readable t) (hu : g.IsPart u t) : g.Readable u :=
  fun w hw => h w (hw.tail hu)

theorem acc_of_not_isUnion (h : ¬ g.IsUnion t) : Acc g.IsMember t :=
  .intro t fun _ ⟨members, hdef, _⟩ => absurd ⟨members, hdef⟩ h

theorem not_isUnion_of_isPrimitive (h : g.isPrimitive t = true) : ¬ g.IsUnion t := by
  rintro ⟨members, hdef⟩
  simp [isPrimitive, primitive?, hdef] at h

theorem isPrimitive_of_isMember (h : g.isPrimitiveUnion t = true) (hu : g.IsMember u t) :
    g.isPrimitive u = true := by
  obtain ⟨members, hdef, hmem⟩ := hu
  simp only [isPrimitiveUnion, hdef, Bool.and_eq_true, List.all_eq_true] at h
  exact h.2 u hmem

/-- Whatever can be configured, with or without maps. -/
def Admitted (g : TypeGraph) (t : TypeRef) : Prop := ∃ maps, g.isConfigurableWith maps t = true

theorem admitted_of_isPrimitive (h : g.isPrimitive t = true) : g.Admitted t := by
  obtain ⟨p, hp⟩ := Option.isSome_iff_exists.mp h
  exact ⟨false, by simp [isConfigurableWith, primitive_of_primitive? hp]⟩

theorem Admitted.acc (h : g.Admitted t) : Acc g.IsMember t := by
  obtain ⟨maps, hconf⟩ := h
  by_cases hunion : g.IsUnion t
  · obtain ⟨members, hdef⟩ := hunion
    have hprimitive : g.isPrimitiveUnion t = true := by
      simpa [isConfigurableWith, hdef] using hconf
    exact .intro t fun u hu =>
      acc_of_not_isUnion (not_isUnion_of_isPrimitive (isPrimitive_of_isMember hprimitive hu))
  · exact acc_of_not_isUnion hunion

theorem Admitted.part (h : g.Admitted t) (hu : g.IsPart u t) : g.Admitted u := by
  obtain ⟨maps, hconf⟩ := h
  unfold IsPart at hu
  split at hu
  · next members hdef =>
    have hprimitive : g.isPrimitiveUnion t = true := by
      simpa [isConfigurableWith, hdef] using hconf
    exact admitted_of_isPrimitive (isPrimitive_of_isMember hprimitive ⟨members, hdef, hu⟩)
  · next element hdef =>
    subst hu
    simp only [isConfigurableWith, hdef, Bool.or_eq_true] at hconf
    obtain (hprimitive | hunion) | hrecord := hconf
    · exact admitted_of_isPrimitive hprimitive
    · refine ⟨false, ?_⟩
      have hkeep := hunion
      unfold isPrimitiveUnion at hunion
      split at hunion
      · next hmembers => simp only [isConfigurableWith, hmembers, hkeep]
      · cases hunion
    · obtain ⟨r, hr⟩ := Option.isSome_iff_exists.mp hrecord
      exact ⟨false, by simp [isConfigurableWith, record_of_record? hr]⟩
  · next constraint readonly hdef =>
    subst hu
    simp only [isConfigurableWith, hdef, Bool.and_eq_true] at hconf
    exact admitted_of_isPrimitive hconf.2
  · exact hu.elim

/-- What can be configured can be read: its unions are of primitives. -/
theorem Admitted.readable (h : g.Admitted t) : g.Readable t := by
  intro u hu
  refine Admitted.acc ?_
  induction hu using Relation.ReflTransGen.head_induction_on with
  | refl => exact h
  | head hpart _ ih => exact ih.part hpart

/-! ## How deep unions are inside one another -/

/-- Following members from the type takes fewer steps than this. -/
def Nests (g : TypeGraph) : Nat → TypeRef → Prop
  | 0, _ => False
  | depth + 1, t => ∀ m, g.IsMember m t → g.Nests depth m

theorem Nests.mono : ∀ {depth depth' : Nat} {t : TypeRef}, depth ≤ depth' → g.Nests depth t →
    g.Nests depth' t
  | _ + 1, _ + 1, _, hle, h => fun m hm => (h m hm).mono (Nat.le_of_succ_le_succ hle)

theorem index_of_isUnion (h : g.IsUnion t) : ∃ i < g.defs.size, g.effective t = .defined i := by
  obtain ⟨members, hdef⟩ := h
  unfold effectiveDef at hdef
  exact exists_index (by simp [hdef]) (by simp [hdef])

theorem not_of_acc {r : TypeRef → TypeRef → Prop} (h : Acc r t) : ¬ r t t := by
  induction h with
  | intro t _ ih => exact fun hself => ih t hself hself

/-- Following members ends only if no definition is met twice on the way, which bounds the
number of steps. `met` are the unions on the way to the type. -/
theorem nests_of_acc (h : Acc g.IsMember t) : ∀ met : List Nat,
    (∀ i ∈ met, ∃ a, g.effective a = .defined i ∧ Relation.TransGen g.IsMember t a) →
    g.Nests (g.unwritten met + 1) t := by
  induction h with
  | intro t hacc ih =>
      intro met hmet m hm
      have hunion : g.IsUnion t := by
        obtain ⟨members, hdef, -⟩ := hm
        exact ⟨members, hdef⟩
      obtain ⟨i, hi, heffective⟩ := index_of_isUnion hunion
      have hnew : i ∉ met := by
        intro hmem
        obtain ⟨a, ha, hway⟩ := hmet i hmem
        have hsame : ∀ u, g.IsMember u a → g.IsMember u t := by
          rintro u ⟨members, hdef, hu⟩
          refine ⟨members, ?_, hu⟩
          rwa [effectiveDef, heffective, ← ha]
        have hcycle : Relation.TransGen g.IsMember t t := by
          obtain ⟨b, htb, hba⟩ := Relation.TransGen.tail'_iff.mp hway
          exact Relation.TransGen.tail' htb (hsame b hba)
        exact not_of_acc (Acc.transGen (.intro t hacc)) hcycle
      have hnests : g.Nests (g.unwritten (i :: met) + 1) m := by
        refine ih m hm _ fun j hj => ?_
        rcases List.mem_cons.mp hj with rfl | hj
        · exact ⟨t, heffective, .single hm⟩
        · obtain ⟨a, ha, hway⟩ := hmet j hj
          exact ⟨a, ha, .head hm hway⟩
      exact hnests.mono (unwritten_cons_lt hi hnew)

theorem Readable.nests (h : g.Readable t) : g.Nests (g.size + 1) t := by
  have hle : g.unwritten [] ≤ g.size :=
    Nat.le_trans (List.length_filter_le _ _) (by simp [size])
  exact (nests_of_acc h.acc [] (by simp)).mono (Nat.succ_le_succ hle)

/-! ## What is chosen -/

/-- No member takes a value. `Takes` says which values the types that are no unions take. -/
inductive Excluded (g : TypeGraph) (Takes : TypeRef → Value → Prop) : TypeRef → Prop
  | single {t : TypeRef} : ¬ g.IsUnion t → (∀ v, ¬ Takes t v) → Excluded g Takes t
  | union {t : TypeRef} {members : List TypeRef} : g.effectiveDef t = .union members →
      (∀ m ∈ members, Excluded g Takes m) → Excluded g Takes t

/-- The first member that takes a value takes this one. -/
inductive Chosen (g : TypeGraph) (Takes : TypeRef → Value → Prop) : TypeRef → Value → Prop
  | single {t : TypeRef} {v : Value} : ¬ g.IsUnion t → Takes t v → Chosen g Takes t v
  | union {t m : TypeRef} {before after : List TypeRef} {v : Value} :
      g.effectiveDef t = .union (before ++ m :: after) →
      (∀ u ∈ before, Excluded g Takes u) → Chosen g Takes m v → Chosen g Takes t v

variable {Takes : TypeRef → Value → Prop} {v : Value}

theorem chosen_iff_takes (h : ¬ g.IsUnion t) : g.Chosen Takes t v ↔ Takes t v := by
  constructor
  · rintro (⟨-, htakes⟩ | ⟨hdef, -, -⟩)
    · exact htakes
    · exact absurd ⟨_, hdef⟩ h
  · exact .single h

theorem excluded_or_chosen (h : Acc g.IsMember t) :
    g.Excluded Takes t ∨ ∃ v, g.Chosen Takes t v := by
  classical
  induction h with
  | intro t _ ih =>
      by_cases hunion : g.IsUnion t
      · obtain ⟨members, hdef⟩ := hunion
        -- the first member that is not excluded decides
        cases hfirst : members.find? fun m => ¬ g.Excluded Takes m with
        | none =>
            refine Or.inl (.union hdef fun m hm => ?_)
            simpa using List.find?_eq_none.mp hfirst m hm
        | some m =>
            obtain ⟨hm, before, after, rfl, hbefore⟩ := List.find?_eq_some_iff_append.mp hfirst
            have hmem : m ∈ before ++ m :: after := by simp
            obtain ⟨v, hv⟩ := (ih m ⟨_, hdef, hmem⟩).resolve_left (by simpa using hm)
            exact Or.inr ⟨v, .union hdef (fun u hu => by simpa using hbefore u hu) hv⟩
      · by_cases htakes : ∃ v, Takes t v
        · obtain ⟨v, hv⟩ := htakes
          exact Or.inr ⟨v, .single hunion hv⟩
        · exact Or.inl (.single hunion fun v hv => htakes ⟨v, hv⟩)

theorem Excluded.not_chosen (h : g.Excluded Takes t) : ∀ v, ¬ g.Chosen Takes t v := by
  induction h with
  | single hunion htakes => exact fun v hv => htakes v ((chosen_iff_takes hunion).mp hv)
  | union hdef _ ih =>
      rintro v (⟨hunion, -⟩ | ⟨hdef', -, hm⟩)
      · exact hunion ⟨_, hdef⟩
      · obtain rfl := TypeDef.union.inj (hdef.symm.trans hdef')
        exact ih _ (by simp) v hm

theorem excluded_iff (h : Acc g.IsMember t) :
    g.Excluded Takes t ↔ ∀ v, ¬ g.Chosen Takes t v := by
  refine ⟨Excluded.not_chosen, fun hnone => ?_⟩
  exact (excluded_or_chosen h).resolve_right fun ⟨v, hv⟩ => hnone v hv

/-- A union takes what its first member takes that takes any value at all. -/
theorem chosen_union_iff (h : g.Readable t) (hdef : g.effectiveDef t = .union members) :
    g.Chosen Takes t v ↔ ∃ before m after, members = before ++ m :: after ∧
      g.Chosen Takes m v ∧ ∀ u ∈ before, ∀ w, ¬ g.Chosen Takes u w := by
  constructor
  · rintro (⟨hunion, -⟩ | ⟨hdef', hbefore, hm⟩)
    · exact absurd ⟨members, hdef⟩ hunion
    · exact ⟨_, _, _, TypeDef.union.inj (hdef.symm.trans hdef'), hm,
        fun u hu => (hbefore u hu).not_chosen⟩
  · rintro ⟨before, m, after, rfl, hm, hbefore⟩
    refine .union hdef (fun u hu => ?_) hm
    have hmember : g.IsMember u t := ⟨_, hdef, by simp [hu]⟩
    exact (excluded_iff (h.acc.inv hmember)).mpr (hbefore u hu)

/-! ## Trying the alternatives -/

theorem alternativesWithin_single (h : ¬ g.IsUnion t) (depth : Nat) :
    g.alternativesWithin (depth + 1) t = [t] := by
  unfold alternativesWithin
  split
  · next members hdef => exact absurd ⟨members, hdef⟩ h
  · rfl

theorem alternativesWithin_union (hdef : g.effectiveDef t = .union members) (depth : Nat) :
    g.alternativesWithin (depth + 1) t = members.flatMap (g.alternativesWithin depth) := by
  rw [alternativesWithin, hdef]

variable {take : TypeRef → Option Value}

theorem findSome?_of_excluded (htake : ∀ u, g.Readable u → ∀ v, take u = some v ↔ Takes u v)
    (h : g.Excluded Takes t) : ∀ (depth : Nat), g.Readable t →
    (g.alternativesWithin depth t).findSome? take = none := by
  induction h with
  | @single t hunion htakes =>
      intro depth hreadable
      cases depth with
      | zero => rfl
      | succ depth =>
          rw [alternativesWithin_single hunion]
          have hnone : take t = none :=
            Option.eq_none_iff_forall_ne_some.mpr fun v hv =>
              htakes v ((htake t hreadable v).mp hv)
          simp [hnone]
  | union hdef _ ih =>
      intro depth hreadable
      cases depth with
      | zero => rfl
      | succ depth =>
          rw [alternativesWithin_union hdef, List.findSome?_eq_none_iff]
          intro u hu
          obtain ⟨m, hm, hum⟩ := List.mem_flatMap.mp hu
          have hpart : g.IsPart m _ := IsMember.isPart ⟨_, hdef, hm⟩
          exact List.findSome?_eq_none_iff.mp (ih m hm depth (hreadable.part hpart)) u hum

theorem findSome?_of_chosen (htake : ∀ u, g.Readable u → ∀ v, take u = some v ↔ Takes u v)
    (h : g.Chosen Takes t v) : ∀ (depth : Nat), g.Nests depth t → g.Readable t →
    (g.alternativesWithin depth t).findSome? take = some v := by
  induction h with
  | @single t v hunion htakes =>
      intro depth hnests hreadable
      cases depth with
      | zero => exact hnests.elim
      | succ depth =>
          rw [alternativesWithin_single hunion]
          simp [(htake t hreadable v).mpr htakes]
  | @union t m before after v hdef hbefore _ ih =>
      intro depth hnests hreadable
      cases depth with
      | zero => exact hnests.elim
      | succ depth =>
          have hmember : ∀ u ∈ before ++ m :: after, g.IsMember u t := fun u hu => ⟨_, hdef, hu⟩
          have hnone : (before.flatMap (g.alternativesWithin depth)).findSome? take = none := by
            rw [List.findSome?_eq_none_iff]
            intro u hu
            obtain ⟨b, hb, hub⟩ := List.mem_flatMap.mp hu
            have hexcluded := findSome?_of_excluded htake (hbefore b hb) depth
              (hreadable.part (hmember b (by simp [hb])).isPart)
            exact List.findSome?_eq_none_iff.mp hexcluded u hub
          have hm : (g.alternativesWithin depth m).findSome? take = some v :=
            ih depth (hnests m (hmember m (by simp)))
              (hreadable.part (hmember m (by simp)).isPart)
          rw [alternativesWithin_union hdef, List.flatMap_append, List.flatMap_cons,
            List.findSome?_append, hnone, List.findSome?_append, hm]
          rfl

/-- If the way of taking values does what it should wherever unions end, trying all
alternatives finds what is chosen. -/
theorem findSome?_alternatives_iff
    (htake : ∀ u, g.Readable u → ∀ v, take u = some v ↔ Takes u v) (h : g.Readable t) :
    (g.alternatives t).findSome? take = some v ↔ g.Chosen Takes t v := by
  constructor
  · intro hfound
    have hcases : g.Excluded Takes t ∨ ∃ w, g.Chosen Takes t w := excluded_or_chosen h.acc
    rcases hcases with hexcluded | ⟨w, hw⟩
    · cases hfound.symm.trans (findSome?_of_excluded htake hexcluded _ h)
    · obtain rfl := Option.some.inj
        (hfound.symm.trans (findSome?_of_chosen htake hw _ h.nests h))
      exact hw
  · exact fun hchosen => findSome?_of_chosen htake hchosen _ h.nests h

end TypeGraph

end Configurable
