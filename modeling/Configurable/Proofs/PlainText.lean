import Configurable.TypeGraph.Render
import Mathlib.Logic.Relation

/-!
# The plain text of a type

What a type is called where no type contains itself: each shape in its own notation around the
texts of the types that it shows (`Plain`). A record with a name shows none of its fields, so
that it may contain itself and still have a plain text.

The text that is shown in messages leaves out what is being written already. Of all that can
be reached from a type without loops, nothing is (`Unreached`): a type below those that are
being written is none of them, or it would be below itself. So there the text in messages is
the plain text, and the only one (`plain_iff_eq_render`).
-/

namespace Configurable

/-- The types whose texts are parts of the text of a definition, in that order. -/
def TypeDef.shown : TypeDef → List TypeRef
  | .primitive _ | .readonly => []
  | .array element => [element]
  | .record r => if r.name.isEmpty then r.fields.map (·.type) else []
  | .table constraint _ => [constraint]
  | .map constraint _ => [constraint]
  | .union members => members
  | .intersection constituents _ => constituents
  | .tuple t => t.members ++ t.rest.toList

/-- Definitions by their indices, behind the types that every program has. -/
def TypeRef.place : TypeRef → Nat
  | .primitive _ | .readonly => 0
  | .defined i => i + 1

/-- A definition that is written as several types with marks between them. -/
def TypeDef.IsJoint (d : TypeDef) : Prop :=
  (∃ members, d = .union members) ∨
    ∃ constituents effective, d = .intersection constituents effective

/-- One level of the plain text: `joint` are the types that are put in parentheses before the
brackets of an array, and `part` are the texts of all types. -/
inductive TypeDef.Spelled (joint : TypeRef → Prop) (part : TypeRef → String) :
    TypeDef → String → Prop
  | primitive (p) : Spelled joint part (.primitive p) p.name
  | readonly : Spelled joint part .readonly "readonly"
  | array {element} (single : ¬ joint element) :
      Spelled joint part (.array element) (part element ++ "[]")
  | jointArray {element} (several : joint element) :
      Spelled joint part (.array element) ("(" ++ part element ++ ")[]")
  | named {r} (named : r.name ≠ "") :
      Spelled joint part (.record r) (r.module.name ++ ":" ++ r.name)
  | record {r} (unnamed : r.name = "") :
      Spelled joint part (.record r) ("record \x7b|" ++ String.join (r.fields.map fun f =>
        " " ++ part f.type ++ " " ++ f.name ++ (if f.required then "" else "?") ++ ";") ++ " |\x7d")
  | table (constraint) :
      Spelled joint part (.table constraint []) ("table<" ++ part constraint ++ ">")
  | keyed (constraint) {keys} (keyed : keys ≠ []) :
      Spelled joint part (.table constraint keys)
        ("table<" ++ part constraint ++ ">" ++ (" key(" ++ String.intercalate ", " keys ++ ")"))
  | map (constraint) :
      Spelled joint part (.map constraint false) ("map<" ++ part constraint ++ ">")
  | readonlyMap (constraint) :
      Spelled joint part (.map constraint true) ("map<" ++ part constraint ++ ">" ++ " & readonly")
  | union (members) :
      Spelled joint part (.union members) (String.intercalate "|" (members.map part))
  | intersection (constituents effective) :
      Spelled joint part (.intersection constituents effective)
        (String.intercalate " & " (constituents.map part))
  | tuple (t) : Spelled joint part (.tuple t)
      ("[" ++ String.intercalate "," (t.members.map part ++ t.rest.toList.map (part · ++ "...")) ++
        "]" ++ if t.readonly then " & readonly" else "")

variable {d : TypeDef} {joined : TypeRef → Bool} {part other : TypeRef → String} {text : String}

theorem TypeDef.isJoined_iff : d.isJoined = true ↔ d.IsJoint := by
  cases d <;> simp [isJoined, IsJoint]

/-- What is written for a definition is its level of the plain text. -/
theorem TypeDef.spelled_iff :
    d.Spelled (joined · = true) part text ↔ text = d.renderWith joined part := by
  constructor
  · intro h
    cases h with
    | named hname => simp [renderWith, hname, RecordType.title, toString]
    | record hname => simp [renderWith, hname]
    | keyed constraint hkeys => simp [renderWith, hkeys]
    | array hjoint | jointArray hjoint => simp [renderWith, hjoint]
    | primitive | readonly | table | map | readonlyMap | union | intersection | tuple =>
        simp [renderWith]
  · rintro rfl
    cases d with
    | primitive p => exact .primitive p
    | readonly => exact .readonly
    | array element =>
        simp only [renderWith]
        split
        · next hjoint => exact .jointArray hjoint
        · next hjoint => exact .array hjoint
    | record r =>
        simp only [renderWith, String.isEmpty_iff]
        split
        · next hname => exact .record hname
        · next hname => exact .named hname
    | table constraint keys =>
        cases keys with
        | nil => simpa [renderWith] using Spelled.table constraint
        | cons key keys =>
            simpa [renderWith] using Spelled.keyed constraint (List.cons_ne_nil key keys)
    | map constraint immutable =>
        cases immutable with
        | false => simpa [renderWith] using Spelled.map constraint
        | true => simpa [renderWith] using Spelled.readonlyMap constraint
    | union members => exact .union members
    | intersection constituents effective => exact .intersection constituents effective
    | tuple t => exact .tuple t

/-- A level of the text depends on the texts of the types that it shows. -/
theorem TypeDef.renderWith_congr (h : ∀ u ∈ d.shown, part u = other u) :
    d.renderWith joined part = d.renderWith joined other := by
  cases d with
  | primitive p => rfl
  | readonly => rfl
  | array element => simp [renderWith, h element (by simp [shown])]
  | record r =>
      by_cases hname : r.name.isEmpty = true
      · have hfields : ∀ f ∈ r.fields, part f.type = other f.type := fun f hf =>
          h f.type (by simpa [shown, hname] using ⟨f, hf, rfl⟩)
        simp only [renderWith, hname, if_true]
        congr 3
        exact List.map_congr_left fun f hf => by rw [hfields f hf]
      · simp [renderWith, hname]
  | table constraint keys => simp [renderWith, h constraint (by simp [shown])]
  | map constraint immutable => simp [renderWith, h constraint (by simp [shown])]
  | union members =>
      have hmembers : members.map part = members.map other := List.map_congr_left h
      simp only [renderWith, hmembers]
  | intersection constituents effective =>
      have hconstituents : constituents.map part = constituents.map other :=
        List.map_congr_left h
      simp only [renderWith, hconstituents]
  | tuple t =>
      have hmembers : t.members.map part = t.members.map other :=
        List.map_congr_left fun u hu => h u (by simp [shown, hu])
      have hrest : t.rest.toList.map (part · ++ "...") = t.rest.toList.map (other · ++ "...") :=
        List.map_congr_left fun u hu => by rw [h u (List.mem_append_right _ hu)]
      simp only [renderWith, hmembers, hrest]

namespace TypeGraph

/-- The text of the first type has that of the second as a part. -/
def Shows (g : TypeGraph) (t u : TypeRef) : Prop := u ∈ (g.get t).shown

/-- No type that is shown within `t` is shown within itself. -/
def Loopless (g : TypeGraph) (t : TypeRef) : Prop :=
  ∀ u, Relation.ReflTransGen g.Shows t u → ¬ Relation.TransGen g.Shows u u

/-- The text of a type in which every type that it shows is written out. -/
inductive Plain (g : TypeGraph) : TypeRef → String → Prop
  | intro {t text} (part : TypeRef → String) (parts : ∀ u, g.Shows t u → Plain g u (part u))
      (spelled : (g.get t).Spelled (fun u => (g.get u).IsJoint) part text) : Plain g t text

variable {g : TypeGraph} {t u : TypeRef} {writing : List Nat} {i : Nat}

/-- None of the types that are being written is shown within `t`. -/
def Unreached (g : TypeGraph) (writing : List Nat) (t : TypeRef) : Prop :=
  ∀ i ∈ writing, ¬ Relation.ReflTransGen g.Shows t (.defined i)

/-! ## Ways down -/

theorem Loopless.of_shows (h : g.Loopless t) (hu : g.Shows t u) : g.Loopless u :=
  fun v hv => h v (.head hu hv)

/-- Only a definition of the graph shows types. -/
theorem Shows.index (h : g.Shows t u) : ∃ i < g.defs.size, t = .defined i := by
  unfold Shows at h
  refine exists_index (fun p hdef => ?_) fun hdef => ?_
  · rw [hdef] at h; cases h
  · rw [hdef] at h; cases h

theorem not_shows_primitive (p : Primitive) : ¬ g.Shows (.primitive p) u := by
  intro h
  obtain ⟨i, -, hi⟩ := h.index
  cases hi

theorem not_shows_readonly : ¬ g.Shows .readonly u := by
  intro h
  obtain ⟨i, -, hi⟩ := h.index
  cases hi

theorem not_shows_of_size_le (h : ¬ i < g.defs.size) : ¬ g.Shows (.defined i) u := by
  intro hu
  obtain ⟨j, hj, hij⟩ := hu.index
  cases hij
  exact h hj

/-- What a type without loops shows does not lead back to it. -/
theorem Unreached.of_shows (h : g.Unreached writing (.defined i)) (hloop : g.Loopless (.defined i))
    (hu : g.Shows (.defined i) u) : g.Unreached (i :: writing) u := by
  intro j hj hback
  rcases List.mem_cons.mp hj with rfl | hj
  · exact hloop _ .refl (.head' hu hback)
  · exact h j hj (.head hu hback)

/-- Definitions that show only earlier ones have no loops. -/
theorem loopless_of_earlier {n : Nat}
    (h : ∀ i ≤ n, ∀ j, g.Shows (.defined i) (.defined j) → j < i) : g.Loopless (.defined n) := by
  have hdown : ∀ {u v}, u.place ≤ n + 1 → g.Shows u v → v.place < u.place := by
    intro u v hu hv
    obtain ⟨i, -, rfl⟩ := hv.index
    cases v with
    | defined j => exact Nat.succ_lt_succ (h i (Nat.le_of_succ_le_succ hu) j hv)
    | primitive p => exact Nat.succ_pos i
    | readonly => exact Nat.succ_pos i
  have hbelow : ∀ {u}, Relation.ReflTransGen g.Shows (.defined n) u → u.place ≤ n + 1 := by
    intro u hu
    induction hu with
    | refl => exact Nat.le_refl _
    | tail _ hv ih => exact Nat.le_trans (Nat.le_of_lt (hdown ih hv)) ih
  have hloop : ∀ {u v}, u.place ≤ n + 1 → Relation.TransGen g.Shows u v → v.place < u.place := by
    intro u v hu hv
    induction hv with
    | single hv => exact hdown hu hv
    | tail _ hv ih => exact Nat.lt_trans (hdown (Nat.le_trans (Nat.le_of_lt ih) hu) hv) ih
  exact fun u hu hback => Nat.lt_irrefl _ (hloop (hbelow hu) hback)

/-! ## Texts -/

theorem spelled_iff {part : TypeRef → String} :
    (g.get t).Spelled (fun u => (g.get u).IsJoint) part text ↔
      text = (g.get t).renderWith (fun u => (g.get u).isJoined) part := by
  have hjoint : (fun u => (g.get u).IsJoint) = fun u => (g.get u).isJoined = true :=
    funext fun u => propext TypeDef.isJoined_iff.symm
  rw [hjoint]
  exact TypeDef.spelled_iff

/-- There is one plain text. -/
theorem Plain.unique (h : g.Plain t text) : ∀ {text'}, g.Plain t text' → text = text' := by
  induction h with
  | intro part parts spelled ih =>
      rintro text' ⟨part', parts', spelled'⟩
      rw [spelled_iff.mp spelled, spelled_iff.mp spelled']
      exact TypeDef.renderWith_congr fun u hu => ih u hu (parts' u hu)

/-- One level of what is written for a definition that is not being written. -/
theorem renderWithin_defined (h : i ∉ writing) :
    g.renderWithin writing (.defined i) =
      (g.get (.defined i)).renderWith (fun u => (g.get u).isJoined)
        (g.renderWithin (i :: writing)) := by
  rw [renderWithin, if_neg h]
  split
  · rfl
  · next hi => simp [get, Array.getD, hi, TypeDef.renderWith]

/-- Below what is being written, a type that leads to none of it is written plainly. -/
theorem plain_renderWithin (hloop : g.Loopless t) (hnew : g.Unreached writing t) :
    g.Plain t (g.renderWithin writing t) := by
  induction writing, t using renderWithin.induct g with
  | case1 writing i hmem => exact absurd .refl (hnew i hmem)
  | case2 writing i hmem hi ih =>
    rw [renderWithin_defined hmem]
    exact .intro _ (fun u hu => ih u (hloop.of_shows hu) (hnew.of_shows hloop hu))
      (spelled_iff.mpr rfl)
  | case3 writing i hmem hi =>
    rw [renderWithin_defined hmem]
    exact .intro _ (fun u hu => absurd hu (not_shows_of_size_le hi)) (spelled_iff.mpr rfl)
  | case4 writing p =>
    rw [renderWithin]
    exact .intro (fun _ => "") (fun u hu => absurd hu (not_shows_primitive p))
      (spelled_iff.mpr rfl)
  | case5 writing =>
    rw [renderWithin]
    exact .intro (fun _ => "") (fun u hu => absurd hu not_shows_readonly) (spelled_iff.mpr rfl)

/-- Where there are no loops, the text in messages is the plain text. -/
theorem plain_iff_eq_render (hloop : g.Loopless t) : g.Plain t text ↔ text = g.render t := by
  have hplain : g.Plain t (g.render t) := plain_renderWithin hloop fun i hi => nomatch hi
  exact ⟨fun h => h.unique hplain, fun h => h ▸ hplain⟩

end TypeGraph

end Configurable
