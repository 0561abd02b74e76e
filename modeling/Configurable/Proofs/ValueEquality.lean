import Configurable.Proofs.Entries
import Configurable.Value
import Mathlib

/-!
# When values are the same

The equality of values is not quite one: a NaN differs from itself, and so does what contains
it. Fields are compared by looking those of the first up among those of the second, which goes
both ways only if no name occurs twice.

Nothing else stands in the way. Where the names of fields are distinct at every depth
(`DistinctNames`), values that are the same in one order are the same in the other (`same_symm`),
and a value is the same as itself exactly if there is no NaN in it (`same_self_iff`).
-/

namespace Configurable.Value

/-! ## What values are made of -/

/-- The values of which a value is made. The rows of a table are records. -/
def parts : Value → List Value
  | .array items => items
  | .record r => r.fields.map Prod.snd
  | .table t => t.rows.map .record
  | .map entries => entries.map Prod.snd
  | _ => []

/-- The names under which the parts of a value are found. -/
def names : Value → List String
  | .record r => Entries.keys r.fields
  | .map entries => Entries.keys entries
  | _ => []

/-- The value and everything in it has the property. -/
inductive All (P : Value → Prop) : Value → Prop
  | intro {v : Value} : P v → (∀ w ∈ v.parts, All P w) → All P v

/-- No name occurs twice among the fields of a record or the entries of a map. -/
def DistinctNames (v : Value) : Prop := v.All fun w => w.names.Nodup

/-- There is no NaN in the value. -/
def NaNFree (v : Value) : Prop := v.All (· ≠ .float Float.nan)

variable {P : Value → Prop} {v w : Value}

theorem All.here (h : v.All P) : P v := by
  cases h with
  | intro hv _ => exact hv

theorem All.part (h : v.All P) (hw : w ∈ v.parts) : w.All P := by
  cases h with
  | intro _ hparts => exact hparts w hw

theorem all_iff : v.All P ↔ P v ∧ ∀ w ∈ v.parts, w.All P :=
  ⟨fun h => ⟨h.here, fun _ hw => h.part hw⟩, fun h => .intro h.1 h.2⟩

theorem sizeOf_field_lt {fields : List (String × Value)} (h : w ∈ fields.map Prod.snd) :
    sizeOf w < sizeOf fields := by
  obtain ⟨⟨name, w⟩, hmem, rfl⟩ := List.mem_map.mp h
  have hfield : sizeOf (name, w) < sizeOf fields := List.sizeOf_lt_of_mem hmem
  rw [Prod.mk.sizeOf_spec] at hfield
  show sizeOf w < sizeOf fields
  omega

theorem sizeOf_part_lt (h : w ∈ v.parts) : sizeOf w < sizeOf v := by
  cases v with
  | array items =>
      have hitem : sizeOf w < sizeOf items := List.sizeOf_lt_of_mem h
      simp only [array.sizeOf_spec]
      omega
  | record r =>
      obtain ⟨title, fields⟩ := r
      have hfield : sizeOf w < sizeOf fields := sizeOf_field_lt h
      simp only [record.sizeOf_spec, RecordOf.mk.sizeOf_spec]
      omega
  | table t =>
      obtain ⟨keys, rows⟩ := t
      obtain ⟨row, hrow, rfl⟩ := List.mem_map.mp h
      have hrow : sizeOf row < sizeOf rows := List.sizeOf_lt_of_mem hrow
      simp only [record.sizeOf_spec, table.sizeOf_spec, TableOf.mk.sizeOf_spec]
      omega
  | map entries =>
      have hentry : sizeOf w < sizeOf entries := sizeOf_field_lt h
      simp only [map.sizeOf_spec]
      omega
  | _ => cases h

/-- Induction on what values are made of. -/
theorem parts_induction {motive : Value → Prop}
    (step : ∀ v, (∀ w ∈ v.parts, motive w) → motive v) (v : Value) : motive v :=
  step v fun w _ => parts_induction step w
termination_by sizeOf v
decreasing_by exact sizeOf_part_lt ‹_›

/-! ## Lists of values and of fields -/

theorem sameItems_iff : ∀ {as bs : List Value},
    sameItems as bs = true ↔ List.Forall₂ (same · · = true) as bs
  | [], [] => by simp [sameItems]
  | [], _ :: _ => by simp [sameItems]
  | _ :: _, [] => by simp [sameItems]
  | a :: as, b :: bs => by simp [sameItems, sameItems_iff]

/-- Fields are the same if each of the first is found among the second. -/
def SameFields (as bs : List (String × Value)) : Prop :=
  as.length = bs.length ∧ ∀ a ∈ as, ∃ b, Entries.get? bs a.1 = some b ∧ a.2.same b = true

theorem sameFields_iff {bs : List (String × Value)} : ∀ {as : List (String × Value)},
    sameFields as bs = true ↔ ∀ a ∈ as, ∃ b, Entries.get? bs a.1 = some b ∧ a.2.same b = true
  | [] => by simp [sameFields]
  | (name, a) :: as => by
      rw [sameFields, Bool.and_eq_true, sameFields_iff, List.forall_mem_cons]
      cases Entries.get? bs name <;> simp

theorem same_record_iff {r r' : Record} :
    (record r).same (.record r') = true ↔
      r.typeName = r'.typeName ∧ SameFields r.fields r'.fields := by
  obtain ⟨title, fields⟩ := r
  obtain ⟨title', fields'⟩ := r'
  simp [same, SameFields, sameFields_iff, and_assoc]

theorem same_map_iff {as bs : List (String × Value)} :
    (map as).same (.map bs) = true ↔ SameFields as bs := by
  simp [same, SameFields, sameFields_iff]

theorem sameRows_iff : ∀ {rows rows' : List Record}, sameRows rows rows' = true ↔
    List.Forall₂ (fun r r' => (record r).same (.record r') = true) rows rows'
  | [], [] => by simp [sameRows]
  | [], _ :: _ => by simp [sameRows]
  | _ :: _, [] => by simp [sameRows]
  | ⟨title, as⟩ :: rows, ⟨title', bs⟩ :: rows' => by
      rw [sameRows, Bool.and_eq_true, sameRows_iff, List.forall₂_cons, same]

theorem same_table_iff {t t' : Table} : (table t).same (.table t') = true ↔
    t.keys = t'.keys ∧
      List.Forall₂ (fun r r' => (record r).same (.record r') = true) t.rows t'.rows := by
  obtain ⟨keys, rows⟩ := t
  obtain ⟨keys', rows'⟩ := t'
  simp [same, sameRows_iff]

/-! ## In the other order -/

/-- Distinct names among as many are the same names, so that each is found the other way. -/
theorem SameFields.symm {as bs : List (String × Value)} (has : (Entries.keys as).Nodup)
    (hbs : (Entries.keys bs).Nodup) (h : SameFields as bs)
    (hsymm : ∀ a ∈ as, ∀ b ∈ bs, a.2.same b.2 = true → b.2.same a.2 = true) :
    SameFields bs as := by
  obtain ⟨hlength, hfound⟩ := h
  have hsubset : Entries.keys as ⊆ Entries.keys bs := by
    intro name hname
    obtain ⟨a, ha, rfl⟩ := List.mem_map.mp hname
    obtain ⟨b, hb, -⟩ := hfound a ha
    exact Entries.isSome_get?_iff.mp (Option.isSome_of_mem hb)
  have hnames : (Entries.keys as).Perm (Entries.keys bs) :=
    (List.subperm_of_subset has hsubset).perm_of_length_le (by simp [Entries.keys, hlength])
  refine ⟨hlength.symm, fun b hb => ?_⟩
  obtain ⟨a, ha, hname⟩ := List.mem_map.mp (hnames.mem_iff.mpr (List.mem_map_of_mem hb))
  obtain ⟨b', hb', hsame⟩ := hfound a ha
  obtain rfl : b' = b.2 := Option.some.inj
    (hb'.symm.trans ((Entries.get?_eq_some_iff hbs).mpr (hname ▸ hb)))
  exact ⟨a.2, (Entries.get?_eq_some_iff has).mpr (hname ▸ ha), hsymm a ha b hb hsame⟩

/-- Lists that are the same item by item are so in the other order. -/
theorem forall₂_symm {α : Type} {as bs : List α} {R : α → α → Prop} (h : List.Forall₂ R as bs)
    (hsymm : ∀ a ∈ as, ∀ b ∈ bs, R a b → R b a) : List.Forall₂ R bs as := by
  induction h with
  | nil => exact .nil
  | cons hab _ ih =>
      refine .cons (hsymm _ (by simp) _ (by simp) hab) (ih fun a ha b hb => ?_)
      exact hsymm a (List.mem_cons_of_mem _ ha) b (List.mem_cons_of_mem _ hb)

/-- Values with distinct names are the same in both orders. -/
theorem same_symm (v : Value) : ∀ {w : Value}, v.DistinctNames → w.DistinctNames →
    v.same w = true → w.same v = true := by
  induction v using parts_induction with
  | step v ih =>
      intro w hv hw h
      have hparts : ∀ a ∈ v.parts, ∀ b ∈ w.parts, a.same b = true → b.same a = true :=
        fun a ha b hb => ih a ha (hv.part ha) (hw.part hb)
      have hfields : ∀ {as bs : List (String × Value)}, v.parts = as.map Prod.snd →
          w.parts = bs.map Prod.snd → (Entries.keys as).Nodup → (Entries.keys bs).Nodup →
          SameFields as bs → SameFields bs as := by
        intro as bs has hbs hnames hnames' hsame
        refine hsame.symm hnames hnames' fun a ha b hb => hparts _ ?_ _ ?_
        · exact has ▸ List.mem_map_of_mem ha
        · exact hbs ▸ List.mem_map_of_mem hb
      have hshapes := h
      unfold same at hshapes
      split at hshapes
      case h_5 d d' =>
        rw [same, Decimal.sameNumber, beq_iff_eq]
        exact (beq_iff_eq.mp hshapes).symm
      case h_8 as bs =>
        rw [same, sameItems_iff]
        exact forall₂_symm (sameItems_iff.mp hshapes) hparts
      case h_9 title as title' bs =>
        rw [same_record_iff] at h ⊢
        exact ⟨h.1.symm, hfields rfl rfl hv.here hw.here h.2⟩
      case h_10 keys rows keys' rows' =>
        rw [same_table_iff] at h ⊢
        refine ⟨h.1.symm, forall₂_symm h.2 fun a ha b hb => hparts _ ?_ _ ?_⟩
        · exact List.mem_map_of_mem ha
        · exact List.mem_map_of_mem hb
      case h_11 as bs =>
        rw [same_map_iff] at h ⊢
        exact hfields rfl rfl hv.here hw.here h
      case h_12 => cases hshapes
      -- numbers, texts and booleans
      all_goals
        rw [same]
        exact BEq.symm hshapes

theorem sameFields_self_iff {as : List (String × Value)} (h : (Entries.keys as).Nodup) :
    SameFields as as ↔ ∀ v ∈ as.map Prod.snd, v.same v = true := by
  have hget : ∀ a ∈ as, Entries.get? as a.1 = some a.2 :=
    fun a ha => (Entries.get?_eq_some_iff h).mpr ha
  rw [List.forall_mem_map]
  constructor
  · intro hsame a ha
    obtain ⟨b, hb, hab⟩ := hsame.2 a ha
    obtain rfl := Option.some.inj ((hget a ha).symm.trans hb)
    exact hab
  · exact fun hsame => ⟨rfl, fun a ha => ⟨a.2, hget a ha, hsame a ha⟩⟩

/-- A value is the same as itself if its parts are and it is no NaN itself. -/
theorem same_self_iff_parts (h : v.names.Nodup) :
    v.same v = true ↔ v ≠ .float Float.nan ∧ ∀ w ∈ v.parts, w.same w = true := by
  cases v with
  | array items => simp [same, sameItems_iff, List.forall₂_same, parts]
  | record r => simp only [same_record_iff, sameFields_self_iff h, parts, true_and, ne_eq,
      reduceCtorEq, not_false_eq_true]
  | table t => simp [same_table_iff, List.forall₂_same, parts]
  | map entries => simp only [same_map_iff, sameFields_self_iff h, parts, true_and, ne_eq,
      reduceCtorEq, not_false_eq_true]
  | float x => simp [same, parts]
  | decimal d => simp [same, Decimal.sameNumber, parts]
  | int n | byte n | boolean b | string s | xml text => simp [same, parts]

/-- A value with distinct names is the same as itself exactly if there is no NaN in it. -/
theorem same_self_iff (v : Value) : v.DistinctNames → (v.same v = true ↔ v.NaNFree) := by
  induction v using parts_induction with
  | step v ih =>
      intro hv
      rw [same_self_iff_parts hv.here, NaNFree, all_iff]
      exact and_congr_right fun _ => forall₂_congr fun w hw => ih w hw (hv.part hw)

end Configurable.Value
