import Configurable.Sections
import Configurable.Proofs.Pass
import Configurable.Source.Any
import Mathlib.Data.List.Dedup
import Mathlib.Data.List.Induction

/-!
# Values by section, counted

Laying resolved values out by section gives each the place that its address names, the section
of its module and its own name there. Nothing else is held, so the places are the addresses of
the values, each once (`perm_addresses_toSections`). A value is lost only to a later one of the
same address (`held?_toSections`), which modules can have that differ in nothing but their
version.

Sections are kept in ascending order, and so are the values in each (`Sections.Ordered`): this
is what makes a key stand in one place only.
-/

namespace Configurable

/-! ## Keys in order -/

namespace Sorted

variable {α : Type} {s : Sorted α} {f : Option α → α} {key other : String} {e : String × α}

def Ascending (s : Sorted α) : Prop := s.Pairwise fun a b => a.1 < b.1

theorem Ascending.nodup (h : Ascending s) : (Entries.keys s).Nodup := by
  rw [Entries.keys, List.Nodup, List.pairwise_map]
  refine List.Pairwise.imp (fun {a b} hlt => ?_) h
  exact fun heq : a.1 = b.1 => String.lt_irrefl _ (heq ▸ hlt)

theorem get?_of_lt (h : ∀ e ∈ s, key < e.1) : get? s key = none := by
  have hkey : key ∉ List.map Prod.fst s := fun hmem => by
    obtain ⟨e, he, rfl⟩ := List.mem_map.mp hmem
    exact String.lt_irrefl _ (h e he)
  rw [← Option.not_isSome_iff_eq_none, get?, Entries.isSome_get?_iff]
  exact hkey

theorem get?_alter (h : Ascending s) :
    get? (alter f key s) other = if key = other then some (f (get? s key)) else get? s other := by
  induction s with
  | nil => by_cases ho : key = other <;> simp [alter, get?, Entries.get?, ho]
  | cons e s ih =>
      obtain ⟨k, v⟩ := e
      obtain ⟨hbefore, hrest⟩ := List.pairwise_cons.mp h
      unfold alter
      split
      · next hlt =>
        have hnone : get? ((k, v) :: s) key = none := by
          refine get?_of_lt fun e he => ?_
          rcases List.mem_cons.mp he with rfl | he
          · exact hlt
          · exact String.lt_trans hlt (hbefore e he)
        rw [hnone]
        by_cases ho : key = other <;> simp [get?, Entries.get?, ho]
      · split
        · next heq =>
          subst heq
          by_cases ho : key = other <;> simp [get?, Entries.get?, ho]
        · next hne =>
          have ih := ih hrest
          unfold get? at ih ⊢
          by_cases ho : key = other
          · subst ho
            simp [Entries.get?, Ne.symm hne, ih]
          · simp [Entries.get?, ih, ho]

theorem mem_keys_iff : key ∈ Entries.keys s ↔ (get? s key).isSome = true :=
  Entries.isSome_get?_iff.symm

theorem Ascending.alter (h : Ascending s) : Ascending (alter f key s) := by
  induction s with
  | nil => exact List.pairwise_singleton _ _
  | cons e s ih =>
      obtain ⟨k, v⟩ := e
      obtain ⟨hbefore, hrest⟩ := List.pairwise_cons.mp h
      unfold Sorted.alter
      split
      · next hlt =>
        refine List.pairwise_cons.mpr ⟨fun e he => ?_, h⟩
        rcases List.mem_cons.mp he with rfl | he
        · exact hlt
        · exact String.lt_trans hlt (hbefore e he)
      · next hle =>
        split
        · next heq =>
          subst heq
          exact List.pairwise_cons.mpr ⟨hbefore, hrest⟩
        · next hne =>
          refine List.pairwise_cons.mpr ⟨fun e he => ?_, ih hrest⟩
          have hkey : (get? (Sorted.alter f key s) e.1).isSome = true :=
            mem_keys_iff.mp (List.mem_map_of_mem he)
          rw [get?_alter hrest] at hkey
          split at hkey
          · next heq => exact heq ▸ Std.lt_of_le_of_ne hle (Ne.symm hne)
          · obtain ⟨d, hd, heq⟩ := List.mem_map.mp (mem_keys_iff.mpr hkey)
            exact heq ▸ hbefore d hd

theorem get?_eq_some_iff {v : α} (h : Ascending s) : get? s key = some v ↔ (key, v) ∈ s :=
  Entries.get?_eq_some_iff h.nodup

end Sorted

/-! ## Addresses -/

theorem append_cons_inj {a : Char} {xs xs' zs zs' : List Char} (hxs : a ∉ xs) (hxs' : a ∉ xs')
    (h : xs ++ a :: zs = xs' ++ a :: zs') : xs = xs' ∧ zs = zs' := by
  have hall : ∀ {ys : List Char}, a ∉ ys → ∀ b ∈ ys, decide (b ≠ a) = true :=
    fun hys b hb => by simpa using fun heq : b = a => hys (heq ▸ hb)
  have hfront := congrArg (List.takeWhile fun b => decide (b ≠ a)) h
  rw [List.takeWhile_append_of_pos (hall hxs), List.takeWhile_append_of_pos (hall hxs')] at hfront
  have hsame : xs = xs' := by simpa using hfront
  subst hsame
  exact ⟨rfl, (List.cons.inj (List.append_cancel_left h)).2⟩

/-- If organizations have no dots in their names, only versions of one module share a name. -/
theorem ModuleId.qualifiedName_inj_iff {m m' : ModuleId} (h : '.' ∉ m.org.toList)
    (h' : '.' ∉ m'.org.toList) :
    m.qualifiedName = m'.qualifiedName ↔ m.org = m'.org ∧ m.name = m'.name := by
  have htoList : ∀ m : ModuleId, m.qualifiedName.toList = m.org.toList ++ '.' :: m.name.toList :=
    fun m => by simp [qualifiedName, toString]
  rw [← String.toList_inj, htoList, htoList]
  constructor
  · intro heq
    obtain ⟨horg, hname⟩ := append_cons_inj h h' heq
    exact ⟨String.toList_inj.mp horg, String.toList_inj.mp hname⟩
  · rintro ⟨horg, hname⟩
    rw [horg, hname]

/-- The section that a value is held in, and the name that it has there. -/
def VariableId.address (id : VariableId) : String × String := (id.module.qualifiedName, id.name)

theorem VariableId.address_inj_iff {id id' : VariableId} (h : '.' ∉ id.module.org.toList)
    (h' : '.' ∉ id'.module.org.toList) :
    id.address = id'.address ↔
      id.module.org = id'.module.org ∧ id.module.name = id'.module.name ∧ id.name = id'.name := by
  rw [address, address, Prod.mk.injEq, ModuleId.qualifiedName_inj_iff h h', and_assoc]

namespace Sections

/-- What is held at an address. -/
def held? (s : Sections) (a : String × String) : Option Value :=
  (Sorted.get? s a.1).bind fun inside => Sorted.get? inside a.2

/-- The addresses at which values are held. -/
def addresses (s : Sections) : List (String × String) :=
  s.flatMap fun e => e.2.map fun d => (e.1, d.1)

structure Ordered (s : Sections) : Prop where
  sections : Sorted.Ascending s
  inside : ∀ {name : String} {inside : Sorted Value}, Sorted.get? s name = some inside →
    Sorted.Ascending inside

/-- Holds one more value. -/
def put (s : Sections) (id : VariableId) (value : Value) : Sections :=
  Sorted.alter (fun inside => Sorted.alter (fun _ => value) id.name (inside.getD []))
    id.module.qualifiedName s

variable {s : Sections} {id : VariableId} {value : Value} {a : String × String}

theorem Ordered.getD (h : s.Ordered) (name : String) :
    Sorted.Ascending ((Sorted.get? s name).getD []) := by
  cases hinside : Sorted.get? s name with
  | none => exact List.Pairwise.nil
  | some inside => exact h.inside hinside

theorem Ordered.put (h : s.Ordered) : (s.put id value).Ordered := by
  refine ⟨h.sections.alter, fun {name inside} hinside => ?_⟩
  rw [Sections.put, Sorted.get?_alter h.sections] at hinside
  split at hinside
  · rw [← Option.some.inj hinside]
    exact (h.getD _).alter
  · exact h.inside hinside

theorem held?_put (h : s.Ordered) :
    (s.put id value).held? a = if id.address = a then some value else s.held? a := by
  obtain ⟨name, own⟩ := a
  have haddress : id.address = (name, own) ↔ id.module.qualifiedName = name ∧ id.name = own :=
    Prod.mk.injEq .. ▸ Iff.rfl
  simp only [haddress, held?, put, Sorted.get?_alter h.sections]
  by_cases hname : id.module.qualifiedName = name
  · subst hname
    rw [if_pos rfl, Option.bind_some, Sorted.get?_alter (h.getD _)]
    by_cases hown : id.name = own
    · simp [hown]
    · cases hinside : Sorted.get? s id.module.qualifiedName with
      | none => simp [hown, Sorted.get?]
      | some inside => simp [hown]
  · simp [hname]

theorem isSome_get?_put (h : s.Ordered) {name : String} :
    (Sorted.get? (s.put id value) name).isSome = true ↔
      id.module.qualifiedName = name ∨ (Sorted.get? s name).isSome = true := by
  rw [put, Sorted.get?_alter h.sections]
  by_cases hname : id.module.qualifiedName = name <;> simp [hname]

theorem Ordered.mem_addresses_iff (h : s.Ordered) :
    a ∈ s.addresses ↔ (s.held? a).isSome = true := by
  obtain ⟨name, own⟩ := a
  simp only [addresses, List.mem_flatMap, List.mem_map, held?]
  constructor
  · rintro ⟨⟨name', inside⟩, he, ⟨own', v⟩, hd, heq⟩
    obtain ⟨rfl, rfl⟩ := Prod.mk.inj heq
    have hinside := (Sorted.get?_eq_some_iff h.sections).mpr he
    have hv := (Sorted.get?_eq_some_iff (h.inside hinside)).mpr hd
    simp [hinside, hv]
  · intro hsome
    obtain ⟨v, hv⟩ := Option.isSome_iff_exists.mp hsome
    obtain ⟨inside, hinside, hv⟩ := Option.bind_eq_some_iff.mp hv
    exact ⟨_, (Sorted.get?_eq_some_iff h.sections).mp hinside, _,
      (Sorted.get?_eq_some_iff (h.inside hinside)).mp hv, rfl⟩

theorem Ordered.nodup_addresses (h : s.Ordered) : s.addresses.Nodup := by
  refine List.nodup_flatMap.mpr ⟨fun e he => ?_, h.sections.imp fun {e e'} hlt => ?_⟩
  · have hinside := (h.inside ((Sorted.get?_eq_some_iff h.sections).mpr he)).nodup
    have hmap : (e.2.map fun d => (e.1, d.1)) =
        (Entries.keys e.2).map fun own => (e.1, own) :=
      List.map_map.symm
    rw [hmap]
    exact hinside.map fun own own' heq => (Prod.mk.inj heq).2
  · intro a ha ha'
    obtain ⟨d, -, rfl⟩ := List.mem_map.mp ha
    obtain ⟨d', -, heq⟩ := List.mem_map.mp ha'
    exact String.lt_irrefl _ ((Prod.mk.inj heq).1 ▸ hlt)

end Sections

/-! ## Values laid out -/

namespace Values

variable {values : Values} {a : String × String}

theorem toSections_concat (values : Values) (id : VariableId) (value : Value) :
    toSections (values ++ [(id, value)]) = values.toSections.put id value :=
  List.foldl_concat ..

theorem ordered_toSections (values : Values) : values.toSections.Ordered := by
  induction values using List.reverseRecOn with
  | nil => exact ⟨List.Pairwise.nil, fun h => by cases h⟩
  | append_singleton values e ih =>
      rw [toSections_concat values e.1 e.2]
      exact ih.put

/-- What is held at an address is the last value that has it. -/
theorem held?_toSections (values : Values) (a : String × String) :
    values.toSections.held? a =
      (values.reverse.find? fun e => e.1.address = a).map Prod.snd := by
  induction values using List.reverseRecOn with
  | nil => rfl
  | append_singleton values e ih =>
      rw [toSections_concat values e.1 e.2, Sections.held?_put (ordered_toSections values), ih,
        List.reverse_append, List.reverse_singleton, List.singleton_append, List.find?_cons]
      by_cases ha : e.1.address = a <;> simp [ha]

theorem held?_toSections_of_last {before after : Values} {id : VariableId} {value : Value}
    (h : ∀ e ∈ after, e.1.address ≠ id.address) :
    (toSections (before ++ (id, value) :: after)).held? id.address = some value := by
  have hafter : (after.reverse.find? fun e => e.1.address = id.address) = none := by
    simpa [List.find?_eq_none] using h
  rw [held?_toSections, List.reverse_append, List.reverse_cons, List.append_assoc,
    List.find?_append, hafter]
  simp

theorem mem_addresses_toSections :
    a ∈ values.toSections.addresses ↔ a ∈ values.map fun e => e.1.address := by
  rw [(ordered_toSections values).mem_addresses_iff, held?_toSections]
  simp

theorem isSome_get?_toSections {name : String} :
    (Sorted.get? values.toSections name).isSome = true ↔
      ∃ e ∈ values, e.1.module.qualifiedName = name := by
  induction values using List.reverseRecOn with
  | nil => simp [toSections, Sorted.get?]
  | append_singleton values e ih =>
      rw [toSections_concat values e.1 e.2, Sections.isSome_get?_put (ordered_toSections values),
        ih]
      simp [or_comm]

/-- The places of the values are their addresses, each of them once. -/
theorem perm_addresses_toSections (values : Values) :
    values.toSections.addresses.Perm (values.map fun e => e.1.address).dedup := by
  refine (List.perm_ext_iff_of_nodup (ordered_toSections values).nodup_addresses
    (List.nodup_dedup _)).mpr fun a => ?_
  rw [mem_addresses_toSections, List.mem_dedup]

theorem length_addresses_toSections (h : values.keys.Nodup) :
    values.toSections.addresses.length = values.length ↔
      ∀ e ∈ values, ∀ e' ∈ values, e.1.address = e'.1.address → e.1 = e'.1 := by
  have hkeys : (values.map fun e => e.1.address) = values.keys.map VariableId.address := by
    rw [Entries.keys, List.map_map]
    rfl
  have hlength : (values.keys.map VariableId.address).dedup.length = values.length ↔
      (values.keys.map VariableId.address).Nodup := by
    have h := (List.dedup_sublist (values.keys.map VariableId.address)).length_eq
    rw [List.dedup_eq_self] at h
    simpa [Entries.keys] using h
  rw [(perm_addresses_toSections values).length_eq, hkeys, hlength, List.nodup_map_iff_inj_on h]
  simp [Entries.keys]

end Values

namespace Pass

variable {σ : Type} [Source σ]

theorem nodup_keys_keep {values : Values} (h : values.keys.Nodup) (v : Variable) (a : Answer) :
    (keep v values a).keys.Nodup := by
  unfold keep
  split
  · exact Entries.nodup_keys_insert h
  · exact h
  · exact h

theorem nodup_keys_step {p : Pass σ} (h : p.values.keys.Nodup) (g : TypeGraph) (st : Step) :
    (step g p st).values.keys.Nodup := by
  cases st with
  | first v => exact nodup_keys_keep h v _
  | repeated name module => exact h

theorem nodup_keys_run (files : FileTree) (g : TypeGraph) (D : Declarations) (sources : List σ) :
    (run files g D sources).values.keys.Nodup := by
  rw [values_run]
  exact List.foldlRecOn (motive := fun p : Pass σ => p.values.keys.Nodup) D.steps (step g)
    List.nodup_nil fun p h st _ => nodup_keys_step h g st

/-- **Values by section.** What a pass resolved is laid out with nothing added. A value is there
under its address unless a later one has the same address; so there are as many values as there
are addresses, which is one for every variable just if no two variables share theirs. Where no
organization has a dot in its name, those that do differ in nothing but their versions. -/
theorem toSections_run (files : FileTree) (g : TypeGraph) (D : Declarations) (sources : List σ) :
    (∀ before id value after,
      (run files g D sources).values = before ++ (id, value) :: after →
      (∀ e ∈ after, e.1.address ≠ id.address) →
      (run files g D sources).values.toSections.held? id.address = some value) ∧
    (∀ a, ((run files g D sources).values.toSections.held? a).isSome = true ↔
      ∃ e ∈ (run files g D sources).values, e.1.address = a) ∧
    (∀ name, (Sorted.get? (run files g D sources).values.toSections name).isSome = true ↔
      ∃ e ∈ (run files g D sources).values, e.1.module.qualifiedName = name) ∧
    (run files g D sources).values.toSections.addresses.Perm
      ((run files g D sources).values.map fun e => e.1.address).dedup ∧
    ((run files g D sources).values.toSections.addresses.length =
        (run files g D sources).values.length ↔
      ∀ e ∈ (run files g D sources).values, ∀ e' ∈ (run files g D sources).values,
        e.1.address = e'.1.address → e.1 = e'.1) ∧
    (∀ e ∈ (run files g D sources).values, ∀ e' ∈ (run files g D sources).values,
      '.' ∉ e.1.module.org.toList → '.' ∉ e'.1.module.org.toList →
      (e.1.address = e'.1.address ↔ e.1.module.org = e'.1.module.org ∧
        e.1.module.name = e'.1.module.name ∧ e.1.name = e'.1.name)) := by
  refine ⟨fun before id value after hvalues hlast => ?_, fun a => ?_,
    fun name => Values.isSome_get?_toSections, Values.perm_addresses_toSections _,
    Values.length_addresses_toSections (nodup_keys_run files g D sources),
    fun e _ e' _ => VariableId.address_inj_iff⟩
  · rw [hvalues]
    exact Values.held?_toSections_of_last hlast
  · rw [← (Values.ordered_toSections _).mem_addresses_iff, Values.mem_addresses_toSections]
    exact List.mem_map

/-- Two versions of a module have a value each for `x`, and only the later one is held. -/
theorem versions_share_section :
    let m : ModuleId := ⟨"o", "m", "1"⟩
    let m' : ModuleId := ⟨"o", "m", "2"⟩
    let D : Declarations :=
      [(m, [⟨"x", .primitive .int, true⟩]), (m', [⟨"x", .primitive .int, true⟩])]
    let values := (run ⟨[]⟩ .empty D [ConfigSource.commandLine (.ofArguments m ["-Cx=1"]),
      .document (.ofOrigin m (.content "[m]\nx = 2\n"))]).values
    values.map (fun e => (e.1, e.2.asInt?)) = [(⟨m, "x"⟩, some 1), (⟨m', "x"⟩, some 2)] ∧
      values.toSections.addresses = [("o.m", "x")] ∧
      (values.toSections.held? (VariableId.address ⟨m, "x"⟩)).bind Value.asInt? = some 2 := by
  decide +kernel

end Pass

end Configurable
