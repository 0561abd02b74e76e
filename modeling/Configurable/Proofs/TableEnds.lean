import Configurable.Proofs.UniqueKeys

/-!
# Where tables end

A table runs from its header to the end of the last value in it (`TableOf.span?`). The span of
the header was already extended to there, as the value was written (`TableOf.insertPair`), and to
the end of values that are in tables below. So looking for the last value in the table again
changes nothing (`TableOf.Enclosed.span?_eq`): no value ends behind the text of the header that
opened its table (`Item.Enclosed`), and whatever is opened or extended ends behind all that was
there.
-/

namespace Configurable.Toml

open Text (Span)

/-- In a table that came to be so, values end in front of the place reached, and with the text of
its header or before. -/
inductive Item.Enclosed (reached : Nat) : Origin → Item → Prop
  | literal {o : Origin} {m : Literal} {span : Span} : m.span? = some span → span.stop ≤ reached →
      (∀ header ∈ o.span?, span.stop ≤ header.stop) → Enclosed reached o (.literal m)
  | table {o : Origin} {t : Table} : (∀ e ∈ t.entries, Enclosed reached t.origin e.2) →
      Enclosed reached o (.table t)
  | tables {o : Origin} {ts : List Table} :
      (∀ t ∈ ts, ∀ e ∈ t.entries, Enclosed reached t.origin e.2) → Enclosed reached o (.tables ts)

/-- So do the values in the table and in those below it. -/
def TableOf.Enclosed (reached : Nat) (t : Table) : Prop :=
  ∀ e ∈ t.entries, e.2.Enclosed reached t.origin

theorem Origin.extendTo_reaches (o : Origin) (stop : Nat) :
    ∀ header ∈ (o.extendTo stop).span?, stop ≤ header.stop := by
  intro header hheader
  cases o with
  | header header' =>
    obtain rfl := Option.some.inj hheader
    exact Nat.le_refl _
  | root | longerHeader | dottedKey => cases hheader

namespace Item

variable {reached : Nat} {o o' : Origin} {i : Item}

theorem Enclosed.mono {later : Nat} (h : i.Enclosed reached o) (hle : reached ≤ later) :
    i.Enclosed later o := by
  induction h with
  | literal hspan hstop ho => exact .literal hspan (hstop.trans hle) ho
  | table _ ih => exact .table ih
  | tables _ ih => exact .tables ih

/-- A header that reaches as far as all values may take the place of another. -/
theorem Enclosed.of_le (h : i.Enclosed reached o) (ho : ∀ header ∈ o'.span?, reached ≤ header.stop) :
    i.Enclosed reached o' := by
  cases h with
  | literal hspan hstop _ =>
    exact .literal hspan hstop fun header hheader => hstop.trans (ho header hheader)
  | table hentries => exact .table hentries
  | tables hrows => exact .tables hrows

theorem enclosed_table_iff {t : Table} : (table t).Enclosed reached o ↔ t.Enclosed reached := by
  refine ⟨fun h => ?_, .table⟩
  cases h with
  | table hentries => exact hentries

theorem enclosed_tables_iff {ts : List Table} :
    (tables ts).Enclosed reached o ↔ ∀ t ∈ ts, t.Enclosed reached := by
  refine ⟨fun h => ?_, .tables⟩
  cases h with
  | tables hrows => exact hrows

end Item

namespace TableOf

variable {reached : Nat} {t t' : Table} {key : Key} {path : List Key}

/-- The text of the header ends behind all values, and so where the table ends. -/
theorem Enclosed.span?_eq (h : t.Enclosed reached) : t.span? = t.origin.span? := by
  rw [span?]
  cases hspan : t.origin.span? with
  | none => rfl
  | some header =>
    have hstops : ∀ stop ∈ t.entries.filterMap Item.pairStop?, stop ≤ header.stop := by
      intro stop hstop
      obtain ⟨⟨key, i⟩, he, hstop⟩ := List.mem_filterMap.mp hstop
      have hi := h _ he
      cases hi with
      | literal hm _ henclosed =>
        rw [Item.pairStop?, hm] at hstop
        obtain rfl := Option.some.inj hstop
        exact henclosed header hspan
      | table _ => cases hstop
      | tables _ => cases hstop
    have hmax : ((t.entries.filterMap Item.pairStop?).max?).getD header.stop ≤ header.stop := by
      cases hlast : (t.entries.filterMap Item.pairStop?).max? with
      | none => exact Nat.le_refl _
      | some stop => exact hstops stop (List.max?_mem hlast)
    rw [Option.map_some, List.foldl_max, Nat.max_eq_left hmax]

/-! ## Changes -/

theorem Enclosed.mono {later : Nat} (h : t.Enclosed reached) (hle : reached ≤ later) :
    t.Enclosed later := fun e he => (h e he).mono hle

theorem enclosed_empty (origin : Origin) : Enclosed reached (.empty origin) :=
  List.forall_mem_nil _

/-- A table may get a header that reaches as far as all values. -/
theorem Enclosed.of_le {origin : Origin} (h : t.Enclosed reached)
    (ho : ∀ header ∈ origin.span?, reached ≤ header.stop) :
    Enclosed reached { t with origin := origin } := fun e he => (h e he).of_le ho

theorem enclosed_alter {f : Option Item → Except Cause Item} (ht : t.Enclosed reached)
    (hf : ∀ o i, (∀ j ∈ o, j.Enclosed reached t.origin) → f o = .ok i → i.Enclosed reached t.origin)
    (h : t.alter key f = .ok t') : t'.Enclosed reached := by
  obtain ⟨es, hes, rfl⟩ := map_eq_ok_iff.mp h
  exact forall_of_alterEntry hf ht hes

theorem enclosed_putLast {u : Table} (ht : t.Enclosed reached) (hu : u.Enclosed reached) :
    (t.putLast key (.table u)).Enclosed reached := by
  refine List.forall_mem_append.mpr ⟨fun e he => ?_, List.forall_mem_singleton.mpr (.table hu)⟩
  exact ht e (List.mem_of_mem_filter he)

theorem enclosed_of_get? {u : Table} (ht : t.Enclosed reached) (h : t.get? key = some (.table u)) :
    u.Enclosed reached := by
  obtain ⟨⟨_, _⟩, he, rfl⟩ := Option.map_eq_some_iff.mp h
  exact Item.enclosed_table_iff.mp (ht _ (List.mem_of_find?_eq_some he))

theorem enclosed_descend {way : Way} {f : Table → Except Cause Table} {seen : List String}
    (hf : ∀ {t t'}, t.Enclosed reached → f t = .ok t' → t'.Enclosed reached)
    (ht : t.Enclosed reached) (h : descend way f seen path t = .ok t') : t'.Enclosed reached :=
  descend_keeps (H := fun o i => i.Enclosed reached o) (enclosed_empty _) Item.enclosed_table_iff
    Item.enclosed_tables_iff enclosed_alter hf ht h

variable {current : List Key} {shown : String} {span : Span}

/-- Behind a dotted key, if there is one, is a table that has no header; otherwise the header of
the table was extended before. -/
theorem enclosed_extended {f : Table → Except Cause Table} {seen : List String}
    (ht : t.Enclosed span.stop) (hdotted : ∀ {t t'}, f t = .ok t' → path ≠ [] →
      t.origin = .dottedKey)
    (hf : ∀ {t t'}, t.Enclosed span.stop → (∀ header ∈ t.origin.span?, span.stop ≤ header.stop) →
      f t = .ok t' → t'.Enclosed span.stop)
    (h : descend .dottedKey f seen path { t with origin := t.origin.extendTo span.stop } = .ok t') :
    t'.Enclosed span.stop := by
  have hreaches := t.origin.extendTo_reaches span.stop
  have hextended := Enclosed.of_le ht hreaches
  cases path with
  | nil => exact hf hextended hreaches h
  | cons k path =>
    refine enclosed_descend (fun {t t'} ht h => hf ht (fun header hheader => ?_) h) hextended h
    rw [hdotted h (List.cons_ne_nil _ _)] at hheader
    cases hheader

theorem enclosed_insertPair {m : Literal} (ht : t.Enclosed span.stop) (hm : m.span? = some span)
    (h : t.insertPair current path key m = .ok t') : t'.Enclosed span.stop := by
  refine enclosed_descend (fun {t t'} ht h => ?_) ht h
  simp only [hm] at h
  refine enclosed_extended ht (fun {t t'} h hpath => ?_) (fun {t t'} ht hheader h => ?_) h
  · split at h
    · cases h
    · next hplace =>
      have hempty : path.isEmpty = false := by simpa using hpath
      simpa [hempty] using hplace
  · split at h
    · cases h
    · refine enclosed_alter ht (fun o i _ hi => ?_) h
      split at hi
      · exact Except.ok.inj hi ▸ .literal hm (Nat.le_refl _) hheader
      · cases hi

theorem enclosed_openTable (ht : t.Enclosed span.stop)
    (h : t.openTable path key shown span = .ok t') : t'.Enclosed span.stop := by
  have hreaches : ∀ header ∈ (Origin.header span).span?, span.stop ≤ header.stop := by
    intro header hheader
    obtain rfl := Option.some.inj hheader
    exact Nat.le_refl _
  refine enclosed_descend (fun {t t'} ht h => ?_) ht h
  split at h
  · exact Except.ok.inj h ▸ enclosed_putLast ht (enclosed_empty _)
  · next inner hinner =>
    split at h
    · exact Except.ok.inj h ▸ enclosed_putLast ht ((enclosed_of_get? ht hinner).of_le hreaches)
    · cases h
  · cases h

theorem enclosed_appendTable (ht : t.Enclosed reached)
    (h : t.appendTable path key shown span = .ok t') : t'.Enclosed reached := by
  refine enclosed_descend (fun {t t'} ht h => ?_) ht h
  refine enclosed_alter ht (fun o i ho hi => ?_) h
  have hempty : Enclosed reached (.empty (.header span)) := enclosed_empty _
  split at hi
  · exact Except.ok.inj hi ▸
      Item.enclosed_tables_iff.mpr (List.forall_mem_singleton.mpr hempty)
  · exact Except.ok.inj hi ▸ Item.enclosed_tables_iff.mpr (List.forall_mem_append.mpr
      ⟨Item.enclosed_tables_iff.mp (ho _ rfl), List.forall_mem_singleton.mpr hempty⟩)
  · cases hi

end TableOf

end Configurable.Toml
