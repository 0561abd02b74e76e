import Configurable.Entries

/-!
# Looking entries up

Entries are looked up by their first occurrence, so a key is found exactly if it is there, and
what is found is an entry.
-/

namespace Configurable.Entries

variable {α β : Type} [DecidableEq α] {es : Entries α β} {key : α}

theorem isSome_get?_iff : (es.get? key).isSome = true ↔ key ∈ List.map Prod.fst es := by
  induction es with
  | nil => simp
  | cons e es ih =>
      obtain ⟨k, v⟩ := e
      by_cases hk : k = key
      · simp [get?, hk]
      · simp [get?, hk, ih, Ne.symm hk]

theorem mem_of_get? {value : β} (h : es.get? key = some value) : (key, value) ∈ es := by
  induction es with
  | nil => cases h
  | cons e es ih =>
      obtain ⟨k, v⟩ := e
      rw [get?] at h
      split at h
      · next hk =>
        obtain rfl := Option.some.inj h
        exact hk ▸ List.mem_cons_self ..
      · exact List.mem_cons_of_mem _ (ih h)

theorem get?_eq_some_iff {value : β} (h : es.keys.Nodup) :
    es.get? key = some value ↔ (key, value) ∈ es := by
  induction es with
  | nil => simp
  | cons e es ih =>
      obtain ⟨k, v⟩ := e
      obtain ⟨hnew, hrest⟩ := List.nodup_cons.mp h
      by_cases hk : k = key
      · subst hk
        have hother : (k, value) ∉ es := fun hmem => hnew (List.mem_map.mpr ⟨_, hmem, rfl⟩)
        simp [get?, hother, eq_comm]
      · simp [get?, hk, Ne.symm hk, ih hrest]

theorem mem_insert {e : α × β} {value : β} (h : e ∈ es.insert key value) :
    e = (key, value) ∨ e ∈ es := by
  induction es with
  | nil => exact Or.inl (List.mem_singleton.mp h)
  | cons f es ih =>
      obtain ⟨k, v⟩ := f
      unfold insert at h
      split at h
      · next hk =>
        subst hk
        exact (List.mem_cons.mp h).imp_right (List.mem_cons_of_mem _)
      · rcases List.mem_cons.mp h with rfl | hmem
        · exact Or.inr (List.mem_cons_self ..)
        · exact (ih hmem).imp_right (List.mem_cons_of_mem _)

theorem insert_of_not_mem {value : β} (h : key ∉ es.keys) :
    es.insert key value = es ++ [(key, value)] := by
  induction es with
  | nil => rfl
  | cons e es ih =>
      obtain ⟨k, v⟩ := e
      rw [keys, List.map_cons, List.mem_cons, not_or] at h
      simp only [insert, if_neg (Ne.symm h.1), List.cons_append, ih h.2]

/-- Pairs with different keys are the entries that inserting them makes. -/
theorem foldl_insert_of_nodup : ∀ (pairs : List (α × β)) {es : Entries α β},
    (es.keys ++ keys pairs).Nodup →
    pairs.foldl (fun es (key, value) => es.insert key value) es = es ++ pairs
  | [], es, _ => (List.append_nil es).symm
  | (key, value) :: pairs, es, h => by
      have hnew : key ∉ es.keys := fun hmem =>
        (List.nodup_append.mp h).2.2 key hmem key (List.mem_cons_self ..) rfl
      have hrest : (keys (es.insert key value) ++ keys pairs).Nodup := by
        simpa [insert_of_not_mem hnew, keys] using h
      refine (foldl_insert_of_nodup pairs hrest).trans ?_
      rw [insert_of_not_mem hnew, List.append_assoc, List.singleton_append]

theorem ofList_of_nodup {pairs : List (α × β)} (h : (keys pairs).Nodup) : ofList pairs = pairs :=
  foldl_insert_of_nodup pairs h

theorem isSome_get?_insert {other : α} {value : β} (h : (es.get? key).isSome = true) :
    ((es.insert other value).get? key).isSome = true := by
  rw [get?_insert]
  split
  · rfl
  · exact h

theorem get?_append (es es' : Entries α β) (key : α) :
    get? (es ++ es') key = (es.get? key).or (es'.get? key) := by
  induction es with
  | nil => simp
  | cons e es ih =>
      obtain ⟨k, v⟩ := e
      by_cases hk : k = key
      · simp [get?, hk]
      · simp [get?, hk, ih]

/-- Entries that were made by insertion have each key once. -/
theorem nodup_keys_insert {value : β} (h : es.keys.Nodup) : (es.insert key value).keys.Nodup := by
  rw [keys_insert]
  split
  · exact h
  · next hnot =>
    refine List.nodup_append.mpr ⟨h, by simp, fun k hk k' hk' heq => ?_⟩
    obtain rfl := List.mem_singleton.mp hk'
    exact hnot (heq ▸ hk)

theorem nodup_keys_foldl_insert : ∀ (pairs : List (α × β)) {es : Entries α β}, es.keys.Nodup →
    (pairs.foldl (fun es (key, value) => es.insert key value) es).keys.Nodup
  | [], _, h => h
  | _ :: pairs, _, h => nodup_keys_foldl_insert pairs (nodup_keys_insert h)

theorem nodup_keys_ofList (pairs : List (α × β)) : (ofList pairs).keys.Nodup :=
  nodup_keys_foldl_insert pairs List.nodup_nil

end Configurable.Entries
