/-!
# Entries in order

Keys with their values, in the order in which the keys first came. Inserting a key that is
there already replaces its value and keeps its place, so built by insertion the keys are
distinct.
-/

namespace Configurable

abbrev Entries (α β : Type) := List (α × β)

namespace Entries

variable {α β : Type} [DecidableEq α]

def get? : Entries α β → α → Option β
  | [], _ => none
  | (k, v) :: es, key => if k = key then some v else get? es key

def contains (es : Entries α β) (key : α) : Bool := (es.get? key).isSome

def keys (es : Entries α β) : List α := es.map Prod.fst

def insert : Entries α β → α → β → Entries α β
  | [], key, value => [(key, value)]
  | (k, v) :: es, key, value =>
    if k = key then (k, value) :: es else (k, v) :: insert es key value

/-- Inserts pairs one after the other, the last of each key deciding its value. -/
def ofList (pairs : List (α × β)) : Entries α β :=
  pairs.foldl (fun es (key, value) => es.insert key value) []

@[simp] theorem get?_nil (key : α) : get? ([] : Entries α β) key = none := rfl

theorem get?_insert (es : Entries α β) (key other : α) (value : β) :
    (es.insert key value).get? other = if key = other then some value else es.get? other := by
  induction es with
  | nil => rfl
  | cons e es ih =>
    obtain ⟨k, v⟩ := e
    by_cases hk : k = key
    · subst hk
      by_cases ho : k = other <;> simp [insert, get?, ho]
    · by_cases ho : k = other
      · subst ho
        simp [insert, get?, hk, Ne.symm hk]
      · simp [insert, get?, hk, ho, ih]

theorem keys_insert (es : Entries α β) (key : α) (value : β) :
    (es.insert key value).keys = if key ∈ es.keys then es.keys else es.keys ++ [key] := by
  induction es with
  | nil => simp [insert, keys]
  | cons e es ih =>
    obtain ⟨k, v⟩ := e
    simp only [keys] at ih
    by_cases hk : k = key
    · subst hk
      simp [insert, keys]
    · simp only [insert, hk, if_false, keys, List.map_cons, ih, List.mem_cons]
      by_cases hm : key ∈ List.map Prod.fst es <;> simp [hm, Ne.symm hk]

end Entries

end Configurable
