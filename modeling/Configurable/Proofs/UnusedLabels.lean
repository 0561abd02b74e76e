import Configurable.Proofs.Spelling
import Configurable.Proofs.UnusedEntries

/-!
# The texts that name unused values

A leaf that was not used is reported under a text, which is meant to be the keys on the way to
it and, for a value, what is written behind the equals sign (`Spelling.name`). The text comes
from the way and from the bytes of the node, without a look at how the leaf is spelled, and is
another one in two cases (`leafLabel_eq_name_iff`): an array that begins with another array is
taken for an array of tables, and empty keys at the beginning are taken for no keys at all.
-/

namespace Configurable

namespace Toml

def Leaf.keys (l : Leaf) : List String := l.way.map EntryOf.key

namespace Spelling

/-- What stands behind the keys: what is written of a value, and otherwise nothing. -/
def behind : Spelling → String
  | .value raw => "=" ++ raw
  | .emptyTable | .tables => ""

/-- The keys, and what stands behind them. -/
def name (s : Spelling) (keys : List String) : String := String.intercalate "." keys ++ s.behind

/-- An array that begins with another array. -/
def StartsWithArray : Spelling → Prop
  | .value raw => raw.startsWith "[[" = true
  | .emptyTable | .tables => False

instance (s : Spelling) : Decidable s.StartsWithArray := by
  cases s <;> unfold StartsWithArray <;> infer_instance

/-- What is reported behind the keys. -/
def shown (s : Spelling) : String := if s.StartsWithArray then "" else s.behind

theorem length_shown_le (s : Spelling) : s.shown.length ≤ s.behind.length := by
  unfold shown
  split
  · exact Nat.zero_le _
  · exact Nat.le_refl _

theorem length_shown_lt {s : Spelling} (h : s.StartsWithArray) :
    s.shown.length < s.behind.length := by
  rw [shown, if_pos h]
  cases s with
  | value raw =>
    rw [behind, String.length_append]
    exact Nat.lt_of_lt_of_le Nat.zero_lt_one (Nat.le_add_right ..)
  | emptyTable => cases h
  | tables => cases h

end Spelling

end Toml

namespace DocumentFile

open Toml (Node Entry EntryOf Document Leaf Spelling Spelled)

/-! ## Keys -/

theorem foldl_joinKeys : ∀ {keys : List String} {path : String}, path ≠ "" →
    keys.foldl joinKeys path = String.intercalate "." (path :: keys)
  | [], path, _ => String.intercalate_singleton.symm
  | key :: keys, path, h => by
    have hjoin : joinKeys path key = path ++ "." ++ key := by
      rw [joinKeys, if_neg (by rwa [String.isEmpty_iff])]
    have hne : path ++ "." ++ key ≠ "" := by simp
    rw [List.foldl_cons, hjoin, foldl_joinKeys hne, String.intercalate_cons_append,
      String.intercalate_cons_cons]

/-- Empty keys in front leave nothing behind. -/
theorem foldl_joinKeys_empty (keys : List String) :
    keys.foldl joinKeys "" = String.intercalate "." (keys.dropWhile (·.isEmpty)) := by
  induction keys with
  | nil => rfl
  | cons key keys ih =>
    have hjoin : joinKeys "" key = key := if_pos rfl
    rw [List.foldl_cons, hjoin]
    by_cases hkey : key = ""
    · subst hkey
      exact ih
    · rw [foldl_joinKeys hkey, List.dropWhile_cons_of_neg (by rwa [String.isEmpty_iff])]

theorem pathOf_eq (l : Leaf) :
    pathOf l.way = String.intercalate "." (l.keys.dropWhile (·.isEmpty)) := foldl_joinKeys_empty _

/-- There is an empty key with keys behind it. -/
def StartsEmpty (keys : List String) : Prop := 1 < keys.length ∧ keys.head? = some ""

instance (keys : List String) : Decidable (StartsEmpty keys) :=
  inferInstanceAs (Decidable (1 < keys.length ∧ keys.head? = some ""))

theorem length_dropWhile_le (keys : List String) :
    (String.intercalate "." (keys.dropWhile (·.isEmpty))).length
      ≤ (String.intercalate "." keys).length := by
  induction keys with
  | nil => exact Nat.le_refl _
  | cons key keys ih =>
    by_cases hkey : key.isEmpty = true
    · rw [List.dropWhile_cons_of_pos hkey]
      refine Nat.le_trans ih ?_
      cases keys with
      | nil => simp
      | cons key' keys =>
        rw [String.intercalate_cons_cons, String.length_append]
        omega
    · rw [List.dropWhile_cons_of_neg hkey]

theorem length_dropWhile_lt {keys : List String} (h : StartsEmpty keys) :
    (String.intercalate "." (keys.dropWhile (·.isEmpty))).length
      < (String.intercalate "." keys).length := by
  obtain ⟨hlength, hhead⟩ := h
  match keys, hlength, hhead with
  | key :: key' :: keys, _, hhead =>
    obtain rfl : key = "" := Option.some.inj hhead
    have hle := length_dropWhile_le (key' :: keys)
    rw [List.dropWhile_cons_of_pos rfl, String.intercalate_cons_cons, String.length_append]
    simp only [String.length_append] at hle ⊢
    have : (".": String).length = 1 := rfl
    omega

theorem intercalate_dropWhile {keys : List String} (h : ¬ StartsEmpty keys) :
    String.intercalate "." (keys.dropWhile (·.isEmpty)) = String.intercalate "." keys := by
  match keys with
  | [] => rfl
  | [key] =>
    by_cases hkey : key.isEmpty = true
    · rw [List.dropWhile_cons_of_pos hkey, String.isEmpty_iff.mp hkey]
      rfl
    · rw [List.dropWhile_cons_of_neg hkey]
  | key :: key' :: keys =>
    have hkey : ¬ key.isEmpty = true := fun hempty =>
      h ⟨by simp, congrArg some (String.isEmpty_iff.mp hempty)⟩
    rw [List.dropWhile_cons_of_neg hkey]

/-! ## Labels -/

section

variable {d : Document} {l : Leaf} {s : Spelling}

/-- What is reported of a leaf, told by how it is spelled. -/
theorem leafLabel_eq (h : Spelled d.source.text s l.entry.node) :
    leafLabel d l = String.intercalate "." (l.keys.dropWhile (·.isEmpty)) ++ s.shown := by
  rw [← pathOf_eq]
  generalize hnode : l.entry.node = n at h
  cases h with
  | @value raw _ hvalue hraw =>
    rw [leafLabel, hnode, if_neg (by rw [hvalue]; nofun)]
    unfold labelOf Document.rawText? Spelling.shown
    simp only [hraw.slice?]
    by_cases hstarts : raw.startsWith "[[" = true
    · have harray : (Spelling.value raw).StartsWithArray := hstarts
      rw [if_pos hstarts, if_pos harray, String.append_empty]
    · have harray : ¬ (Spelling.value raw).StartsWithArray := hstarts
      rw [if_neg hstarts, if_neg harray]
      exact String.append_assoc ..
  | emptyTable id span =>
    rw [leafLabel, hnode]
    exact String.append_empty.symm
  | @tables id first stop rows _ _ hfirst hstop =>
    rw [leafLabel, hnode, if_neg nofun]
    unfold labelOf Document.rawText?
    split
    · next raw hraw =>
      rw [if_pos (hfirst.slice? hstop hraw)]
      exact String.append_empty.symm
    · exact String.append_empty.symm

/-- The text is the one that is meant, but for two cases: an empty key with keys behind it
comes first, or an array begins with another. -/
theorem leafLabel_eq_name_iff (h : Spelled d.source.text s l.entry.node) :
    leafLabel d l = s.name l.keys ↔ ¬ StartsEmpty l.keys ∧ ¬ s.StartsWithArray := by
  rw [leafLabel_eq h, Spelling.name]
  constructor
  · -- either case makes the text shorter
    intro heq
    have hlength := congrArg String.length heq
    rw [String.length_append, String.length_append] at hlength
    have hkeys := length_dropWhile_le l.keys
    have hshown := s.length_shown_le
    refine ⟨fun hempty => ?_, fun harray => ?_⟩
    · have := length_dropWhile_lt hempty
      omega
    · have := Spelling.length_shown_lt harray
      omega
  · rintro ⟨hempty, harray⟩
    rw [intercalate_dropWhile hempty, Spelling.shown, if_neg harray]

/-- What is reported of a document, leaf by leaf. Every leaf is spelled in one of the three
ways. Its text has the keys on the way to it, but for empty ones in front, and behind them what
is written of a value, unless an array begins with another; so it names the leaf as it is
written exactly if neither was left out. -/
theorem complete_names_leaves {source : Text.Named} {f : DocumentFile}
    (h : Document.parse source = .ok d) (hd : f.document = some d) :
    (complete f).1 = (d.root.leaves.filter (Untouched f.consumed)).map (fun l =>
        .warning (.unusedEntry (leafLabel d l)) (locationIn d l.entry.place?)) ∧
      ∀ l ∈ d.root.leaves, (∃ s, Spelled source.text s l.entry.node) ∧
        ∀ s, Spelled source.text s l.entry.node →
          leafLabel d l = String.intercalate "." (l.keys.dropWhile (·.isEmpty)) ++ s.shown ∧
          (leafLabel d l = s.name l.keys ↔ ¬ StartsEmpty l.keys ∧ ¬ s.StartsWithArray) := by
  refine ⟨complete_log hd, fun l hl => ⟨Toml.spelled_of_parse h hl, fun s hs => ?_⟩⟩
  rw [← Toml.source_of_parse h] at hs
  exact ⟨leafLabel_eq hs, leafLabel_eq_name_iff hs⟩

/-- A document with one leaf of each kind, of which nothing was used. -/
theorem names_unread_leaves :
    let source : Text.Named := ⟨none, "a = [1]\n[[t]]\nb = 'x'\n[e.f]\n"⟩
    let f : DocumentFile := .ofOrigin ⟨"o", "m", "1"⟩ (.content source.text)
    ∃ d, Document.parse source = .ok d ∧
      (complete { f with document := some d }).1
        = [.warning (.unusedEntry "a=[1]") (some ⟨source, ⟨0, 7⟩⟩),
          .warning (.unusedEntry "t") (some ⟨source, ⟨8, 21⟩⟩),
          .warning (.unusedEntry "e.f") (some ⟨source, ⟨22, 27⟩⟩)] ∧
      ∀ l ∈ d.root.leaves, ∃ s, Spelled source.text s l.entry.node ∧
        leafLabel d l = String.intercalate "." (l.keys.dropWhile (·.isEmpty)) ++ s.shown := by
  intro source f
  have hlog : (Document.parse source).toOption.map (fun d =>
      (complete { f with document := some d }).1)
      = some [.warning (.unusedEntry "a=[1]") (some ⟨source, ⟨0, 7⟩⟩),
        .warning (.unusedEntry "t") (some ⟨source, ⟨8, 21⟩⟩),
        .warning (.unusedEntry "e.f") (some ⟨source, ⟨22, 27⟩⟩)] := by decide +kernel
  cases hd : Document.parse source with
  | error issue =>
    rw [hd] at hlog
    cases hlog
  | ok d =>
    rw [hd] at hlog
    refine ⟨d, rfl, Option.some.inj hlog, fun l hl => ?_⟩
    obtain ⟨⟨s, hs⟩, hall⟩ :=
      (complete_names_leaves (f := { f with document := some d }) hd rfl).2 l hl
    exact ⟨s, hs, (hall s hs).1⟩

/-- Neither leaf is named as it is written: the value of the one is missing, and the empty key
of the other. -/
theorem labels_leave_out :
    let source : Text.Named := ⟨none, "a = [[1]]\n''.x = 1\n"⟩
    ∃ d, Document.parse source = .ok d ∧
      (d.root.leaves.map fun l => (l.keys, leafLabel d l)) = [(["a"], "a"), (["", "x"], "x=1")] ∧
      ∀ l ∈ d.root.leaves, ∃ s, Spelled source.text s l.entry.node ∧
        leafLabel d l ≠ s.name l.keys := by
  intro source
  have htold : (Document.parse source).toOption.map (fun d => d.root.leaves.map fun l =>
      (l.keys, leafLabel d l, l.entry.node.canBeRows, d.rawText? l.entry.node))
      = some [(["a"], "a", false, some "[[1]]"), (["", "x"], "x=1", false, some "1")] := by
    decide +kernel
  cases hd : Document.parse source with
  | error issue =>
    rw [hd] at htold
    cases htold
  | ok d =>
    rw [hd] at htold
    simp only [Except.toOption, Option.map_some, Option.some.injEq] at htold
    refine ⟨d, rfl, ?_, fun l hl => ?_⟩
    · have hlabels := congrArg (List.map fun x => (x.1, x.2.1)) htold
      rwa [List.map_map] at hlabels
    · have hmem : (l.keys, leafLabel d l, l.entry.node.canBeRows, d.rawText? l.entry.node) ∈ _ :=
        htold ▸ List.mem_map_of_mem hl
      obtain ⟨s, hs⟩ := Toml.spelled_of_parse hd hl
      refine ⟨s, hs, fun heq => ?_⟩
      rw [← Toml.source_of_parse hd] at hs
      obtain ⟨hempty, harray⟩ := (leafLabel_eq_name_iff hs).mp heq
      simp only [List.mem_cons, Prod.mk.injEq, List.not_mem_nil, or_false] at hmem
      obtain ⟨hkeys, -, hrows, hraw⟩ | ⟨hkeys, -⟩ := hmem
      · obtain ⟨raw, rfl, hslice⟩ := hs.eq_value hrows
        obtain rfl := Option.some.inj (hslice.symm.trans hraw)
        exact harray (by decide +kernel)
      · exact hempty (hkeys ▸ by decide)

end

end DocumentFile

end Configurable
