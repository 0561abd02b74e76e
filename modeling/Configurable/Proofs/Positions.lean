import Configurable.Proofs.ReaderRuns
import Mathlib.Data.Finset.Card
import Mathlib.Data.Finset.Range
import Mathlib.Data.List.Induction

/-!
# Lines and columns count characters

A position is found by a scan over the characters that start before an offset. What the scan
counts can be said without it (`foldl_advance`): the newlines among these characters, and the
characters behind the last of them. Which characters these are is told by the bytes at which
they start (`lt_length_startingBefore_iff`).

Of two offsets the larger one has all characters of the smaller one before it, and every further
character leads to a later position (`lt_advance`). So the order of offsets is that of positions,
and offsets with a character between them have different positions.
-/

namespace Configurable.Text

/-- The byte at which the character at an index starts. Behind the last one the text ends. -/
def startOf (text : String) (i : Nat) : Nat := byteLength (text.toList.take i)

/-- The indices of the characters that start before a byte. -/
def indicesBefore (text : String) (offset : Nat) : Finset Nat :=
  {i ∈ Finset.range text.toList.length | startOf text i < offset}

/-- A byte at which a character starts, or the end of the text. -/
def IsBoundary (text : String) (offset : Nat) : Prop :=
  ∃ i ≤ text.toList.length, startOf text i = offset

instance (text : String) (offset : Nat) : Decidable (IsBoundary text offset) :=
  decidable_of_iff (∃ i < text.toList.length + 1, startOf text i = offset)
    (exists_congr fun _ => and_congr_left' Nat.lt_succ_iff)

namespace Position

/-- By lines, and in a line by columns. -/
instance : LT Position where
  lt p q := p.line < q.line ∨ p.line = q.line ∧ p.column < q.column

instance : LE Position where
  le p q := p.line < q.line ∨ p.line = q.line ∧ p.column ≤ q.column

variable {p q r : Position}

theorem le_refl (p : Position) : p ≤ p := Or.inr ⟨rfl, Nat.le_refl _⟩

theorem lt_irrefl (p : Position) : ¬ p < p := by
  rintro (h | ⟨-, h⟩) <;> exact Nat.lt_irrefl _ h

theorem le_of_lt (h : p < q) : p ≤ q := h.imp_right fun ⟨hline, hcolumn⟩ => ⟨hline, hcolumn.le⟩

theorem lt_of_lt_of_le (h : p < q) (h' : q ≤ r) : p < r := by
  rcases h with h | ⟨hline, hcolumn⟩ <;> rcases h' with h' | ⟨hline', hcolumn'⟩
  · exact Or.inl (h.trans h')
  · exact Or.inl (hline' ▸ h)
  · exact Or.inl (hline ▸ h')
  · exact Or.inr ⟨hline.trans hline', Nat.lt_of_lt_of_le hcolumn hcolumn'⟩

theorem lt_advance (p : Position) (c : Char) : p < p.advance c := by
  unfold advance
  split
  · exact Or.inl (Nat.lt_succ_self _)
  · exact Or.inr ⟨rfl, Nat.lt_succ_self _⟩

/-- Further characters lead on. -/
theorem le_foldl_advance : ∀ (cs : List Char) (p : Position), p ≤ cs.foldl advance p
  | [], p => le_refl p
  | c :: cs, p => le_of_lt (lt_of_lt_of_le (lt_advance p c) (le_foldl_advance cs _))

theorem lt_foldl_advance : ∀ {cs : List Char} (p : Position), cs ≠ [] → p < cs.foldl advance p
  | c :: cs, p, _ => lt_of_lt_of_le (lt_advance p c) (le_foldl_advance cs _)

end Position

/-! ## What the scan counts -/

/-- The index is behind all newlines. -/
def BehindNewlines (cs : List Char) (i : Nat) : Prop :=
  ∀ j < cs.length, cs[j]? = some '\n' → j < i

instance (cs : List Char) (i : Nat) : Decidable (BehindNewlines cs i) :=
  inferInstanceAs (Decidable (∀ j < cs.length, _))

theorem behindNewlines_concat {cs : List Char} {c : Char} {i : Nat} :
    BehindNewlines (cs ++ [c]) i ↔ BehindNewlines cs i ∧ (c = '\n' → cs.length < i) := by
  unfold BehindNewlines
  rw [List.length_append, List.length_singleton]
  constructor
  · intro h
    refine ⟨fun j hj hnewline => h j (Nat.lt_succ_of_lt hj) ?_, fun hc => ?_⟩
    · rwa [List.getElem?_append_left hj]
    · exact h cs.length (Nat.lt_succ_self _) (by rw [List.getElem?_concat_length, hc])
  · rintro ⟨hcs, hc⟩ j hj hnewline
    rcases Nat.lt_succ_iff_lt_or_eq.mp hj with hlt | rfl
    · exact hcs j hlt (by rwa [List.getElem?_append_left hlt] at hnewline)
    · exact hc (by simpa using hnewline)

/-- The line is told by the newlines, the column by the characters behind the last of them. -/
theorem foldl_advance (cs : List Char) : cs.foldl Position.advance .first =
    ⟨1 + {i ∈ Finset.range cs.length | cs[i]? = some '\n'}.card,
      1 + {i ∈ Finset.range cs.length | BehindNewlines cs i}.card⟩ := by
  induction cs using List.reverseRecOn with
  | nil => rfl
  | append_singleton cs c ih =>
    have hnotMem : ∀ {p : Nat → Prop} [DecidablePred p],
        cs.length ∉ {i ∈ Finset.range cs.length | p i} := by simp
    -- of the characters before, the same are newlines as without the last one
    have hnewlines : {i ∈ Finset.range cs.length | (cs ++ [c])[i]? = some '\n'} =
        {i ∈ Finset.range cs.length | cs[i]? = some '\n'} :=
      Finset.filter_congr fun i hi => by
        rw [List.getElem?_append_left (Finset.mem_range.mp hi)]
    rw [List.foldl_concat, ih, List.length_append, List.length_singleton, Finset.range_add_one,
      Finset.filter_insert, Finset.filter_insert, hnewlines, List.getElem?_concat_length]
    unfold Position.advance
    by_cases hc : c = '\n'
    · have hnone : {i ∈ Finset.range cs.length | BehindNewlines (cs ++ [c]) i} = ∅ :=
        Finset.filter_eq_empty_iff.mpr fun i hi hbehind =>
          Nat.lt_asymm (Finset.mem_range.mp hi) ((behindNewlines_concat.mp hbehind).2 hc)
      have hlast : ¬ BehindNewlines (cs ++ [c]) cs.length := fun hbehind =>
        Nat.lt_irrefl _ ((behindNewlines_concat.mp hbehind).2 hc)
      rw [if_pos hc, if_pos (congrArg some hc), if_neg hlast, hnone,
        Finset.card_insert_of_notMem hnotMem, Finset.card_empty]
      simp only [Position.mk.injEq, and_true]
      omega
    · have hsame : {i ∈ Finset.range cs.length | BehindNewlines (cs ++ [c]) i} =
          {i ∈ Finset.range cs.length | BehindNewlines cs i} :=
        Finset.filter_congr fun i _ => by simp [behindNewlines_concat, hc]
      have hlast : BehindNewlines (cs ++ [c]) cs.length :=
        behindNewlines_concat.mpr ⟨fun j hj _ => hj, fun h => absurd h hc⟩
      rw [if_neg hc, if_neg (by simpa using hc), if_pos hlast, hsame,
        Finset.card_insert_of_notMem hnotMem]
      simp only [Position.mk.injEq, true_and]
      omega

/-! ## The characters before an offset -/

theorem startingBefore_isInitial : ∀ (cs : List Char) (offset : Nat),
    startingBefore cs offset <+: cs
  | [], _ => List.prefix_refl _
  | _ :: _, 0 => List.nil_prefix
  | c :: cs, _ + 1 => (List.prefix_cons_inj c).mpr (startingBefore_isInitial cs _)

/-- A character is taken if it starts before the offset. -/
theorem lt_length_startingBefore_iff : ∀ {cs : List Char} {offset i : Nat},
    i < (startingBefore cs offset).length ↔ i < cs.length ∧ byteLength (cs.take i) < offset
  | [], _, i => by simp [startingBefore]
  | c :: cs, 0, i => by simp [startingBefore]
  | c :: cs, offset + 1, 0 => by simp [startingBefore]
  | c :: cs, offset + 1, i + 1 => by
      have ih : i < (startingBefore cs (offset + 1 - c.utf8Size)).length ↔ _ :=
        lt_length_startingBefore_iff
      simp only [startingBefore, List.length_cons, List.take_succ_cons, byteLength,
        Nat.add_lt_add_iff_right, ih]
      omega

section

variable {text : String} {a b offset i : Nat}

theorem mem_indicesBefore_iff :
    i ∈ indicesBefore text offset ↔ i < text.toList.length ∧ startOf text i < offset := by
  simp [indicesBefore]

/-- The characters that start before an offset are the first so many. -/
theorem indicesBefore_eq (text : String) (offset : Nat) :
    indicesBefore text offset = Finset.range (startingBefore text.toList offset).length := by
  ext i
  rw [mem_indicesBefore_iff, Finset.mem_range, lt_length_startingBefore_iff]
  rfl

theorem getElem?_startingBefore (h : i ∈ indicesBefore text offset) :
    (startingBefore text.toList offset)[i]? = text.toList[i]? := by
  rw [indicesBefore_eq, Finset.mem_range] at h
  obtain ⟨rest, hrest⟩ := startingBefore_isInitial text.toList offset
  rw [← List.getElem?_append_left h, hrest]

theorem behindNewlines_startingBefore : BehindNewlines (startingBefore text.toList offset) i ↔
    ∀ j ∈ indicesBefore text offset, text.toList[j]? = some '\n' → j < i := by
  refine forall_congr' fun j => ?_
  rw [← Finset.mem_range, ← indicesBefore_eq]
  exact forall_congr' fun hj => by rw [getElem?_startingBefore hj]

theorem positionAt_eq (text : String) (offset : Nat) : positionAt text offset =
    ⟨1 + {i ∈ indicesBefore text offset | text.toList[i]? = some '\n'}.card,
      1 + {i ∈ indicesBefore text offset |
        ∀ j ∈ indicesBefore text offset, text.toList[j]? = some '\n' → j < i}.card⟩ := by
  rw [positionAt, foldl_advance, ← indicesBefore_eq]
  congr 3
  · exact Finset.filter_congr fun i hi => by rw [getElem?_startingBefore hi]
  · exact Finset.filter_congr fun i _ => behindNewlines_startingBefore

/-! ## The order of positions -/

/-- Of two offsets the larger one has all characters of the smaller one before it. -/
theorem exists_startingBefore_append (cs : List Char) (h : a ≤ b) :
    ∃ rest, startingBefore cs b = startingBefore cs a ++ rest := by
  have hlength : (startingBefore cs a).length ≤ (startingBefore cs b).length := by
    refine le_of_forall_lt fun i hi => ?_
    obtain ⟨hcs, hstart⟩ := lt_length_startingBefore_iff.mp hi
    exact lt_length_startingBefore_iff.mpr ⟨hcs, Nat.lt_of_lt_of_le hstart h⟩
  obtain ⟨rest, hrest⟩ := List.prefix_of_prefix_length_le (startingBefore_isInitial cs a)
    (startingBefore_isInitial cs b) hlength
  exact ⟨rest, hrest.symm⟩

theorem positionAt_mono (text : String) (h : a ≤ b) : positionAt text a ≤ positionAt text b := by
  obtain ⟨rest, hrest⟩ := exists_startingBefore_append text.toList h
  rw [positionAt, positionAt, hrest, List.foldl_append]
  exact Position.le_foldl_advance rest _

theorem startOf_le (text : String) (i : Nat) :
    startOf text i ≤ startOf text text.toList.length := by
  have hsplit := byteLength_append (text.toList.take i) (text.toList.drop i)
  rw [List.take_append_drop] at hsplit
  rw [startOf, startOf, List.take_length]
  omega

/-- Between two boundaries there is a character. -/
theorem positionAt_strictMono (ha : IsBoundary text a) (hb : IsBoundary text b) (h : a < b) :
    positionAt text a < positionAt text b := by
  obtain ⟨i, hi, rfl⟩ := ha
  obtain ⟨j, -, rfl⟩ := hb
  have hlt : i < text.toList.length := by
    refine Nat.lt_of_le_of_ne hi fun hend => ?_
    have hle := startOf_le text j
    rw [← hend] at hle
    exact Nat.not_le_of_lt h hle
  obtain ⟨rest, hrest⟩ := exists_startingBefore_append text.toList (Nat.le_of_lt h)
  have hne : rest ≠ [] := by
    rintro rfl
    rw [List.append_nil] at hrest
    have hmem : i < (startingBefore text.toList (startOf text j)).length :=
      lt_length_startingBefore_iff.mpr ⟨hlt, h⟩
    rw [hrest, lt_length_startingBefore_iff] at hmem
    exact Nat.lt_irrefl _ hmem.2
  rw [positionAt, positionAt, hrest, List.foldl_append]
  exact Position.lt_foldl_advance _ hne

/-- **Positions count characters.** The line of an offset is one more than the newlines among
the characters that start before it, and its column one more than the characters behind the
last of these newlines. So a larger offset has no earlier position, a span that is ordered is
shown as one, and two different boundaries of characters, the end of the text included, have
different positions. -/
theorem positionAt_counts (text : String) :
    (∀ offset, (positionAt text offset).line
          = 1 + {i ∈ indicesBefore text offset | text.toList[i]? = some '\n'}.card
        ∧ (positionAt text offset).column
          = 1 + {i ∈ indicesBefore text offset |
            ∀ j ∈ indicesBefore text offset, text.toList[j]? = some '\n' → j < i}.card)
      ∧ (∀ a b, a ≤ b → positionAt text a ≤ positionAt text b
        ∧ (LineRange.ofOffsets text a b).start ≤ (LineRange.ofOffsets text a b).stop)
      ∧ ∀ a b, IsBoundary text a → IsBoundary text b → a ≠ b →
        positionAt text a ≠ positionAt text b := by
  refine ⟨fun offset => ?_, fun a b h => ?_, fun a b ha hb hne heq => ?_⟩
  · rw [positionAt_eq]
    exact ⟨rfl, rfl⟩
  · exact ⟨positionAt_mono text h, positionAt_mono text h⟩
  · rcases Nat.lt_or_gt_of_ne hne with hlt | hlt
    · exact Position.lt_irrefl _ (heq ▸ positionAt_strictMono ha hb hlt)
    · exact Position.lt_irrefl _ (heq ▸ positionAt_strictMono hb ha hlt)

/-- In the second line a character of two bytes comes first. An offset inside it counts it, and
one past the end means the end. -/
theorem positionAt_counts_wide :
    let text := "a\né b"
    positionAt text 3 = ⟨2, 2⟩ ∧ positionAt text 9 = ⟨2, 4⟩ ∧ ¬ IsBoundary text 3
      ∧ positionAt text 2 ≤ positionAt text 3 ∧ positionAt text 2 ≠ positionAt text 4 := by
  intro text
  obtain ⟨-, hmono, hne⟩ := positionAt_counts text
  exact ⟨by decide +kernel, by decide +kernel, by decide +kernel, (hmono 2 3 (by decide)).1,
    hne 2 4 (by decide +kernel) (by decide +kernel) (by decide)⟩

end

end Configurable.Text
