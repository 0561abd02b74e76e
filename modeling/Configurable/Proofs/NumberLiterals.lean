import Configurable.Proofs.DecimalRange
import Configurable.Proofs.GrammarForward

/-!
# What number literals denote

A number of a document is written with underscores between its digits, and an integer in one of
four bases (`Number.denoted`). The integer that is read is the number its literal denotes
(`integer_done`), and the double is the nearest to that number (`decimalFloat_done`): what the
readers of digits are done with is what they took, without the underscores.

As decimals, numbers are read from their text. A text with the mark of a base is none
(`parse?_based`), so of integers only those in base ten are read in this way.
-/

namespace Configurable.Toml

open Reader
open FloatText (splitSign isExponentMark)
open Decimal (signed mantissaOf exponentOf powerOf IsPower IsNumeral IsNotation digitsOf)

namespace Number

/-- A number without its underscores. -/
def bare (raw : List Char) : List Char := raw.filter (· != '_')

/-- The number that a literal denotes, an integer in one of four bases or a decimal. -/
def denoted (raw : List Char) : ℚ :=
  match bare raw with
  | '0' :: 'x' :: ds => Quoted.natOfDigits 16 ds
  | '0' :: 'o' :: ds => Quoted.natOfDigits 8 ds
  | '0' :: 'b' :: ds => Quoted.natOfDigits 2 ds
  | cs => Decimal.denoted cs

/-! ## Texts with the mark of a base -/

/-- A zero and the mark of a base stand in front. -/
def IsBased (cs : List Char) : Prop :=
  ∃ mark ds, cs = '0' :: mark :: ds ∧ (mark = 'x' ∨ mark = 'o' ∨ mark = 'b')

theorem denoted_of_not_based {raw : List Char} (h : ¬ IsBased (bare raw)) :
    denoted raw = Decimal.denoted (bare raw) := by
  unfold denoted
  split
  · next ds hraw => exact absurd ⟨'x', ds, hraw, by decide⟩ h
  · next ds hraw => exact absurd ⟨'o', ds, hraw, by decide⟩ h
  · next ds hraw => exact absurd ⟨'b', ds, hraw, by decide⟩ h
  · rfl

/-- No decimal has such a mark. -/
theorem parse?_based {text : String} (h : IsBased text.toList) : Decimal.parse? text = none := by
  have hplain : ∀ {mark ds}, mark = 'x' ∨ mark = 'o' ∨ mark = 'b' →
      Decimal.plain? ('0' :: mark :: ds) = none := by
    rintro mark ds (rfl | rfl | rfl) <;> rfl
  obtain ⟨mark, ds, htext, hmark⟩ := h
  cases hparse : Decimal.parse? text with
  | none => rfl
  | some d =>
    exfalso
    rcases Decimal.parse?_eq_some hparse with hd | hd
    · rw [htext, hplain hmark] at hd
      cases hd
    · have hcut : ('0' :: mark :: ds).takeWhile (!isExponentMark ·)
          = '0' :: mark :: ds.takeWhile (!isExponentMark ·) := by
        rcases hmark with rfl | rfl | rfl <;> rfl
      rw [htext, Decimal.scientific?, hcut, hplain hmark] at hd
      split at hd <;> cases hd

/-! ## Digits -/

variable {c c' : Cursor} {isDigit : Char → Bool} {ds : List Char}

theorem bare_append (cs cs' : List Char) : bare (cs ++ cs') = bare cs ++ bare cs' :=
  List.filter_append ..

/-- The text is made of the digits, with underscores among them. -/
def WritesDigits (isDigit : Char → Bool) (ds raw : List Char) : Prop :=
  bare raw = ds ∧ ∀ d ∈ ds, isDigit d = true

theorem WritesDigits.cons {x : Char} {raw : List Char} (h : WritesDigits isDigit ds raw)
    (hunderscore : isDigit '_' = false) (hx : isDigit x = true) :
    WritesDigits isDigit (x :: ds) (x :: raw) := by
  have hne : (x != '_') = true := by
    rw [bne_iff_ne]
    rintro rfl
    rw [hunderscore] at hx
    cases hx
  refine ⟨?_, List.forall_mem_cons.mpr ⟨hx, h.2⟩⟩
  exact (List.filter_cons_of_pos (p := (· != '_')) hne).trans (congrArg (x :: ·) h.1)

theorem moreDigits_done (hunderscore : isDigit '_' = false)
    (h : moreDigits isDigit c = .done ds c') :
    ∃ raw, c.Took raw c' ∧ WritesDigits isDigit ds raw := by
  refine many_took (W := WritesDigits isDigit) ⟨rfl, List.forall_mem_nil _⟩ ?_ h
  intro c c' d ds raw hread hmore
  rcases orElse_done_iff.mp hread with hdigit | ⟨-, hseparated⟩
  · obtain ⟨hd, htook⟩ := satisfying_done_iff.mp hdigit
    exact ⟨[d], htook, hmore.cons hunderscore hd⟩
  · simp only [bind_done_iff, char_done_iff, expecting_done_iff, commit_done_iff,
      satisfying_done_iff] at hseparated
    obtain ⟨_, c₁, ⟨-, hunder⟩, hd, htook⟩ := hseparated
    refine ⟨['_', d], hunder.append htook, ?_⟩
    exact ⟨(hmore.cons hunderscore hd).1, (hmore.cons hunderscore hd).2⟩

theorem digits_done (hunderscore : isDigit '_' = false) (h : digits isDigit c = .done ds c') :
    ∃ raw, c.Took raw c' ∧ WritesDigits isDigit ds raw ∧ ds ≠ [] := by
  simp only [digits, bind_done_iff, satisfying_done_iff, pure_done_iff] at h
  obtain ⟨first, c₁, ⟨hfirst, htook⟩, more, c₂, hmore, rfl, rfl⟩ := h
  obtain ⟨raw, htook', hraw⟩ := moreDigits_done hunderscore hmore
  exact ⟨first :: raw, htook.append htook', hraw.cons hunderscore hfirst, List.cons_ne_nil _ _⟩

/-! ## Numbers in base ten -/

theorem splitSign_of_digits (hds : ∀ d ∈ ds, d.isDigit = true) : splitSign ds = (false, ds) := by
  cases ds with
  | nil => rfl
  | cons d ds =>
    have hd := hds d (List.mem_cons_self ..)
    refine Decimal.splitSign_cons_of_ne ?_ ?_ ds
    · rintro rfl
      cases hd
    · rintro rfl
      cases hd

/-- In front of digits, a sign that is read is one that can be told from them. -/
theorem sign_done {negative : Bool} (h : sign c = .done negative c') :
    ∃ mark, c.Took mark c' ∧ ∀ {ds raw}, WritesDigits Char.isDigit ds raw →
      splitSign (bare (mark ++ raw)) = (negative, ds) := by
  simp only [sign, bind_done_iff, pure_done_iff] at h
  obtain ⟨mark, c₁, hmark, hnegative, rfl⟩ := h
  rcases optional_done_iff.mp hmark with ⟨x, rfl, hx⟩ | ⟨rfl, rfl, -⟩
  · obtain ⟨hx, htook⟩ := satisfying_done_iff.mp hx
    simp only [Bool.or_eq_true, beq_iff_eq] at hx
    refine ⟨[x], htook, fun hraw => ?_⟩
    rw [bare_append, hraw.1, ← hnegative]
    rcases hx with rfl | rfl <;> rfl
  · refine ⟨[], ⟨rfl, rfl⟩, fun hraw => ?_⟩
    rw [List.nil_append, hraw.1, ← hnegative]
    exact splitSign_of_digits hraw.2

theorem splitSign_append {cs : List Char} (h : cs ≠ []) (cs' : List Char) :
    splitSign (cs ++ cs') = ((splitSign cs).1, (splitSign cs).2 ++ cs') := by
  cases cs with
  | nil => exact absurd rfl h
  | cons c cs =>
    by_cases hminus : c = '-'
    · subst hminus
      rfl
    by_cases hplus : c = '+'
    · subst hplus
      rfl
    rw [List.cons_append, Decimal.splitSign_cons_of_ne hminus hplus,
      Decimal.splitSign_cons_of_ne hminus hplus]
    rfl

/-- Digits behind a point, or nothing. -/
inductive IsFraction : (places : List Char) → (raw : List Char) → Prop
  | none : IsFraction [] []
  | some {places : List Char} (h : ∀ d ∈ places, d.isDigit = true) :
      IsFraction places ('.' :: places)

/-- A number behind an exponent mark, or nothing. -/
inductive IsExponent : (power : ℤ) → (raw : List Char) → Prop
  | none : IsExponent 0 []
  | some {mark : Char} {cs : List Char} (hmark : isExponentMark mark = true) (h : IsPower cs) :
      IsExponent (powerOf cs) (mark :: cs)

/-- A sign, digits, a fraction and an exponent. -/
structure IsDecimalLiteral (raw : List Char) (negative : Bool) (whole places : List Char)
    (power : ℤ) : Prop where
  split : ∃ fraction exponent, splitSign (bare raw) = (negative, whole ++ (fraction ++ exponent)) ∧
    IsFraction places fraction ∧ IsExponent power exponent
  whole_ne : whole ≠ []
  whole_digits : ∀ d ∈ whole, d.isDigit = true

theorem IsFraction.isNumeral {whole places fraction : List Char} (h : IsFraction places fraction)
    (hne : whole ≠ []) (hwhole : ∀ d ∈ whole, d.isDigit = true) :
    IsNumeral (whole ++ fraction) ∧ Decimal.numeral (whole ++ fraction)
      = FloatText.natOfDigits (whole ++ places) / 10 ^ places.length := by
  have hdigits : digitsOf whole = whole := List.filter_eq_self.mpr hwhole
  have hpoint : '.' ∉ whole := fun hmem => by cases hwhole _ hmem
  obtain ⟨d, hd⟩ := List.exists_mem_of_ne_nil whole hne
  have hdigit : ∀ cs, ∃ d ∈ whole ++ cs, d.isDigit = true := fun cs =>
    ⟨d, List.mem_append_left cs hd, hwhole d hd⟩
  have hdrop : ∀ cs, (whole ++ cs).dropWhile (· ≠ '.') = cs.dropWhile (· ≠ '.') := by
    intro cs
    rw [List.dropWhile_append, if_pos]
    rw [List.isEmpty_iff, List.dropWhile_eq_nil_iff]
    intro d hd
    rw [decide_eq_true_eq]
    rintro rfl
    exact hpoint hd
  cases h with
  | none =>
    refine ⟨⟨?_, ?_, hdigit []⟩, ?_⟩
    · rw [List.append_nil]
      exact fun d hd => Or.inl (hwhole d hd)
    · rw [List.append_nil, List.count_eq_zero_of_not_mem hpoint]
      exact Nat.zero_le 1
    · rw [Decimal.numeral, Decimal.placesOf, hdrop, Decimal.digitsOf_append, hdigits]
      rfl
  | some hplaces =>
    have hpoint' : '.' ∉ places := fun hmem => by cases hplaces _ hmem
    have hdigits' : digitsOf places = places := List.filter_eq_self.mpr hplaces
    refine ⟨⟨fun d hd => ?_, ?_, hdigit _⟩, ?_⟩
    · rcases List.mem_append.mp hd with hd | hd
      · exact Or.inl (hwhole d hd)
      · exact (List.mem_cons.mp hd).symm.imp_left (hplaces d)
    · rw [List.count_append, List.count_eq_zero_of_not_mem hpoint, List.count_cons_self,
        List.count_eq_zero_of_not_mem hpoint']
    · rw [Decimal.numeral, Decimal.placesOf, hdrop, Decimal.digitsOf_append, hdigits,
        Decimal.digitsOf_cons_of_not_digit (by decide), hdigits',
        List.dropWhile_cons_of_neg (by decide),
        Decimal.digitsOf_cons_of_not_digit (by decide), hdigits']

namespace IsDecimalLiteral

variable {raw whole places : List Char} {negative : Bool} {power : ℤ}

theorem not_isBased (h : IsDecimalLiteral raw negative whole places power) :
    ¬ IsBased (bare raw) := by
  rintro ⟨mark, cs, hbare, hmark⟩
  obtain ⟨⟨fraction, exponent, hsplit, hfraction, hexponent⟩, hne, hwhole⟩ := h
  rw [hbare] at hsplit
  have hcs : '0' :: mark :: cs = whole ++ (fraction ++ exponent) := (Prod.mk.inj hsplit).2
  -- the mark would be a digit, the point or an exponent mark
  have hthird : mark.isDigit = true ∨ mark = '.' ∨ isExponentMark mark = true := by
    cases whole with
    | nil => exact absurd rfl hne
    | cons d whole =>
      obtain ⟨-, hcs⟩ := List.cons.inj hcs
      cases whole with
      | cons d' whole =>
        obtain ⟨rfl, -⟩ := List.cons.inj hcs
        exact Or.inl (hwhole mark (List.mem_cons_of_mem _ (List.mem_cons_self ..)))
      | nil =>
        cases hfraction with
        | some _ => exact Or.inr (Or.inl (List.cons.inj hcs).1)
        | none =>
          cases hexponent with
          | none => cases hcs
          | some hmark' _ => exact Or.inr (Or.inr ((List.cons.inj hcs).1 ▸ hmark'))
  rcases hmark with rfl | rfl | rfl <;> exact absurd hthird (by decide)

/-- It is in the usual notation, and denotes its digits with the point moved. -/
theorem denoted_eq (h : IsDecimalLiteral raw negative whole places power) :
    IsNotation (bare raw) ∧ exponentOf (bare raw) = power ∧
      denoted raw = signed negative (FloatText.natOfDigits (whole ++ places))
        * 10 ^ (power - places.length) := by
  obtain ⟨fraction, exponent, hsplit, hfraction, hexponent⟩ := h.split
  obtain ⟨hnumeral, hvalue⟩ := hfraction.isNumeral h.whole_ne h.whole_digits
  have hmarks : ∀ c ∈ whole ++ fraction, (!isExponentMark c) = true := by
    intro c hc
    rcases hnumeral.plain c hc with hdigit | rfl
    · rw [Decimal.isExponentMark_of_isDigit hdigit]
      rfl
    · rfl
  have hsecond : (splitSign (bare raw)).2 = whole ++ fraction ++ exponent := by
    rw [hsplit, List.append_assoc]
  have hcut : mantissaOf (bare raw) = whole ++ fraction ∧
      (splitSign (bare raw)).2.dropWhile (!isExponentMark ·) = exponent := by
    rw [mantissaOf, hsecond, List.takeWhile_append_of_pos hmarks,
      List.dropWhile_append_of_pos hmarks]
    cases hexponent with
    | none => exact ⟨List.append_nil _, rfl⟩
    | some hmark _ => simp [hmark]
  have hpower : exponentOf (bare raw) = power := by
    rw [exponentOf, hcut.2]
    cases hexponent with
    | none => rfl
    | some _ _ => rfl
  refine ⟨⟨hcut.1 ▸ hnumeral, ?_⟩, hpower, ?_⟩
  · rw [hcut.2]
    cases hexponent with
    | none => exact Or.inl rfl
    | some _ hcs => exact Or.inr ⟨_, _, rfl, hcs⟩
  · have hten : (10 : ℚ) ≠ 0 := by norm_num
    rw [denoted_of_not_based h.not_isBased, Decimal.denoted, hcut.1, hpower, hvalue, hsplit,
      zpow_sub₀ hten, zpow_natCast, Decimal.signed_div]
    ring

end IsDecimalLiteral

/-- An integer in base ten is written as a sign and digits. -/
theorem decimalDigits_done {negative : Bool} (h : decimalDigits c = .done (negative, ds) c') :
    ∃ raw, c.Took raw c' ∧ splitSign (bare raw) = (negative, ds) ∧ ds ≠ [] ∧
      ∀ d ∈ ds, d.isDigit = true := by
  obtain ⟨negative', c₁, hsign, h⟩ := bind_done_iff.mp (within_done_iff.mp h)
  obtain ⟨ds', c₂, hdigits, h⟩ := bind_done_iff.mp h
  obtain ⟨heq, rfl⟩ := pure_done_iff.mp h
  obtain ⟨rfl, rfl⟩ := Prod.mk.inj heq
  have hwritten : ∃ raw, c₁.Took raw c₂ ∧ WritesDigits Char.isDigit ds' raw ∧ ds' ≠ [] := by
    rcases orElse_done_iff.mp hdigits with hnonzero | ⟨-, hsingle⟩
    · simp only [bind_done_iff, satisfying_done_iff, pure_done_iff, Bool.and_eq_true] at hnonzero
      obtain ⟨first, c₃, ⟨⟨hfirst, -⟩, htook⟩, more, c₄, hmore, rfl, rfl⟩ := hnonzero
      obtain ⟨raw, htook', hraw⟩ := moreDigits_done rfl hmore
      exact ⟨first :: raw, htook.append htook', hraw.cons rfl hfirst, List.cons_ne_nil _ _⟩
    · simp only [bind_done_iff, satisfying_done_iff, pure_done_iff] at hsingle
      obtain ⟨d, c₃, ⟨hd, htook⟩, rfl, rfl⟩ := hsingle
      have hnone : WritesDigits Char.isDigit [] [] := ⟨rfl, List.forall_mem_nil _⟩
      exact ⟨[d], htook, hnone.cons rfl hd, List.cons_ne_nil _ _⟩
  obtain ⟨raw, htook, hraw, hne⟩ := hwritten
  obtain ⟨mark, hmark, hsplit⟩ := sign_done hsign
  exact ⟨mark ++ raw, hmark.append htook, hsplit hraw, hne, hraw.2⟩

/-! ## Integers -/

theorem natOfDigits_ten (hds : ∀ d ∈ ds, d.isDigit = true) :
    Quoted.natOfDigits 10 ds = FloatText.natOfDigits ds := by
  refine List.foldl_ext _ _ 0 fun n d hd => ?_
  rw [Quoted.hexValue, if_pos (hds d hd)]
  rfl

theorem toInt_of_int64? {negative : Bool} {magnitude : Nat} {n : Int64}
    (h : int64? negative magnitude = .ok n) :
    n.toInt = if negative then -(magnitude : ℤ) else magnitude := by
  have hpow : twoTo 63 = 2 ^ 63 := rfl
  unfold int64? Integer.ofMagnitude? at h
  split at h
  · next m hm =>
    obtain rfl := Except.ok.inj h
    cases negative with
    | true =>
      simp only [if_true] at hm ⊢
      split at hm
      · obtain rfl := Option.some.inj hm
        exact Int64.toInt_ofInt_of_le (by omega) (by omega)
      · cases hm
    | false =>
      simp only [Bool.false_eq_true, if_false] at hm ⊢
      split at hm
      · obtain rfl := Option.some.inj hm
        exact Int64.toInt_ofNat_of_lt (by omega)
      · cases hm
  · cases h

/-- The literal denotes the integer, and if it is not in base ten, it has the mark of its
base. -/
def WritesInteger (n : Int64) (raw : List Char) : Prop :=
  denoted raw = n.toInt ∧ (IsBased (bare raw) ∨ exponentOf (bare raw) = 0)

theorem decimalInteger_done {n : Int64} (h : decimalInteger c = .done n c') :
    ∃ raw, c.Took raw c' ∧ WritesInteger n raw := by
  unfold decimalInteger at h
  split at h
  · next negative ds c₁ hdigits =>
    obtain ⟨_, hdone, hn⟩ := checked_done_iff.mp (commit_done_iff.mp h)
    obtain ⟨-, rfl⟩ := Outcome.done.inj hdone
    obtain ⟨raw, htook, hraw, hne, hds⟩ := decimalDigits_done hdigits
    have hliteral : IsDecimalLiteral raw negative ds [] 0 :=
      ⟨⟨[], [], by rw [hraw, List.append_nil, List.append_nil], .none, .none⟩, hne, hds⟩
    obtain ⟨-, hexponent, hdenoted⟩ := hliteral.denoted_eq
    refine ⟨raw, htook, ?_, Or.inr hexponent⟩
    rw [hdenoted, toInt_of_int64? hn, natOfDigits_ten hds, List.append_nil, signed]
    split <;> simp
  · cases h
  · cases h

/-- Behind the mark of a base stand digits. -/
theorem inBase_done {label : Label} {mark : String} {base : Nat} {n : Int64}
    (hunderscore : isDigit '_' = false) (h : inBase label mark base isDigit c = .done n c') :
    ∃ raw ds, c.Took (mark.toList ++ raw) c' ∧ bare raw = ds ∧
      (Quoted.natOfDigits base ds : ℤ) = n.toInt := by
  simp only [inBase, commit_done_iff, checked_done_iff, within_done_iff, bind_done_iff,
    word_done_iff] at h
  obtain ⟨ds, ⟨_, c₁, hmark, hdigits⟩, hn⟩ := h
  obtain ⟨raw, htook, ⟨hraw, -⟩, -⟩ := digits_done hunderscore hdigits
  exact ⟨raw, ds, hmark.append htook, hraw, (toInt_of_int64? hn).symm⟩

/-- An integer that is read is the number that its literal denotes. -/
theorem integer_done {n : Int64} (h : integer c = .done n c') :
    ∃ raw, c.Took raw c' ∧ WritesInteger n raw := by
  obtain ⟨cs, c₁, hupcoming, h⟩ := bind_done_iff.mp h
  obtain ⟨-, rfl⟩ := upcoming_done_iff.mp hupcoming
  have hbased : ∀ {mark : Char} {base : Nat} {raw : List Char},
      mark = 'x' ∨ mark = 'o' ∨ mark = 'b' →
      denoted ('0' :: mark :: raw) = Quoted.natOfDigits base (bare raw) →
      (Quoted.natOfDigits base (bare raw) : ℤ) = n.toInt →
      WritesInteger n ('0' :: mark :: raw) := by
    intro mark base raw hmark hdenoted hn
    refine ⟨?_, Or.inl ⟨mark, bare raw, ?_, hmark⟩⟩
    · rw [hdenoted, ← hn]
      simp
    · rcases hmark with rfl | rfl | rfl <;> rfl
  generalize cs.take 2 = front at h
  split at h
  · obtain ⟨raw, ds, htook, rfl, hn⟩ := inBase_done rfl h
    exact ⟨_, htook, hbased (by decide) rfl hn⟩
  · obtain ⟨raw, ds, htook, rfl, hn⟩ := inBase_done rfl h
    exact ⟨_, htook, hbased (by decide) rfl hn⟩
  · obtain ⟨raw, ds, htook, rfl, hn⟩ := inBase_done rfl h
    exact ⟨_, htook, hbased (by decide) rfl hn⟩
  · exact decimalInteger_done h

/-! ## Floats -/

theorem powerOf_eq {cs : List Char} {negative : Bool} (h : splitSign cs = (negative, ds))
    (hds : ∀ d ∈ ds, d.isDigit = true) :
    powerOf cs
      = if negative then -(FloatText.natOfDigits ds : ℤ) else FloatText.natOfDigits ds := by
  have hdigits : digitsOf ds = ds := List.filter_eq_self.mpr hds
  unfold splitSign at h
  split at h
  · obtain ⟨rfl, rfl⟩ := Prod.mk.inj h
    rw [powerOf, hdigits]
    rfl
  · obtain ⟨rfl, rfl⟩ := Prod.mk.inj h
    show (FloatText.natOfDigits (digitsOf _) : ℤ) = _
    rw [Decimal.digitsOf_cons_of_not_digit (by decide), hdigits]
    rfl
  · next hminus hplus =>
    obtain ⟨rfl, rfl⟩ := Prod.mk.inj h
    unfold powerOf
    split
    · next cs => exact absurd rfl (hminus cs)
    · rw [hdigits]
      rfl

theorem exponent_done {power : ℤ} (h : exponent c = .done power c') :
    ∃ raw, c.Took raw c' ∧ IsExponent power (bare raw) := by
  simp only [exponent, bind_done_iff, satisfying_done_iff, commit_done_iff, pure_done_iff] at h
  obtain ⟨mark, c₁, ⟨hmark, htook⟩, negative, c₂, hsign, ds, c₃, hdigits, hpower, rfl⟩ := h
  obtain ⟨raw, htook', hraw, hne⟩ := digits_done rfl hdigits
  obtain ⟨signs, hsigns, hsplit⟩ := sign_done hsign
  refine ⟨mark :: (signs ++ raw), htook.append (hsigns.append htook'), ?_⟩
  have hbare : bare (mark :: (signs ++ raw)) = mark :: bare (signs ++ raw) := by
    refine List.filter_cons_of_pos (p := (· != '_')) (bne_iff_ne.mpr ?_)
    rintro rfl
    cases hmark
  have hread := hsplit hraw
  rw [hbare, ← hpower, ← powerOf_eq hread hraw.2]
  exact .some hmark ⟨by rwa [hread], by rw [hread]; exact hraw.2⟩

theorem fraction_done {places : List Char} (h : fraction c = .done places c') :
    ∃ raw, c.Took raw c' ∧ IsFraction places (bare raw) := by
  simp only [fraction, bind_done_iff, char_done_iff, expecting_done_iff, commit_done_iff] at h
  obtain ⟨_, c₁, ⟨-, hpoint⟩, hdigits⟩ := h
  obtain ⟨raw, htook, ⟨hbare, hplaces⟩, -⟩ := digits_done rfl hdigits
  have hraw : bare ('.' :: raw) = '.' :: places := congrArg ('.' :: ·) hbare
  exact ⟨'.' :: raw, hpoint.append htook, hraw ▸ .some hplaces⟩

/-- A float in digits is the double that is nearest to the number its literal denotes. -/
theorem decimalFloat_done {x : Float} (h : decimalFloat c = .done x c') :
    ∃ raw negative whole places power, c.Took raw c' ∧
      IsDecimalLiteral raw negative whole places power ∧
      x = Binary64.nearest negative (FloatText.natOfDigits (whole ++ places))
        (power - places.length) := by
  obtain ⟨⟨negative, whole⟩, c₁, hwhole, h⟩ := bind_done_iff.mp h
  obtain ⟨⟨places, power⟩, c₂, hbehind, h⟩ := bind_done_iff.mp h
  obtain ⟨hx, rfl⟩ := pure_done_iff.mp h
  obtain ⟨front, hfront, hsplit, hne, hdigits⟩ := decimalDigits_done hwhole
  have hraw : ∃ raw fraction exponent, c₁.Took raw c₂ ∧ bare raw = fraction ++ exponent ∧
      IsFraction places fraction ∧ IsExponent power exponent := by
    rcases orElse_done_iff.mp hbehind with hexponent | ⟨-, hfraction⟩
    · simp only [bind_done_iff, pure_done_iff, Prod.mk.injEq] at hexponent
      obtain ⟨_, _, hpower, ⟨rfl, rfl⟩, rfl⟩ := hexponent
      obtain ⟨raw, htook, hpower⟩ := exponent_done hpower
      exact ⟨raw, [], _, htook, rfl, .none, hpower⟩
    · simp only [bind_done_iff, pure_done_iff, Prod.mk.injEq] at hfraction
      obtain ⟨_, c₃, hplaces, o, c₄, hpower, ⟨rfl, rfl⟩, rfl⟩ := hfraction
      obtain ⟨raw, htook, hplaces⟩ := fraction_done hplaces
      rcases optional_done_iff.mp hpower with ⟨power, rfl, hread⟩ | ⟨rfl, rfl, -⟩
      · obtain ⟨raw', htook', hexponent⟩ := exponent_done hread
        exact ⟨raw ++ raw', _, _, htook.append htook', bare_append .., hplaces, hexponent⟩
      · exact ⟨raw, _, [], htook, (List.append_nil _).symm, hplaces, .none⟩
  obtain ⟨raw, fraction, exponent, htook, hbare, hfraction, hexponent⟩ := hraw
  have hnonempty : bare front ≠ [] := by
    intro hempty
    rw [hempty] at hsplit
    exact hne (Prod.mk.inj hsplit).2.symm
  refine ⟨front ++ raw, negative, whole, places, power, hfront.append htook,
    ⟨⟨fraction, exponent, ?_, hfraction, hexponent⟩, hne, hdigits⟩, hx.symm⟩
  rw [bare_append, splitSign_append hnonempty, hsplit, hbare]

/-- The doubles that are written as words. -/
def IsNamed (x : Float) : Prop := (∃ negative, x = Binary64.infinity negative) ∨ x = FloatText.nan

/-- None of them is a decimal. -/
theorem IsNamed.ofFloat? {x : Float} (h : IsNamed x) : Decimal.ofFloat? x = none := by
  obtain ⟨negative, rfl⟩ | rfl := h
  · cases negative <;> decide +kernel
  · decide +kernel

theorem float_done {x : Float} (h : float c = .done x c') :
    decimalFloat c = .done x c' ∨ IsNamed x := by
  rcases orElse_done_iff.mp (within_done_iff.mp h) with hdecimal | ⟨-, hnamed⟩
  · split at hdecimal
    · next hread =>
      split at hdecimal
      · exact Or.inl (hread.trans hdecimal)
      · cases hdecimal
    · exact Or.inl hdecimal
  · obtain ⟨negative, c₁, -, hnamed⟩ := bind_done_iff.mp hnamed
    rcases orElse_done_iff.mp hnamed with hinfinity | ⟨-, hnan⟩
    · obtain ⟨_, _, -, hx⟩ := bind_done_iff.mp hinfinity
      exact Or.inr (Or.inl ⟨negative, (pure_done_iff.mp hx).1.symm⟩)
    · obtain ⟨_, _, -, hx⟩ := bind_done_iff.mp hnan
      exact Or.inr (Or.inr (pure_done_iff.mp hx).1.symm)

end Number

end Configurable.Toml
