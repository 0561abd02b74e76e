import Configurable.Proofs.DecimalText

/-!
# Which texts are read as decimals

A text in the usual notation, a sign, digits with a point and an exponent (`IsNotation`), is
read if its digits and the number it denotes are decimals and the exponent is no larger than
the number of places there are (`InRange`, `parse?_of_isNotation`).

Digits are not read where the integer part is too large, or where rounding makes the mantissa
too large; neither number is a decimal (`digits?_eq_none`).
-/

namespace Configurable.Decimal

open FloatText (digitValue natOfDigits splitSign isExponentMark)

/-! ## The size of decimals -/

theorem lt_of_isDecimal {q : ℚ} (h : IsDecimal q) : |q| < mantissaLimit := by
  obtain ⟨d, rfl⟩ := h
  have hlt : (d.mantissa : ℚ) < mantissaLimit := by exact_mod_cast d.mantissa_lt
  rw [abs_value]
  exact lt_of_le_of_lt (div_le_self (by positivity) (one_le_pow₀ (by norm_num))) hlt

/-- The integer part is no larger than the number. -/
theorem le_numeral (cs : List Char) :
    (numberFrom 0 (cs.takeWhile (· ≠ '.')) : ℚ) ≤ numeral cs := by
  have hsplit : natOfDigits (digitsOf cs)
      = numberFrom 0 (cs.takeWhile (· ≠ '.')) * 10 ^ placesOf cs
        + natOfDigits (digitsOf (cs.dropWhile (· ≠ '.'))) := by
    rw [placesOf, ← numberFrom_eq, ← numberFrom_append, List.takeWhile_append_dropWhile]
    rfl
  rw [numeral, hsplit, le_div_iff₀ (by positivity)]
  push_cast
  exact le_add_of_nonneg_right (by positivity)

/-! ## Digits -/

/-- Digits, at least one, with at most one point among them. -/
structure IsNumeral (cs : List Char) : Prop where
  plain : ∀ c ∈ cs, c.isDigit = true ∨ c = '.'
  point : cs.count '.' ≤ 1
  digit : ∃ c ∈ cs, c.isDigit = true

/-- Rounding fails only if there is something to round. -/
theorem natOfDigits_pos_of_rounded? {rest : List Char} {m s : Nat}
    (hrest : ∀ c ∈ rest, c.isDigit = true) (h : rounded? rest m s = none) :
    0 < natOfDigits (digitsOf rest) := by
  have hall : rest.all (fun c => c.isDigit || c = '_') = true :=
    List.all_eq_true.mpr fun c hc => by simp [hrest c hc]
  unfold rounded? at h
  rw [hall, if_neg (by decide)] at h
  split at h
  · cases h
  · next hup =>
    cases rest with
    | nil => exact absurd rfl hup
    | cons c rest =>
      simp only [List.head?_cons, Option.any_some, Bool.not_eq_true', Bool.not_eq_false,
        Bool.and_eq_true, decide_eq_true_eq] at hup
      rw [digitsOf_cons_of_digit hup.1, natOfDigits_cons]
      have := Nat.mul_pos (Nat.lt_of_lt_of_le (by decide : 0 < 5) hup.2)
        (Nat.pow_pos (by decide : 0 < 10) (n := (digitsOf rest).length))
      omega

/-- What is no number behind `m`: digits before the point that make it too large, or something
that cannot be rounded. -/
theorem digits?_eq_none : ∀ {cs : List Char} {m s : Nat} {point digit : Bool},
    (∀ c ∈ cs, c.isDigit = true ∨ c = '.') → cs.count '.' ≤ (if point then 0 else 1) →
    (digit = true ∨ ∃ c ∈ cs, c.isDigit = true) → digits? cs m s point digit = none →
    (∃ m₀ s₀ rest, Run m s point cs m₀ s₀ rest ∧ rounded? rest m₀ s₀ = none) ∨
      point = false ∧ mantissaLimit ≤ numberFrom m (cs.takeWhile (· ≠ '.'))
  | [], m, s, point, digit, _, _, hdigit, h => by
    have hdigit : digit = true := hdigit.resolve_right (by simp)
    rw [digits?, if_pos hdigit] at h
    cases h
  | c :: cs, m, s, point, digit, hplain, hpoint, hdigit, h => by
    obtain ⟨hc, hcs⟩ := List.forall_mem_cons.mp hplain
    rw [digits?] at h
    rcases hc with hc | rfl
    · have hne : c ≠ '.' := by rintro rfl; cases hc
      have hcount : cs.count '.' ≤ (if point then 0 else 1) := by
        rwa [List.count_cons_of_ne hne] at hpoint
      rw [if_pos hc] at h
      simp only at h
      split at h
      · next hlt =>
        by_cases hfull : isFull (if point then s + 1 else 0) point = true
        · rw [if_pos hfull] at h
          obtain rfl := (isFull_iff.mp hfull).1
          exact Or.inl ⟨_, _, _, .full hc hlt hfull, h⟩
        · rw [if_neg hfull] at h
          rcases digits?_eq_none hcs hcount (Or.inl rfl) h with ⟨m₀, s₀, rest, hrun, hround⟩ | hwide
          · exact Or.inl ⟨m₀, s₀, rest, .digit hc hlt (by simpa using hfull) hrun, hround⟩
          · refine Or.inr ⟨hwide.1, ?_⟩
            rw [List.takeWhile_cons_of_pos (by simpa using hne), numberFrom_cons_of_digit hc]
            exact hwide.2
      · next hge =>
        split at h
        · next hbehind =>
          subst hbehind
          exact Or.inl ⟨_, _, _, .wide hc (Nat.le_of_not_lt hge), h⟩
        · next hbefore =>
          refine Or.inr ⟨by simpa using hbefore, ?_⟩
          rw [List.takeWhile_cons_of_pos (by simpa using hne), numberFrom_cons_of_digit hc]
          exact Nat.le_trans (Nat.le_of_not_lt hge) (le_numberFrom _ _)
    · cases point with
      | true => simp at hpoint
      | false =>
        have hcount : cs.count '.' ≤ (if true then 0 else 1) := by simpa using hpoint
        have hmore : digit = true ∨ ∃ c ∈ cs, c.isDigit = true := by
          refine hdigit.imp_right ?_
          rintro ⟨c, hc, hd⟩
          rcases List.mem_cons.mp hc with rfl | hc
          · cases hd
          · exact ⟨c, hc, hd⟩
        rw [if_neg (by decide), if_pos (by decide)] at h
        rcases digits?_eq_none hcs hcount hmore h with ⟨m₀, s₀, rest, hrun, hround⟩ | hwide
        · exact Or.inl ⟨m₀, s₀, rest, .point hrun, hround⟩
        · cases hwide.1

/-- Digits are read if a decimal stands for them. -/
theorem digits?_of_isNumeral {cs : List Char} (h : IsNumeral cs) (hd : IsDecimal (numeral cs)) :
    ∃ m s, digits? cs 0 0 false false = some (m, s) := by
  cases hread : digits? cs 0 0 false false with
  | some x => exact ⟨x.1, x.2, rfl⟩
  | none =>
    exfalso
    have hcount : cs.count '.' ≤ (if false then 0 else 1) := h.point
    rcases digits?_eq_none h.plain hcount (Or.inr h.digit) hread with
      ⟨m₀, s₀, rest, hrun, hround⟩ | ⟨-, hwide⟩
    · -- the point is not among what is left, so these are digits, and not all of them zeros
      obtain ⟨front, rfl, -, -, -, hpoint⟩ := hrun.taken (by decide) fun _ => rfl
      have hrest : ∀ c ∈ rest, c.isDigit = true := by
        intro c hc
        refine (h.plain c (List.mem_append_right _ hc)).resolve_right ?_
        rintro rfl
        have hfront : '.' ∈ front := by
          rcases hpoint with rfl | hpoint | hpoint
          · cases hc
          · cases hpoint
          · exact hpoint
        have := h.point
        rw [List.count_append] at this
        have := List.count_pos_iff.mpr hfront
        have := List.count_pos_iff.mpr hc
        omega
      exact hrun.not_isDecimal (natOfDigits_pos_of_rounded? hrest hround) hd
    · have hlt := lt_of_isDecimal hd
      rw [abs_of_nonneg (by unfold numeral; positivity)] at hlt
      have hle := le_numeral cs
      have : (mantissaLimit : ℚ) ≤ numberFrom 0 (cs.takeWhile (· ≠ '.')) := by exact_mod_cast hwide
      linarith

theorem plain?_of_isNumeral {cs : List Char} (h : IsNumeral (splitSign cs).2)
    (hd : IsDecimal (numeral (splitSign cs).2)) : ∃ b, plain? cs = some b := by
  obtain ⟨m, s, hread⟩ := digits?_of_isNumeral h hd
  have hfits : m < twoTo 96 := by
    rcases kept_or_cut hread with hkept | hcut
    · exact hkept.fits
    · exact absurd hd hcut.not_isDecimal
  have hscale : s ≤ 28 := scale_le_of_digits? hread
  unfold plain?
  simp only [hread, Option.bind_some, ofParts?, dif_pos (And.intro hfits hscale)]
  exact ⟨_, rfl⟩

/-! ## Exponents -/

/-- A sign and digits, at least one. -/
def IsPower (cs : List Char) : Prop :=
  (splitSign cs).2 ≠ [] ∧ ∀ c ∈ (splitSign cs).2, c.isDigit = true

/-- The usual notation: digits with a point behind a sign, and an exponent. -/
structure IsNotation (cs : List Char) : Prop where
  mantissa : IsNumeral (mantissaOf cs)
  exponent : (splitSign cs).2.dropWhile (!isExponentMark ·) = [] ∨ ∃ mark power,
    (splitSign cs).2.dropWhile (!isExponentMark ·) = mark :: power ∧ IsPower power

theorem magnitude?_of_digits {ds : List Char} (hne : ds ≠ []) (hds : ∀ d ∈ ds, d.isDigit = true) :
    magnitude? ds = some (natOfDigits (digitsOf ds)) ∧
      magnitude? ('+' :: ds) = some (natOfDigits (digitsOf ds)) := by
  have hdigits : digitsOf ds = ds := List.filter_eq_self.mpr hds
  have hnone : (ds.isEmpty || !ds.all Char.isDigit) = false := by
    rw [Bool.or_eq_false_iff, Bool.not_eq_false']
    exact ⟨by simpa using hne, List.all_eq_true.mpr hds⟩
  refine ⟨?_, ?_⟩
  · unfold magnitude?
    split
    · cases hds '+' (List.mem_cons_self ..)
    · simp [hdigits, hnone]
  · simp [magnitude?, hdigits, hnone]

/-- The number of an exponent is read, behind a minus or not. -/
theorem IsPower.magnitude? {cs : List Char} (h : IsPower cs) :
    (∃ ds power, cs = '-' :: ds ∧ Decimal.magnitude? ds = some power ∧
      powerOf cs = -(power : ℕ)) ∨
    (∃ power, (∀ ds, cs ≠ '-' :: ds) ∧ Decimal.magnitude? cs = some power ∧
      powerOf cs = (power : ℕ)) := by
  obtain ⟨hne, hdigits⟩ := h
  unfold splitSign at hne hdigits
  revert hne hdigits
  split
  · next ds =>
    intro hne hdigits
    exact Or.inl ⟨ds, _, rfl, (magnitude?_of_digits hne hdigits).1, rfl⟩
  · next ds =>
    intro hne hdigits
    exact Or.inr ⟨_, nofun, (magnitude?_of_digits hne hdigits).2, rfl⟩
  · next hminus hplus =>
    intro hne hdigits
    refine Or.inr ⟨_, fun ds h => hminus ds h, (magnitude?_of_digits hne hdigits).1, ?_⟩
    unfold powerOf
    split
    · next ds => exact absurd rfl (hminus ds)
    · rfl

theorem ofParts?_of_lt {negative : Bool} {mantissa scale : Nat} (hm : mantissa < mantissaLimit)
    (hs : scale ≤ maxScale) : ∃ d, ofParts? negative mantissa scale = some d :=
  ⟨_, dif_pos ⟨hm, hs⟩⟩

/-- The point is moved to the right if the result is a decimal. -/
theorem raised?_of_isDecimal {b : Decimal} {power : Nat} (hpower : power ≤ maxScale)
    (hd : IsDecimal (b.value * 10 ^ power)) : ∃ d, b.raised? power = some d := by
  unfold raised?
  split
  · exact ofParts?_of_lt b.mantissa_lt (Nat.le_trans (Nat.sub_le ..) b.scale_le)
  · next hlt =>
    rw [if_neg (Nat.not_lt.mpr hpower)]
    refine ofParts?_of_lt ?_ (Nat.zero_le _)
    have habs : |b.value * 10 ^ power| = (b.mantissa * tenTo (power - b.scale) : ℕ) := by
      rw [abs_mul, abs_value, abs_of_pos (by positivity), div_mul_eq_mul_div,
        div_eq_iff (by positivity)]
      push_cast
      rw [cast_tenTo, mul_assoc, ← pow_add, Nat.sub_add_cancel (Nat.le_of_not_le hlt)]
    have hlimit := lt_of_isDecimal hd
    rw [habs] at hlimit
    exact_mod_cast hlimit

theorem withoutLast_le (count n : Nat) : withoutLast count n ≤ n := by
  unfold withoutLast
  split
  · exact Nat.le_refl n
  · have hpow : 0 < tenTo count := Nat.pow_pos (by decide)
    have hhalf : tenTo count / 2 < tenTo count := Nat.div_lt_self hpow (by decide)
    refine Nat.le_of_lt_succ ((Nat.div_lt_iff_lt_mul hpow).mpr ?_)
    have hle : n * 1 ≤ n * tenTo count := Nat.mul_le_mul_left n hpow
    rw [Nat.succ_mul]
    omega

theorem lowered?_of_le {b : Decimal} {power : Nat} (hpower : power ≤ maxScale) :
    ∃ d, b.lowered? power = some d := by
  unfold lowered?
  rw [if_neg (Nat.not_lt.mpr hpower)]
  refine ofParts?_of_lt (Nat.lt_of_le_of_lt (withoutLast_le _ _) b.mantissa_lt) ?_
  have := b.scale_le
  have hmax : maxScale = 28 := rfl
  omega

/-! ## Whole texts -/

theorem plain?_of_mantissa {cs front : List Char} {negative : Bool}
    (h : IsNumeral (mantissaOf cs)) (hd : IsDecimal (numeral (mantissaOf cs)))
    (hfront : splitSign front = (negative, mantissaOf cs)) :
    ∃ b, plain? front = some b ∧ b.value = signed negative (numeral (mantissaOf cs)) := by
  have hsecond : (splitSign front).2 = mantissaOf cs := by rw [hfront]
  obtain ⟨b, hb⟩ := plain?_of_isNumeral (hsecond ▸ h) (hsecond ▸ hd)
  obtain ⟨hbase, -⟩ := plain?_base hb
  rw [hfront] at hbase
  exact ⟨b, hb, hbase.value_eq_iff.mpr hd⟩

/-- Decimals stand for the digits and for the number, and the exponent is no larger than the
number of places. -/
structure InRange (cs : List Char) : Prop where
  digits : IsDecimal (numeral (mantissaOf cs))
  number : IsDecimal (denoted cs)
  exponent : |exponentOf cs| ≤ maxScale

/-- A text in the usual notation is read if it is in range. -/
theorem parse?_of_isNotation {text : String} (h : IsNotation text.toList)
    (hrange : InRange text.toList) : ∃ d, parse? text = some d := by
  obtain ⟨hdigits, hd, hpower⟩ := hrange
  cases hplain : plain? text.toList with
  | some b => exact ⟨b, by rw [parse?, hplain]; rfl⟩
  | none =>
    have hparse : parse? text = scientific? text.toList := by rw [parse?, hplain]; rfl
    rw [hparse]
    generalize text.toList = cs at *
    obtain ⟨hfront, hbehind⟩ := splitSign_cut cs
    obtain ⟨b, hb, hvalue⟩ := plain?_of_mantissa h.mantissa hdigits hfront
    rcases h.exponent with hnone | ⟨mark, power, hmark, hne, hpowers⟩
    · have hall : cs.takeWhile (!isExponentMark ·) = cs := by
        rw [← hbehind] at hnone
        have := List.takeWhile_append_dropWhile (p := (!isExponentMark ·)) (l := cs)
        rwa [hnone, List.append_nil] at this
      rw [hall, hplain] at hb
      cases hb
    · have hexponent : exponentOf cs = powerOf power := by rw [exponentOf, hmark]; rfl
      rw [hexponent] at hpower
      rw [denoted, hexponent, ← hvalue] at hd
      rw [scientific?, hbehind, hmark]
      have hfits : ∀ {k : ℕ}, |powerOf power| = k → k ≤ maxScale := fun hk => by
        rw [hk] at hpower
        exact_mod_cast hpower
      rcases IsPower.magnitude? ⟨hne, hpowers⟩ with
        ⟨ds, k, rfl, hmagnitude, hk⟩ | ⟨k, hminus, hmagnitude, hk⟩
      · have hle : k ≤ maxScale := hfits (by rw [hk, abs_neg, Nat.abs_cast])
        obtain ⟨d, hlowered⟩ := lowered?_of_le (b := b) hle
        refine ⟨d, ?_⟩
        simp only [hb, bind, Option.bind_some, hmagnitude, hlowered]
      · have hle : k ≤ maxScale := hfits (by rw [hk, Nat.abs_cast])
        rw [hk, zpow_natCast] at hd
        obtain ⟨d, hraised⟩ := raised?_of_isDecimal hle hd
        refine ⟨d, ?_⟩
        simp only [hb, bind, Option.bind_some, hmagnitude, hraised]

end Configurable.Decimal
