import Configurable.Proofs.DecimalDigits
import Mathlib.Algebra.Order.Field.Power

/-!
# When a decimal is what its text says

A text denotes a number: a sign, digits with a point, and an exponent (`denoted`). The decimal
that is read from it is this number exactly if the digits and the number itself are decimals
(`parse?_exact_iff`).

Moving the point to the right is exact. Moving it to the left rounds, but never a number that
is a decimal (`lowered?_exact_iff`). So what can go wrong is decided by the digits, and by
whether there is a decimal to be read at all.
-/

namespace Configurable.Decimal

open FloatText (natOfDigits splitSign isExponentMark)

/-! ## What a text denotes -/

/-- The digits with their point, without the sign before and the exponent behind them. -/
def mantissaOf (cs : List Char) : List Char := (splitSign cs).2.takeWhile (!isExponentMark ·)

/-- The number behind an exponent mark. -/
def powerOf : List Char → ℤ
  | '-' :: cs => -(natOfDigits (digitsOf cs) : ℤ)
  | cs => natOfDigits (digitsOf cs)

def exponentOf (cs : List Char) : ℤ :=
  powerOf (((splitSign cs).2.dropWhile (!isExponentMark ·)).drop 1)

def signed (negative : Bool) (q : ℚ) : ℚ := if negative then -q else q

/-- The number that a text denotes. -/
def denoted (cs : List Char) : ℚ :=
  signed (splitSign cs).1 (numeral (mantissaOf cs)) * 10 ^ exponentOf cs

theorem signed_inj {negative : Bool} {p q : ℚ} : signed negative p = signed negative q ↔ p = q := by
  cases negative
  · exact Iff.rfl
  · exact neg_inj

theorem signed_mul (negative : Bool) (p q : ℚ) :
    signed negative (p * q) = signed negative p * q := by
  cases negative
  · rfl
  · exact neg_mul_eq_neg_mul p q

theorem isDecimal_neg {q : ℚ} (h : IsDecimal q) : IsDecimal (-q) := by
  obtain ⟨d, rfl⟩ := h
  refine ⟨⟨!d.negative, d.mantissa, d.scale, d.mantissa_lt, d.scale_le⟩, ?_⟩
  unfold value coefficient
  cases d.negative
  · simp [neg_div]
  · simp [neg_div]

theorem isDecimal_signed_iff {negative : Bool} {q : ℚ} :
    IsDecimal (signed negative q) ↔ IsDecimal q := by
  cases negative with
  | false => exact Iff.rfl
  | true => exact ⟨fun h => neg_neg q ▸ isDecimal_neg h, isDecimal_neg⟩

/-! ## Moving the point -/

@[simp] theorem cast_tenTo (n : Nat) : ((tenTo n : ℕ) : ℚ) = 10 ^ n := by
  show ((10 ^ n : ℕ) : ℚ) = 10 ^ n
  push_cast
  rfl

theorem value_eq (d : Decimal) : d.value = signed d.negative (d.mantissa / 10 ^ d.scale) := by
  unfold value coefficient signed
  cases d.negative
  · simp
  · simp [neg_div]

theorem value_of_ofParts? {negative : Bool} {mantissa scale : Nat} {d : Decimal}
    (h : ofParts? negative mantissa scale = some d) :
    d.value = signed negative (mantissa / 10 ^ scale) ∧ d.mantissa = mantissa := by
  unfold ofParts? at h
  split at h
  · obtain rfl := Option.some.inj h
    exact ⟨value_eq _, rfl⟩
  · cases h

theorem value_of_raised? {b d : Decimal} {power : Nat} (h : b.raised? power = some d) :
    d.value = b.value * 10 ^ power := by
  rw [value_eq b, ← signed_mul]
  unfold raised? at h
  split at h
  · next hle =>
    rw [(value_of_ofParts? h).1, signed_inj, div_mul_eq_mul_div, div_eq_div_iff (by positivity)
      (by positivity), mul_assoc, ← pow_add]
    rw [show power + (b.scale - power) = b.scale by omega]
  · next hlt =>
    split at h
    · cases h
    · rw [(value_of_ofParts? h).1, signed_inj]
      push_cast
      rw [pow_zero, div_one, cast_tenTo, eq_comm, div_mul_eq_mul_div, div_eq_iff (by positivity),
        mul_assoc, ← pow_add]
      rw [show power - b.scale + b.scale = power by omega]

theorem value_of_lowered? {b d : Decimal} {power : Nat} (h : b.lowered? power = some d) :
    ∃ surplus, surplus = b.scale + power - maxScale ∧
      d.value = signed b.negative
        (withoutLast surplus b.mantissa / 10 ^ (b.scale + power - surplus)) := by
  unfold lowered? at h
  split at h
  · cases h
  · exact ⟨_, rfl, (value_of_ofParts? h).1⟩

/-- Nothing is rounded where nothing but zeros is left out. -/
theorem withoutLast_mul (count n : Nat) : withoutLast count (n * 10 ^ count) = n := by
  unfold withoutLast
  split
  · next h => simp [h]
  · next h =>
    have hhalf : tenTo count / 2 < 10 ^ count :=
      Nat.div_lt_self (Nat.pow_pos (by decide)) (by decide)
    show (n * 10 ^ count + tenTo count / 2) / 10 ^ count = n
    rw [Nat.mul_comm, Nat.mul_add_div (Nat.pow_pos (by decide)), Nat.div_eq_of_lt hhalf,
      Nat.add_zero]

theorem abs_signed {negative : Bool} {q : ℚ} (h : 0 ≤ q) : |signed negative q| = q := by
  cases negative
  · exact abs_of_nonneg h
  · exact (abs_neg q).trans (abs_of_nonneg h)

theorem abs_value (d : Decimal) : |d.value| = d.mantissa / 10 ^ d.scale := by
  rw [value_eq, abs_signed (by positivity)]

theorem signed_div (negative : Bool) (p q : ℚ) :
    signed negative (p / q) = signed negative p / q := by
  rw [div_eq_mul_inv, signed_mul, ← div_eq_mul_inv]

/-- A number with a smaller exponent is read as it is where that is a decimal. -/
theorem lowered?_exact_iff {b d : Decimal} {power : Nat} (h : b.lowered? power = some d) :
    d.value = b.value / 10 ^ power ↔ IsDecimal (b.value / 10 ^ power) := by
  refine ⟨fun heq => ⟨d, heq⟩, ?_⟩
  rintro ⟨e, he⟩
  obtain ⟨surplus, hsurplus, hd⟩ := value_of_lowered? h
  rw [hd, value_eq b, ← signed_div, signed_inj, div_div, ← pow_add]
  rcases Nat.eq_zero_or_pos surplus with hzero | hpos
  · rw [hzero]
    rfl
  · -- the decimal has a mantissa with as many zeros at its end as are left out
    have hscale := e.scale_le
    have hmax : maxScale = 28 := rfl
    have hmantissa : (e.mantissa : ℚ) / 10 ^ e.scale = b.mantissa / 10 ^ (b.scale + power) := by
      rw [← abs_value, he, abs_div, abs_value, div_div, pow_add, abs_of_pos (by positivity)]
    have hsplit : b.scale + power = e.scale + (maxScale - e.scale) + surplus := by omega
    have hzeros : b.mantissa = e.mantissa * 10 ^ (maxScale - e.scale) * 10 ^ surplus := by
      rw [hsplit, div_eq_div_iff (by positivity) (by positivity), pow_add, pow_add] at hmantissa
      have hcancel : (b.mantissa : ℚ) * 10 ^ e.scale
          = e.mantissa * 10 ^ (maxScale - e.scale) * 10 ^ surplus * 10 ^ e.scale := by
        linarith
      exact_mod_cast mul_right_cancel₀ (by positivity) hcancel
    rw [hzeros, withoutLast_mul, div_eq_div_iff (by positivity) (by positivity)]
    push_cast
    rw [mul_assoc _ (10 ^ surplus), ← pow_add]
    rw [show surplus + (b.scale + power - surplus) = b.scale + power by omega]

/-! ## Which characters are read -/

theorem splitSign_cons_of_ne {c : Char} (hminus : c ≠ '-') (hplus : c ≠ '+') (cs : List Char) :
    splitSign (c :: cs) = (false, c :: cs) := by
  unfold splitSign
  split
  · next h => exact absurd (List.cons.inj h).1 hminus
  · next h => exact absurd (List.cons.inj h).1 hplus
  · rfl

/-- A sign is no exponent mark, so it does not matter which is looked for first. -/
theorem splitSign_cut (cs : List Char) :
    splitSign (cs.takeWhile (!isExponentMark ·)) = ((splitSign cs).1, mantissaOf cs) ∧
      cs.dropWhile (!isExponentMark ·) = (splitSign cs).2.dropWhile (!isExponentMark ·) := by
  cases cs with
  | nil => exact ⟨rfl, rfl⟩
  | cons c cs =>
    by_cases hminus : c = '-'
    · subst hminus
      exact ⟨rfl, rfl⟩
    by_cases hplus : c = '+'
    · subst hplus
      exact ⟨rfl, rfl⟩
    unfold mantissaOf
    rw [splitSign_cons_of_ne hminus hplus]
    refine ⟨?_, rfl⟩
    by_cases hmark : isExponentMark c = true
    · simp [hmark, splitSign]
    · simp only [List.takeWhile_cons, hmark, Bool.not_false, if_true]
      exact splitSign_cons_of_ne hminus hplus _

/-- Digits are read of digits, points and underscores only. -/
theorem Run.plain {m s m₀ s₀ : Nat} {point : Bool} {cs rest : List Char}
    (h : Run m s point cs m₀ s₀ rest)
    (hrest : ∀ c ∈ rest, c.isDigit = true ∨ c = '_' ∨ c = '.') :
    ∀ c ∈ cs, c.isDigit = true ∨ c = '_' ∨ c = '.' := by
  induction h with
  | ended => exact hrest
  | @full m s c cs hc =>
    obtain ⟨skipped, hcs, hskipped⟩ := exists_append_rounding m cs
    rw [hcs]
    refine List.forall_mem_cons.mpr ⟨Or.inl hc, fun x hx => ?_⟩
    rcases List.mem_append.mp hx with hx | hx
    · exact Or.inr (Or.inl (hskipped x hx))
    · exact hrest x hx
  | wide hc => exact hrest
  | digit hc _ _ _ ih => exact List.forall_mem_cons.mpr ⟨Or.inl hc, ih hrest⟩
  | point _ ih => exact List.forall_mem_cons.mpr ⟨Or.inr (Or.inr rfl), ih hrest⟩
  | underscore _ ih => exact List.forall_mem_cons.mpr ⟨Or.inr (Or.inl rfl), ih hrest⟩

theorem isExponentMark_of_isDigit {d : Char} (h : d.isDigit = true) : isExponentMark d = false := by
  rw [isExponentMark, Bool.or_eq_false_iff, beq_eq_false_iff_ne, beq_eq_false_iff_ne]
  constructor
  · rintro rfl
    cases h
  · rintro rfl
    cases h

theorem not_isExponentMark_of_digits? {cs : List Char} {m s : Nat}
    (h : digits? cs 0 0 false false = some (m, s)) : ∀ c ∈ cs, isExponentMark c = false := by
  obtain ⟨m₀, s₀, rest, hrun, hround⟩ := digits?_run h
  have hrest : ∀ c ∈ rest, c.isDigit = true ∨ c = '_' ∨ c = '.' := by
    unfold rounded? at hround
    split at hround
    · cases hround
    · next hall =>
      rw [Bool.not_eq_true, Bool.not_eq_false'] at hall
      intro c hc
      have hc := List.all_eq_true.mp hall c hc
      rw [Bool.or_eq_true, decide_eq_true_eq] at hc
      exact hc.imp_right Or.inl
  intro c hc
  rcases hrun.plain hrest c hc with hdigit | rfl | rfl
  · exact isExponentMark_of_isDigit hdigit
  · rfl
  · rfl

/-! ## Texts without an exponent -/

/-- What is read of digits behind a sign. -/
structure Base (negative : Bool) (cs : List Char) (b : Decimal) : Prop where
  digits : Kept cs b.mantissa b.scale ∨ Cut cs
  value : b.value = signed negative (b.mantissa / 10 ^ b.scale)

theorem plain?_base {cs : List Char} {b : Decimal} (h : plain? cs = some b) :
    Base (splitSign cs).1 (splitSign cs).2 b ∧
      ∀ c ∈ (splitSign cs).2, isExponentMark c = false := by
  unfold plain? at h
  simp only [Option.bind_eq_some_iff] at h
  obtain ⟨⟨m, s⟩, hdigits, hparts⟩ := h
  refine ⟨?_, not_isExponentMark_of_digits? hdigits⟩
  obtain ⟨hvalue, hm⟩ := value_of_ofParts? hparts
  unfold ofParts? at hparts
  split at hparts
  · obtain rfl := Option.some.inj hparts
    refine ⟨kept_or_cut hdigits, ?_⟩
    rw [hvalue]
    cases (splitSign cs).1 with
    | false => rfl
    | true =>
      by_cases hzero : m = 0
      · simp [hzero, signed]
      · have hne : (m != 0) = true := bne_iff_ne.mpr hzero
        simp only [Bool.true_and, hne]
  · cases hparts

namespace Base

variable {negative : Bool} {cs : List Char} {b d : Decimal} {power : Nat}

theorem value_of_kept (h : Base negative cs b) (hkept : Kept cs b.mantissa b.scale) :
    b.value = signed negative (numeral cs) := by
  rw [h.value, hkept.numeral]

/-- Digits are read as they are if and only if a decimal stands for them. -/
theorem value_eq_iff (h : Base negative cs b) :
    b.value = signed negative (numeral cs) ↔ IsDecimal (numeral cs) := by
  refine ⟨fun heq => isDecimal_signed_iff.mp ⟨b, heq⟩, fun hdecimal => ?_⟩
  rcases h.digits with hkept | hcut
  · exact h.value_of_kept hkept
  · exact absurd hdecimal hcut.not_isDecimal

/-- Moving the point to the left does not make up for digits that were cut off. -/
theorem value_eq_of_lowered (h : Base negative cs b)
    (heq : d.value = signed negative (numeral cs) / 10 ^ power) :
    b.value = signed negative (numeral cs) := by
  have habs : |d.value| = numeral cs / 10 ^ power := by
    rw [heq, ← signed_div, abs_signed (by unfold numeral; positivity)]
  rcases h.digits with hkept | hcut
  · exact h.value_of_kept hkept
  · exfalso
    rw [abs_value, div_eq_div_iff (by positivity) (by positivity)] at habs
    rcases Nat.le_total power d.scale with hle | hge
    · refine hcut.not_isDecimal ⟨⟨false, d.mantissa, d.scale - power, d.mantissa_lt,
        Nat.le_trans (Nat.sub_le ..) d.scale_le⟩, ?_⟩
      show (d.mantissa : ℚ) / 10 ^ (d.scale - power) = _
      rw [div_eq_iff (by positivity)]
      refine mul_right_cancel₀ (b := (10 : ℚ) ^ power) (by positivity) ?_
      rw [habs, mul_assoc, ← pow_add, Nat.sub_add_cancel hle]
    · refine hcut.ne_int (d.mantissa * 10 ^ (power - d.scale)) ?_
      refine mul_right_cancel₀ (b := (10 : ℚ) ^ d.scale) (by positivity) ?_
      push_cast
      rw [← habs, mul_assoc, ← pow_add, Nat.sub_add_cancel hge]

/-- With a larger exponent, what was read of the digits decides. -/
theorem raised_exact_iff (h : Base negative cs b) (hd : d.value = b.value * 10 ^ power) :
    d.value = signed negative (numeral cs) * 10 ^ power ↔ IsDecimal (numeral cs) ∧
      IsDecimal (signed negative (numeral cs) * 10 ^ power) := by
  have hcancel : d.value = signed negative (numeral cs) * 10 ^ power ↔
      b.value = signed negative (numeral cs) := by
    rw [hd, mul_left_inj' (by positivity)]
  constructor
  · intro heq
    exact ⟨h.value_eq_iff.mp (hcancel.mp heq), ⟨d, heq⟩⟩
  · rintro ⟨hdecimal, -⟩
    exact hcancel.mpr (h.value_eq_iff.mpr hdecimal)

theorem lowered_exact_iff (h : Base negative cs b) (hd : b.lowered? power = some d) :
    d.value = signed negative (numeral cs) / 10 ^ power ↔ IsDecimal (numeral cs) ∧
      IsDecimal (signed negative (numeral cs) / 10 ^ power) := by
  constructor
  · intro heq
    exact ⟨h.value_eq_iff.mp (h.value_eq_of_lowered heq), ⟨d, heq⟩⟩
  · rintro ⟨hdecimal, hlowered⟩
    have hb := h.value_eq_iff.mpr hdecimal
    rw [← hb] at hlowered ⊢
    exact (lowered?_exact_iff hd).mpr hlowered

end Base

/-! ## Whole texts -/

theorem denoted_of_raised {cs : List Char} {power : Nat} (h : exponentOf cs = power) :
    denoted cs = signed (splitSign cs).1 (numeral (mantissaOf cs)) * 10 ^ power := by
  rw [denoted, h, zpow_natCast]

theorem denoted_of_lowered {cs : List Char} {power : Nat} (h : exponentOf cs = -power) :
    denoted cs = signed (splitSign cs).1 (numeral (mantissaOf cs)) / 10 ^ power := by
  rw [denoted, h, zpow_neg, zpow_natCast, div_eq_mul_inv]

theorem eq_of_magnitude? {cs : List Char} {n : Nat} (h : magnitude? cs = some n) :
    n = natOfDigits (digitsOf cs) := by
  have hall : ∀ {ds : List Char}, (ds.isEmpty || !ds.all Char.isDigit) = false →
      digitsOf ds = ds := by
    intro ds hds
    rw [Bool.or_eq_false_iff, Bool.not_eq_false'] at hds
    exact List.filter_eq_self.mpr (List.all_eq_true.mp hds.2)
  unfold magnitude? at h
  simp only at h
  split at h
  · next rest =>
    split at h
    · cases h
    · next hdigits =>
      rw [← Option.some.inj h, digitsOf_cons_of_not_digit (by decide),
        hall (Bool.eq_false_iff.mpr hdigits)]
  · split at h
    · cases h
    · next hdigits => rw [← Option.some.inj h, hall (Bool.eq_false_iff.mpr hdigits)]

theorem parse?_eq_some {text : String} {d : Decimal} (h : parse? text = some d) :
    plain? text.toList = some d ∨ scientific? text.toList = some d := by
  unfold parse? at h
  cases hplain : plain? text.toList with
  | some b =>
    rw [hplain] at h
    exact Or.inl h
  | none =>
    rw [hplain] at h
    exact Or.inr h

/-- The digits before an exponent, and the point moved as it says. -/
theorem scientific?_base {cs : List Char} {d : Decimal} (h : scientific? cs = some d) :
    ∃ b power, Base (splitSign cs).1 (mantissaOf cs) b ∧
      (exponentOf cs = (power : ℕ) ∧ d.value = b.value * 10 ^ power ∨
        exponentOf cs = -(power : ℕ) ∧ b.lowered? power = some d) := by
  obtain ⟨hfront, hbehind⟩ := splitSign_cut cs
  unfold scientific? at h
  split at h
  · cases h
  · next mark exponent hmark =>
    rw [hbehind] at hmark
    have hexponent : exponentOf cs = powerOf exponent := by rw [exponentOf, hmark]; rfl
    obtain ⟨b, hplain, h⟩ := Option.bind_eq_some_iff.mp h
    obtain ⟨hbase, -⟩ := plain?_base hplain
    rw [hfront] at hbase
    split at h
    · next rest =>
      obtain ⟨power, hpower, hlowered⟩ := Option.bind_eq_some_iff.mp h
      refine ⟨b, power, hbase, Or.inr ⟨?_, hlowered⟩⟩
      rw [hexponent, eq_of_magnitude? hpower]
      rfl
    · next hminus =>
      obtain ⟨power, hpower, hraised⟩ := Option.bind_eq_some_iff.mp h
      refine ⟨b, power, hbase, Or.inl ⟨?_, value_of_raised? hraised⟩⟩
      rw [hexponent, eq_of_magnitude? hpower, powerOf]
      exact hminus

/-- What is read of a text: digits behind a sign, with the point moved as the exponent says. -/
theorem parse?_base {text : String} {d : Decimal} (h : parse? text = some d) :
    ∃ b power, Base (splitSign text.toList).1 (mantissaOf text.toList) b ∧
      (exponentOf text.toList = (power : ℕ) ∧ d.value = b.value * 10 ^ power ∨
        exponentOf text.toList = -(power : ℕ) ∧ b.lowered? power = some d) := by
  obtain hplain | hscientific := parse?_eq_some h
  · obtain ⟨hbase, hmarks⟩ := plain?_base hplain
    have hnone : (splitSign text.toList).2.dropWhile (!isExponentMark ·) = [] :=
      List.dropWhile_eq_nil_iff.mpr fun c hc => by simp [hmarks c hc]
    have hall : mantissaOf text.toList = (splitSign text.toList).2 :=
      List.takeWhile_eq_self_iff.mpr fun c hc => by simp [hmarks c hc]
    refine ⟨d, 0, hall ▸ hbase, Or.inl ⟨?_, by simp⟩⟩
    rw [exponentOf, hnone]
    rfl
  · exact scientific?_base hscientific

/-- A text is read as the number that it denotes if and only if decimals stand for its digits
and for the number. -/
theorem parse?_exact_iff {text : String} {d : Decimal} (h : parse? text = some d) :
    d.value = denoted text.toList ↔ IsDecimal (numeral (mantissaOf text.toList)) ∧
      IsDecimal (denoted text.toList) := by
  obtain ⟨b, power, hb, ⟨hpower, hd⟩ | ⟨hpower, hd⟩⟩ := parse?_base h
  · rw [denoted_of_raised hpower]
    exact hb.raised_exact_iff hd
  · rw [denoted_of_lowered hpower]
    exact hb.lowered_exact_iff hd

end Configurable.Decimal
