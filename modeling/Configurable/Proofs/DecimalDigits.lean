import Configurable.Number.Decimal
import Mathlib.Algebra.Order.Field.Rat
import Mathlib.Data.List.TakeWhile
import Mathlib.Tactic.FieldSimp
import Mathlib.Tactic.Linarith
import Mathlib.Tactic.Positivity
import Mathlib.Tactic.Ring

/-!
# What is read of the digits of a decimal

Digits with a point denote a number (`numeral`). A decimal is read from them digit by digit, up
to the end or to where the limits of decimals cut them (`Run`). What was taken up to there is
the number without the digits behind, and these are only seen to round.

Whether the number is hit is a matter of the digits that were cut off (`kept_or_cut`). Where
all of them are zeros, it is; where not, the number has places that no decimal has, or is too
large for those it needs, and so is none (`IsDecimal`).
-/

namespace Configurable.Decimal

open FloatText (digitValue natOfDigits)

/-! ## Numbers -/

/-- The number that a decimal stands for. -/
def value (d : Decimal) : ℚ := d.coefficient / 10 ^ d.scale

/-- The program's own equality is that of the numbers. -/
theorem sameNumber_iff {a b : Decimal} : a.sameNumber b = true ↔ a.value = b.value := by
  have hten : ∀ n, (tenTo n : ℤ) = 10 ^ n := fun n => Nat.cast_pow 10 n
  rw [sameNumber, beq_iff_eq, value, value, div_eq_div_iff (by positivity) (by positivity), hten,
    hten]
  constructor
  · intro h
    exact_mod_cast h
  · intro h
    exact_mod_cast h

/-- The number has a decimal that stands for it. -/
def IsDecimal (q : ℚ) : Prop := ∃ d : Decimal, d.value = q

/-- The digits of a text, whatever stands between them. -/
def digitsOf (cs : List Char) : List Char := cs.filter Char.isDigit

/-- How many digits stand behind the point. -/
def placesOf (cs : List Char) : Nat := (digitsOf (cs.dropWhile (· ≠ '.'))).length

/-- The number that digits with a point among them denote. -/
def numeral (cs : List Char) : ℚ := natOfDigits (digitsOf cs) / 10 ^ placesOf cs

/-! ## Digits behind others -/

/-- The number that is made by putting the digits of a text behind those of a number. -/
def numberFrom (m : Nat) (cs : List Char) : Nat :=
  (digitsOf cs).foldl (fun n c => 10 * n + digitValue c) m

/-- How many places a text adds, if it stands behind the point, or else has one in it. -/
def placesFrom (point : Bool) (cs : List Char) : Nat :=
  if point then (digitsOf cs).length else placesOf cs

theorem digitsOf_append (cs cs' : List Char) :
    digitsOf (cs ++ cs') = digitsOf cs ++ digitsOf cs' := List.filter_append ..

theorem digitsOf_cons_of_digit {c : Char} (h : c.isDigit = true) (cs : List Char) :
    digitsOf (c :: cs) = c :: digitsOf cs := List.filter_cons_of_pos h

theorem digitsOf_cons_of_not_digit {c : Char} (h : ¬ c.isDigit = true) (cs : List Char) :
    digitsOf (c :: cs) = digitsOf cs := List.filter_cons_of_neg h

theorem numberFrom_append (m : Nat) (cs cs' : List Char) :
    numberFrom m (cs ++ cs') = numberFrom (numberFrom m cs) cs' := by
  rw [numberFrom, digitsOf_append, List.foldl_append]
  rfl

theorem digitValue_lt {c : Char} (h : c.isDigit = true) : digitValue c < 10 := by
  simp only [Char.isDigit, Bool.and_eq_true, decide_eq_true_eq] at h
  have hle : c.toNat ≤ 57 := h.2
  show c.toNat - 48 < 10
  omega

theorem foldl_digits (m : Nat) (ds : List Char) :
    ds.foldl (fun n c => 10 * n + digitValue c) m = m * 10 ^ ds.length + natOfDigits ds := by
  induction ds generalizing m with
  | nil => simp [natOfDigits]
  | cons d ds ih =>
    rw [natOfDigits, List.foldl_cons, List.foldl_cons, ih, ih, List.length_cons, Nat.pow_succ]
    ring

theorem natOfDigits_cons (c : Char) (ds : List Char) :
    natOfDigits (c :: ds) = digitValue c * 10 ^ ds.length + natOfDigits ds := by
  rw [natOfDigits, List.foldl_cons, foldl_digits]
  simp

theorem natOfDigits_lt {ds : List Char} (h : ∀ d ∈ ds, d.isDigit = true) :
    natOfDigits ds < 10 ^ ds.length := by
  induction ds with
  | nil => exact Nat.one_pos
  | cons d ds ih =>
    obtain ⟨hd, hds⟩ := List.forall_mem_cons.mp h
    have hlt := digitValue_lt hd
    have hrest := ih hds
    rw [natOfDigits_cons, List.length_cons, Nat.pow_succ]
    have : digitValue d * 10 ^ ds.length ≤ 9 * 10 ^ ds.length := Nat.mul_le_mul_right _ (by omega)
    omega

theorem numberFrom_eq (m : Nat) (cs : List Char) :
    numberFrom m cs = m * 10 ^ (digitsOf cs).length + natOfDigits (digitsOf cs) :=
  foldl_digits m (digitsOf cs)

theorem le_numberFrom (m : Nat) (cs : List Char) : m ≤ numberFrom m cs := by
  rw [numberFrom_eq]
  exact Nat.le_trans (Nat.le_mul_of_pos_right m (Nat.pow_pos (by decide))) (Nat.le_add_right ..)

theorem numberFrom_cons_of_digit {c : Char} (hc : c.isDigit = true) (m : Nat) (cs : List Char) :
    numberFrom m (c :: cs) = numberFrom (10 * m + digitValue c) cs := by
  rw [numberFrom, digitsOf_cons_of_digit hc]
  rfl

theorem isDigit_of_mem_digitsOf {c : Char} {cs : List Char} (h : c ∈ digitsOf cs) :
    c.isDigit = true := (List.mem_filter.mp h).2

theorem placesFrom_append {point : Bool} {cs : List Char} (h : point = true ∨ '.' ∈ cs)
    (cs' : List Char) :
    placesFrom point (cs ++ cs') = placesFrom point cs + (digitsOf cs').length := by
  cases point with
  | true => simp [placesFrom, digitsOf_append]
  | false =>
    obtain ⟨c, hc, hpoint⟩ : ∃ c ∈ cs, ¬ (c ≠ '.') := ⟨'.', h.resolve_left nofun, by simp⟩
    have hdrop : (cs ++ cs').dropWhile (· ≠ '.') = cs.dropWhile (· ≠ '.') ++ cs' := by
      rw [List.dropWhile_append, if_neg]
      rw [List.isEmpty_iff, List.dropWhile_eq_nil_iff]
      exact fun hall => hpoint (by simpa using hall c hc)
    simp only [placesFrom, placesOf, hdrop, digitsOf_append, List.length_append]
    rfl

/-! ## Reading digit by digit -/

/-- The state in which reading digits ends, and what is left then. Behind `m`, which has `s`
places, the digits of `cs` are taken in until there are no more, all places are taken, or a
place does not fit. -/
inductive Run : (m s : Nat) → (point : Bool) → (cs : List Char) → (m₀ s₀ : Nat) →
    (rest : List Char) → Prop
  | ended {m s point} : Run m s point [] m s []
  | full {m s c cs} : c.isDigit = true → 10 * m + digitValue c < mantissaLimit →
      isFull (s + 1) true = true →
      Run m s true (c :: cs) (10 * m + digitValue c) (s + 1) (rounding m cs)
  | wide {m s c cs} : c.isDigit = true → mantissaLimit ≤ 10 * m + digitValue c →
      Run m s true (c :: cs) m s (c :: cs)
  | digit {m s point c cs m₀ s₀ rest} : c.isDigit = true →
      10 * m + digitValue c < mantissaLimit →
      isFull (if point then s + 1 else 0) point = false →
      Run (10 * m + digitValue c) (if point then s + 1 else 0) point cs m₀ s₀ rest →
      Run m s point (c :: cs) m₀ s₀ rest
  | point {m s cs m₀ s₀ rest} : Run m s true cs m₀ s₀ rest → Run m s false ('.' :: cs) m₀ s₀ rest
  | underscore {m s point cs m₀ s₀ rest} : Run m s point cs m₀ s₀ rest →
      Run m s point ('_' :: cs) m₀ s₀ rest

theorem isFull_iff {scale : Nat} {point : Bool} :
    isFull scale point = true ↔ point = true ∧ maxScale ≤ scale := by
  rw [isFull, Bool.and_eq_true, decide_eq_true_eq]

/-- Only underscores are skipped in front of what rounds. -/
theorem exists_append_rounding (m : Nat) (cs : List Char) :
    ∃ skipped, cs = skipped ++ rounding m cs ∧ ∀ c ∈ skipped, c = '_' := by
  unfold rounding
  split
  · refine ⟨cs.takeWhile (· == '_'), List.takeWhile_append_dropWhile.symm, fun c hc => ?_⟩
    have hskipped := List.mem_takeWhile_imp (p := (· == '_')) hc
    exact beq_iff_eq.mp hskipped
  · exact ⟨[], rfl, List.forall_mem_nil _⟩

theorem digitsOf_underscores {cs : List Char} (h : ∀ c ∈ cs, c = '_') : digitsOf cs = [] := by
  refine List.filter_eq_nil_iff.mpr fun c hc => ?_
  rw [h c hc]
  decide

/-- What is left only rounds. -/
theorem digits?_run : ∀ {cs : List Char} {m s : Nat} {point digit : Bool} {m' s' : Nat},
    digits? cs m s point digit = some (m', s') →
    ∃ m₀ s₀ rest, Run m s point cs m₀ s₀ rest ∧ rounded? rest m₀ s₀ = some (m', s')
  | [], m, s, point, digit, m', s', h => by
    have hround : rounded? [] m s = some (m, s) := rfl
    rw [digits?] at h
    split at h
    · exact ⟨m, s, [], .ended, hround.trans h⟩
    · cases h
  | c :: cs, m, s, point, digit, m', s', h => by
    rw [digits?] at h
    split at h
    · next hc =>
      simp only at h
      split at h
      · next hlt =>
        by_cases hfull : isFull (if point then s + 1 else 0) point = true
        · rw [if_pos hfull] at h
          obtain rfl := (isFull_iff.mp hfull).1
          exact ⟨_, _, _, .full hc hlt hfull, h⟩
        · rw [if_neg hfull] at h
          obtain ⟨m₀, s₀, rest, hrun, hround⟩ := digits?_run h
          exact ⟨m₀, s₀, rest, .digit hc hlt (by simpa using hfull) hrun, hround⟩
      · next hge =>
        split at h
        · next hpoint =>
          subst hpoint
          exact ⟨_, _, _, .wide hc (Nat.le_of_not_lt hge), h⟩
        · cases h
    · split at h
      · next hc =>
        obtain ⟨rfl, hpoint⟩ := hc
        obtain rfl : point = false := by simpa using hpoint
        obtain ⟨m₀, s₀, rest, hrun, hround⟩ := digits?_run h
        exact ⟨m₀, s₀, rest, .point hrun, hround⟩
      · split at h
        · next hc =>
          obtain ⟨rfl, -⟩ := hc
          obtain ⟨m₀, s₀, rest, hrun, hround⟩ := digits?_run h
          exact ⟨m₀, s₀, rest, .underscore hrun, hround⟩
        · cases h

namespace Run

variable {m s m₀ s₀ : Nat} {point : Bool} {cs rest : List Char}

/-- What was taken is the number of the digits before the rest, with their places. -/
theorem taken (h : Run m s point cs m₀ s₀ rest) (hm : m < mantissaLimit)
    (hs : point = false → s = 0) : ∃ front, cs = front ++ rest ∧ m₀ = numberFrom m front ∧
      s₀ = s + placesFrom point front ∧ m₀ < mantissaLimit ∧
      (rest = [] ∨ point = true ∨ '.' ∈ front) := by
  induction h with
  | ended => exact ⟨[], rfl, rfl, by simp [placesFrom, placesOf, digitsOf], hm, Or.inl rfl⟩
  | @full m s c cs hc hlt hfull =>
    obtain ⟨skipped, hcs, hskipped⟩ := exists_append_rounding m cs
    have hdigits : digitsOf (c :: skipped) = [c] := by
      rw [digitsOf_cons_of_digit hc, digitsOf_underscores hskipped]
    refine ⟨c :: skipped, congrArg (c :: ·) hcs, ?_, ?_, hlt, Or.inr (Or.inl rfl)⟩
    · rw [numberFrom, hdigits]
      rfl
    · rw [placesFrom, if_pos rfl, hdigits]
      rfl
  | wide hc hge => exact ⟨[], rfl, rfl, rfl, hm, Or.inr (Or.inl rfl)⟩
  | @digit m s point c cs m₀ s₀ rest hc hlt hfull hrun ih =>
    obtain ⟨front, rfl, hnumber, hplaces, hlimit, hpoint⟩ := ih hlt (by rintro rfl; rfl)
    refine ⟨c :: front, rfl, ?_, ?_, hlimit, ?_⟩
    · rw [hnumber, numberFrom, numberFrom, digitsOf_cons_of_digit hc]
      rfl
    · have hne : c ≠ '.' := by rintro rfl; cases hc
      rw [hplaces]
      cases point with
      | true =>
        simp only [placesFrom, if_true, digitsOf_cons_of_digit hc, List.length_cons]
        omega
      | false =>
        rw [hs rfl]
        simp [placesFrom, placesOf, hne]
    · exact hpoint.imp_right (Or.imp_right (List.mem_cons_of_mem _))
  | @point m s cs m₀ s₀ rest hrun ih =>
    obtain ⟨front, rfl, hnumber, hplaces, hlimit, hpoint⟩ := ih hm nofun
    refine ⟨'.' :: front, rfl, hnumber, ?_, hlimit, Or.inr (Or.inr (List.mem_cons_self ..))⟩
    rw [hplaces]
    rfl
  | @underscore m s point cs m₀ s₀ rest hrun ih =>
    obtain ⟨front, rfl, hnumber, hplaces, hlimit, hpoint⟩ := ih hm hs
    refine ⟨'_' :: front, rfl, hnumber, ?_, hlimit, ?_⟩
    · rw [hplaces]
      cases point <;> rfl
    · exact hpoint.imp_right (Or.imp_right (List.mem_cons_of_mem _))

/-- Something is left only where all places are taken or the next does not fit. -/
theorem left (h : Run m s point cs m₀ s₀ rest) : rest = [] ∨ maxScale ≤ s₀ ∨
    ∃ c cs', rest = c :: cs' ∧ c.isDigit = true ∧ mantissaLimit ≤ 10 * m₀ + digitValue c := by
  induction h with
  | ended => exact Or.inl rfl
  | full hc hlt hfull => exact Or.inr (Or.inl (isFull_iff.mp hfull).2)
  | wide hc hge => exact Or.inr (Or.inr ⟨_, _, rfl, hc, hge⟩)
  | digit _ _ _ _ ih => exact ih
  | point _ ih => exact ih
  | underscore _ ih => exact ih

/-- No more places are taken than there are. -/
theorem scale_le (h : Run m s point cs m₀ s₀ rest) (hs : s < maxScale) : s₀ ≤ maxScale := by
  induction h with
  | ended => exact Nat.le_of_lt hs
  | full => exact hs
  | wide => exact Nat.le_of_lt hs
  | @digit m s point c cs m₀ s₀ rest hc hlt hfull hrun ih =>
    refine ih ?_
    cases point with
    | false => exact show 0 < maxScale by decide
    | true =>
      refine Nat.lt_of_not_le fun hle => ?_
      rw [isFull_iff.mpr ⟨rfl, hle⟩] at hfull
      cases hfull
  | point _ ih => exact ih hs
  | underscore _ ih => exact ih hs

end Run

/-! ## What the digits that are left do -/

theorem scale_le_of_rounded? {rest : List Char} {m s m' s' : Nat}
    (h : rounded? rest m s = some (m', s')) : s' ≤ s := by
  unfold rounded? at h
  split at h
  · cases h
  · split at h
    · cases h
      exact Nat.le_refl _
    · split at h
      · cases h
        exact Nat.le_refl _
      · split at h
        · cases h
        · cases h
          exact Nat.sub_le ..

theorem scale_le_of_digits? {cs : List Char} {m s : Nat}
    (h : digits? cs 0 0 false false = some (m, s)) : s ≤ maxScale := by
  obtain ⟨m₀, s₀, rest, hrun, hround⟩ := digits?_run h
  exact Nat.le_trans (scale_le_of_rounded? hround) (hrun.scale_le (by decide))

/-- Zeros round nothing. -/
theorem eq_of_rounded? {rest : List Char} {m s m' s' : Nat}
    (h : rounded? rest m s = some (m', s')) (hzero : natOfDigits (digitsOf rest) = 0) :
    m' = m ∧ s' = s := by
  have hup : rest.head?.any (fun c => c.isDigit && 5 ≤ digitValue c) = false := by
    cases rest with
    | nil => rfl
    | cons c rest =>
      by_cases hc : c.isDigit = true
      · rw [digitsOf_cons_of_digit hc, natOfDigits_cons] at hzero
        have hpos : 0 < 10 ^ (digitsOf rest).length := Nat.pow_pos (by decide)
        have hdigit : digitValue c = 0 := by
          by_contra hne
          have := Nat.mul_pos (Nat.pos_of_ne_zero hne) hpos
          omega
        simp [hdigit]
      · simp [hc]
  unfold rounded? at h
  rw [hup] at h
  split at h
  · cases h
  · cases h
    exact ⟨rfl, rfl⟩

/-- The value of a decimal, in units of its last place, is an integer. -/
theorem value_mul (d : Decimal) : d.value * 10 ^ d.scale = d.coefficient := by
  rw [value]
  field_simp

theorem coefficient_lt (d : Decimal) : d.coefficient < (mantissaLimit : ℤ) := by
  have hlt : d.mantissa < mantissaLimit := d.mantissa_lt
  unfold coefficient
  split <;> omega

/-- A number between two neighbours of `10 ^ k` steps has no fewer places. -/
theorem ne_int_of_between {q : ℚ} {m k : Nat} (hlow : (m : ℚ) < q * 10 ^ k)
    (hhigh : q * 10 ^ k < m + 1) {j : Nat} (hj : j ≤ k) (n : ℤ) : q * 10 ^ j ≠ n := by
  intro heq
  have hscaled : q * 10 ^ k = (n * 10 ^ (k - j) : ℤ) := by
    rw [show k = j + (k - j) by omega, pow_add, ← mul_assoc, heq]
    push_cast
    rw [show j + (k - j) - j = k - j by omega]
  rw [hscaled] at hlow hhigh
  have hlow : (m : ℤ) < n * 10 ^ (k - j) := by exact_mod_cast hlow
  have hhigh : n * 10 ^ (k - j) < (m : ℤ) + 1 := by exact_mod_cast hhigh
  omega

/-- Nor has a decimal as many places as are needed, if there are none left or the mantissa
with one more of them is too large. -/
theorem not_isDecimal_of_between {q : ℚ} {m k : Nat} (hlow : (m : ℚ) < q * 10 ^ k)
    (hhigh : q * 10 ^ k < m + 1) (hlast : maxScale ≤ k ∨
      ∃ c : Nat, mantissaLimit ≤ 10 * m + c ∧ (10 * m + c : ℚ) ≤ q * 10 ^ k * 10) :
    ¬ IsDecimal q := by
  rintro ⟨d, rfl⟩
  have hscale : k < d.scale := by
    by_contra hle
    exact ne_int_of_between hlow hhigh (Nat.le_of_not_lt hle) _ d.value_mul
  rcases hlast with hfull | ⟨c, hwide, hle⟩
  · have hmax : d.scale ≤ maxScale := d.scale_le
    omega
  · obtain ⟨e, he⟩ : ∃ e, d.scale = k + (e + 1) := ⟨d.scale - k - 1, by omega⟩
    have hwide : (mantissaLimit : ℚ) ≤ 10 * m + c := by exact_mod_cast hwide
    have hlimit : (mantissaLimit : ℚ) ≤ d.coefficient := by
      calc (mantissaLimit : ℚ) ≤ d.value * 10 ^ k * 10 := by linarith
        _ ≤ d.value * 10 ^ k * 10 * 10 ^ e :=
          le_mul_of_one_le_right (by linarith) (one_le_pow₀ (by norm_num))
        _ = d.coefficient := by
          rw [← d.value_mul, he]
          ring
    have hlt := d.coefficient_lt
    have hlimit : (mantissaLimit : ℤ) ≤ d.coefficient := by exact_mod_cast hlimit
    omega

namespace Run

variable {cs rest : List Char} {m s : Nat}

/-- A number is what was taken of it, and less than one more of its last places. -/
theorem numeral_eq (h : Run 0 0 false cs m s rest) :
    numeral cs * 10 ^ s = m + natOfDigits (digitsOf rest) / 10 ^ (digitsOf rest).length := by
  obtain ⟨front, rfl, hm, hs, -, hpoint⟩ := h.taken (by decide) fun _ => rfl
  rw [Nat.zero_add] at hs
  have hnumber : natOfDigits (digitsOf (front ++ rest))
      = m * 10 ^ (digitsOf rest).length + natOfDigits (digitsOf rest) := by
    rw [hm, ← numberFrom_eq, ← numberFrom_append]
    rfl
  have hplaces : placesOf (front ++ rest) = s + (digitsOf rest).length := by
    rcases hpoint with rfl | hpoint
    · rw [List.append_nil, hs]
      rfl
    · rw [hs, ← placesFrom_append hpoint]
      rfl
  rw [numeral, hnumber, hplaces, pow_add]
  push_cast
  field_simp

theorem lt_limit (h : Run 0 0 false cs m s rest) : m < mantissaLimit := by
  obtain ⟨_, -, -, -, hfits, -⟩ := h.taken (by decide) fun _ => rfl
  exact hfits

theorem between (h : Run 0 0 false cs m s rest) (hrest : 0 < natOfDigits (digitsOf rest)) :
    (m : ℚ) < numeral cs * 10 ^ s ∧ numeral cs * 10 ^ s < m + 1 := by
  have hlt := natOfDigits_lt fun d (hd : d ∈ digitsOf rest) => isDigit_of_mem_digitsOf hd
  have hpos : (0 : ℚ) < natOfDigits (digitsOf rest) := by exact_mod_cast hrest
  have hlt : (natOfDigits (digitsOf rest) : ℚ) < 10 ^ (digitsOf rest).length := by
    exact_mod_cast hlt
  rw [h.numeral_eq]
  refine ⟨lt_add_of_pos_right _ (by positivity), ?_⟩
  have := (div_lt_one (by positivity)).mpr hlt
  linarith

/-- Where something other than zeros is left, no decimal is the number. -/
theorem not_isDecimal (h : Run 0 0 false cs m s rest)
    (hrest : 0 < natOfDigits (digitsOf rest)) : ¬ IsDecimal (numeral cs) := by
  refine not_isDecimal_of_between (h.between hrest).1 (h.between hrest).2 ?_
  rcases h.left with rfl | hfull | ⟨c, cs', rfl, hc, hwide⟩
  · exact absurd hrest (by decide)
  · exact Or.inl hfull
  · refine Or.inr ⟨digitValue c, hwide, ?_⟩
    rw [h.numeral_eq, digitsOf_cons_of_digit hc, natOfDigits_cons, List.length_cons, pow_succ]
    push_cast
    -- the first digit that is left counts tenths, and there may be more behind it
    have hsplit : ((digitValue c * 10 ^ (digitsOf cs').length + natOfDigits (digitsOf cs') : ℚ)
        / (10 ^ (digitsOf cs').length * 10)) * 10
        = digitValue c + natOfDigits (digitsOf cs') / 10 ^ (digitsOf cs').length := by
      field_simp
    have hnonneg : (0 : ℚ) ≤ natOfDigits (digitsOf cs') / 10 ^ (digitsOf cs').length := by
      positivity
    rw [add_mul, hsplit]
    linarith

end Run

/-- The number was read as it is. -/
structure Kept (cs : List Char) (m s : Nat) : Prop where
  numeral : numeral cs = m / 10 ^ s
  fits : m < mantissaLimit

/-- Digits were cut off, so that the number has more places than any decimal. -/
structure Cut (cs : List Char) : Prop where
  not_isDecimal : ¬ IsDecimal (numeral cs)
  ne_int : ∀ n : ℤ, numeral cs ≠ n

/-- A number is kept, or cut where no decimal is. -/
theorem kept_or_cut {cs : List Char} {m s : Nat}
    (h : digits? cs 0 0 false false = some (m, s)) : Kept cs m s ∨ Cut cs := by
  obtain ⟨m₀, s₀, rest, hrun, hround⟩ := digits?_run h
  rcases Nat.eq_zero_or_pos (natOfDigits (digitsOf rest)) with hzero | hpos
  · left
    obtain ⟨rfl, rfl⟩ := eq_of_rounded? hround hzero
    have hnumeral : numeral cs = m / 10 ^ s := by
      rw [eq_div_iff (by positivity), hrun.numeral_eq, hzero]
      simp
    exact ⟨hnumeral, hrun.lt_limit⟩
  · right
    obtain ⟨hlow, hhigh⟩ := hrun.between hpos
    refine ⟨hrun.not_isDecimal hpos, fun n => ?_⟩
    simpa using ne_int_of_between hlow hhigh (Nat.zero_le _) n

end Configurable.Decimal
