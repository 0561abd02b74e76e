import Configurable.Conversion.Tree
import Configurable.Proofs.NumberLiterals
import Configurable.Proofs.Spelling

/-!
# When decimals are exact

A decimal that is read from its text, on the command line or from a float of a document, is the
number the text denotes if and only if decimals stand for its digits and for the number. In a
document every integer is exact, in whatever base it is written, and a float that is out of
range may come from the nearest double instead (`WrittenNumber.Becomes`).
-/

namespace Configurable

open FloatText (splitSign natOfDigits)
open Toml (Node Document Scalar)
open Toml.Number (bare)

namespace Decimal

theorem value_ofInt64 (n : Int64) : (ofInt64 n).value = n.toInt := by
  have hcoefficient : (ofInt64 n).coefficient = n.toInt := by
    unfold coefficient ofInt64
    simp only [decide_eq_true_eq]
    split <;> omega
  rw [value, hcoefficient]
  simp [ofInt64]

end Decimal

namespace Toml

open Decimal

/-! ## Numbers that are read from their text -/

namespace Number

variable {raw : List Char} {d : Decimal}

theorem not_isBased_of_parse? (h : parse? (String.ofList (bare raw)) = some d) :
    ¬ IsBased (bare raw) := by
  intro hbased
  rw [parse?_based (by rwa [String.toList_ofList])] at h
  cases h

/-- A number of a document that is read from its text is exact if and only if decimals stand
for its digits and for the number. -/
theorem parse?_bare_exact_iff (h : parse? (String.ofList (bare raw)) = some d) :
    d.value = denoted raw ↔
      IsDecimal (numeral (mantissaOf (bare raw))) ∧ IsDecimal (denoted raw) := by
  have hexact := parse?_exact_iff h
  rw [String.toList_ofList] at hexact
  rw [denoted_of_not_based (not_isBased_of_parse? h), hexact]

/-- An integer that is read from its text is exact. -/
theorem value_of_writesInteger {n : Int64} (hn : WritesInteger n raw)
    (h : parse? (String.ofList (bare raw)) = some d) : d.value = denoted raw := by
  obtain ⟨hdenoted, hbased | hexponent⟩ := hn
  · exact absurd hbased (not_isBased_of_parse? h)
  · have hdecimal : IsDecimal (denoted raw) := ⟨ofInt64 n, (value_ofInt64 n).trans hdenoted.symm⟩
    refine (parse?_bare_exact_iff h).mpr ⟨?_, hdecimal⟩
    rw [denoted_of_not_based (not_isBased_of_parse? h), Decimal.denoted, hexponent, zpow_zero,
      mul_one] at hdecimal
    exact isDecimal_signed_iff.mp hdecimal

end Number

/-! ## The text of a scalar -/

open Reader

namespace Literal

variable {c c' : Cursor}

theorem scalarValue_of_reader {depth : Nat} {span : Text.Span} {value : Scalar}
    (h : reader depth c = .done (.scalar span value) c') : scalarValue c = .done value c' := by
  have hread : ∀ {inner : Option (Reader Literal)},
      readWith inner c = .done (.scalar span value) c' → scalarValue c = .done value c' := by
    intro inner h
    obtain ⟨_, _, hpeek, h⟩ := bind_done_iff.mp h
    obtain ⟨-, rfl⟩ := peek?_done_iff.mp hpeek
    split at h
    all_goals
      obtain ⟨⟨x, span⟩, c₁, hspanned, h⟩ := bind_done_iff.mp h
      obtain ⟨hx, -⟩ := spanned_done_iff.mp hspanned
      obtain ⟨heq, rfl⟩ := pure_done_iff.mp h
      cases heq
    exact hx
  cases depth with
  | zero => exact hread h
  | succ depth => exact hread h

theorem scalarValue_integer {n : Int64} (h : scalarValue c = .done (.integer n) c') :
    Number.integer c = .done n c' := by
  obtain ⟨_, _, hpeek, h⟩ := bind_done_iff.mp h
  obtain ⟨-, rfl⟩ := peek?_done_iff.mp hpeek
  -- only two kinds of first characters lead to an integer
  split at h
  case h_4 =>
    obtain ⟨_, _, hinteger, h⟩ := bind_done_iff.mp (expecting_done_iff.mp h)
    obtain ⟨hn, rfl⟩ := pure_done_iff.mp h
    exact Scalar.integer.inj hn ▸ hinteger
  case h_10 =>
    split at h
    · simp only [numeric, orElse_done_iff, bind_done_iff, pure_done_iff, reduceCtorEq, false_and,
        and_false, exists_false, false_or, Scalar.integer.injEq] at h
      obtain ⟨-, -, _, _, hinteger, rfl, rfl⟩ := h
      exact hinteger
    · simp [asString] at h
  all_goals simp [asString] at h

theorem scalarValue_float {x : Float} (h : scalarValue c = .done (.float x) c') :
    Number.decimalFloat c = .done x c' ∨ Number.IsNamed x := by
  obtain ⟨_, _, hpeek, h⟩ := bind_done_iff.mp h
  obtain ⟨-, rfl⟩ := peek?_done_iff.mp hpeek
  split at h
  case h_5 =>
    obtain ⟨_, _, hfloat, h⟩ := bind_done_iff.mp (expecting_done_iff.mp h)
    obtain ⟨hx, rfl⟩ := pure_done_iff.mp h
    exact Number.float_done (Scalar.float.inj hx ▸ hfloat)
  case h_8 =>
    simp only [asString, expecting_done_iff, within_done_iff, bind_done_iff, pure_done_iff,
      Scalar.float.injEq] at h
    obtain ⟨_, _, -, hx, -⟩ := h
    exact Or.inr (Or.inl ⟨false, hx.symm⟩)
  case h_9 =>
    simp only [asString, expecting_done_iff, within_done_iff, bind_done_iff, pure_done_iff,
      Scalar.float.injEq] at h
    obtain ⟨_, _, -, hx, -⟩ := h
    exact Or.inr (Or.inr hx.symm)
  case h_10 =>
    split at h
    · simp only [numeric, orElse_done_iff, bind_done_iff, pure_done_iff, reduceCtorEq, false_and,
        and_false, exists_false, false_or, or_false, Scalar.float.injEq] at h
      obtain ⟨-, _, _, hfloat, rfl, rfl⟩ := h
      exact Number.float_done hfloat
    · simp [asString] at h
  all_goals simp [asString] at h

end Literal

namespace Node.IsValue

variable {text raw : String} {id : Nat} {span : Option Text.Span}

theorem scalarValue {value : Scalar} (h : (Node.scalar id span value).IsValue text raw) :
    ∃ c c', c.Took raw.toList c' ∧ Literal.scalarValue c = .done value c' := by
  obtain ⟨before, after, depth, m, next, -, hread, hnode⟩ := h
  cases m with
  | array span items => cases hnode
  | inline span entries => cases hnode
  | scalar span' value' =>
    cases hnode
    exact ⟨_, _, ⟨rfl, rfl⟩, Literal.scalarValue_of_reader hread⟩

/-- The text of an integer denotes it. -/
theorem integer {n : Int64} (h : (Node.scalar id span (.integer n)).IsValue text raw) :
    Number.WritesInteger n raw.toList := by
  obtain ⟨c, c', htook, hread⟩ := h.scalarValue
  obtain ⟨taken, htook', hwrites⟩ := Number.integer_done (Literal.scalarValue_integer hread)
  have hraw : raw.toList = taken := List.append_cancel_right (htook.rest.symm.trans htook'.rest)
  exact hraw ▸ hwrites

/-- The text of a float that is no word denotes the number to which it is the nearest double. -/
theorem float {x : Float} (h : (Node.scalar id span (.float x)).IsValue text raw) :
    Number.IsNamed x ∨ ∃ negative whole places power,
      Number.IsDecimalLiteral raw.toList negative whole places power ∧
      x = Binary64.nearest negative (natOfDigits (whole ++ places)) (power - places.length) := by
  obtain ⟨c, c', htook, hread⟩ := h.scalarValue
  rcases Literal.scalarValue_float hread with hdecimal | hnamed
  · obtain ⟨taken, negative, whole, places, power, htook', hliteral, hx⟩ :=
      Number.decimalFloat_done hdecimal
    have hraw : raw.toList = taken := List.append_cancel_right (htook.rest.symm.trans htook'.rest)
    exact Or.inr ⟨negative, whole, places, power, hraw ▸ hliteral, hx⟩
  · exact Or.inl hnamed

end Node.IsValue

end Toml

/-! ## Coercion -/

namespace Conversion

open Decimal (IsDecimal InRange numeral mantissaOf signed)

/-- A number that is written somewhere: an argument, or a node of a document. -/
inductive WrittenNumber where
  | argument (text : String)
  | literal (c : Reading) (site : Site)

namespace WrittenNumber

def text? : WrittenNumber → Option String
  | argument text => some text
  | literal c site => c.document.rawText? site.node

/-- The number is read as a decimal. -/
inductive ReadAs : WrittenNumber → Value → Prop
  | argument {text : String} {v : Value} (h : ofText? .decimal text = some v) :
      ReadAs (.argument text) v
  | literal {source : Text.Named} {c : Reading} {site : Site} {t : TypeRef} {subject : Subject}
      {v : Value} (hparse : Document.parse source = .ok c.document)
      (hpart : c.document.root.Contains site.node)
      (h : c.readPrimitive .decimal site t subject = .ok v) : ReadAs (.literal c site) v

/-- How a decimal comes from a number whose text is `raw`: from an argument by its text, from an
integer as it is, from a float by its text or, out of range, by the nearest double. -/
inductive Becomes (raw : List Char) (d : Decimal) : WrittenNumber → Prop
  | argument {text : String}
      (h : d.value = Decimal.denoted raw ↔ IsDecimal (numeral (mantissaOf raw)) ∧
        IsDecimal (Decimal.denoted raw)) :
      Becomes raw d (.argument text)
  | integer {c : Reading} {id : Nat} {span entry : Option Text.Span} {n : Int64}
      (h : d.value = Toml.Number.denoted raw) :
      Becomes raw d (.literal c ⟨.scalar id span (.integer n), entry⟩)
  | float {c : Reading} {id : Nat} {span entry : Option Text.Span} {x : Float}
      (hread : Decimal.parse? (String.ofList (bare raw)) = some d)
      (h : d.value = Toml.Number.denoted raw ↔
        IsDecimal (numeral (mantissaOf (bare raw))) ∧ IsDecimal (Toml.Number.denoted raw)) :
      Becomes raw d (.literal c ⟨.scalar id span (.float x), entry⟩)
  | double {c : Reading} {id : Nat} {span entry : Option Text.Span} {negative : Bool}
      {digits : Nat} {exponent : ℤ}
      (hread : Decimal.parse? (String.ofList (bare raw)) = none) (hrange : ¬ InRange (bare raw))
      (hraw : Toml.Number.denoted raw = signed negative digits * 10 ^ exponent)
      (h : Decimal.ofFloat? (Binary64.nearest negative digits exponent) = some d) :
      Becomes raw d (.literal c
        ⟨.scalar id span (.float (Binary64.nearest negative digits exponent)), entry⟩)

end WrittenNumber

open WrittenNumber (ReadAs Becomes)

variable {c : Reading} {site : Site} {t : TypeRef} {subject : Subject} {v : Value}

/-- What is read as a decimal is an integer or a float. -/
theorem readPrimitive_decimal (h : c.readPrimitive .decimal site t subject = .ok v) :
    ∃ d, v = .decimal d ∧
      ((∃ id span n, site.node = .scalar id span (.integer n) ∧
        d = (c.writtenDecimal? site.node).getD (.ofInt64 n)) ∨
      ∃ id span x, site.node = .scalar id span (.float x) ∧
        (c.writtenDecimal? site.node).or (Decimal.ofFloat? x) = some d) := by
  unfold Reading.readPrimitive at h
  split at h
  case h_6 id span n _ hnode =>
    exact ⟨_, (Except.ok.inj h).symm, Or.inl ⟨id, span, n, hnode, rfl⟩⟩
  case h_7 id span x _ hnode =>
    split at h
    · next d hd => exact ⟨d, (Except.ok.inj h).symm, Or.inr ⟨id, span, x, hnode, hd⟩⟩
    · cases h
  all_goals contradiction

theorem writtenDecimal?_eq {raw : String} (h : c.document.rawText? site.node = some raw) :
    c.writtenDecimal? site.node = Decimal.parse? (String.ofList (bare raw.toList)) := by
  rw [Reading.writtenDecimal?, h]
  rfl

section

variable {raw text : String} {id : Nat} {span entry : Option Text.Span} {d : Decimal}

/-- An integer is exact, whether its text is read or not. -/
theorem becomes_integer {n : Int64}
    (hvalue : (Node.scalar id span (.integer n)).IsValue text raw)
    (hd : d = (Decimal.parse? (String.ofList (bare raw.toList))).getD (.ofInt64 n)) :
    Becomes raw.toList d (.literal c ⟨.scalar id span (.integer n), entry⟩) := by
  refine .integer ?_
  cases hread : Decimal.parse? (String.ofList (bare raw.toList)) with
  | some d' =>
    rw [hd, hread]
    exact Toml.Number.value_of_writesInteger hvalue.integer hread
  | none =>
    rw [hd, hread]
    exact (Decimal.value_ofInt64 n).trans hvalue.integer.1.symm

/-- A float whose text is not read is out of range. -/
theorem becomes_float {x : Float} (hvalue : (Node.scalar id span (.float x)).IsValue text raw)
    (hd : (Decimal.parse? (String.ofList (bare raw.toList))).or (Decimal.ofFloat? x) = some d) :
    Becomes raw.toList d (.literal c ⟨.scalar id span (.float x), entry⟩) := by
  cases hread : Decimal.parse? (String.ofList (bare raw.toList)) with
  | some d' =>
    rw [hread] at hd
    obtain rfl := Option.some.inj hd
    exact .float hread (Toml.Number.parse?_bare_exact_iff hread)
  | none =>
    rw [hread, Option.none_or] at hd
    rcases hvalue.float with hnamed | ⟨negative, whole, places, power, hliteral, rfl⟩
    · rw [hnamed.ofFloat?] at hd
      cases hd
    · obtain ⟨husual, -, hdenoted⟩ := hliteral.denoted_eq
      refine .double hread (fun hrange => ?_) hdenoted hd
      rw [← String.toList_ofList (l := bare raw.toList)] at husual hrange
      obtain ⟨d', hd'⟩ := Decimal.parse?_of_isNotation husual hrange
      rw [hread] at hd'
      cases hd'

end

/-- A decimal from the command line is the number that its text denotes if and only if decimals
stand for the digits and for the number. One from a document comes from an integer exactly, and
from a float within the limits of decimals. -/
theorem decimals_exact_iff {w : WrittenNumber} (h : w.ReadAs v) :
    ∃ d raw, v = .decimal d ∧ w.text? = some raw ∧ w.Becomes raw.toList d := by
  cases h with
  | @argument text v h =>
    obtain ⟨d, hd, rfl⟩ := Option.map_eq_some_iff.mp h
    exact ⟨d, text, rfl, rfl, .argument (Decimal.parse?_exact_iff hd)⟩
  | @literal source c site t subject v hparse hpart h =>
    obtain ⟨node, entry⟩ := site
    -- what is written of the number
    have hwritten : ∀ {id span value}, node = .scalar id span value →
        ∃ raw, c.document.rawText? node = some raw ∧ node.IsValue source.text raw := by
      rintro id span value rfl
      obtain ⟨raw, hvalue⟩ := Toml.isValue_of_parse hparse hpart
      refine ⟨raw, ?_, hvalue⟩
      rw [Document.rawText?, Toml.source_of_parse hparse]
      exact hvalue.slice?
    obtain ⟨d, rfl, ⟨id, span, n, rfl, hd⟩ | ⟨id, span, x, rfl, hd⟩⟩ := readPrimitive_decimal h
    · obtain ⟨raw, hraw, hvalue⟩ := hwritten rfl
      rw [writtenDecimal?_eq hraw] at hd
      exact ⟨d, raw, rfl, hraw, becomes_integer hvalue hd⟩
    · obtain ⟨raw, hraw, hvalue⟩ := hwritten rfl
      rw [writtenDecimal?_eq hraw] at hd
      exact ⟨d, raw, rfl, hraw, becomes_float hvalue hd⟩

theorem ok_of_toOption {ε α : Type} {r : Except ε α} {a : α} (h : r.toOption = some a) :
    r = .ok a := by
  cases r with
  | ok b => exact congrArg Except.ok (Option.some.inj h)
  | error e => cases h

/-- From the command line, and from a document with an integer in base sixteen. -/
theorem decimals_of_literals :
    (∃ d, ReadAs (.argument "-1_2.50e1") (.decimal d) ∧
      Becomes "-1_2.50e1".toList d (.argument "-1_2.50e1")) ∧
    ∃ document, Document.parse ⟨none, "x = 0x1_F\n"⟩ = .ok document ∧
      ∃ e d raw, document.root.entryAt? ["x"] = some e ∧
        ReadAs (.literal ⟨.empty, document, "x"⟩ ⟨e.node, e.span⟩) (.decimal d) ∧
        document.rawText? e.node = some raw ∧
        Becomes raw.toList d (.literal ⟨.empty, document, "x"⟩ ⟨e.node, e.span⟩) := by
  constructor
  · have hread : (ofText? .decimal "-1_2.50e1").isSome = true := by decide +kernel
    obtain ⟨v, hv⟩ := Option.isSome_iff_exists.mp hread
    obtain ⟨d, raw, rfl, hraw, hd⟩ := decimals_exact_iff (.argument hv)
    obtain rfl := Option.some.inj hraw
    exact ⟨d, .argument hv, hd⟩
  · have hread : (Document.parse ⟨none, "x = 0x1_F\n"⟩).toOption.bind (fun document =>
        (document.root.entryAt? ["x"]).map fun e =>
          (Reading.readPrimitive ⟨.empty, document, "x"⟩ .decimal ⟨e.node, e.span⟩
            (.primitive .decimal) (.variable "x")).toOption.isSome) = some true := by
      decide +kernel
    obtain ⟨document, hparse, hread⟩ := Option.bind_eq_some_iff.mp hread
    obtain ⟨e, he, hread⟩ := Option.map_eq_some_iff.mp hread
    obtain ⟨v, hv⟩ := Option.isSome_iff_exists.mp hread
    have hparse := ok_of_toOption hparse
    have hread : ReadAs (.literal ⟨.empty, document, "x"⟩ ⟨e.node, e.span⟩) v :=
      .literal hparse (Node.contains_of_entryAt? he) (ok_of_toOption hv)
    obtain ⟨d, raw, rfl, hraw, hd⟩ := decimals_exact_iff hread
    exact ⟨document, hparse, e, d, raw, he, hread, hraw, hd⟩

/-- What a text denotes, from the parts of it. -/
theorem denoted_of_parts {cs : List Char} (negative : Bool) (n places : Nat) (power : ℤ)
    (hsign : (splitSign cs).1 = negative)
    (hdigits : natOfDigits (Decimal.digitsOf (mantissaOf cs)) = n)
    (hplaces : Decimal.placesOf (mantissaOf cs) = places)
    (hpower : Decimal.exponentOf cs = power) :
    Decimal.denoted cs = signed negative (n / 10 ^ places) * 10 ^ power := by
  rw [Decimal.denoted, numeral, hsign, hdigits, hplaces, hpower]

theorem not_exact_of_value_ne {text : String} {d : Decimal} {q : ℚ}
    (hread : Decimal.parse? text = some d) (hdenoted : Decimal.denoted text.toList = q)
    (hne : d.value ≠ q) :
    ∃ d, ofText? .decimal text = some (.decimal d) ∧ d.value ≠ Decimal.denoted text.toList :=
  ⟨d, congrArg (Option.map Value.decimal) hread, hdenoted ▸ hne⟩

/-- None of these texts of the command line, which have a place too many, is read as the number
that it denotes, although that of the second is a decimal. Nor is the float of a document, which
comes from a double. -/
theorem decimals_not_exact :
    (∀ text ∈ ["0.00000000000000000000000000005", "0.00000000000000000000000000005e1",
        "0.1234567890123456789012345678_9"],
      ∃ d, ofText? .decimal text = some (.decimal d) ∧
        d.value ≠ Decimal.denoted text.toList) ∧
    ∃ document, Document.parse ⟨none, "x = 0.00001e30\n"⟩ = .ok document ∧
      ∃ e d raw, document.root.entryAt? ["x"] = some e ∧
        Reading.readPrimitive ⟨.empty, document, "x"⟩ .decimal ⟨e.node, e.span⟩
          (.primitive .decimal) (.variable "x") = .ok (.decimal d) ∧
        document.rawText? e.node = some raw ∧ d.value ≠ Toml.Number.denoted raw.toList := by
  constructor
  · intro text htext
    simp only [List.mem_cons, List.not_mem_nil, or_false] at htext
    rcases htext with rfl | rfl | rfl
    · have hread : Decimal.parse? "0.00000000000000000000000000005"
          = some ⟨false, 1, 28, by decide, by decide⟩ := by decide +kernel
      refine not_exact_of_value_ne hread (denoted_of_parts false 5 29 0 (by decide +kernel)
        (by decide +kernel) (by decide +kernel) (by decide +kernel)) ?_
      rw [Decimal.value_eq]
      norm_num [signed]
    · have hread : Decimal.parse? "0.00000000000000000000000000005e1"
          = some ⟨false, 1, 27, by decide, by decide⟩ := by decide +kernel
      refine not_exact_of_value_ne hread (denoted_of_parts false 5 29 1 (by decide +kernel)
        (by decide +kernel) (by decide +kernel) (by decide +kernel)) ?_
      rw [Decimal.value_eq]
      norm_num [signed]
    · have hread : Decimal.parse? "0.1234567890123456789012345678_9"
          = some ⟨false, 1234567890123456789012345679, 28, by decide, by decide⟩ := by
        decide +kernel
      refine not_exact_of_value_ne hread (denoted_of_parts false 12345678901234567890123456789
        29 0 (by decide +kernel) (by decide +kernel) (by decide +kernel) (by decide +kernel)) ?_
      rw [Decimal.value_eq]
      norm_num [signed]
  · -- the number is a decimal, but not the one that is read
    let exact : Decimal := ⟨false, 10 ^ 25, 0, by decide, by decide⟩
    have hread : (Document.parse ⟨none, "x = 0.00001e30\n"⟩).toOption.bind (fun document =>
        (document.root.entryAt? ["x"]).map fun e =>
          ((Reading.readPrimitive ⟨.empty, document, "x"⟩ .decimal ⟨e.node, e.span⟩
            (.primitive .decimal) (.variable "x")).toOption.map fun v => v.same (.decimal exact),
          document.rawText? e.node)) = some (some false, some "0.00001e30") := by
      decide +kernel
    obtain ⟨document, hparse, hread⟩ := Option.bind_eq_some_iff.mp hread
    obtain ⟨e, he, hread⟩ := Option.map_eq_some_iff.mp hread
    obtain ⟨hread, hraw⟩ := Prod.mk.inj hread
    obtain ⟨v, hv, hsame⟩ := Option.map_eq_some_iff.mp hread
    have hv := ok_of_toOption hv
    obtain ⟨d, rfl, -⟩ := readPrimitive_decimal hv
    refine ⟨document, ok_of_toOption hparse, e, d, _, he, hv, hraw, fun heq => ?_⟩
    have hexact : Toml.Number.denoted "0.00001e30".toList = exact.value := by
      have hsecond : (bare "0.00001e30".toList)[1]? = some '.' := by decide +kernel
      have hplain : Toml.Number.denoted "0.00001e30".toList
          = Decimal.denoted (bare "0.00001e30".toList) := by
        refine Toml.Number.denoted_of_not_based ?_
        rintro ⟨mark, ds, hbare, hmark⟩
        rw [hbare] at hsecond
        obtain rfl : mark = '.' := Option.some.inj hsecond
        revert hmark
        decide
      rw [hplain, denoted_of_parts false 1 5 30 (by decide +kernel) (by decide +kernel)
        (by decide +kernel) (by decide +kernel), Decimal.value_eq]
      norm_num [signed, exact]
    rw [hexact, ← Decimal.sameNumber_iff] at heq
    rw [Value.same, heq] at hsame
    cases hsame

end Conversion

end Configurable
