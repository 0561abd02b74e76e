import Configurable.Toml.Statement
import Configurable.Proofs.ReaderRuns

/-!
# The readers of the grammar go forward

Every reader of the grammar is made from others by the combinators, so that it goes forward is
found by instance search once it is opened. Where a reader looks at a character and goes on by
cases, the cases are told apart first.
-/

namespace Configurable.Toml

open Reader

/-! ## Strings -/

namespace Quoted

instance (n : Nat) : Forward (codePoint n) := by unfold codePoint; infer_instance

instance (letter : Char) : Forward (unknownEscape letter) := by
  unfold unknownEscape
  -- an expectation for each letter around a reader that goes forward
  have hfold : ∀ (letters : List Char) (r : Reader Char) [Forward r],
      Forward (letters.foldl (fun r l => expecting (.text l.toString) r) r) := by
    intro letters
    induction letters with
    | nil => exact fun r _ => inferInstanceAs (Forward r)
    | cons l letters ih => exact fun r _ => ih (expecting (.text l.toString) r)
  exact hfold _ _

instance : Forward escape := by
  unfold escape
  refine .followed fun _ => .followed fun letter => ?_
  split
  · infer_instance
  · split
    · infer_instance
    · split <;> infer_instance

instance : Forward basicPart := by unfold basicPart; infer_instance

instance : Forward basic := by unfold basic; infer_instance

instance : Forward blankLines := by unfold blankLines; infer_instance

instance : Forward continuation := by unfold continuation; infer_instance

instance : Forward multilineBasicPart := by unfold multilineBasicPart; infer_instance

instance (quote : Char) (next : Reader Unit) : Forward (quotesBefore quote next) := by
  unfold quotesBefore; infer_instance

section

variable (quote : Char) (part : Reader (List Char)) (more : Reader (List (List Char)))
variable [Forward part] [Forward more]

instance : Forward (multilineBody quote part more) := by unfold multilineBody; infer_instance

instance (label : Label) : Forward (multiline label quote part more) := by
  unfold multiline; infer_instance

end

instance : Forward multilineBasic := by unfold multilineBasic; infer_instance

instance : Forward literal := by unfold literal; infer_instance

instance : Forward multilineLiteralPart := by unfold multilineLiteralPart; infer_instance

instance : Forward multilineLiteral := by unfold multilineLiteral; infer_instance

instance : Forward text := by unfold text; infer_instance

end Quoted

/-! ## Numbers -/

namespace Number

instance : Forward sign := by unfold sign; infer_instance

instance (isDigit : Char → Bool) : Forward (moreDigits isDigit) := by
  unfold moreDigits; infer_instance

instance (isDigit : Char → Bool) : Forward (digits isDigit) := by unfold digits; infer_instance

instance : Forward decimalDigits := by unfold decimalDigits; infer_instance

instance (label : Label) (mark : String) (base : Nat) (isDigit : Char → Bool) :
    Forward (inBase label mark base isDigit) := by unfold inBase; infer_instance

instance : Forward decimalInteger :=
  .of_done (s := decimalDigits) fun {c _ _} h => by
    unfold decimalInteger at h
    split at h
    · next c₁ hdigits =>
      obtain ⟨_, hc, -⟩ := checked_done_iff.mp (commit_done_iff.mp h)
      obtain ⟨-, rfl⟩ := Outcome.done.inj hc
      exact ⟨_, hdigits⟩
    · cases h
    · cases h

instance : Forward integer := by
  unfold integer
  refine .followed fun cs => ?_
  split <;> infer_instance

instance : Forward exponent := by unfold exponent; infer_instance

instance : Forward fraction := by unfold fraction; infer_instance

instance : Forward decimalFloat := by
  unfold decimalFloat
  infer_instance

instance : Forward namedFloat := by unfold namedFloat; infer_instance

instance : Forward float where
  reaches h := by
    rcases orElse_done_iff.mp (within_done_iff.mp h) with hdecimal | ⟨-, hnamed⟩
    · split at hdecimal
      · next hread =>
        split at hdecimal
        · exact Forward.reaches (hread.trans hdecimal)
        · cases hdecimal
      · exact Forward.reaches hdecimal
    · exact Forward.reaches hnamed

end Number

/-! ## Dates and times -/

namespace Moment

instance (width low high : Nat) : Forward (field width low high) := by unfold field; infer_instance

instance : Forward date := by unfold date; infer_instance

instance : Forward secondFraction := by unfold secondFraction; infer_instance

instance : Forward time := by unfold time; infer_instance

instance : Forward offset := by unfold offset; infer_instance

instance : Forward dateTime := by unfold dateTime; infer_instance

instance : Forward moment := by unfold moment; infer_instance

end Moment

/-! ## Keys -/

namespace Key

instance : Forward bareName := by unfold bareName; infer_instance

instance : Forward simpleName := by
  unfold simpleName
  refine .followed fun x => ?_
  split <;> infer_instance

instance : Forward part := by unfold part; infer_instance

instance : Forward dotted := by unfold dotted; infer_instance

instance : Forward equals := by unfold equals; infer_instance

end Key

/-! ## Values -/

namespace Literal

section

variable (value : Reader Literal) [Forward value]

instance : Forward (inlinePair value) := by unfold inlinePair; infer_instance

instance : Forward (inlineEntries value) := by unfold inlineEntries; infer_instance

instance : Forward (arrayItems value) := by
  unfold arrayItems
  refine .followed fun x => ?_
  split
  · infer_instance
  · refine .followed fun items => ?_
    simp only
    split <;> infer_instance

instance : Forward (arrayOf value) := by unfold arrayOf; infer_instance

end

instance (r : Reader Scalar) [Forward r] : Forward (asString r) := by
  unfold asString; infer_instance

instance : Forward numeric := by unfold numeric; infer_instance

instance : Forward scalarValue := by
  unfold scalarValue
  refine .followed fun x => ?_
  split <;> try infer_instance
  split <;> infer_instance

instance {α : Type} : Forward (tooDeep : Reader α) := ⟨nofun⟩

theorem forward_readWith : ∀ (inner : Option (Reader Literal)),
    (∀ value ∈ inner, Forward value) → Forward (readWith inner) := by
  intro inner h
  unfold readWith
  refine .followed fun x => ?_
  cases inner with
  | none => split <;> infer_instance
  | some value =>
    have := h value rfl
    split <;> infer_instance

instance forward_reader : ∀ depth : Nat, Forward (reader depth)
  | 0 => forward_readWith none nofun
  | depth + 1 => forward_readWith (some (reader depth)) fun value h => by
    obtain rfl := Option.some.inj h
    exact forward_reader depth

instance : Forward value := forward_reader _

end Literal

/-! ## Statements -/

namespace Progress

instance : Forward commentLine := by unfold commentLine; infer_instance

instance (p : Progress) : Forward p.pair := by
  unfold pair
  simp only
  infer_instance

instance (opening closing : String) : Forward (headerLine opening closing) := by
  unfold headerLine; infer_instance

instance (p : Progress) : Forward p.header where
  reaches h := by
    obtain ⟨cs, c₁, hupcoming, h⟩ := bind_done_iff.mp (within_done_iff.mp h)
    refine (Forward.reaches hupcoming).trans ?_
    split at h
    · exact Forward.reaches h
    · split at h <;> exact Forward.reaches h

instance (p : Progress) : Forward p.statement := by
  unfold statement
  refine .followed fun x => ?_
  split <;> infer_instance

end Progress

end Configurable.Toml
