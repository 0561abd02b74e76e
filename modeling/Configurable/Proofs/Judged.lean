import Configurable.Diagnostic

/-!
# Judged results

Reading either accepts and gives a result or refuses with a diagnostic. Both sides matter: a
result that was accepted has to have the property asked for, and a refusal has to be an
error, since a variable without a value may go unnoticed otherwise. `Judged` says both at
once, so that every step of a reading is looked at once only.
-/

namespace Configurable

/-- What is accepted satisfies `P`, and what is refused is refused with a diagnostic that
satisfies `E`. -/
def Judged {α : Type} (E : Diagnostic → Prop) (P : α → Prop) : Except Diagnostic α → Prop
  | .ok a => P a
  | .error d => E d

namespace Judged

variable {α β : Type} {E : Diagnostic → Prop} {P : α → Prop} {Q : β → Prop}

@[simp] theorem ok_iff {a : α} : Judged E P (.ok a) ↔ P a := Iff.rfl

@[simp] theorem error_iff {d : Diagnostic} : Judged E P (.error d) ↔ E d := Iff.rfl

theorem of_ok {x : Except Diagnostic α} (h : Judged E P x) {a : α} (hx : x = .ok a) : P a := by
  subst hx; exact h

theorem imp {F : Diagnostic → Prop} {R : α → Prop} {x : Except Diagnostic α}
    (h : Judged E P x) (herror : ∀ d, E d → F d) (hok : ∀ a, P a → R a) : Judged F R x := by
  cases x with
  | ok a => exact hok a h
  | error d => exact herror d h

theorem map {x : Except Diagnostic α} (h : Judged E P x) {f : α → β}
    (hf : ∀ a, P a → Q (f a)) : Judged E Q (x.map f) := by
  cases x with
  | ok a => exact hf a h
  | error d => exact h

theorem bind {x : Except Diagnostic α} (h : Judged E P x) {f : α → Except Diagnostic β}
    (hf : ∀ a, P a → Judged E Q (f a)) : Judged E Q (x.bind f) := by
  cases x with
  | ok a => exact hf a h
  | error d => exact h

end Judged

theorem bind_eq_ok_iff {ε α β : Type} {x : Except ε α} {f : α → Except ε β} {b : β} :
    x.bind f = .ok b ↔ ∃ a, x = .ok a ∧ f a = .ok b := by
  cases x with
  | ok a => simp [Except.bind]
  | error d => simp [Except.bind]

theorem map_eq_ok_iff {ε α β : Type} {x : Except ε α} {f : α → β} {b : β} :
    x.map f = .ok b ↔ ∃ a, x = .ok a ∧ f a = b := by
  cases x with
  | ok a => simp [Except.map]
  | error d => simp [Except.map]

theorem mapM_congr {m : Type → Type} [Monad m] [LawfulMonad m] {α β : Type} {f f' : α → m β}
    {l : List α} (h : ∀ a ∈ l, f a = f' a) : l.mapM f = l.mapM f' := by
  induction l with
  | nil => rfl
  | cons a l ih =>
    obtain ⟨ha, hl⟩ := List.forall_mem_cons.mp h
    rw [List.mapM_cons, List.mapM_cons, ha, ih hl]

/-! ## Refusing a value

A value that was found and does not fit is refused in one of these ways. Not finding one, or
finding too many, is another matter. -/

def Problem.isAboutValue : Problem → Bool
  | .typeMismatch _ _ _ | .fieldMismatch _ _ _ _ | .byteOutOfRange _ _ | .unknownField _ _ _
  | .missingField _ _ _ | .missingKey _ _ _ | .duplicateKey _ _ _ | .unsupportedFieldType _ _
  | .unsupportedConstraint _ _ | .unsupportedArgument _ _ => true
  | _ => false

/-- An error that says what is wrong with a value. -/
def Diagnostic.RefusesValue (d : Diagnostic) : Prop :=
  d.isError = true ∧ d.problem.isAboutValue = true

/-- Reading a value: what is accepted satisfies `P`, and a refusal is about the value. -/
abbrev Reads {α : Type} (P : α → Prop) (x : Except Diagnostic α) : Prop :=
  Judged Diagnostic.RefusesValue P x

theorem Reads.refuse {α : Type} {P : α → Prop} {problem : Problem}
    {location : Option Location} (h : problem.isAboutValue = true) :
    Reads P (.error (.error problem location)) := ⟨rfl, h⟩

/-- What may be missing, with the refusal of what is. -/
theorem Reads.ofOption {α : Type} {P : α → Prop} {found : Option α} {problem : Problem}
    {location : Option Location} (h : problem.isAboutValue = true)
    (hfound : ∀ a, found = some a → P a) :
    Reads P (found.elim (.error (.error problem location)) .ok) := by
  cases found with
  | none => exact Reads.refuse h
  | some a => exact hfound a rfl

end Configurable
