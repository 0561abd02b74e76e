import Configurable.Toml.Reader
import Mathlib.Data.List.TakeWhile

/-!
# What a reader has read

A reader that is done has taken a text from the front of what was left, and its position has
moved by the bytes of that text (`Cursor.Took`). Every reader of the grammar does so, because
the combinators keep it so (`Reader.Forward`); a reader built from others by them is found to
go forward by instance search.

What else is known of a successful run is read off the reader step by step: for each combinator
there is an equivalence that tells when it is done with a value (`bind_done_iff` and its
companions).
-/

namespace Configurable

namespace Text

@[simp] theorem byteLength_nil : byteLength [] = 0 := rfl

@[simp] theorem byteLength_cons (c : Char) (cs : List Char) :
    byteLength (c :: cs) = c.utf8Size + byteLength cs := rfl

@[simp] theorem byteLength_append (cs cs' : List Char) :
    byteLength (cs ++ cs') = byteLength cs + byteLength cs' := by
  induction cs with
  | nil => simp
  | cons c cs ih => simp [ih, Nat.add_assoc]

end Text

namespace Toml

open Text (Span byteLength)

/-! ## Places in a text -/

namespace Cursor

/-- The second place is behind a text that starts at the first. -/
structure Took (c : Cursor) (taken : List Char) (c' : Cursor) : Prop where
  rest : c.rest = taken ++ c'.rest
  position : c'.position = c.position + byteLength taken

/-- The second place is the first or comes behind it. -/
def Reaches (c c' : Cursor) : Prop := ∃ taken, c.Took taken c'

theorem Took.append {c c₁ c' : Cursor} {t t' : List Char} (h : c.Took t c₁) (h' : c₁.Took t' c') :
    c.Took (t ++ t') c' :=
  ⟨by rw [h.rest, h'.rest, List.append_assoc],
    by rw [h'.position, h.position, Text.byteLength_append, Nat.add_assoc]⟩

theorem took_past {c : Cursor} {taken rest : List Char} (h : c.rest = taken ++ rest) :
    c.Took taken (c.past taken rest) := ⟨h, rfl⟩

theorem Took.eq_past {c c' : Cursor} {taken : List Char} (h : c.Took taken c') :
    c' = c.past taken c'.rest := by
  obtain ⟨position, rest⟩ := c'
  exact congrArg (Cursor.mk · rest) h.position

theorem Took.reaches {c c' : Cursor} {taken : List Char} (h : c.Took taken c') : c.Reaches c' :=
  ⟨taken, h⟩

theorem Reaches.refl (c : Cursor) : c.Reaches c := ⟨[], rfl, rfl⟩

theorem Reaches.trans {c c₁ c' : Cursor} (h : c.Reaches c₁) (h' : c₁.Reaches c') :
    c.Reaches c' := by
  obtain ⟨t, ht⟩ := h
  obtain ⟨t', ht'⟩ := h'
  exact ⟨t ++ t', ht.append ht'⟩

theorem Reaches.position_le {c c' : Cursor} (h : c.Reaches c') : c.position ≤ c'.position := by
  obtain ⟨t, ht⟩ := h
  have := ht.position
  omega

end Cursor

namespace Reader

variable {α β : Type} {c c' : Cursor}

/-! ## When a reader is done -/

@[simp] theorem pure_done_iff {a b : α} : (pure a : Reader α) c = .done b c' ↔ a = b ∧ c = c' := by
  show Outcome.done a c = .done b c' ↔ _
  simp

@[simp] theorem bind_done_iff {r : Reader α} {f : α → Reader β} {b : β} :
    (r >>= f) c = .done b c' ↔ ∃ a c₁, r c = .done a c₁ ∧ f a c₁ = .done b c' := by
  constructor
  · intro h
    cases hr : r c with
    | done a c₁ =>
      simp only [bind, hr] at h
      exact ⟨a, c₁, rfl, h⟩
    | refused e => simp [bind, hr] at h
    | broken e => simp [bind, hr] at h
  · rintro ⟨a, c₁, hr, hf⟩
    simp only [bind, hr, hf]

@[simp] theorem refuse_done_iff {a : α} : (refuse : Reader α) c = .done a c' ↔ False := by
  simp [refuse]

@[simp] theorem refuseTaken_done_iff {x : Char} {a : α} :
    (refuseTaken x : Reader α) c = .done a c' ↔ False := by
  simp [refuseTaken]

@[simp] theorem position_done_iff {n : Nat} :
    position c = .done n c' ↔ c.position = n ∧ c = c' := by
  simp [position]

@[simp] theorem upcoming_done_iff {cs : List Char} :
    upcoming c = .done cs c' ↔ c.rest = cs ∧ c = c' := by
  simp [upcoming]

@[simp] theorem peek?_done_iff {x : Option Char} :
    peek? c = .done x c' ↔ c.rest.head? = x ∧ c = c' := by
  simp [peek?]

@[simp] theorem satisfying_done_iff {p : Char → Bool} {x : Char} :
    satisfying p c = .done x c' ↔ p x = true ∧ c.Took [x] c' := by
  unfold satisfying
  constructor
  · intro h
    split at h
    · next y rest hrest =>
      split at h
      · next hy =>
        obtain ⟨rfl, rfl⟩ := Outcome.done.inj h
        exact ⟨hy, Cursor.took_past (by simpa using hrest)⟩
      · cases h
    · cases h
  · rintro ⟨hx, htook⟩
    have hrest : c.rest = x :: c'.rest := htook.rest
    rw [hrest]
    simp only [hx, if_true]
    rw [← htook.eq_past]

@[simp] theorem char_done_iff {x y : Char} :
    char x c = .done y c' ↔ y = x ∧ c.Took [x] c' := by
  rw [char, satisfying_done_iff]
  constructor
  · rintro ⟨hy, h⟩
    obtain rfl : y = x := by simpa using hy
    exact ⟨rfl, h⟩
  · rintro ⟨rfl, h⟩
    exact ⟨by simp, h⟩

@[simp] theorem any_done_iff {x : Char} : any c = .done x c' ↔ c.Took [x] c' := by
  simp [any]

@[simp] theorem word_done_iff {w : String} {u : Unit} :
    word w c = .done u c' ↔ c.Took w.toList c' := by
  unfold word
  constructor
  · intro h
    split at h
    · next hstart =>
      obtain ⟨rest, hrest⟩ := List.isPrefixOf_iff_prefix.mp hstart
      obtain ⟨-, rfl⟩ := Outcome.done.inj h
      rw [← hrest, List.drop_left]
      exact Cursor.took_past hrest.symm
    · cases h
  · intro h
    have hstart : w.toList.isPrefixOf c.rest = true :=
      List.isPrefixOf_iff_prefix.mpr ⟨c'.rest, h.rest.symm⟩
    rw [if_pos hstart, h.rest, List.drop_left, ← h.eq_past]

@[simp] theorem run_done_iff {p : Char → Bool} {cs : List Char} :
    run p c = .done cs c' ↔ c.rest.takeWhile p = cs ∧ c.Took cs c' := by
  unfold run
  constructor
  · intro h
    obtain ⟨rfl, rfl⟩ := Outcome.done.inj h
    exact ⟨rfl, Cursor.took_past List.takeWhile_append_dropWhile.symm⟩
  · rintro ⟨rfl, h⟩
    have hrest : c.rest.dropWhile p = c'.rest :=
      List.append_cancel_left (List.takeWhile_append_dropWhile.trans h.rest)
    exact congrArg (Outcome.done _) (by rw [hrest, ← h.eq_past])

@[simp] theorem run1_done_iff {p : Char → Bool} {cs : List Char} :
    run1 p c = .done cs c' ↔ cs ≠ [] ∧ c.rest.takeWhile p = cs ∧ c.Took cs c' := by
  unfold run1
  split
  · next hempty =>
    refine iff_of_false (by simp) ?_
    rintro ⟨hne, rfl, -⟩
    exact hne (List.isEmpty_iff.mp hempty)
  · next hne =>
    rw [run_done_iff]
    constructor
    · rintro ⟨rfl, h⟩
      exact ⟨by simpa using hne, rfl, h⟩
    · exact And.right

@[simp] theorem endOfText_done_iff {u : Unit} :
    endOfText c = .done u c' ↔ c.rest = [] ∧ c = c' := by
  unfold endOfText
  split
  · next h => simp [List.isEmpty_iff.mp h]
  · next h => exact iff_of_false nofun fun ⟨hrest, _⟩ => h (by rw [hrest]; rfl)

theorem orElse_done_iff {r s : Reader α} {a : α} :
    orElse r s c = .done a c' ↔
      r c = .done a c' ∨ (∃ e, r c = .refused e) ∧ s c = .done a c' := by
  unfold orElse
  split
  · next e h => simp [h]
  · next h =>
    constructor
    · exact Or.inl
    · rintro (hdone | ⟨⟨e, he⟩, -⟩)
      · exact hdone
      · exact absurd he (h e)

theorem optional_done_iff {r : Reader α} {a : Option α} :
    optional r c = .done a c' ↔
      (∃ b, a = some b ∧ r c = .done b c') ∨ a = none ∧ c = c' ∧ ∃ e, r c = .refused e := by
  unfold optional
  cases hr : r c with
  | done b c₁ =>
    constructor
    · intro h
      obtain ⟨rfl, rfl⟩ := Outcome.done.inj h
      exact Or.inl ⟨b, rfl, rfl⟩
    · rintro (⟨b', rfl, h⟩ | ⟨-, -, e, h⟩)
      · obtain ⟨rfl, rfl⟩ := Outcome.done.inj h
        rfl
      · cases h
  | refused e =>
    constructor
    · intro h
      obtain ⟨rfl, rfl⟩ := Outcome.done.inj h
      exact Or.inr ⟨rfl, rfl, e, rfl⟩
    · rintro (⟨b', -, h⟩ | ⟨rfl, rfl, -⟩)
      · cases h
      · rfl
  | broken e =>
    refine iff_of_false nofun ?_
    rintro (⟨b', -, h⟩ | ⟨-, -, e', h⟩) <;> cases h

@[simp] theorem commit_done_iff {r : Reader α} {a : α} :
    commit r c = .done a c' ↔ r c = .done a c' := by
  unfold commit
  split
  · next e h => simp [h]
  · rfl

@[simp] theorem mapFailure_done_iff {f : Failure → Failure} {o : Outcome α} {a : α} :
    o.mapFailure f = .done a c' ↔ o = .done a c' := by
  cases o with
  | done b c₁ => rfl
  | refused e => simp [Outcome.mapFailure]
  | broken e => simp [Outcome.mapFailure]

@[simp] theorem within_done_iff {label : Label} {r : Reader α} {a : α} :
    within label r c = .done a c' ↔ r c = .done a c' := mapFailure_done_iff

@[simp] theorem expecting_done_iff {e : Expectation} {r : Reader α} {a : α} :
    expecting e r c = .done a c' ↔ r c = .done a c' := mapFailure_done_iff

@[simp] theorem checked_done_iff {r : Reader α} {f : α → Except Cause β} {b : β} :
    checked r f c = .done b c' ↔ ∃ a, r c = .done a c' ∧ f a = .ok b := by
  unfold checked
  cases hr : r c with
  | done a c₁ =>
    cases hf : f a with
    | ok b' =>
      simp only [hf]
      constructor
      · intro h
        obtain ⟨rfl, rfl⟩ := Outcome.done.inj h
        exact ⟨a, rfl, hf⟩
      · rintro ⟨_, h, hb⟩
        obtain ⟨rfl, rfl⟩ := Outcome.done.inj h
        rw [hf] at hb
        rw [Except.ok.inj hb]
    | error cause =>
      simp only [hf]
      refine iff_of_false nofun ?_
      rintro ⟨_, h, hb⟩
      obtain ⟨rfl, rfl⟩ := Outcome.done.inj h
      rw [hf] at hb
      cases hb
  | refused e => exact iff_of_false nofun nofun
  | broken e => exact iff_of_false nofun nofun

@[simp] theorem spanned_done_iff {r : Reader α} {x : α × Span} :
    spanned r c = .done x c' ↔ r c = .done x.1 c' ∧ x.2 = ⟨c.position, c'.position⟩ := by
  obtain ⟨a, span⟩ := x
  simp only [spanned, bind_done_iff, position_done_iff, pure_done_iff, Prod.mk.injEq]
  constructor
  · rintro ⟨_, _, ⟨rfl, rfl⟩, _, _, h, _, _, ⟨rfl, rfl⟩, ⟨rfl, rfl⟩, rfl⟩
    exact ⟨h, rfl⟩
  · rintro ⟨h, rfl⟩
    exact ⟨_, _, ⟨rfl, rfl⟩, _, _, h, _, _, ⟨rfl, rfl⟩, ⟨rfl, rfl⟩, rfl⟩

/-! ## Going forward -/

/-- Where the reader is done, it has come no less far than where it started. -/
class Forward (r : Reader α) : Prop where
  reaches : ∀ {c c' : Cursor} {a : α}, r c = .done a c' → c.Reaches c'

/-- A reader is done only where another one is. -/
theorem Forward.of_done {r : Reader α} {s : Reader β} [Forward s]
    (h : ∀ {c c' : Cursor} {a : α}, r c = .done a c' → ∃ b, s c = .done b c') : Forward r :=
  ⟨fun hr => (h hr).elim fun _ => Forward.reaches⟩

instance (a : α) : Forward (pure a : Reader α) where
  reaches h := (pure_done_iff.mp h).2 ▸ .refl _

instance (r : Reader α) (f : α → Reader β) [Forward r] [∀ a, Forward (f a)] :
    Forward (r >>= f) where
  reaches h := by
    obtain ⟨a, c₁, hr, hf⟩ := bind_done_iff.mp h
    exact (Forward.reaches hr).trans (Forward.reaches hf)

/-- Where it is told by cases how to go on. -/
theorem Forward.followed {r : Reader α} {f : α → Reader β} [Forward r] (h : ∀ a, Forward (f a)) :
    Forward (r >>= f) := inferInstance

instance : Forward (refuse : Reader α) where
  reaches h := (refuse_done_iff.mp h).elim

instance (x : Char) : Forward (refuseTaken x : Reader α) where
  reaches h := (refuseTaken_done_iff.mp h).elim

instance : Forward position where
  reaches h := (position_done_iff.mp h).2 ▸ .refl _

instance : Forward upcoming where
  reaches h := (upcoming_done_iff.mp h).2 ▸ .refl _

instance : Forward peek? where
  reaches h := (peek?_done_iff.mp h).2 ▸ .refl _

instance (p : Char → Bool) : Forward (satisfying p) where
  reaches h := (satisfying_done_iff.mp h).2.reaches

instance (x : Char) : Forward (char x) := inferInstanceAs (Forward (satisfying _))

instance : Forward any := inferInstanceAs (Forward (satisfying _))

instance (w : String) : Forward (word w) where
  reaches h := (word_done_iff.mp h).reaches

instance (p : Char → Bool) : Forward (run p) where
  reaches h := (run_done_iff.mp h).2.reaches

instance (p : Char → Bool) : Forward (run1 p) where
  reaches h := (run1_done_iff.mp h).2.2.reaches

instance (n : Nat) (p : Char → Bool) : Forward (upTo n p) where
  reaches {c _ _} h := by
    obtain ⟨-, rfl⟩ := Outcome.done.inj h
    have hprefix := (List.takeWhile_prefix p).trans (List.take_prefix n c.rest)
    exact ⟨_, Cursor.took_past (List.prefix_iff_eq_append.mp hprefix).symm⟩

instance (n : Nat) (p : Char → Bool) : Forward (exactly n p) :=
  .of_done (s := upTo n p) fun {c _ _} h => by
    unfold exactly at h
    split at h
    · exact ⟨_, h⟩
    · cases h

instance : Forward endOfText where
  reaches h := (endOfText_done_iff.mp h).2 ▸ .refl _

instance (r s : Reader α) [Forward r] [Forward s] : Forward (orElse r s) where
  reaches h := (orElse_done_iff.mp h).elim Forward.reaches fun hs => Forward.reaches hs.2

instance (r : Reader α) [Forward r] : Forward (optional r) where
  reaches h := by
    rcases optional_done_iff.mp h with ⟨b, -, hr⟩ | ⟨-, rfl, -⟩
    · exact Forward.reaches hr
    · exact .refl _

instance (r : Reader α) [Forward r] : Forward (commit r) where
  reaches h := Forward.reaches (commit_done_iff.mp h)

instance (r : Reader α) : Forward (lookahead r) where
  reaches h := by
    unfold lookahead at h
    split at h
    · obtain ⟨-, rfl⟩ := Outcome.done.inj h
      exact .refl _
    · cases h
    · cases h

instance (label : Label) (r : Reader α) [Forward r] : Forward (within label r) where
  reaches h := Forward.reaches (within_done_iff.mp h)

instance (e : Expectation) (r : Reader α) [Forward r] : Forward (expecting e r) where
  reaches h := Forward.reaches (expecting_done_iff.mp h)

instance (r : Reader α) (f : α → Except Cause β) [Forward r] : Forward (checked r f) where
  reaches h := (checked_done_iff.mp h).elim fun _ h => Forward.reaches h.1

instance (r : Reader α) (p : α → Bool) [Forward r] : Forward (verified r p) :=
  .of_done (s := r) fun {c _ _} h => by
    unfold verified at h
    split at h
    · next a c₁ hr =>
      split at h
      · exact ⟨_, hr.trans h⟩
      · cases h
    · exact ⟨_, h⟩

/-! ## Repetition -/

/-- A value was read somewhere on the way between two places. -/
def Between (r : Reader α) (c c' : Cursor) (a : α) : Prop :=
  ∃ c₁ c₂, c.Reaches c₁ ∧ r c₁ = .done a c₂ ∧ c₂.Reaches c'

theorem Between.of_reaches {r : Reader α} {c c₁ c' : Cursor} {a : α} (h : c.Reaches c₁)
    (hr : Between r c₁ c' a) : Between r c c' a := by
  obtain ⟨c₂, c₃, h₂, hr, h₃⟩ := hr
  exact ⟨c₂, c₃, h.trans h₂, hr, h₃⟩

theorem manyFrom_done {r : Reader α} [Forward r] : ∀ {n : Nat} {c c' : Cursor} {as : List α},
    manyFrom r n c = .done as c' → c.Reaches c' ∧ ∀ a ∈ as, Between r c c' a
  | 0, c, c', as, h => by
    obtain ⟨rfl, rfl⟩ := Outcome.done.inj h
    exact ⟨.refl _, List.forall_mem_nil _⟩
  | n + 1, c, c', as, h => by
    unfold manyFrom at h
    cases hr : r c with
    | done a c₁ =>
      rw [hr] at h
      cases hmore : manyFrom r n c₁ with
      | done as' c₂ =>
        simp only [hmore] at h
        obtain ⟨rfl, rfl⟩ := Outcome.done.inj h
        obtain ⟨hreaches, hbetween⟩ := manyFrom_done hmore
        have hfirst := Forward.reaches hr
        refine ⟨hfirst.trans hreaches, List.forall_mem_cons.mpr ⟨?_, fun b hb => ?_⟩⟩
        · exact ⟨c, c₁, .refl _, hr, hreaches⟩
        · exact (hbetween b hb).of_reaches hfirst
      | refused e => simp [hmore, Outcome.map] at h
      | broken e => simp [hmore, Outcome.map] at h
    | refused e =>
      simp only [hr] at h
      obtain ⟨rfl, rfl⟩ := Outcome.done.inj h
      exact ⟨.refl _, List.forall_mem_nil _⟩
    | broken e => simp [hr] at h

theorem many_done {r : Reader α} [Forward r] {as : List α} (h : many r c = .done as c') :
    c.Reaches c' ∧ ∀ a ∈ as, Between r c c' a := manyFrom_done h

/-- What is built up from the texts of the rounds holds of all that was taken. -/
theorem manyFrom_took {r : Reader α} {W : List α → List Char → Prop} (hnil : W [] [])
    (hcons : ∀ {c c' a as raw}, r c = .done a c' → W as raw →
      ∃ taken, c.Took taken c' ∧ W (a :: as) (taken ++ raw)) :
    ∀ {n : Nat} {c c' : Cursor} {as : List α}, manyFrom r n c = .done as c' →
    ∃ raw, c.Took raw c' ∧ W as raw
  | 0, c, c', as, h => by
    obtain ⟨rfl, rfl⟩ := Outcome.done.inj h
    exact ⟨[], ⟨rfl, rfl⟩, hnil⟩
  | n + 1, c, c', as, h => by
    unfold manyFrom at h
    cases hr : r c with
    | done a c₁ =>
      rw [hr] at h
      cases hmore : manyFrom r n c₁ with
      | done as' c₂ =>
        simp only [hmore] at h
        obtain ⟨rfl, rfl⟩ := Outcome.done.inj h
        obtain ⟨raw, hraw, hW⟩ := manyFrom_took hnil hcons hmore
        obtain ⟨taken, htaken, hW⟩ := hcons hr hW
        exact ⟨taken ++ raw, htaken.append hraw, hW⟩
      | refused e => simp [hmore, Outcome.map] at h
      | broken e => simp [hmore, Outcome.map] at h
    | refused e =>
      simp only [hr] at h
      obtain ⟨rfl, rfl⟩ := Outcome.done.inj h
      exact ⟨[], ⟨rfl, rfl⟩, hnil⟩
    | broken e => simp [hr] at h

theorem many_took {r : Reader α} {W : List α → List Char → Prop} (hnil : W [] [])
    (hcons : ∀ {c c' a as raw}, r c = .done a c' → W as raw →
      ∃ taken, c.Took taken c' ∧ W (a :: as) (taken ++ raw)) {as : List α}
    (h : many r c = .done as c') : ∃ raw, c.Took raw c' ∧ W as raw := manyFrom_took hnil hcons h

instance (r : Reader α) [Forward r] : Forward (many r) := ⟨fun h => (many_done h).1⟩

instance (r : Reader α) [Forward r] : Forward (many1 r) := by unfold many1; infer_instance

instance (r : Reader α) (separator : Reader β) [Forward r] [Forward separator] :
    Forward (separated1 r separator) := by unfold separated1; infer_instance

instance (r : Reader α) (separator : Reader β) [Forward r] [Forward separator] :
    Forward (separated r separator) := by unfold separated; infer_instance

theorem separated_done {r : Reader α} {separator : Reader β} [Forward r] [Forward separator]
    {as : List α} (h : separated r separator c = .done as c') : ∀ a ∈ as, Between r c c' a := by
  simp only [separated, bind_done_iff, pure_done_iff, optional_done_iff] at h
  obtain ⟨_, _, (⟨as', rfl, hsome⟩ | ⟨rfl, -⟩), rfl, rfl⟩ := h
  · simp only [separated1, bind_done_iff, pure_done_iff] at hsome
    obtain ⟨first, c₁, hfirst, more, c₂, hmore, rfl, rfl⟩ := hsome
    obtain ⟨hreaches, hbetween⟩ := many_done hmore
    refine List.forall_mem_cons.mpr ⟨⟨c, c₁, .refl _, hfirst, hreaches⟩, fun a ha => ?_⟩
    obtain ⟨c₃, c₄, h₃, hread, h₄⟩ := hbetween a ha
    obtain ⟨_, c₅, hseparator, hr⟩ := bind_done_iff.mp hread
    exact ⟨c₅, c₄, ((Forward.reaches hfirst).trans h₃).trans (Forward.reaches hseparator), hr, h₄⟩
  · exact List.forall_mem_nil _

theorem iterateFrom_done {r : α → Reader α} {P : α → Cursor → Prop}
    (hstep : ∀ {a c a' c'}, P a c → r a c = .done a' c' → P a' c') :
    ∀ {n : Nat} {a a' : α} {c c' : Cursor}, P a c → iterateFrom r n a c = .done a' c' → P a' c'
  | 0, a, a', c, c', hP, h => by
    obtain ⟨rfl, rfl⟩ := Outcome.done.inj h
    exact hP
  | n + 1, a, a', c, c', hP, h => by
    unfold iterateFrom at h
    cases hr : r a c with
    | done a₁ c₁ =>
      rw [hr] at h
      exact iterateFrom_done hstep (hstep hP hr) h
    | refused e =>
      simp only [hr] at h
      obtain ⟨rfl, rfl⟩ := Outcome.done.inj h
      exact hP
    | broken e => simp [hr] at h

/-- What every round keeps holds at the end. -/
theorem iterate_done {r : α → Reader α} {P : α → Cursor → Prop}
    (hstep : ∀ {a c a' c'}, P a c → r a c = .done a' c' → P a' c') {a a' : α}
    (hP : P a c) (h : iterate r a c = .done a' c') : P a' c' := iterateFrom_done hstep hP h

/-! ## Blanks, lines and comments -/

instance (r : Reader α) [Forward r] : Forward (spanned r) := by unfold spanned; infer_instance

instance : Forward spaces := by unfold spaces; infer_instance

instance : Forward newline := by
  unfold newline
  refine .followed fun x => ?_
  split <;> infer_instance

instance : Forward comment := by unfold comment; infer_instance

instance : Forward lineEnd := by unfold lineEnd; infer_instance

instance : Forward lineRest := by unfold lineRest; infer_instance

instance forward_blanksFrom : ∀ n : Nat, Forward (blanksFrom n)
  | 0 => by unfold blanksFrom; infer_instance
  | n + 1 => by
    have := forward_blanksFrom n
    unfold blanksFrom
    refine .followed fun _ => .followed fun x => ?_
    split <;> infer_instance

instance : Forward blanks := ⟨fun h => (forward_blanksFrom _).reaches h⟩

end Reader

end Toml

end Configurable
