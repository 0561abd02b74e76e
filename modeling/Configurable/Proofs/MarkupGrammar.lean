import Configurable.Conversion.Text
import Mathlib.Data.List.Infix
import Mathlib.Data.List.TakeWhile

/-!
# The grammar of balanced markup

Markup is read from left to right with a stack of the tags that are open. What is accepted in
this way is a context-free language (`Content`): an element is an open tag, content and the
closing tag of the same name, and elements stand beside characters, comments, instructions and
empty tags.

The stack is what is left of the grammar in the middle of a text. A text closes a stack if for
each open tag it has content and the closing tag, one behind the other, and content after the
last (`ClosesTags`). This is what the reader decides (`closes_iff`), whence an XML value is a text
of the grammar, as it stands (`xml?_iff_content`).
-/

namespace Configurable.Markup

open Text (isAlphabetic isBlank firstWord? trim)

/-! ## The grammar -/

/-- The first of the words between blanks. -/
def FirstWord (text word : List Char) : Prop :=
  ∃ before after, text = before ++ (word ++ after) ∧ (∀ c ∈ before, isBlank c = true)
    ∧ word ≠ [] ∧ (∀ c ∈ word, isBlank c = false) ∧ ∀ c ∈ after.head?, isBlank c = true

/-- What is left of a text without the blanks around it. -/
def Trimmed (text inner : List Char) : Prop :=
  ∃ before after, text = before ++ (inner ++ after) ∧ (∀ c ∈ before, isBlank c = true)
    ∧ (∀ c ∈ after, isBlank c = true) ∧ (∀ c ∈ inner.head?, isBlank c = false)
    ∧ ∀ c ∈ inner.getLast?, isBlank c = false

/-- A tag has the name that is its first word, which starts as names do. -/
def HasName (tag name : List Char) : Prop :=
  FirstWord tag name ∧ ∃ c ∈ name.head?, isAlphabetic c = true ∨ c = '_'

/-- What can stand between the angle brackets of a tag. -/
structure IsTag (body : List Char) : Prop where
  unclosed : '>' ∉ body
  not_comment : ¬ ['!', '-', '-'] <+: body
  not_instruction : ¬ ['?'] <+: body

/-- Text in which every element is closed. -/
inductive Content : List Char → Prop where
  | empty : Content []
  | character {c : Char} {rest : List Char} : c ≠ '<' → Content rest → Content (c :: rest)
  | comment {body rest : List Char} : ¬ ['-', '-', '>'] <:+: body → Content rest →
      Content ('<' :: '!' :: '-' :: '-' :: (body ++ (['-', '-', '>'] ++ rest)))
  | instruction {body rest : List Char} : ¬ ['?', '>'] <:+: body → Content rest →
      Content ('<' :: '?' :: (body ++ (['?', '>'] ++ rest)))
  | emptyTag {body name rest : List Char} : IsTag (body ++ ['/']) →
      (body ++ ['/']).head? ≠ some '/' → HasName body name → Content rest →
      Content ('<' :: (body ++ ['/'] ++ '>' :: rest))
  | element {body name inner closing rest : List Char} : IsTag body → body.head? ≠ some '/' →
      body.getLast? ≠ some '/' → HasName body name → Content inner → IsTag ('/' :: closing) →
      Trimmed closing name → Content rest →
      Content ('<' :: (body ++ '>' :: (inner ++ '<' :: '/' :: (closing ++ '>' :: rest))))

/-- Text that closes the open tags, the innermost first, and all tags of its own. -/
def ClosesTags : List (List Char) → List Char → Prop
  | [], text => Content text
  | name :: outer, text => ∃ inner closing rest,
      text = inner ++ '<' :: '/' :: (closing ++ '>' :: rest) ∧ Content inner
        ∧ IsTag ('/' :: closing) ∧ Trimmed closing name ∧ ClosesTags outer rest

/-! ## Words and blanks -/

theorem isBlank_head_dropWhile (cs : List Char) : ∀ c ∈ (cs.dropWhile isBlank).head?,
    isBlank c = false := by
  intro c hc
  have := List.head?_dropWhile_not isBlank cs
  rw [Option.mem_def] at hc
  simpa [hc] using this

theorem dropWhile_of_head {p : Char → Bool} {cs : List Char} (h : ∀ c ∈ cs.head?, p c = false) :
    cs.dropWhile p = cs := by
  cases cs with
  | nil => rfl
  | cons c cs => simp [h c rfl]

theorem firstWord?_eq_some_iff {text word : List Char} :
    firstWord? text = some word ↔ FirstWord text word := by
  unfold firstWord?
  constructor
  · intro h
    split at h
    · cases h
    · next hne =>
      obtain rfl := Option.some.inj h
      refine ⟨text.takeWhile isBlank, (text.dropWhile isBlank).dropWhile (!isBlank ·), ?_,
        fun c hc => List.mem_takeWhile_imp hc, hne, fun c hc => ?_, fun c hc => ?_⟩
      · rw [List.takeWhile_append_dropWhile, List.takeWhile_append_dropWhile]
      · simpa using List.mem_takeWhile_imp hc
      · have := List.head?_dropWhile_not (!isBlank ·) (text.dropWhile isBlank)
        rw [Option.mem_def] at hc
        simpa [hc] using this
  · rintro ⟨before, after, rfl, hbefore, hne, hword, hafter⟩
    have hhead : ∀ c ∈ (word ++ after).head?, isBlank c = false := by
      obtain ⟨c, cs, rfl⟩ := List.exists_cons_of_ne_nil hne
      intro c' hc'
      exact hword c' (Option.some.inj hc' ▸ List.mem_cons_self ..)
    have htaken : (word ++ after).takeWhile (!isBlank ·) = word := by
      rw [List.takeWhile_append_of_pos (by simpa using hword)]
      cases after with
      | nil => simp
      | cons c cs => simp [hafter c rfl]
    rw [List.dropWhile_append_of_pos hbefore, dropWhile_of_head hhead, htaken]
    split
    · exact absurd rfl hne
    · rfl

theorem trim_eq_iff {text inner : List Char} : trim text = inner ↔ Trimmed text inner := by
  unfold trim
  constructor
  · rintro rfl
    have hsplit : text.dropWhile isBlank
        = ((text.dropWhile isBlank).reverse.dropWhile isBlank).reverse
          ++ ((text.dropWhile isBlank).reverse.takeWhile isBlank).reverse := by
      rw [← List.reverse_append, List.takeWhile_append_dropWhile, List.reverse_reverse]
    refine ⟨text.takeWhile isBlank,
      ((text.dropWhile isBlank).reverse.takeWhile isBlank).reverse, ?_,
      fun c hc => List.mem_takeWhile_imp hc,
      fun c hc => List.mem_takeWhile_imp (List.mem_reverse.mp hc), fun c hc => ?_, fun c hc => ?_⟩
    · rw [← hsplit, List.takeWhile_append_dropWhile]
    · refine isBlank_head_dropWhile text c ?_
      rw [hsplit]
      exact List.mem_head?_append_of_mem_head? hc
    · rw [List.getLast?_reverse] at hc
      exact isBlank_head_dropWhile _ c hc
  · rintro ⟨before, after, rfl, hbefore, hafter, hhead, hlast⟩
    have hafter' : after.reverse.dropWhile isBlank = [] :=
      List.dropWhile_eq_nil_iff.mpr fun c hc => hafter c (List.mem_reverse.mp hc)
    rw [List.dropWhile_append_of_pos hbefore]
    by_cases hnil : inner = []
    · subst hnil
      rw [List.nil_append, List.dropWhile_eq_nil_iff.mpr hafter]
      rfl
    · have hstart : ∀ c ∈ (inner ++ after).head?, isBlank c = false := by
        intro c hc
        rw [List.head?_append_of_ne_nil _ hnil] at hc
        exact hhead c hc
      have hstop : ∀ c ∈ inner.reverse.head?, isBlank c = false := by
        rwa [List.head?_reverse]
      rw [dropWhile_of_head hstart, List.reverse_append,
        List.dropWhile_append_of_pos fun c hc => hafter c (List.mem_reverse.mp hc),
        dropWhile_of_head hstop, List.reverse_reverse]

theorem tagName?_eq_some_iff {tag name : List Char} :
    tagName? tag = some name ↔ HasName tag name := by
  unfold tagName? HasName
  rw [← firstWord?_eq_some_iff]
  split
  · next c cs hword =>
    rw [hword]
    by_cases hc : (isAlphabetic c || c == '_') = true
    · rw [if_pos hc]
      constructor
      · intro h
        obtain rfl := Option.some.inj h
        exact ⟨rfl, c, rfl, by simpa using hc⟩
      · exact And.left
    · rw [if_neg hc]
      refine iff_of_false (by simp) ?_
      rintro ⟨h, c', hc', hstart⟩
      obtain rfl := Option.some.inj h
      obtain rfl := Option.some.inj hc'
      exact hc (by simpa using hstart)
  · next hnone =>
    refine iff_of_false (by simp) ?_
    rintro ⟨h, c, hc, -⟩
    cases name with
    | nil => cases hc
    | cons c' cs => exact hnone c' cs h

/-! ## Cutting at a pattern -/

/-- A text is cut behind what does not contain the pattern. -/
theorem eq_of_cutAt? {pattern : List Char} (hne : pattern ≠ []) : ∀ {text before after : List Char},
    cutAt? pattern text = some (before, after) →
      text = before ++ (pattern ++ after) ∧ ¬ pattern <:+: before
  | [], before, after, h => by simp [cutAt?, hne] at h
  | c :: cs, before, after, h => by
      rw [cutAt?] at h
      split at h
      · next hstart =>
        obtain ⟨rfl, rfl⟩ := Prod.mk.inj (Option.some.inj h)
        obtain ⟨rest, hrest⟩ := List.isPrefixOf_iff_prefix.mp hstart
        refine ⟨by rw [← hrest]; simp, fun hinfix => hne (List.infix_nil.mp hinfix)⟩
      · next hstart =>
        obtain ⟨⟨before', after'⟩, hcut, heq⟩ := Option.map_eq_some_iff.mp h
        obtain ⟨rfl, rfl⟩ := Prod.mk.inj heq
        obtain ⟨rfl, hfree⟩ := eq_of_cutAt? hne hcut
        refine ⟨rfl, fun hinfix => ?_⟩
        rcases List.infix_cons_iff.mp hinfix with hprefix | hinfix'
        · refine hstart (List.isPrefixOf_iff_prefix.mpr ?_)
          exact hprefix.trans (List.prefix_append (c :: before') _)
        · exact hfree hinfix'

theorem cutAt?_of_prefix {pattern text : List Char} (hne : pattern ≠ []) (h : pattern <+: text) :
    cutAt? pattern text = some ([], text.drop pattern.length) := by
  cases text with
  | nil => exact absurd (List.prefix_nil.mp h) hne
  | cons c cs => rw [cutAt?, if_pos (List.isPrefixOf_iff_prefix.mpr h)]

/-- A pattern whose last character stands nowhere else in it does not overlap itself. So the
text is cut at the pattern behind what does not contain it. -/
theorem cutAt?_append (front : List Char) {last : Char} (hlast : last ∉ front)
    (rest : List Char) :
    ∀ {body : List Char}, ¬ (front ++ [last]) <:+: body →
      cutAt? (front ++ [last]) (body ++ (front ++ [last] ++ rest)) = some (body, rest)
  | [], _ => by
      have hne : front ++ [last] ≠ [] := by simp
      rw [List.nil_append, cutAt?_of_prefix hne (List.prefix_append _ rest), List.drop_left]
  | c :: body, hfree => by
      have hbody : ¬ (front ++ [last]) <:+: body := fun h =>
        hfree (List.infix_cons_iff.mpr (Or.inr h))
      have hstart : ¬ (front ++ [last]) <+: c :: body ++ (front ++ [last] ++ rest) := by
        intro h
        by_cases hlength : (front ++ [last]).length ≤ (c :: body).length
        · exact hfree (List.prefix_of_prefix_length_le h (List.prefix_append _ _) hlength).isInfix
        · -- the pattern would end in the one that stands behind the text, but before its end
          have hend : (c :: body ++ (front ++ [last] ++ rest))[front.length]? = some last := by
            obtain ⟨t, ht⟩ := h
            rw [← ht]
            simp
          have hlong : (c :: body).length ≤ front.length := by
            rw [List.length_append, List.length_singleton] at hlength
            omega
          have hinside : front.length - (c :: body).length < front.length := by
            rw [List.length_cons] at hlong ⊢
            omega
          rw [List.getElem?_append_right hlong, List.append_assoc,
            List.getElem?_append_left hinside] at hend
          exact hlast (List.mem_of_getElem? hend)
      have hstart' :
          ¬ (front ++ [last]).isPrefixOf (c :: (body ++ (front ++ [last] ++ rest))) = true :=
        fun h => hstart (List.isPrefixOf_iff_prefix.mp h)
      rw [List.cons_append, cutAt?, if_neg hstart', cutAt?_append front hlast rest hbody]
      rfl

theorem not_mem_of_cutAt?_eq_none {c : Char} : ∀ {text : List Char},
    cutAt? [c] text = none → c ∉ text
  | [], _ => List.not_mem_nil
  | c' :: cs, h => by
      rw [cutAt?] at h
      split at h
      · cases h
      · next hstart =>
        have hrest := not_mem_of_cutAt?_eq_none (Option.map_eq_none_iff.mp h)
        rw [List.mem_cons, not_or]
        exact ⟨fun heq => hstart (by simp [heq]), hrest⟩

/-! ## Reading with open tags -/

variable {openTags : List (List Char)} {text before after body rest : List Char}

theorem closes_of_plain (h : cutAt? ['<'] text = none) :
    closes openTags text = openTags.isEmpty := by
  rw [closes]
  split
  · rfl
  · next heq =>
    rw [h] at heq
    cases heq

/-- What stands before the first bracket does not matter. What stands behind it is a comment,
an instruction or a tag, and each is read up to its end. -/
theorem closes_of_bracket (h : cutAt? ['<'] text = some (before, after)) :
    closes openTags text =
      if ['!', '-', '-'].isPrefixOf after then
        (cutAt? ['-', '-', '>'] (after.drop 3)).any fun cut => closes openTags cut.2
      else if ['?'].isPrefixOf after then
        (cutAt? ['?', '>'] (after.drop 1)).any fun cut => closes openTags cut.2
      else
        (cutAt? ['>'] after).any fun cut =>
          (afterTag? cut.1 openTags).any fun openTags' => closes openTags' cut.2 := by
  rw [closes]
  split
  · next heq =>
    rw [h] at heq
    cases heq
  · next heq =>
    rw [h] at heq
    obtain ⟨rfl, rfl⟩ := Prod.mk.inj (Option.some.inj heq)
    split
    · split
      · next hcut => rw [hcut]; rfl
      · next hcut => rw [hcut]; rfl
    · split
      · split
        · next hcut => rw [hcut]; rfl
        · next hcut => rw [hcut]; rfl
      · split
        · next hcut => rw [hcut]; rfl
        · next hcut =>
          rw [hcut]
          simp only [Option.any_some]
          split
          · next htag => rw [htag]; rfl
          · next htag => rw [htag]; rfl

theorem cutAt?_bracket (after : List Char) : cutAt? ['<'] ('<' :: after) = some ([], after) :=
  cutAt?_of_prefix (List.cons_ne_nil _ _) (List.prefix_append ['<'] after)

theorem closes_character {c : Char} (hc : c ≠ '<') :
    closes openTags (c :: rest) = closes openTags rest := by
  have hcut : cutAt? ['<'] (c :: rest)
      = (cutAt? ['<'] rest).map fun cut => (c :: cut.1, cut.2) := by
    rw [cutAt?, if_neg (by simp [Ne.symm hc])]
  cases hrest : cutAt? ['<'] rest with
  | none => rw [closes_of_plain hrest, closes_of_plain (by rw [hcut, hrest]; rfl)]
  | some cut =>
      obtain ⟨before, after⟩ := cut
      rw [hrest] at hcut
      rw [closes_of_bracket hrest, closes_of_bracket hcut]

theorem closes_comment (openTags : List (List Char)) (rest : List Char)
    (h : ¬ ['-', '-', '>'] <:+: body) :
    closes openTags ('<' :: '!' :: '-' :: '-' :: (body ++ (['-', '-', '>'] ++ rest)))
      = closes openTags rest := by
  have hcut : cutAt? ['-', '-', '>'] (body ++ (['-', '-', '>'] ++ rest)) = some (body, rest) :=
    cutAt?_append ['-', '-'] (by decide) rest h
  rw [closes_of_bracket (cutAt?_bracket _), if_pos (by simp)]
  show (cutAt? ['-', '-', '>'] (body ++ (['-', '-', '>'] ++ rest))).any _ = _
  rw [hcut]
  rfl

theorem closes_instruction (openTags : List (List Char)) (rest : List Char)
    (h : ¬ ['?', '>'] <:+: body) :
    closes openTags ('<' :: '?' :: (body ++ (['?', '>'] ++ rest))) = closes openTags rest := by
  have hcut : cutAt? ['?', '>'] (body ++ (['?', '>'] ++ rest)) = some (body, rest) :=
    cutAt?_append ['?'] (by decide) rest h
  rw [closes_of_bracket (cutAt?_bracket _), if_neg (by simp), if_pos (by simp)]
  show (cutAt? ['?', '>'] (body ++ (['?', '>'] ++ rest))).any _ = _
  rw [hcut]
  rfl

/-- A text does not start with what ends behind its part in front of a character. -/
theorem prefix_of_not_mem {front : List Char} {c : Char} (hc : c ∉ front)
    (h : front <+: body ++ c :: rest) : front <+: body := by
  by_cases hlength : front.length ≤ body.length
  · exact List.prefix_of_prefix_length_le h (List.prefix_append _ _) hlength
  · obtain ⟨t, ht⟩ := h
    have hend : (front ++ t)[body.length]? = some c := by
      rw [ht]
      simp
    rw [List.getElem?_append_left (by omega)] at hend
    exact absurd (List.mem_of_getElem? hend) hc

theorem closes_tag (openTags : List (List Char)) (rest : List Char) (h : IsTag body) :
    closes openTags ('<' :: (body ++ '>' :: rest))
    = (afterTag? body openTags).any fun openTags' => closes openTags' rest := by
  have hcut : cutAt? ['>'] (body ++ '>' :: rest) = some (body, rest) :=
    cutAt?_append [] List.not_mem_nil rest fun hinfix =>
      h.unclosed ((List.singleton_infix_iff _ _).mp hinfix)
  have hcomment : ¬ ['!', '-', '-'].isPrefixOf (body ++ '>' :: rest) = true := fun hstart =>
    h.not_comment (prefix_of_not_mem (by decide) (List.isPrefixOf_iff_prefix.mp hstart))
  have hinstruction : ¬ ['?'].isPrefixOf (body ++ '>' :: rest) = true := fun hstart =>
    h.not_instruction (prefix_of_not_mem (by decide) (List.isPrefixOf_iff_prefix.mp hstart))
  rw [closes_of_bracket (cutAt?_bracket _), if_neg hcomment, if_neg hinstruction]
  show (cutAt? ['>'] (body ++ '>' :: rest)).any _ = _
  rw [hcut]
  rfl

/-- What a tag does to the open tags: it closes the last, it is empty, or it is open itself. -/
theorem afterTag?_eq_some_iff {tag : List Char} {openTags' : List (List Char)} :
    afterTag? tag openTags = some openTags' ↔
      (∃ closing name, tag = '/' :: closing ∧ openTags = name :: openTags' ∧ Trimmed closing name)
      ∨ (∃ body name, tag = body ++ ['/'] ∧ tag.head? ≠ some '/' ∧ HasName body name
          ∧ openTags' = openTags)
      ∨ ∃ name, tag.head? ≠ some '/' ∧ tag.getLast? ≠ some '/' ∧ HasName tag name
          ∧ openTags' = name :: openTags := by
  unfold afterTag?
  by_cases hclosing : tag.head? = some '/'
  · obtain ⟨closing, rfl⟩ := List.head?_eq_some_iff.mp hclosing
    rw [if_pos hclosing]
    simp only [hclosing, ne_eq, not_true_eq_false, false_and, and_false, exists_false, or_false]
    cases openTags with
    | nil => simp
    | cons name outer =>
        simp only [List.drop_succ_cons, List.drop_zero, ← trim_eq_iff]
        constructor
        · intro h
          split at h
          · next hname =>
            obtain rfl := Option.some.inj h
            exact ⟨closing, name, rfl, rfl, hname.symm⟩
          · cases h
        · rintro ⟨_, _, hc, hn, htrim⟩
          obtain ⟨-, rfl⟩ := List.cons.inj hc
          obtain ⟨rfl, rfl⟩ := List.cons.inj hn
          rw [if_pos htrim.symm]
  · have hnot : ∀ closing, tag ≠ '/' :: closing := fun closing h => hclosing (by rw [h]; rfl)
    rw [if_neg hclosing]
    by_cases hempty : tag.getLast? = some '/'
    · obtain ⟨body, rfl⟩ := List.getLast?_eq_some_iff.mp hempty
      rw [if_pos hempty, List.dropLast_concat, Option.map_eq_some_iff]
      simp only [tagName?_eq_some_iff]
      constructor
      · rintro ⟨name, hname, rfl⟩
        exact Or.inr (Or.inl ⟨body, name, rfl, hclosing, hname, rfl⟩)
      · rintro (⟨closing, _, h, _⟩ | ⟨body', name, h, -, hname, rfl⟩ | ⟨_, _, h, _⟩)
        · exact absurd h (hnot closing)
        · obtain rfl := List.append_cancel_right h
          exact ⟨name, hname, rfl⟩
        · exact absurd hempty h
    · rw [if_neg hempty, Option.map_eq_some_iff]
      simp only [tagName?_eq_some_iff]
      constructor
      · rintro ⟨name, hname, rfl⟩
        exact Or.inr (Or.inr ⟨name, hclosing, hempty, hname, rfl⟩)
      · rintro (⟨closing, _, h, _⟩ | ⟨_, _, rfl, _⟩ | ⟨name, -, -, hname, rfl⟩)
        · exact absurd h (hnot closing)
        · exact absurd List.getLast?_concat hempty
        · exact ⟨name, hname, rfl⟩

/-! ## What the grammar has, the reader accepts -/

/-- Content leaves the open tags as they are. -/
theorem closes_content {cs : List Char} (h : Content cs) : ∀ (openTags : List (List Char))
    (rest : List Char), closes openTags (cs ++ rest) = closes openTags rest := by
  induction h with
  | empty => exact fun _ _ => rfl
  | character hc _ ih =>
      intro openTags rest
      rw [List.cons_append, closes_character hc, ih]
  | @comment body content hbody _ ih =>
      intro openTags rest
      have := closes_comment openTags (content ++ rest) hbody
      rw [← ih openTags rest, ← this]
      simp
  | @instruction body content hbody _ ih =>
      intro openTags rest
      have := closes_instruction openTags (content ++ rest) hbody
      rw [← ih openTags rest, ← this]
      simp
  | @emptyTag body name content htag hhead hname _ ih =>
      intro openTags rest
      have hafter : afterTag? (body ++ ['/']) openTags = some openTags :=
        afterTag?_eq_some_iff.mpr (Or.inr (Or.inl ⟨body, name, rfl, hhead, hname, rfl⟩))
      have := closes_tag openTags (content ++ rest) htag
      rw [hafter, Option.any_some, ih] at this
      rw [← this]
      simp
  | @element body name inner closing content htag hhead hlast hname _ hclosing htrim _ ihinner ih =>
      intro openTags rest
      have hopen : afterTag? body openTags = some (name :: openTags) :=
        afterTag?_eq_some_iff.mpr (Or.inr (Or.inr ⟨name, hhead, hlast, hname, rfl⟩))
      have hclose : afterTag? ('/' :: closing) (name :: openTags) = some openTags :=
        afterTag?_eq_some_iff.mpr (Or.inl ⟨closing, name, rfl, rfl, htrim⟩)
      have hend := closes_tag (name :: openTags) (content ++ rest) hclosing
      rw [hclose, Option.any_some, ih] at hend
      have hstart := closes_tag openTags
        (inner ++ '<' :: ('/' :: closing ++ '>' :: (content ++ rest))) htag
      rw [hopen, Option.any_some, ihinner, hend] at hstart
      rw [← hstart]
      simp

theorem closes_of_closesTags : ∀ {openTags : List (List Char)} {text : List Char},
    ClosesTags openTags text → closes openTags text = true
  | [], text, h => by
      have := closes_content h [] []
      rw [List.append_nil] at this
      rw [this, closes_of_plain rfl]
      rfl
  | name :: outer, text, h => by
      obtain ⟨inner, closing, rest, rfl, hinner, hclosing, htrim, hrest⟩ := h
      have hclose : afterTag? ('/' :: closing) (name :: outer) = some outer :=
        afterTag?_eq_some_iff.mpr (Or.inl ⟨closing, name, rfl, rfl, htrim⟩)
      have hend := closes_tag (name :: outer) rest hclosing
      rw [hclose, Option.any_some, closes_of_closesTags hrest] at hend
      rw [closes_content hinner]
      exact hend

/-! ## What the reader accepts, the grammar has -/

/-- What may stand before any content may stand before text that closes open tags. -/
theorem ClosesTags.behind (front : List Char)
    (hfront : ∀ cs, Content cs → Content (front ++ cs)) :
    ∀ {openTags : List (List Char)} {text : List Char},
      ClosesTags openTags text → ClosesTags openTags (front ++ text)
  | [], _, h => hfront _ h
  | _ :: _, _, h => by
      obtain ⟨inner, closing, rest, rfl, hinner, hrest⟩ := h
      exact ⟨front ++ inner, closing, rest, by simp, hfront _ hinner, hrest⟩

theorem content_append_of_plain : ∀ {front cs : List Char}, '<' ∉ front → Content cs →
    Content (front ++ cs)
  | [], _, _, h => h
  | _ :: _, _, hfront, h => by
      rw [List.mem_cons, not_or] at hfront
      exact .character (Ne.symm hfront.1) (content_append_of_plain hfront.2 h)

/-- A tag and what closes the open tags behind it close the open tags before it. -/
theorem ClosesTags.of_afterTag? {openTags' : List (List Char)} (htag : IsTag body)
    (hafter : afterTag? body openTags = some openTags') (h : ClosesTags openTags' rest) :
    ClosesTags openTags ('<' :: (body ++ '>' :: rest)) := by
  rcases afterTag?_eq_some_iff.mp hafter with ⟨closing, name, rfl, rfl, htrim⟩ |
    ⟨body, name, rfl, hhead, hname, rfl⟩ | ⟨name, hhead, hlast, hname, rfl⟩
  · exact ⟨[], closing, rest, rfl, .empty, htag, htrim, h⟩
  · have := h.behind ('<' :: (body ++ ['/'] ++ ['>'])) fun cs hcs => by
      simpa using Content.emptyTag htag hhead hname hcs
    simpa using this
  · obtain ⟨inner, closing, rest, rfl, hinner, hclosing, htrim, hrest⟩ := h
    have := hrest.behind
      ('<' :: (body ++ '>' :: (inner ++ '<' :: '/' :: (closing ++ ['>']))))
      fun cs hcs => by
        simpa using Content.element htag hhead hlast hname hinner hclosing htrim hcs
    simpa using this

/-- By induction on the text: what is read of it is a part of some content, and the rest
closes the tags that are open then. -/
theorem ClosesTags.of_closes (openTags : List (List Char)) (text : List Char)
    (h : closes openTags text = true) : ClosesTags openTags text := by
  cases hcut : cutAt? ['<'] text with
  | none =>
      rw [closes_of_plain hcut, List.isEmpty_iff] at h
      subst h
      have := content_append_of_plain (not_mem_of_cutAt?_eq_none hcut) .empty
      rwa [List.append_nil] at this
  | some cut =>
      obtain ⟨before, after⟩ := cut
      obtain ⟨rfl, hbefore⟩ := eq_of_cutAt? (List.cons_ne_nil _ _) hcut
      rw [closes_of_bracket hcut] at h
      refine ClosesTags.behind _ (fun cs => content_append_of_plain fun hmem => ?_) ?_
      · exact hbefore ((List.singleton_infix_iff _ _).mpr hmem)
      · split at h
        · next hcomment =>
          obtain ⟨after, rfl⟩ := List.isPrefixOf_iff_prefix.mp hcomment
          obtain ⟨⟨body, rest⟩, hend, hrest⟩ := Option.any_eq_true .. |>.mp h
          obtain ⟨rfl, hbody⟩ := eq_of_cutAt? (List.cons_ne_nil _ _) hend
          have := (ClosesTags.of_closes openTags rest hrest).behind
            ('<' :: '!' :: '-' :: '-' :: (body ++ ['-', '-', '>'])) fun cs hcs => by
              simpa using Content.comment hbody hcs
          simpa using this
        · split at h
          · next hinstruction =>
            obtain ⟨after, rfl⟩ := List.isPrefixOf_iff_prefix.mp hinstruction
            obtain ⟨⟨body, rest⟩, hend, hrest⟩ := Option.any_eq_true .. |>.mp h
            obtain ⟨rfl, hbody⟩ := eq_of_cutAt? (List.cons_ne_nil _ _) hend
            have := (ClosesTags.of_closes openTags rest hrest).behind
              ('<' :: '?' :: (body ++ ['?', '>'])) fun cs hcs => by
                simpa using Content.instruction hbody hcs
            simpa using this
          · next hcomment hinstruction =>
            obtain ⟨⟨body, rest⟩, hend, htags⟩ := Option.any_eq_true .. |>.mp h
            obtain ⟨openTags', hafter, hrest⟩ := Option.any_eq_true .. |>.mp htags
            obtain ⟨rfl, hbody⟩ := eq_of_cutAt? (List.cons_ne_nil _ _) hend
            have htag : IsTag body := by
              refine ⟨fun hmem => ?_, fun hstart => hcomment ?_, fun hstart => hinstruction ?_⟩
              · exact hbody ((List.singleton_infix_iff _ _).mpr hmem)
              · exact List.isPrefixOf_iff_prefix.mpr (hstart.trans (List.prefix_append _ _))
              · exact List.isPrefixOf_iff_prefix.mpr (hstart.trans (List.prefix_append _ _))
            exact ClosesTags.of_afterTag? htag hafter (ClosesTags.of_closes openTags' rest hrest)
termination_by text.length
decreasing_by
  all_goals
    subst_vars
    simp only [List.length_append, List.length_cons, List.length_nil]
    omega

theorem closes_iff {openTags : List (List Char)} {text : List Char} :
    closes openTags text = true ↔ ClosesTags openTags text :=
  ⟨ClosesTags.of_closes openTags text, closes_of_closesTags⟩

/-- **The grammar of XML values.** Text is an XML value exactly if it is content of the grammar,
and the value is the text itself. -/
theorem xml?_iff_content (text : String) (value : Value) :
    Conversion.xml? text = some value ↔ value = .xml text ∧ Content text.toList := by
  unfold Conversion.xml? isBalanced
  by_cases h : closes [] text.toList = true
  · rw [if_pos h]
    have hcontent : Content text.toList := closes_iff.mp h
    simp [hcontent, eq_comm]
  · rw [if_neg h]
    have hcontent : ¬ Content text.toList := fun hc => h (closes_iff.mpr hc)
    simp [hcontent]

end Configurable.Markup
