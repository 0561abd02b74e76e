import Configurable.Text.Alphabetic
import Configurable.Text.Blank

/-!
# Balanced markup

An XML value is plain text or markup whose tags are balanced and well named. Comments and
processing instructions are skipped, whatever they contain. A tag is closed by its name, up
to blanks, and a tag that ends in a slash closes itself. A name is the first word of a tag
and starts with a letter or an underscore; nothing else is asked of attributes or of
characters.
-/

namespace Configurable.Markup

open Text (isAlphabetic firstWord? trim)

/-- The text before the first occurrence of a pattern, and the text after it. -/
def cutAt? (pattern : List Char) : List Char → Option (List Char × List Char)
  | [] => if pattern.isEmpty then some ([], []) else none
  | c :: cs =>
    if pattern.isPrefixOf (c :: cs) then some ([], (c :: cs).drop pattern.length)
    else (cutAt? pattern cs).map fun (before, after) => (c :: before, after)

theorem length_add_of_cutAt? {pattern cs before after : List Char}
    (h : cutAt? pattern cs = some (before, after)) :
    after.length + pattern.length ≤ cs.length := by
  induction cs generalizing before with
  | nil =>
    unfold cutAt? at h
    split at h
    · rename_i hp
      simp only [List.isEmpty_iff] at hp
      simp_all
    · cases h
  | cons c cs ih =>
    unfold cutAt? at h
    split at h
    · rename_i hp
      obtain ⟨rfl, rfl⟩ := Prod.mk.inj (Option.some.inj h)
      have := (List.isPrefixOf_iff_prefix.1 hp).length_le
      simp only [List.length_drop]
      omega
    · obtain ⟨⟨b, a⟩, hb, heq⟩ := Option.map_eq_some_iff.1 h
      obtain ⟨rfl, rfl⟩ := Prod.mk.inj heq
      have := ih hb
      simp only [List.length_cons]
      omega

/-- The name of an opening tag. -/
def tagName? (tag : List Char) : Option (List Char) :=
  match firstWord? tag with
  | some (c :: cs) => if isAlphabetic c || c == '_' then some (c :: cs) else none
  | _ => none

/-- The open tags behind a tag, or none if it does not belong there. -/
def afterTag? (tag : List Char) (openTags : List (List Char)) : Option (List (List Char)) :=
  if tag.head? = some '/' then
    match openTags with
    | name :: outer => if name = trim (tag.drop 1) then some outer else none
    | [] => none
  else if tag.getLast? = some '/' then (tagName? tag.dropLast).map fun _ => openTags
  else (tagName? tag).map (· :: openTags)

/-- Whether the text closes the open tags and all tags of its own. -/
def closes (openTags : List (List Char)) (text : List Char) : Bool :=
  match _h : cutAt? ['<'] text with
  | none => openTags.isEmpty
  | some (_, after) =>
    if ['!', '-', '-'].isPrefixOf after then
      match _hc : cutAt? ['-', '-', '>'] (after.drop 3) with
      | none => false
      | some (_, rest) => closes openTags rest
    else if ['?'].isPrefixOf after then
      match _hc : cutAt? ['?', '>'] (after.drop 1) with
      | none => false
      | some (_, rest) => closes openTags rest
    else
      match _hc : cutAt? ['>'] after with
      | none => false
      | some (tag, rest) =>
        match afterTag? tag openTags with
        | none => false
        | some openTags' => closes openTags' rest
termination_by text.length
decreasing_by
  all_goals
    have h₁ := length_add_of_cutAt? _h
    have h₂ := length_add_of_cutAt? _hc
    simp only [List.length_cons, List.length_nil, List.length_drop] at h₁ h₂
    omega

def isBalanced (text : String) : Bool := closes [] text.toList

end Configurable.Markup
