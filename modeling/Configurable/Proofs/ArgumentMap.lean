import Configurable.Proofs.ArgumentOrder
import Configurable.Proofs.Bindings
import Configurable.Proofs.MarkupGrammar

/-!
# What arguments say

The entries of a command line are read off its arguments: which key an argument has and which
text it gives to it is told by the characters of the argument alone (`Gives`). Of all arguments
with a key the last one gives its text, and the first one its place among the keys.

The entries depend on nothing but the arguments, and no call changes them, so once they are
there, reading them again is of no effect (`Loaded.start_eq`).
-/

namespace Configurable

namespace CommandLine

open Markup (Trimmed trim_eq_iff)

/-! ## Single arguments -/

/-- The key that stands for `raw`, which stands in front of an equals sign. -/
def IsKey (raw : List Char) (key : String) : Prop :=
  ∃ s, Trimmed raw s ∧ key.toList = if s.getLast? = some '\\' then s ++ [' '] else s

/-- The argument is for the configuration, and gives the text to the key. -/
def Gives (argument key text : String) : Prop :=
  ∃ raw, argument.toList = '-' :: 'C' :: (raw ++ '=' :: text.toList) ∧ '=' ∉ raw ∧ IsKey raw key

theorem isKey_iff {raw : List Char} {key : String} :
    IsKey raw key ↔ key = String.ofList (normalizeKey raw) := by
  have hlist : ∀ cs : List Char, key.toList = cs ↔ key = String.ofList cs := fun cs => by
    rw [← String.toList_inj, String.toList_ofList]
  unfold IsKey normalizeKey
  constructor
  · rintro ⟨s, hs, hkey⟩
    rw [← trim_eq_iff.mpr hs] at hkey
    exact (hlist _).mp hkey
  · intro hkey
    exact ⟨_, trim_eq_iff.mp rfl, (hlist _).mpr hkey⟩

theorem parseArgument?_eq_some_iff {argument key text : String} :
    parseArgument? argument = some (key, text) ↔ Gives argument key text := by
  constructor
  · intro h
    unfold parseArgument? at h
    split at h
    · next pair hargument =>
      split at h
      · cases h
      · next x value hvalue =>
        obtain ⟨rfl, rfl⟩ := Prod.mk.inj (Option.some.inj h)
        -- what stops the key is an equals sign
        obtain rfl : x = '=' := by
          have hnot := List.head?_dropWhile_not (fun c : Char => decide (c ≠ '=')) pair
          rw [hvalue] at hnot
          simpa using hnot
        refine ⟨pair.takeWhile (· ≠ '='), ?_, fun hmem => ?_, isKey_iff.mpr rfl⟩
        · rw [hargument, String.toList_ofList, ← hvalue, List.takeWhile_append_dropWhile]
        · simpa using List.mem_takeWhile_imp hmem
    · cases h
  · rintro ⟨raw, hargument, hraw, hkey⟩
    have hrun : ∀ c ∈ raw, decide (c ≠ '=') = true := by
      intro c hc
      simpa using fun heq : c = '=' => hraw (heq ▸ hc)
    unfold parseArgument?
    rw [hargument]
    simp only
    rw [List.dropWhile_append_of_pos hrun, List.takeWhile_append_of_pos hrun]
    simp [isKey_iff.mp hkey]

/-! ## All arguments -/

/-- The last argument with the key gives it this text. -/
def GivesLast (arguments : List String) (key text : String) : Prop :=
  ∃ earlier argument later, arguments = earlier ++ argument :: later ∧ Gives argument key text ∧
    ∀ a ∈ later, ∀ t, ¬ Gives a key t

/-- The argument at the index is the first with the key. -/
def GivenFirst (arguments : List String) (key : String) (n : Nat) : Prop :=
  (∃ a, arguments[n]? = some a ∧ ∃ text, Gives a key text) ∧
    ∀ m < n, ∀ a, arguments[m]? = some a → ∀ text, ¬ Gives a key text

section

variable {arguments : List String} {argument key text : String} {n : Nat}

theorem lastText?_concat (arguments : List String) (argument key : String) :
    lastText? (arguments ++ [argument]) key =
      match parseArgument? argument with
      | some (k, text) => if k = key then some text else lastText? arguments key
      | none => lastText? arguments key := by
  unfold lastText?
  rw [List.filterMap_append, List.reverse_append]
  cases hparse : parseArgument? argument with
  | none => simp [hparse]
  | some pair =>
      by_cases hkey : pair.1 = key
      · simp [hparse, hkey]
      · simp [hparse, hkey]

theorem givesLast_concat : GivesLast (arguments ++ [argument]) key text ↔
    Gives argument key text ∨ (∀ t, ¬ Gives argument key t) ∧ GivesLast arguments key text := by
  constructor
  · rintro ⟨earlier, a, later, hsplit, hgives, hlater⟩
    rcases List.eq_nil_or_concat' later with rfl | ⟨later, last, rfl⟩
    · obtain ⟨-, rfl⟩ := List.append_inj' hsplit rfl |>.imp_right List.singleton_inj.mp
      exact Or.inl hgives
    · rw [← List.cons_append, ← List.append_assoc] at hsplit
      obtain ⟨rfl, rfl⟩ := List.append_inj' hsplit rfl |>.imp_right List.singleton_inj.mp
      refine Or.inr ⟨hlater _ (List.mem_append_right _ (List.mem_singleton_self _)),
        earlier, a, later, rfl, hgives, fun a' ha' => hlater a' (List.mem_append_left _ ha')⟩
  · rintro (hgives | ⟨hnot, earlier, a, later, rfl, hgives, hlater⟩)
    · exact ⟨arguments, argument, [], rfl, hgives, List.forall_mem_nil _⟩
    · refine ⟨earlier, a, later ++ [argument], by simp, hgives, fun a' ha' => ?_⟩
      rcases List.mem_append.mp ha' with hmem | hlast
      · exact hlater a' hmem
      · exact List.mem_singleton.mp hlast ▸ hnot

theorem lastText?_eq_some_iff : lastText? arguments key = some text ↔
    GivesLast arguments key text := by
  induction arguments using List.reverseRecOn with
  | nil =>
      refine iff_of_false nofun ?_
      rintro ⟨earlier, a, later, hsplit, -⟩
      simp at hsplit
  | append_singleton arguments argument ih =>
      rw [lastText?_concat, givesLast_concat, ← ih]
      simp only [← parseArgument?_eq_some_iff]
      cases hparse : parseArgument? argument with
      | none => simp
      | some pair =>
          obtain ⟨k, t⟩ := pair
          by_cases hkey : k = key
          · simp [hkey]
          · simp [hkey]

theorem mem_keys_parseArguments_iff : key ∈ (parseArguments arguments).keys ↔
    ∃ a ∈ arguments, ∃ text, Gives a key text := by
  rw [Entries.keys, ← Entries.isSome_get?_iff, get?_parseArguments, lastText?, Option.isSome_map,
    List.find?_isSome]
  simp only [List.mem_reverse, List.mem_filterMap, ← parseArgument?_eq_some_iff]
  constructor
  · rintro ⟨⟨k, text⟩, ⟨a, ha, hparse⟩, hkey⟩
    obtain rfl : k = key := by simpa using hkey
    exact ⟨a, ha, text, hparse⟩
  · rintro ⟨a, ha, text, hparse⟩
    exact ⟨(key, text), ⟨a, ha, hparse⟩, by simp⟩

theorem keys_parseArguments_concat (arguments : List String) (argument : String) :
    (parseArguments (arguments ++ [argument])).keys = (parseArguments arguments).keys ∨
    ∃ key text, Gives argument key text ∧ key ∉ (parseArguments arguments).keys ∧
      (parseArguments (arguments ++ [argument])).keys = (parseArguments arguments).keys ++ [key] := by
  have hparse : parseArguments (arguments ++ [argument]) =
      match parseArgument? argument with
      | some (k, text) => (parseArguments arguments).insert k text
      | none => parseArguments arguments := by
    unfold parseArguments Entries.ofList
    rw [List.filterMap_append, List.foldl_append]
    cases hparse : parseArgument? argument <;> simp [hparse]
  rw [hparse]
  cases hgives : parseArgument? argument with
  | none => exact Or.inl rfl
  | some pair =>
      obtain ⟨key, text⟩ := pair
      simp only [Entries.keys_insert]
      split
      · exact Or.inl rfl
      · next hnew => exact Or.inr ⟨key, text, parseArgument?_eq_some_iff.mp hgives, hnew, rfl⟩

/-! ## The order of keys -/

/-- A key that is there comes first where it came first before there was another argument. -/
theorem GivenFirst.of_concat (h : GivenFirst (arguments ++ [argument]) key n)
    (hkey : key ∈ (parseArguments arguments).keys) :
    n < arguments.length ∧ GivenFirst arguments key n := by
  obtain ⟨a, ha, text, hgives⟩ := mem_keys_parseArguments_iff.mp hkey
  obtain ⟨i, hi, rfl⟩ := List.mem_iff_getElem.mp ha
  obtain ⟨⟨b, hb, hbgives⟩, hbefore⟩ := h
  have hlt : n < arguments.length := by
    by_contra hnot
    refine hbefore i (by omega) arguments[i] ?_ text hgives
    rw [List.getElem?_append_left hi, List.getElem?_eq_getElem hi]
  rw [List.getElem?_append_left hlt] at hb
  refine ⟨hlt, ⟨b, hb, hbgives⟩, fun m hm c hc => hbefore m hm c ?_⟩
  rwa [List.getElem?_append_left (Nat.lt_trans hm hlt)]

/-- Keys are in the order of their first arguments. -/
theorem pairwise_keys_parseArguments (arguments : List String) :
    (parseArguments arguments).keys.Pairwise fun key key' =>
      ∀ m n, GivenFirst arguments key m → GivenFirst arguments key' n → m < n := by
  induction arguments using List.reverseRecOn with
  | nil => exact List.Pairwise.nil
  | append_singleton arguments argument ih =>
      have hold : (parseArguments arguments).keys.Pairwise fun key key' =>
          ∀ m n, GivenFirst (arguments ++ [argument]) key m →
            GivenFirst (arguments ++ [argument]) key' n → m < n :=
        ih.imp_of_mem fun hkey hkey' hless m n hm hn =>
          hless m n (hm.of_concat hkey).2 (hn.of_concat hkey').2
      rcases keys_parseArguments_concat arguments argument with hsame | ⟨key, text, -, hnew, hkeys⟩
      · rwa [hsame]
      · rw [hkeys, List.pairwise_append]
        refine ⟨hold, List.pairwise_singleton _ _, fun old hmem k hk m n hm hn => ?_⟩
        obtain rfl := List.mem_singleton.mp hk
        refine Nat.lt_of_lt_of_le (hm.of_concat hmem).1 (Nat.le_of_not_lt fun hlt => hnew ?_)
        obtain ⟨⟨a, ha, hgives⟩, -⟩ := hn
        rw [List.getElem?_append_left hlt] at ha
        exact mem_keys_parseArguments_iff.mpr ⟨a, List.mem_of_getElem? ha, hgives⟩

end

/-! ## Reading the arguments again -/

section

variable {c : CommandLine}

/-- The entries are those of the arguments. -/
def Loaded (c : CommandLine) : Prop := c.entries = parseArguments c.arguments

theorem loaded_start (c : CommandLine) : c.start.Loaded := rfl

theorem Loaded.start_eq (h : c.Loaded) : c.start = c := by
  unfold CommandLine.start
  rw [← h]

variable (files : FileTree) (g : TypeGraph)

theorem Loaded.serve (h : c.Loaded) (r : Request) : (Source.serve files g c r).2.Loaded := by
  cases r with
  | start => exact loaded_start c
  | read kind v =>
      show (c.take v.id).2.Loaded
      obtain ⟨keys, claims, consumed, heq, -⟩ := take_claims c v.id
      rw [heq]
      exact h
  | mark v =>
      show (CommandLine.mark v c).Loaded
      rw [mark_eq]
      exact h
  | complete => exact h

theorem Loaded.after : ∀ (rs : List Request) {c : CommandLine}, c.Loaded →
    (Source.after files g c rs).Loaded
  | [], _, h => h
  | r :: rs, _, h => Loaded.after rs (h.serve files g r)

/-- **The last argument wins.** In any session, after a call that starts the command line, its
keys are those that some argument has, each of them once and in the order of their first
arguments; the text of a key is what its last argument gives it; and starting the command line
again, at any later moment, changes neither its state nor any later reply. -/
theorem last_argument_wins (root : ModuleId) (arguments : List String) (before rs : List Request) :
    let c := Source.after files g (ofArguments root arguments) (before ++ .start :: rs)
    c.entries.keys.Nodup
      ∧ (∀ key, key ∈ c.entries.keys ↔ ∃ a ∈ arguments, ∃ text, Gives a key text)
      ∧ (∀ key text, c.entries.get? key = some text ↔ GivesLast arguments key text)
      ∧ (c.entries.keys.Pairwise fun key key' =>
        ∀ m n, GivenFirst arguments key m → GivenFirst arguments key' n → m < n)
      ∧ ∀ later, Source.after files g c (.start :: later) = Source.after files g c later
        ∧ Source.replies files g c (.start :: later)
          = .logged [] :: Source.replies files g c later := by
  intro c
  have hsplit : c = Source.after files g
      (Source.after files g (ofArguments root arguments) before).start rs := Source.after_append ..
  have harguments : c.arguments = arguments := (grows_after files g _ _).arguments
  have hloaded : c.Loaded := hsplit ▸ (loaded_start _).after files g rs
  have hentries : c.entries = parseArguments arguments := harguments ▸ hloaded
  have hstart : (Source.serve files g c .start).2 = c := hloaded.start_eq
  rw [hentries]
  refine ⟨Entries.nodup_keys_ofList _, fun key => mem_keys_parseArguments_iff,
    fun key text => ?_, pairwise_keys_parseArguments arguments, fun later => ⟨?_, ?_⟩⟩
  · rw [get?_parseArguments, lastText?_eq_some_iff]
  · show Source.after files g (Source.serve files g c .start).2 later = _
    rw [hstart]
  · show _ :: Source.replies files g (Source.serve files g c .start).2 later = _
    rw [hstart]
    rfl

/-- The later text of `port` takes the place of the earlier one, and the blank behind a backslash
belongs to the key. -/
example : parseArguments ["-Cport=1", "-Cflag", "port=3", "-C path\\ =a=b", "-Cport =2"]
    = [("port", "2"), ("path\\ ", "a=b")] := by decide +kernel

end

end CommandLine

end Configurable
