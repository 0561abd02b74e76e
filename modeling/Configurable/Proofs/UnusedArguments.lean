import Configurable.Source.Any
import Configurable.Proofs.History

/-!
# Arguments that were not used

At the end of a pass a command line reports the arguments that it has not used. Every call for
a variable uses all arguments that name it, with one exception: a lookup that is *turned away*,
because the key that decides it belongs to another variable, uses nothing
(`Accounts.turnsAway_iff`). So an argument is reported if every declared variable that it
names was turned away, and in particular if there is none (`lastReport_eq`).

What a command line keeps is compared along its calls with an *audience*, which is made from
the calls and the arguments alone: who was served, which decides whom the keys belong to, and
who was heard, which decides what was used (`Accounts`).
-/

namespace Configurable.CommandLine

variable {g : TypeGraph} {c c' : CommandLine} {v : VariableId} {as : List Action}

/-! ## Who is heard -/

/-- The variables that a history of calls has served, in their order, and those that it has
heard at all. -/
structure Audience where
  served : List VariableId
  heard : List VariableId

/-- The key that decides a lookup belongs to another variable: the first that was served
among those that it names. -/
def turnsAway (c : CommandLine) (served : List VariableId) (v : VariableId) : Bool :=
  match c.find v with
  | .bound form _ _ => (served.find? fun w => form ∈ forms c.root w).any (· ≠ v)
  | .absent | .ambiguous _ => false

/-- Marks are always heard, and lookups unless they are turned away. -/
def hear (c : CommandLine) (a : Audience) : Action → Audience
  | .read _ v => if c.turnsAway a.served v then a else ⟨a.served ++ [v], a.heard ++ [v]⟩
  | .mark v => ⟨a.served, a.heard ++ [v]⟩
  | .start | .complete => a

def audience (c : CommandLine) (as : List Action) : Audience := as.foldl c.hear ⟨[], []⟩

/-- There were calls for the variable, and all were lookups that were turned away. -/
def TurnedAway (c : CommandLine) (as : List Action) (v : VariableId) : Prop :=
  (∃ action ∈ as, action.subject? = some v) ∧ v ∉ (c.audience as).heard

instance (c : CommandLine) (as : List Action) (v : VariableId) : Decidable (c.TurnedAway as v) :=
  inferInstanceAs (Decidable (_ ∧ _))

theorem audience_append (c : CommandLine) (as : List Action) (action : Action) :
    c.audience (as ++ [action]) = c.hear (c.audience as) action := by
  simp [audience]

theorem subject_of_heard : ∀ {as : List Action} {a : Audience},
    v ∈ (as.foldl c.hear a).heard → v ∈ a.heard ∨ v ∈ as.filterMap Action.subject?
  | [], _, h => Or.inl h
  | action :: as, a, h => by
      have hhead : v ∈ (c.hear a action).heard → v ∈ a.heard ∨ action.subject? = some v := by
        intro hv
        unfold hear at hv
        split at hv
        · split at hv
          · exact Or.inl hv
          · simpa [Action.subject?, eq_comm] using hv
        · simpa [Action.subject?, eq_comm] using hv
        · exact Or.inl hv
        · exact Or.inl hv
      have hrest : v ∈ (as.foldl c.hear (c.hear a action)).heard := h
      rcases subject_of_heard hrest with hv | hv
      · rcases hhead hv with hold | hnew
        · exact Or.inl hold
        · exact Or.inr (List.mem_filterMap.mpr ⟨action, List.mem_cons_self .., hnew⟩)
      · obtain ⟨action', hmem, hsubject⟩ := List.mem_filterMap.mp hv
        exact Or.inr (List.mem_filterMap.mpr ⟨action', List.mem_cons_of_mem _ hmem, hsubject⟩)

/-! ## What one call does -/

theorem mem_presentForms {key : String} :
    key ∈ c.presentForms v ↔ key ∈ forms c.root v ∧ c.entries.contains key = true := by
  simp [presentForms]

theorem qualifiedName_mem_forms (root : ModuleId) (v : VariableId) :
    v.qualifiedName ∈ forms root v := by
  unfold forms
  simp only
  split
  · split
    · simp
    · simp
  · simp

/-- What is found for a variable is about the forms that are there. -/
theorem find_spec (c : CommandLine) (v : VariableId) :
    match c.find v with
    | .absent => c.presentForms v = []
    | .bound form _ present => present = c.presentForms v ∧ form ∈ c.presentForms v
    | .ambiguous present => present = c.presentForms v := by
  unfold find
  cases c.presentForms v with
  | nil => rfl
  | cons form others =>
      simp only
      by_cases hall : (others.all fun other => c.textOf other = c.textOf form) = true
      · rw [if_pos hall]
        exact ⟨rfl, List.mem_cons_self ..⟩
      · rw [if_neg hall]

theorem mark_eq (w : Variable) (c : CommandLine) :
    mark w c = c.consume (c.presentForms w.id) := by
  have hspec := find_spec c w.id
  unfold mark
  split
  · next h =>
    rw [h] at hspec
    simp [consume, hspec]
  · next h =>
    rw [h] at hspec
    rw [hspec.1]
  · next h =>
    rw [h] at hspec
    rw [hspec]

theorem foldl_claim (v : VariableId) : ∀ (keys : List String) (c : CommandLine),
    ∃ claims, keys.foldl (claim · v ·) c = { c with claims := claims } ∧
      ∀ key, claims.get? key = (c.claims.get? key).or (if key ∈ keys then some v else none)
  | [], c => ⟨c.claims, rfl, by simp⟩
  | k :: keys, c => by
      obtain ⟨claims, heq, hclaims⟩ := foldl_claim v keys (c.claim v k)
      refine ⟨claims, ?_, fun key => ?_⟩
      · rw [List.foldl_cons, heq]
        unfold claim
        split
        · rfl
        · rfl
      · rw [hclaims key]
        unfold claim
        split
        · next hk =>
          by_cases heq : key = k
          · subst heq
            obtain ⟨w, hw⟩ := Option.isSome_iff_exists.mp hk
            simp [hw]
          · simp [heq]
        · rw [Entries.get?_append]
          by_cases heq : key = k
          · simp [heq, Entries.get?]
          · simp [heq, Entries.get?, Ne.symm heq]

/-- The key that decides the lookup belongs to another variable, as the claims have it. -/
def refuses (c : CommandLine) (v : VariableId) : Bool :=
  match c.find v with
  | .bound form _ _ => (c.claims.get? form).any (· ≠ v)
  | .absent | .ambiguous _ => false

/-- Refusing is an answer of its own, which names the owner. -/
theorem refuses_iff : c.refuses v = true ↔ ∃ owner, owner ≠ v ∧
    (c.take v).1 = .error (.error (.claimedArgument v.render owner.render
      s!"-C{v.qualifiedName}=<value>") none) := by
  unfold refuses take
  cases c.find v with
  | absent => exact iff_of_false (by simp) fun ⟨_, _, h⟩ => by cases h
  | ambiguous present => exact iff_of_false (by simp) fun ⟨_, _, h⟩ => by cases h
  | bound form text present =>
      simp only
      cases c.claims.get? form with
      | none => exact iff_of_false (by simp) fun ⟨_, _, h⟩ => by cases h
      | some owner =>
          simp only
          by_cases howner : owner = v
          · rw [if_pos howner]
            exact iff_of_false (by simp [howner]) fun ⟨_, _, h⟩ => by cases h
          · rw [if_neg howner]
            exact iff_of_true (by simpa using howner) ⟨owner, howner, rfl⟩

theorem take_of_refuses (h : c.refuses v = true) : (c.take v).2 = c := by
  unfold refuses at h
  unfold take
  split at h
  · next form text present hfind =>
    rw [hfind]
    obtain ⟨owner, howner, hne⟩ := Option.any_eq_true .. |>.mp h
    simp only [howner]
    rw [if_neg (of_decide_eq_true hne)]
  · cases h
  · cases h

/-- Otherwise all that is there for the variable is used, and what belonged to no variable
belongs to this one. -/
theorem take_of_not_refuses (h : c.refuses v = false) :
    ∃ claims, (c.take v).2
        = { c with claims := claims, consumed := c.consumed ++ c.presentForms v } ∧
      ∀ key, c.entries.contains key = true → claims.get? key
        = (c.claims.get? key).or (if key ∈ forms c.root v then some v else none) := by
  have hpresent : ∀ key, c.entries.contains key = true →
      (key ∈ c.presentForms v ↔ key ∈ forms c.root v) :=
    fun key hkey => by simp [mem_presentForms, hkey]
  have hspec := find_spec c v
  unfold refuses at h
  unfold take
  cases hfind : c.find v with
  | absent =>
      rw [hfind] at hspec
      refine ⟨c.claims, by simp [hspec], fun key hkey => ?_⟩
      simp [← hpresent key hkey, hspec]
  | ambiguous present =>
      rw [hfind] at hspec
      subst hspec
      obtain ⟨claims, heq, hclaims⟩ := foldl_claim v (c.presentForms v) c
      refine ⟨claims, by simp [heq, consume], fun key hkey => ?_⟩
      simp only [hclaims key, hpresent key hkey]
  | bound form text present =>
      rw [hfind] at h hspec
      obtain ⟨rfl, -⟩ := hspec
      obtain ⟨claims, heq, hclaims⟩ := foldl_claim v (v.qualifiedName :: c.presentForms v) c
      have hmem : ∀ key, c.entries.contains key = true →
          (key ∈ v.qualifiedName :: c.presentForms v ↔ key ∈ forms c.root v) := by
        intro key hkey
        rw [List.mem_cons, hpresent key hkey]
        exact ⟨fun hor => hor.elim (fun hq => hq ▸ qualifiedName_mem_forms c.root v) id, Or.inr⟩
      refine ⟨claims, ?_, fun key hkey => by simp only [hclaims key, hmem key hkey]⟩
      simp only
      split
      · simp [heq, consume]
      · next owner howner =>
        have howner' : owner = v := by simpa [howner] using h
        rw [if_pos howner']
        simp [heq, consume]

/-! ## What a history does -/

/-- What a command line keeps after some calls, as the audience has it. -/
structure Accounts (c : CommandLine) (as : List Action) (c' : CommandLine) : Prop where
  root : c'.root = c.root
  entries : c'.entries = c.entries
  claims : ∀ key, c.entries.contains key = true →
    c'.claims.get? key = (c.audience as).served.find? fun w => key ∈ forms c.root w
  consumed : ∀ key, c.entries.contains key = true →
    (key ∈ c'.consumed ↔ ∃ w ∈ (c.audience as).heard, key ∈ forms c.root w)

theorem Accounts.presentForms (h : Accounts c as c') (v : VariableId) :
    c'.presentForms v = c.presentForms v := by
  unfold CommandLine.presentForms
  rw [h.root, h.entries]

theorem Accounts.find (h : Accounts c as c') (v : VariableId) : c'.find v = c.find v := by
  unfold CommandLine.find textOf
  rw [h.presentForms, h.entries]

theorem Accounts.refuses (h : Accounts c as c') (v : VariableId) :
    c'.refuses v = c.turnsAway (c.audience as).served v := by
  have hspec := find_spec c v
  unfold CommandLine.refuses turnsAway
  rw [h.find]
  cases hfind : c.find v with
  | absent => rfl
  | ambiguous present => rfl
  | bound form text present =>
      rw [hfind] at hspec
      simp only [h.claims form (mem_presentForms.mp hspec.2).2]

/-- To be turned away is to be told whose the key is. -/
theorem Accounts.turnsAway_iff (h : Accounts c as c') :
    c.turnsAway (c.audience as).served v = true ↔ ∃ owner, owner ≠ v ∧
      (c'.take v).1 = .error (.error (.claimedArgument v.render owner.render
        s!"-C{v.qualifiedName}=<value>") none) := by
  rw [← h.refuses v, refuses_iff]

theorem mem_consumed_append {consumed : List String} {heard : List VariableId} {key : String}
    (h : key ∈ consumed ↔ ∃ w ∈ heard, key ∈ forms c.root w)
    (hkey : c.entries.contains key = true) :
    key ∈ consumed ++ c.presentForms v ↔ ∃ w ∈ heard ++ [v], key ∈ forms c.root w := by
  simp [h, mem_presentForms, hkey, or_and_right, exists_or]

theorem Accounts.mark (h : Accounts c as c') (w : Variable) :
    Accounts c (as ++ [.mark w.id]) (CommandLine.mark w c') := by
  rw [mark_eq, h.presentForms]
  refine ⟨h.root, h.entries, fun key hkey => ?_, fun key hkey => ?_⟩
  · rw [audience_append]
    exact h.claims key hkey
  · rw [audience_append]
    exact mem_consumed_append (h.consumed key hkey) hkey

theorem Accounts.take (h : Accounts c as c') (kind : Kind) (v : VariableId) :
    Accounts c (as ++ [.read kind v]) (c'.take v).2 := by
  have hrefuses := h.refuses v
  cases hturns : c.turnsAway (c.audience as).served v with
  | true =>
      have haudience : c.audience (as ++ [.read kind v]) = c.audience as := by
        rw [audience_append, hear, if_pos hturns]
      rw [take_of_refuses (hrefuses.trans hturns)]
      refine ⟨h.root, h.entries, ?_, ?_⟩
      · rw [haudience]
        exact h.claims
      · rw [haudience]
        exact h.consumed
  | false =>
      have haudience : c.audience (as ++ [.read kind v])
          = ⟨(c.audience as).served ++ [v], (c.audience as).heard ++ [v]⟩ := by
        rw [audience_append, hear, if_neg (ne_true_of_eq_false hturns)]
      obtain ⟨claims, heq, hclaims⟩ := take_of_not_refuses (hrefuses.trans hturns)
      rw [heq]
      refine ⟨h.root, h.entries, fun key hkey => ?_, fun key hkey => ?_⟩
      · rw [haudience, hclaims key (h.entries ▸ hkey), h.claims key hkey, h.root,
          List.find?_append]
        by_cases hmem : key ∈ forms c.root v
        · simp [hmem]
        · simp [hmem]
      · rw [haudience, h.presentForms]
        exact mem_consumed_append (h.consumed key hkey) hkey

theorem Accounts.of_called (hclaims : c.claims = []) (hconsumed : c.consumed = [])
    (h : Source.Called g c as c') : Accounts c as c' := by
  induction h with
  | nil => exact ⟨rfl, rfl, by simp [hclaims, audience], by simp [hconsumed, audience]⟩
  | read kind w _ ih => exact ih.take kind w.id
  | mark w _ ih => exact ih.mark w

/-! ## What is reported -/

theorem embeds_commandLine : Source.Embeds ConfigSource.commandLine :=
  ⟨fun _ _ => rfl, fun _ _ _ _ => rfl, fun _ _ => rfl, fun _ => rfl⟩

theorem Accounts.unused (h : Accounts c as c') :
    c'.unused = c.entries.filter fun (key, _) =>
      ∀ w ∈ (c.audience as).heard, key ∉ forms c.root w := by
  unfold CommandLine.unused
  rw [h.entries]
  refine List.filter_congr fun (key, text) hmem => ?_
  have hkey : c.entries.contains key = true :=
    Entries.isSome_get?_iff.mpr (List.mem_map_of_mem hmem)
  simp [h.consumed key hkey]

/-- The variables that are heard in a pass are those that are not turned away. -/
theorem turnedAway_iff {D : Declarations} {key : String}
    (hsubjects : as.filterMap Action.subject? = D.firsts.map Variable.id) :
    (∀ w ∈ (c.audience as).heard, key ∉ forms c.root w)
      ↔ ∀ v ∈ D.declared, key ∈ forms c.root v.id → c.TurnedAway (.start :: as) v.id := by
  have haudience : c.audience (.start :: as) = c.audience as := rfl
  constructor
  · intro h v hv hkey
    obtain ⟨w, hw, hid⟩ := Declarations.exists_first_iff.mpr ⟨v, hv, rfl⟩
    have hcalled : v.id ∈ as.filterMap Action.subject? := by
      rw [hsubjects, ← hid]
      exact List.mem_map_of_mem hw
    obtain ⟨action, haction, hsubject⟩ := List.mem_filterMap.mp hcalled
    refine ⟨⟨action, List.mem_cons_of_mem _ haction, hsubject⟩, fun hheard => ?_⟩
    exact h v.id (haudience ▸ hheard) hkey
  · intro h w hw hkey
    have hcalled : w ∈ D.firsts.map Variable.id := by
      rw [← hsubjects]
      exact (subject_of_heard hw).resolve_left List.not_mem_nil
    obtain ⟨v, hv, hid⟩ := List.mem_map.mp hcalled
    obtain ⟨v', hv', rfl⟩ := Declarations.exists_first_iff.mp ⟨v, hv, hid⟩
    exact (h v' hv' hkey).2 (haudience ▸ hw)

/-- **Unused arguments.** At the end of a pass a command line reports, each once and in the
order of the keys' first arguments, exactly those arguments for which every declared variable
that they name was turned away. It does not matter which other sources there are, nor which
of them has the values. -/
theorem lastReport_eq {σ : Type} [Source σ] {ι : CommandLine → σ} (hι : Source.Embeds ι)
    (files : FileTree) (g : TypeGraph) (D : Declarations) {sources : List σ} {i : Nat}
    {root : ModuleId} {arguments : List String}
    (hi : sources[i]? = some (ι (ofArguments root arguments))) :
    let c := (ofArguments root arguments).start
    let p := Pass.resolved files g D sources
    c.entries.keys.Nodup
      ∧ (Pass.run files g D sources).log = p.log ++ p.lastReports.flatten
      ∧ p.lastReports[i]? = some ((c.entries.filter fun (key, _) => ∀ v ∈ D.declared,
          key ∈ forms root v.id → c.TurnedAway (p.callsTo i) v.id).map fun (key, text) =>
            .warning (.unusedArgument s!"{key}={text}") none) := by
  intro c p
  refine ⟨Entries.nodup_keys_ofList _, Pass.log_run files g D sources, ?_⟩
  obtain ⟨as, s, h⟩ := Pass.attended_resolved (g := g) files D hi
  have hcalled : Source.Called g (ι c) as s := by
    have := h.called
    rwa [hι.start] at this
  obtain ⟨c', rfl, hcalled'⟩ := hcalled.of_embeds hι
  have haccounts : Accounts c as c' := .of_called rfl rfl hcalled'
  have hreport : p.lastReports[i]? = some (complete c').1 := by
    simp only [Pass.lastReports, List.getElem?_map, p, h.source, Option.map_some, hι.complete]
    rfl
  rw [hreport, complete, haccounts.unused, h.calls]
  simp only [turnedAway_iff h.subjects]
  rfl

/-- `m.x` belongs to `x` of the other version, so `x` of the root module is turned away, and
its argument `x=1` is the one that is reported. -/
theorem lastReport_of_shared_key :
    let root : ModuleId := ⟨"o", "m", "1"⟩
    let D : Declarations := [(⟨"o", "m", "2"⟩, [⟨"x", .primitive .int, true⟩]),
      (root, [⟨"x", .primitive .int, false⟩])]
    let sources := [ConfigSource.commandLine (ofArguments root ["-Cm.x=1", "-Cx=1"])]
    Source.Embeds ConfigSource.commandLine ∧
      sources[0]? = some (.commandLine (ofArguments root ["-Cm.x=1", "-Cx=1"])) ∧
      (Pass.resolved ⟨[]⟩ .empty D sources).lastReports[0]?
        = some [.warning (.unusedArgument "x=1") none] :=
  ⟨embeds_commandLine, rfl,
    (lastReport_eq embeds_commandLine ⟨[]⟩ .empty _ rfl).2.2.trans (by decide +kernel)⟩

/-- So there can be a report of an argument that names a declared variable. -/
theorem reported_although_declared :
    let root : ModuleId := ⟨"o", "m", "1"⟩
    let D : Declarations := [(⟨"o", "m", "2"⟩, [⟨"x", .primitive .int, true⟩]),
      (root, [⟨"x", .primitive .int, false⟩])]
    let sources := [ConfigSource.commandLine (ofArguments root ["-Cm.x=1", "-Cx=1"])]
    (∃ v ∈ D.declared, "x" ∈ forms root v.id) ∧
      Diagnostic.warning (.unusedArgument "x=1") none
        ∈ (Pass.run ⟨[]⟩ .empty D sources).log := by
  decide +kernel

end Configurable.CommandLine
