import Configurable.Proofs.Session
import Configurable.Proofs.UnusedArguments

/-!
# Arguments serve one variable

A command line that was started may be called in any way and started again: a key that
belongs to a variable belongs to it for good, and it is a form of the variable's name
(`Grows`, `Sound`). A lookup finds a text exactly if all forms that are given for the variable
carry it and the most qualified of them belongs to no other variable (`take_found_iff`); from
then on that form is the variable's own. So no text is found for two variables through the
same form, what was found once is found again, and a form that was claimed when the forms of
a variable clashed serves no other variable (`bindings_stable`).
-/

namespace Configurable.CommandLine

variable {files : FileTree} {g : TypeGraph} {c c' : CommandLine} {v w : VariableId}

/-! ## The form that decides -/

/-- The most qualified form of a variable that is given. -/
def decisive? (root : ModuleId) (entries : Entries String String) (v : VariableId) :
    Option String :=
  (forms root v).find? fun form => entries.contains form

/-- All that is given for a variable is one text, and its most qualified form is this one. -/
structure Agreed (root : ModuleId) (entries : Entries String String) (v : VariableId)
    (form text : String) : Prop where
  decisive : decisive? root entries v = some form
  given : entries.get? form = some text
  agree : ∀ other ∈ forms root v, ∀ t, entries.get? other = some t → t = text

theorem head?_presentForms (c : CommandLine) (v : VariableId) :
    (c.presentForms v).head? = decisive? c.root c.entries v := by
  simp [presentForms, decisive?, List.head?_filter]

theorem textOf_of_get? {form text : String} (h : c.entries.get? form = some text) :
    c.textOf form = text := by
  simp [textOf, h]

theorem agree_iff {text : String} : (∀ other ∈ c.presentForms v, c.textOf other = text) ↔
    ∀ other ∈ forms c.root v, ∀ t, c.entries.get? other = some t → t = text := by
  constructor
  · intro h other hother t ht
    have hpresent : other ∈ c.presentForms v :=
      mem_presentForms.mpr ⟨hother, by simp [Entries.contains, ht]⟩
    rw [← h other hpresent, textOf_of_get? ht]
  · intro h other hother
    obtain ⟨hform, hcontains⟩ := mem_presentForms.mp hother
    obtain ⟨t, ht⟩ := Option.isSome_iff_exists.mp hcontains
    rw [textOf_of_get? ht, h other hform t ht]

theorem find_eq_bound_iff {form text : String} :
    (∃ present, c.find v = .bound form text present) ↔ Agreed c.root c.entries v form text := by
  unfold find
  cases hpresent : c.presentForms v with
  | nil =>
      refine iff_of_false (fun ⟨_, h⟩ => by cases h) fun h => ?_
      have := h.decisive
      rw [← head?_presentForms, hpresent] at this
      cases this
  | cons form' others =>
      have hdecisive : decisive? c.root c.entries v = some form' := by
        rw [← head?_presentForms, hpresent]; rfl
      have hgiven : (c.entries.get? form').isSome = true :=
        (mem_presentForms.mp (hpresent ▸ List.mem_cons_self ..)).2
      obtain ⟨text', htext'⟩ := Option.isSome_iff_exists.mp hgiven
      have hagree : (others.all fun other => c.textOf other = c.textOf form') = true ↔
          ∀ other ∈ forms c.root v, ∀ t, c.entries.get? other = some t → t = text' := by
        rw [← agree_iff, hpresent, List.forall_mem_cons, textOf_of_get? htext']
        simp
      simp only
      split
      · next hall =>
        rw [textOf_of_get? htext']
        constructor
        · rintro ⟨present, h⟩
          obtain ⟨rfl, rfl, -⟩ := Finding.bound.inj h
          exact ⟨hdecisive, htext', hagree.mp hall⟩
        · rintro ⟨hform, htext, -⟩
          obtain rfl := Option.some.inj (hdecisive.symm.trans hform)
          obtain rfl := Option.some.inj (htext'.symm.trans htext)
          exact ⟨_, rfl⟩
      · next hall =>
        refine iff_of_false (fun ⟨_, h⟩ => by cases h) fun h => hall ?_
        obtain rfl := Option.some.inj (hdecisive.symm.trans h.decisive)
        obtain rfl := Option.some.inj (htext'.symm.trans h.given)
        exact hagree.mpr h.agree

/-! ## What one lookup finds and claims -/

/-- A text is found if the form that decides belongs to no other variable. -/
theorem take_found_iff {text : String} : (c.take v).1 = .ok (some text) ↔
    ∃ form, Agreed c.root c.entries v form text ∧
      ∀ owner, c.claims.get? form = some owner → owner = v := by
  simp only [← find_eq_bound_iff]
  unfold take
  cases hfind : c.find v with
  | absent => simp
  | ambiguous present => simp
  | bound form' text' present =>
      simp only
      cases howner : c.claims.get? form' with
      | none =>
          constructor
          · intro h
            obtain rfl := Option.some.inj (Except.ok.inj h)
            exact ⟨form', ⟨present, rfl⟩, by simp [howner]⟩
          · rintro ⟨form, ⟨_, h⟩, -⟩
            obtain ⟨-, rfl, -⟩ := Finding.bound.inj h
            rfl
      | some owner =>
          by_cases heq : owner = v
          · simp only [heq, if_true]
            constructor
            · intro h
              obtain rfl := Option.some.inj (Except.ok.inj h)
              exact ⟨form', ⟨present, rfl⟩, by simp [howner, heq]⟩
            · rintro ⟨form, ⟨_, h⟩, -⟩
              obtain ⟨-, rfl, -⟩ := Finding.bound.inj h
              rfl
          · simp only [heq, if_false]
            refine iff_of_false (by simp) ?_
            rintro ⟨form, ⟨_, h⟩, hown⟩
            obtain ⟨rfl, -, -⟩ := Finding.bound.inj h
            exact heq (hown owner howner)

/-- A lookup changes claims and what was used only. The keys that it claims are forms of the
variable; where it finds a text, the given forms are among them. -/
theorem take_claims (c : CommandLine) (v : VariableId) :
    ∃ (keys : List String) (claims : Entries String VariableId) (consumed : List String),
    (c.take v).2 = { c with claims := claims, consumed := consumed }
      ∧ (∀ key ∈ keys, key ∈ forms c.root v)
      ∧ (∀ key, claims.get? key = (c.claims.get? key).or (if key ∈ keys then some v else none))
      ∧ ∀ text, (c.take v).1 = .ok (some text) → ∀ key ∈ c.presentForms v, key ∈ keys := by
  have hspec := find_spec c v
  have hforms : ∀ key ∈ c.presentForms v, key ∈ forms c.root v :=
    fun key hkey => (mem_presentForms.mp hkey).1
  unfold take
  cases hfind : c.find v with
  | absent => exact ⟨[], c.claims, c.consumed, rfl, by simp, by simp, fun _ h => by cases h⟩
  | ambiguous present =>
      rw [hfind] at hspec
      subst hspec
      obtain ⟨claims, heq, hclaims⟩ := foldl_claim v (c.presentForms v) c
      simp only [heq]
      exact ⟨c.presentForms v, claims, _, rfl, hforms, hclaims, fun _ h => by cases h⟩
  | bound form text present =>
      rw [hfind] at hspec
      obtain ⟨rfl, -⟩ := hspec
      obtain ⟨claims, heq, hclaims⟩ := foldl_claim v (v.qualifiedName :: c.presentForms v) c
      have hkeys : ∀ key ∈ v.qualifiedName :: c.presentForms v, key ∈ forms c.root v :=
        List.forall_mem_cons.mpr ⟨qualifiedName_mem_forms c.root v, hforms⟩
      have hpresent : ∀ key ∈ c.presentForms v, key ∈ v.qualifiedName :: c.presentForms v :=
        fun key hkey => List.mem_cons_of_mem _ hkey
      simp only [heq]
      split
      · exact ⟨_, claims, _, rfl, hkeys, hclaims, fun _ _ => hpresent⟩
      · split
        · exact ⟨_, claims, _, rfl, hkeys, hclaims, fun _ _ => hpresent⟩
        · exact ⟨[], c.claims, c.consumed, rfl, by simp, by simp, fun _ h => by cases h⟩

/-- After a lookup a key belongs to whom it belonged, or it is a form of the variable. -/
theorem claimed_take {key : String} (h : (c.take v).2.claims.get? key = some w) :
    c.claims.get? key = some w ∨ w = v ∧ key ∈ forms c.root v := by
  obtain ⟨keys, claims, consumed, heq, hkeys, hclaims, -⟩ := take_claims c v
  rw [heq] at h
  have hclaimed : (c.claims.get? key).or (if key ∈ keys then some v else none) = some w :=
    (hclaims key).symm.trans h
  rcases Option.or_eq_some_iff.mp hclaimed with hold | ⟨-, hnew⟩
  · exact Or.inl hold
  · split at hnew
    · next hmem => exact Or.inr ⟨(Option.some.inj hnew).symm, hkeys key hmem⟩
    · cases hnew

/-! ## What calls keep -/

/-- The command line is the same, and what belonged to a variable still does. -/
structure Grows (c c' : CommandLine) : Prop where
  root : c'.root = c.root
  arguments : c'.arguments = c.arguments
  claims : ∀ key owner, c.claims.get? key = some owner → c'.claims.get? key = some owner

theorem Grows.refl (c : CommandLine) : Grows c c := ⟨rfl, rfl, fun _ _ h => h⟩

theorem Grows.trans {c'' : CommandLine} (h : Grows c c') (h' : Grows c' c'') : Grows c c'' :=
  ⟨h'.root.trans h.root, h'.arguments.trans h.arguments,
    fun key owner howner => h'.claims key owner (h.claims key owner howner)⟩

theorem grows_take (c : CommandLine) (v : VariableId) : Grows c (c.take v).2 := by
  obtain ⟨keys, claims, consumed, heq, -, hclaims, -⟩ := take_claims c v
  rw [heq]
  exact ⟨rfl, rfl, fun key owner h => by simp [hclaims, h]⟩

theorem grows_serve (files : FileTree) (g : TypeGraph) (c : CommandLine) (r : Request) :
    Grows c (Source.serve files g c r).2 := by
  cases r with
  | start => exact ⟨rfl, rfl, fun _ _ h => h⟩
  | read kind w => exact grows_take c w.id
  | mark w =>
      show Grows c (mark w c)
      rw [mark_eq]
      exact ⟨rfl, rfl, fun _ _ h => h⟩
  | complete => exact ⟨rfl, rfl, fun _ _ h => h⟩

theorem grows_after (files : FileTree) (g : TypeGraph) : ∀ (rs : List Request) (c : CommandLine),
    Grows c (Source.after files g c rs)
  | [], c => .refl c
  | r :: rs, c => (grows_serve files g c r).trans (grows_after files g rs _)

/-- The entries are those of the arguments, and a key that belongs to a variable is a form of
its name. -/
structure Sound (c : CommandLine) : Prop where
  entries : c.entries = parseArguments c.arguments
  owned : ∀ key owner, c.claims.get? key = some owner → key ∈ forms c.root owner

theorem sound_start (root : ModuleId) (arguments : List String) :
    Sound (ofArguments root arguments).start :=
  ⟨rfl, fun _ _ h => by cases h⟩

theorem Sound.take (h : Sound c) (v : VariableId) : Sound (c.take v).2 := by
  refine ⟨?_, fun key owner howner => ?_⟩
  · obtain ⟨keys, claims, consumed, heq, -⟩ := take_claims c v
    rw [heq]
    exact h.entries
  · rw [(grows_take c v).root]
    rcases claimed_take howner with hold | ⟨rfl, hform⟩
    · exact h.owned key owner hold
    · exact hform

theorem Sound.serve (h : Sound c) (files : FileTree) (g : TypeGraph) (r : Request) :
    Sound (Source.serve files g c r).2 := by
  cases r with
  | start => exact ⟨rfl, h.owned⟩
  | read kind w => exact h.take w.id
  | mark w =>
      show Sound (CommandLine.mark w c)
      rw [mark_eq]
      exact ⟨h.entries, h.owned⟩
  | complete => exact ⟨h.entries, h.owned⟩

theorem Sound.after (files : FileTree) (g : TypeGraph) : ∀ (rs : List Request) {c : CommandLine},
    Sound c → Sound (Source.after files g c rs)
  | [], _, h => h
  | r :: rs, _, h => Sound.after files g rs (h.serve files g r)

/-! ## Sessions -/

/-- The call at an index is a lookup of the variable. -/
def LooksUp (rs : List Request) (n : Nat) (v : VariableId) : Prop :=
  ∃ kind w, rs[n]? = some (.read kind w) ∧ w.id = v

/-- The state before the call at an index. -/
def before (files : FileTree) (g : TypeGraph) (c : CommandLine) (rs : List Request) (n : Nat) :
    CommandLine := Source.after files g c (rs.take n)

/-- The call at an index is a lookup of the variable, and finds the text. -/
def Finds (files : FileTree) (g : TypeGraph) (c : CommandLine) (rs : List Request) (n : Nat)
    (v : VariableId) (text : String) : Prop :=
  LooksUp rs n v ∧ ((before files g c rs n).take v).1 = .ok (some text)

/-- The call at an index is a lookup of the variable whose forms clash, and makes the key
belong to it. -/
structure ClaimsInClash (files : FileTree) (g : TypeGraph) (c : CommandLine)
    (rs : List Request) (n : Nat) (v : VariableId) (key : String) : Prop where
  lookup : LooksUp rs n v
  clash : ∃ present, (before files g c rs n).find v = .ambiguous present
  free : (before files g c rs n).claims.get? key = none
  claimed : (before files g c rs (n + 1)).claims.get? key = some v

variable {rs : List Request} {m n : Nat}

theorem grows_before (h : m ≤ n) : Grows (before files g c rs m) (before files g c rs n) := by
  have hsplit : rs.take n = rs.take m ++ (rs.take n).drop m := by
    have htake : (rs.take n).take m = rs.take m := by rw [List.take_take, Nat.min_eq_left h]
    rw [← htake, List.take_append_drop]
  unfold before
  rw [hsplit, Source.after_append]
  exact grows_after files g _ _

/-- No call changes what is given. -/
theorem Sound.before_given (hc : Sound c) (files : FileTree) (g : TypeGraph) (rs : List Request)
    (n : Nat) : (before files g c rs n).root = c.root
      ∧ (before files g c rs n).entries = parseArguments c.arguments := by
  have hgrows : Grows c (before files g c rs n) := grows_after files g _ c
  have hsound : Sound (before files g c rs n) := hc.after files g _
  exact ⟨hgrows.root, hsound.entries.trans (congrArg parseArguments hgrows.arguments)⟩

theorem Sound.owned_before (hc : Sound c) {key : String}
    (h : (before files g c rs n).claims.get? key = some v) : key ∈ forms c.root v := by
  rw [← (hc.before_given files g rs n).1]
  exact (hc.after files g _).owned key v h

theorem before_succ {r : Request} (h : rs[n]? = some r) : before files g c rs (n + 1) =
    (Source.serve files g (before files g c rs n) r).2 := by
  unfold before
  rw [List.take_add_one, h, Option.toList_some, Source.after_append]
  rfl

theorem before_succ_of_looksUp (h : LooksUp rs n v) :
    before files g c rs (n + 1) = ((before files g c rs n).take v).2 := by
  obtain ⟨kind, w, hn, rfl⟩ := h
  rw [before_succ hn]
  rfl

/-- A key belongs to a variable only from a lookup of that variable on. -/
theorem lookedUp_of_claimed (hc : c.claims = []) {key : String} : ∀ {n : Nat},
    (before files g c rs n).claims.get? key = some w → ∃ m < n, LooksUp rs m w
  | 0, h => by
      have hnone : c.claims.get? key = some w := h
      rw [hc] at hnone
      cases hnone
  | n + 1, h => by
      have hlater : (before files g c rs n).claims.get? key = some w →
          ∃ m < n + 1, LooksUp rs m w := by
        intro hbefore
        obtain ⟨m, hm, hlookup⟩ := lookedUp_of_claimed hc hbefore
        exact ⟨m, Nat.lt_succ_of_lt hm, hlookup⟩
      cases hr : rs[n]? with
      | none =>
          have hsame : before files g c rs (n + 1) = before files g c rs n := by
            unfold before
            rw [List.take_add_one, hr, Option.toList_none, List.append_nil]
          exact hlater (hsame ▸ h)
      | some r =>
          rw [before_succ hr] at h
          cases r with
          | start => exact hlater h
          | complete => exact hlater h
          | mark x =>
              have hmark : (mark x (before files g c rs n)).claims.get? key = some w := h
              rw [mark_eq] at hmark
              exact hlater hmark
          | read kind x =>
              have htake : ((before files g c rs n).take x.id).2.claims.get? key = some w := h
              rcases claimed_take htake with hold | ⟨rfl, -⟩
              · exact hlater hold
              · exact ⟨n, Nat.lt_succ_self n, kind, x, hr, rfl⟩

/-- What a lookup in a session finds depends on the arguments and on who has claimed the form
that decides. -/
theorem finds_iff (hc : Sound c) {text : String} : Finds files g c rs n v text ↔
    LooksUp rs n v ∧ ∃ form, Agreed c.root (parseArguments c.arguments) v form text ∧
      ∀ owner, (before files g c rs n).claims.get? form = some owner → owner = v := by
  obtain ⟨hroot, hentries⟩ := hc.before_given files g rs n
  unfold Finds
  rw [take_found_iff, hroot, hentries]

/-- From a lookup that finds a text on, the form that decides belongs to the variable. -/
theorem claimed_of_finds (hc : Sound c) {form text : String}
    (h : Finds files g c rs m v text)
    (hform : decisive? c.root (parseArguments c.arguments) v = some form) (hmn : m < n) :
    (before files g c rs n).claims.get? form = some v := by
  obtain ⟨hlookup, form', hagreed, hown⟩ := (finds_iff hc).mp h
  obtain rfl := Option.some.inj (hagreed.decisive.symm.trans hform)
  obtain ⟨hroot, hentries⟩ := hc.before_given files g rs m
  obtain ⟨keys, claims, consumed, heq, -, hclaims, hpresent⟩ :=
    take_claims (before files g c rs m) v
  have hmem : form' ∈ keys := by
    refine hpresent text h.2 form' (List.mem_of_mem_head? ?_)
    rw [head?_presentForms, hroot, hentries]
    exact hagreed.decisive
  have hnext : (before files g c rs (m + 1)).claims.get? form' = some v := by
    rw [before_succ_of_looksUp hlookup, heq]
    show claims.get? form' = some v
    rw [hclaims form', if_pos hmem]
    cases howner : (before files g c rs m).claims.get? form' with
    | none => rfl
    | some owner => rw [hown owner howner]; rfl
  exact (grows_before hmn).claims form' v hnext

/-- Two lookups that are decided by one form and find a text are of one variable. -/
theorem eq_of_finds (hc : Sound c) {form text text' : String}
    (hm : Finds files g c rs m v text) (hn : Finds files g c rs n w text')
    (hv : decisive? c.root (parseArguments c.arguments) v = some form)
    (hw : decisive? c.root (parseArguments c.arguments) w = some form) : v = w := by
  have hlater : ∀ {m n v w text text'}, m < n → Finds files g c rs m v text →
      Finds files g c rs n w text' →
      decisive? c.root (parseArguments c.arguments) v = some form →
      decisive? c.root (parseArguments c.arguments) w = some form → v = w := by
    intro m n v w text text' hmn hm hn hv hw
    obtain ⟨-, form', hagreed, hown⟩ := (finds_iff hc).mp hn
    obtain rfl := Option.some.inj (hagreed.decisive.symm.trans hw)
    exact hown v (claimed_of_finds hc hm hv hmn)
  rcases Nat.lt_trichotomy m n with hmn | rfl | hmn
  · exact hlater hmn hm hn hv hw
  · obtain ⟨kind, u, hu, rfl⟩ := hm.1
    obtain ⟨kind', u', hu', rfl⟩ := hn.1
    obtain ⟨-, rfl⟩ := Request.read.inj (Option.some.inj (hu.symm.trans hu'))
    rfl
  · exact (hlater hmn hn hm hw hv).symm

/-- **Arguments serve one variable.** In any session with a command line that was started:
a key that belongs to a variable keeps belonging to it and is a form of its name; a text that
a lookup finds is that of the most qualified form given, all given forms carry it, and no
other variable ever has a text through that form; a lookup that has found a text finds it
ever after; and a key that a variable claimed when its forms clashed decides no later lookup
of another variable that finds a text. -/
theorem bindings_stable (files : FileTree) (g : TypeGraph) (root : ModuleId)
    (arguments : List String) (rs : List Request) :
    let c : CommandLine := (Source.start files (ofArguments root arguments)).2
    let entries := parseArguments arguments
    (∀ m n key owner, m ≤ n → (before files g c rs m).claims.get? key = some owner →
        key ∈ forms root owner ∧ (before files g c rs n).claims.get? key = some owner)
      ∧ (∀ n v text, Finds files g c rs n v text → ∃ form, Agreed root entries v form text
        ∧ ∀ m w text', Finds files g c rs m w text' →
          decisive? root entries w = some form → w = v)
      ∧ (∀ m n v text, m ≤ n → Finds files g c rs m v text → LooksUp rs n v →
        Finds files g c rs n v text)
      ∧ ∀ m n v w key text, m < n → ClaimsInClash files g c rs m v key →
        Finds files g c rs n w text → decisive? root entries w = some key → w = v := by
  intro c entries
  have hc : Sound c := sound_start root arguments
  refine ⟨fun m n key owner hmn howner => ?_, fun n v text h => ?_,
    fun m n v text hmn h hlookup => ?_, fun m n v w key text hmn hclash h hdecisive => ?_⟩
  · exact ⟨hc.owned_before howner, (grows_before hmn).claims key owner howner⟩
  · obtain ⟨-, form, hagreed, -⟩ := (finds_iff hc).mp h
    exact ⟨form, hagreed, fun m w text' hw hform =>
      eq_of_finds hc hw h hform hagreed.decisive⟩
  · rcases Nat.eq_or_lt_of_le hmn with rfl | hlt
    · exact h
    · obtain ⟨-, form, hagreed, -⟩ := (finds_iff hc).mp h
      refine (finds_iff hc).mpr ⟨hlookup, form, hagreed, fun owner howner => ?_⟩
      have hclaimed := claimed_of_finds hc h hagreed.decisive hlt
      exact Option.some.inj (howner.symm.trans hclaimed)
  · obtain ⟨-, form, hagreed, hown⟩ := (finds_iff hc).mp h
    obtain rfl := Option.some.inj (hagreed.decisive.symm.trans hdecisive)
    exact (hown v ((grows_before hmn).claims form v hclash.claimed)).symm

/-- The forms of `x` of `m` clash, so `o.m.x` belongs to it and gives `x` of `o.m` nothing. -/
theorem clash_serves_no_other :
    let root : ModuleId := ⟨"o", "m", "1"⟩
    let x : Variable := ⟨⟨root, "x"⟩, .primitive .string, true⟩
    let other : Variable := ⟨⟨⟨"o", "o.m", "1"⟩, "x"⟩, .primitive .string, true⟩
    let arguments := ["-Co.m.x=1", "-Cm.x=2"]
    let rs : List Request := [.read (.primitive .string) x, .read (.primitive .string) other]
    ClaimsInClash ⟨[]⟩ .empty (ofArguments root arguments).start rs 0 x.id "o.m.x"
      ∧ decisive? root (parseArguments arguments) other.id = some "o.m.x"
      ∧ ∀ text, ¬ Finds ⟨[]⟩ .empty (ofArguments root arguments).start rs 1 other.id text := by
  intro root x other arguments rs
  have hclash : ClaimsInClash ⟨[]⟩ .empty (ofArguments root arguments).start rs 0 x.id "o.m.x" :=
    ⟨⟨_, x, rfl, rfl⟩, ⟨["o.m.x", "m.x"], by decide +kernel⟩, rfl, by decide +kernel⟩
  have hdecisive : decisive? root (parseArguments arguments) other.id = some "o.m.x" := by
    decide +kernel
  refine ⟨hclash, hdecisive, fun text hfinds => ?_⟩
  obtain ⟨-, -, -, hlate⟩ := bindings_stable ⟨[]⟩ .empty root arguments rs
  have hsame := hlate 0 1 x.id other.id "o.m.x" text Nat.zero_lt_one hclash hfinds hdecisive
  exact absurd hsame (by decide)

end Configurable.CommandLine
