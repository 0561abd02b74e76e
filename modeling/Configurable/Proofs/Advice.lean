import Configurable.Proofs.Bindings

/-!
# What comes of following a refusal's advice

A lookup that is refused, because the form that decides it belongs to another variable, is
answered with the advice to give the variable under its qualified name. Here the same session
is held again with that argument after the others. The new argument decides the lookup, but
it takes nothing back: the other forms that were given still have to carry the same text, and
the qualified name may itself be the other variable's. The lookup finds the text exactly if
neither is in the way (`finds_advised_iff`), and if it does not, the answer says which of the
two is (`answer_of_advice`).
-/

namespace Configurable.CommandLine

variable {files : FileTree} {g : TypeGraph} {c : CommandLine} {root : ModuleId}
  {arguments : List String} {v w : VariableId} {form text : String}

/-! ## The argument -/

/-- The argument that gives a variable a text under its qualified name. -/
def advice (v : VariableId) (text : String) : String := s!"-C{v.qualifiedName}={text}"

/-- An argument can have the key: the text behind `-C` is split at its first equals sign, and
the blanks around the key are not part of it. -/
structure Writable (key : String) : Prop where
  undivided : '=' ∉ key.toList
  normal : normalizeKey key.toList = key.toList

instance (key : String) : Decidable (Writable key) :=
  decidable_of_iff ('=' ∉ key.toList ∧ normalizeKey key.toList = key.toList)
    ⟨fun h => ⟨h.1, h.2⟩, fun h => ⟨h.1, h.2⟩⟩

theorem toList_advice (v : VariableId) (text : String) :
    (advice v text).toList = '-' :: 'C' :: (v.qualifiedName.toList ++ '=' :: text.toList) := by
  simp [advice, toString]

theorem parseArgument?_advice (h : Writable v.qualifiedName) (text : String) :
    parseArgument? (advice v text) = some (v.qualifiedName, text) := by
  have hkey : ∀ a ∈ v.qualifiedName.toList, decide (a ≠ '=') = true := by
    intro a ha
    simpa using fun heq : a = '=' => h.undivided (heq ▸ ha)
  unfold parseArgument?
  rw [toList_advice]
  simp only
  rw [List.dropWhile_append_of_pos hkey, List.takeWhile_append_of_pos hkey]
  simp [h.normal]

/-- The argument gives its key the text, and leaves all other keys alone. -/
theorem get?_advised (h : Writable v.qualifiedName) (arguments : List String)
    (text key : String) :
    (parseArguments (arguments ++ [advice v text])).get? key =
      if v.qualifiedName = key then some text else (parseArguments arguments).get? key := by
  have hinsert : parseArguments (arguments ++ [advice v text]) =
      (parseArguments arguments).insert v.qualifiedName text := by
    simp [parseArguments, Entries.ofList, List.filterMap_append, parseArgument?_advice h]
  rw [hinsert, Entries.get?_insert]

/-! ## What the arguments say then -/

/-- Whatever else is given for the variable is the same text. -/
def OthersCarry (root : ModuleId) (entries : Entries String String) (v : VariableId)
    (text : String) : Prop :=
  ∀ other ∈ forms root v, other ≠ v.qualifiedName →
    ∀ t, entries.get? other = some t → t = text

theorem decisive?_of_qualified {entries : Entries String String}
    (h : (entries.get? v.qualifiedName).isSome = true) :
    decisive? root entries v = some v.qualifiedName := by
  have hcontains : entries.contains v.qualifiedName = true := h
  unfold decisive? forms
  simp only
  split
  · split
    · rw [List.find?_cons_of_pos hcontains]
    · rw [List.find?_cons_of_pos hcontains]
  · rw [List.find?_cons_of_pos hcontains]

theorem decisive?_advised (h : Writable v.qualifiedName) :
    decisive? root (parseArguments (arguments ++ [advice v text])) v = some v.qualifiedName :=
  decisive?_of_qualified (by simp [get?_advised h])

theorem agreed_advised_iff (h : Writable v.qualifiedName) {t : String} :
    Agreed root (parseArguments (arguments ++ [advice v text])) v form t ↔
      form = v.qualifiedName ∧ t = text ∧
        OthersCarry root (parseArguments arguments) v text := by
  constructor
  · rintro ⟨hdecisive, hgiven, hagree⟩
    obtain rfl := Option.some.inj ((decisive?_advised h).symm.trans hdecisive)
    rw [get?_advised h, if_pos rfl] at hgiven
    obtain rfl := Option.some.inj hgiven
    refine ⟨rfl, rfl, fun other hother hne t ht => hagree other hother t ?_⟩
    rw [get?_advised h, if_neg (Ne.symm hne), ht]
  · rintro ⟨rfl, rfl, hothers⟩
    refine ⟨decisive?_advised h, by simp [get?_advised h], fun other hother t' ht' => ?_⟩
    rw [get?_advised h] at ht'
    split at ht'
    · exact (Option.some.inj ht').symm
    · next hne => exact hothers other hother (Ne.symm hne) t' ht'

/-! ## The three answers of a lookup -/

/-- Where all that is given agrees, the owner of the form that decides tells what is found. -/
theorem take_of_agreed (h : Agreed c.root c.entries v form text) : (c.take v).1 =
    match c.claims.get? form with
    | none => .ok (some text)
    | some owner => if owner = v then .ok (some text) else
      .error (.error (.claimedArgument v.render owner.render (advice v "<value>")) none) := by
  obtain ⟨present, hfind⟩ := find_eq_bound_iff.mpr h
  have hadvice : s!"-C{v.qualifiedName}=<value>" = advice v "<value>" :=
    String.ext (by simp [advice, toString])
  unfold take
  rw [hfind]
  simp only
  cases c.claims.get? form with
  | none => rfl
  | some owner =>
      simp only
      split
      · rfl
      · rw [hadvice]

/-- Where something is given but it does not agree, the lookup says so. -/
theorem take_of_clash (hgiven : decisive? c.root c.entries v = some form)
    (h : ∀ text, ¬ Agreed c.root c.entries v form text) :
    ∃ listed, (c.take v).1 = .error (.error (.clashingArguments v.name listed) none) := by
  unfold take
  cases hfind : c.find v with
  | absent =>
      have hspec := find_spec c v
      rw [hfind] at hspec
      rw [← head?_presentForms, show c.presentForms v = [] from hspec] at hgiven
      cases hgiven
  | bound form' text present =>
      have hagreed := find_eq_bound_iff.mp ⟨present, hfind⟩
      obtain rfl := Option.some.inj (hagreed.decisive.symm.trans hgiven)
      exact absurd hagreed (h text)
  | ambiguous present => exact ⟨_, rfl⟩

/-- The advice of a refusal is for the variable that was looked up. -/
theorem suggestion_of_refused {this existing suggestion : String} {location : Option Location}
    (h : (c.take v).1 = .error (.error (.claimedArgument this existing suggestion) location)) :
    suggestion = advice v "<value>" := by
  cases hfind : c.find v with
  | absent => simp [take, hfind] at h
  | ambiguous present => simp [take, hfind, Diagnostic.error] at h
  | bound form text present =>
      rw [take_of_agreed (find_eq_bound_iff.mp ⟨present, hfind⟩)] at h
      cases howner : c.claims.get? form with
      | none => simp [howner] at h
      | some owner =>
          by_cases heq : owner = v
          · simp [howner, heq] at h
          · simp only [howner, heq, if_false, Except.error.injEq, Diagnostic.error,
              Diagnostic.mk.injEq, Problem.claimedArgument.injEq] at h
            exact h.2.1.2.2.symm

/-- No text is refused because of who owns a form. -/
theorem ofText_ne_refusal (x : Variable) (kind : Kind) {this existing suggestion : String}
    {location : Option Location} : Conversion.ofText g x kind text ≠
      .error (.error (.claimedArgument this existing suggestion) location) := by
  unfold Conversion.ofText
  simp only
  repeat' split
  all_goals simp [Diagnostic.error, Conversion.textMismatch]

theorem read_of_take_error {x : Variable} {kind : Kind} {d : Diagnostic}
    (h : (c.take x.id).1 = .error d) : (read g kind x c).1 = .error d := by
  simp only [read, h]
  rfl

theorem read_of_take_some {x : Variable} {kind : Kind} (h : (c.take x.id).1 = .ok (some text)) :
    (read g kind x c).1 = (Conversion.ofText g x kind text).map some := by
  simp only [read, h]
  rfl

theorem take_of_read_refused {x : Variable} {kind : Kind} {this existing suggestion : String}
    {location : Option Location} (h : (read g kind x c).1 =
      .error (.error (.claimedArgument this existing suggestion) location)) :
    (c.take x.id).1 = .error (.error (.claimedArgument this existing suggestion) location) := by
  cases htake : (c.take x.id).1 with
  | error d =>
      rw [read_of_take_error htake] at h
      exact congrArg Except.error (Except.error.inj h)
  | ok found =>
      cases found with
      | none =>
          simp only [read, htake] at h
          cases h
      | some t =>
          rw [read_of_take_some htake] at h
          cases htext : Conversion.ofText g x kind t with
          | ok value => simp [htext, Except.map] at h
          | error d =>
              simp only [htext, Except.map, Except.error.injEq] at h
              exact absurd (h ▸ htext) (ofText_ne_refusal x kind)

/-! ## Sessions -/

/-- The call at an index reads the variable as a value of the kind, and this is its answer. -/
def Answers (files : FileTree) (g : TypeGraph) (c : CommandLine) (rs : List Request) (n : Nat)
    (kind : Kind) (x : Variable) (answer : Answer) : Prop :=
  rs[n]? = some (.read kind x) ∧ (Source.replies files g c rs)[n]? = some (.answered answer)

variable {rs : List Request} {n : Nat} {kind : Kind} {x : Variable}

theorem answers_iff {answer : Answer} : Answers files g c rs n kind x answer ↔
    rs[n]? = some (.read kind x) ∧ answer = (read g kind x (before files g c rs n)).1 := by
  refine and_congr_right fun hread => ?_
  rw [Source.getElem?_replies, hread, Option.map_some]
  constructor
  · intro h
    exact (Reply.answered.inj (Option.some.inj h)).symm
  · rintro rfl
    rfl

/-- The lookup finds the text exactly if no other form that was given says otherwise and the
qualified name belongs to no other variable. -/
theorem finds_advised_iff (hwritable : Writable v.qualifiedName) (hlookup : LooksUp rs n v) :
    Finds files g (ofArguments root (arguments ++ [advice v text])).start rs n v text ↔
      OthersCarry root (parseArguments arguments) v text ∧
      ∀ owner, (before files g (ofArguments root (arguments ++ [advice v text])).start
        rs n).claims.get? v.qualifiedName = some owner → owner = v := by
  rw [finds_iff (sound_start root _), and_iff_right hlookup]
  constructor
  · rintro ⟨form, hagreed, hown⟩
    obtain ⟨rfl, -, hothers⟩ := (agreed_advised_iff hwritable).mp hagreed
    exact ⟨hothers, hown⟩
  · rintro ⟨hothers, hown⟩
    exact ⟨v.qualifiedName, (agreed_advised_iff hwritable).mpr ⟨rfl, rfl, hothers⟩, hown⟩

/-- **What comes of following a refusal's advice.** A lookup that was refused has the advice
to give the variable under its qualified name. If an argument can have that name, then in the
same session with the argument after the others the lookup finds the text exactly if the other
forms that were given carry it as well and the qualified name belongs to no other variable by
then, and it then answers with what the text converts to. If another form says otherwise, the
answer is that the arguments clash. If the name belongs to another variable, the lookup is
refused again with the same advice, and that variable was looked up before and has the name
among its own. -/
theorem answer_of_advice {this existing suggestion : String} {location : Option Location}
    (hrefused : Answers files g (ofArguments root arguments).start rs n kind x
      (.error (.error (.claimedArgument this existing suggestion) location))) :
    suggestion = advice x.id "<value>" ∧ (Writable x.id.qualifiedName → ∀ text : String,
      let c := (ofArguments root (arguments ++ [advice x.id text])).start
      let owner? := (before files g c rs n).claims.get? x.id.qualifiedName
      let othersCarry := OthersCarry root (parseArguments arguments) x.id text
      (Finds files g c rs n x.id text ↔
          othersCarry ∧ ∀ owner, owner? = some owner → owner = x.id)
        ∧ (Finds files g c rs n x.id text →
          Answers files g c rs n kind x ((Conversion.ofText g x kind text).map some))
        ∧ (¬ othersCarry → ∃ listed, Answers files g c rs n kind x
          (.error (.error (.clashingArguments x.name listed) none)))
        ∧ ∀ owner, othersCarry → owner? = some owner → owner ≠ x.id →
          Answers files g c rs n kind x
            (.error (.error (.claimedArgument x.id.render owner.render suggestion) none))
            ∧ x.id.qualifiedName ∈ forms root owner ∧ ∃ m < n, LooksUp rs m owner) := by
  obtain ⟨hread, hanswer⟩ := answers_iff.mp hrefused
  have hsuggestion := suggestion_of_refused (take_of_read_refused hanswer.symm)
  refine ⟨hsuggestion, fun hwritable text => ?_⟩
  intro c owner? othersCarry
  have hlookup : LooksUp rs n x.id := ⟨kind, x, hread, rfl⟩
  have hsound : Sound c := sound_start root _
  obtain ⟨hroot, hentries⟩ : (before files g c rs n).root = root ∧ (before files g c rs n).entries =
      parseArguments (arguments ++ [advice x.id text]) := hsound.before_given files g rs n
  have hgiven : decisive? (before files g c rs n).root (before files g c rs n).entries x.id =
      some x.id.qualifiedName := by
    rw [hroot, hentries]
    exact decisive?_advised hwritable
  have hagreed : ∀ t, Agreed (before files g c rs n).root (before files g c rs n).entries
      x.id x.id.qualifiedName t ↔ t = text ∧ othersCarry := by
    intro t
    rw [hroot, hentries, agreed_advised_iff hwritable, and_iff_right rfl]
  have hanswers : ∀ {answer}, (read g kind x (before files g c rs n)).1 = answer →
      Answers files g c rs n kind x answer :=
    fun hanswer => answers_iff.mpr ⟨hread, hanswer.symm⟩
  refine ⟨finds_advised_iff hwritable hlookup,
    fun hfinds => hanswers (read_of_take_some hfinds.2), fun hothers => ?_,
    fun owner hothers howner hne => ⟨?_, ?_, ?_⟩⟩
  · obtain ⟨listed, htake⟩ :=
      take_of_clash hgiven fun t ht => hothers ((hagreed t).mp ht).2
    exact ⟨listed, hanswers (read_of_take_error htake)⟩
  · have htake := take_of_agreed ((hagreed text).mpr ⟨rfl, hothers⟩)
    rw [show (before files g c rs n).claims.get? x.id.qualifiedName = some owner from howner]
      at htake
    simp only [hne, if_false] at htake
    rw [hsuggestion]
    exact hanswers (read_of_take_error htake)
  · exact hsound.owned_before howner
  · exact lookedUp_of_claimed rfl howner

/-- `o.mod.v` belongs to `v` of `mod`, so `v` of `o.mod` is refused. With the same text under
its qualified name it is found. -/
theorem found_by_repeating :
    let root : ModuleId := ⟨"o", "main", "1"⟩
    let owner : Variable := ⟨⟨⟨"o", "mod", "1"⟩, "v"⟩, .primitive .string, true⟩
    let x : Variable := ⟨⟨⟨"o", "o.mod", "1"⟩, "v"⟩, .primitive .string, true⟩
    let rs : List Request := [.read (.primitive .string) owner, .read (.primitive .string) x]
    Writable x.id.qualifiedName
      ∧ Answers ⟨[]⟩ .empty (ofArguments root ["-Co.mod.v=5"]).start rs 1 (.primitive .string) x
        (.error (.error (.claimedArgument "o/o.mod:v" "o/mod:v" "-Co.o.mod.v=<value>") none))
      ∧ Answers ⟨[]⟩ .empty (ofArguments root ["-Co.mod.v=5", "-Co.o.mod.v=5"]).start rs 1
        (.primitive .string) x (.ok (some (.string "5"))) := by
  intro root owner x rs
  have hwritable : Writable x.id.qualifiedName := by decide
  have hrefused : Answers ⟨[]⟩ .empty (ofArguments root ["-Co.mod.v=5"]).start rs 1
      (.primitive .string) x (.error (.error
        (.claimedArgument "o/o.mod:v" "o/mod:v" "-Co.o.mod.v=<value>") none)) := ⟨rfl, by rfl⟩
  obtain ⟨hiff, hfound, -⟩ := (answer_of_advice hrefused).2 hwritable "5"
  have hothers : OthersCarry root (parseArguments ["-Co.mod.v=5"]) x.id "5" := by
    intro other hother hne t ht
    have hforms : forms root x.id = [x.id.qualifiedName, "o.mod.v"] := by decide
    rw [hforms, List.mem_cons, List.mem_singleton] at hother
    obtain rfl := hother.resolve_left hne
    exact Option.some.inj (ht.symm.trans (by rfl))
  refine ⟨hwritable, hrefused, hfound (hiff.mpr ⟨hothers, fun w hw => ?_⟩)⟩
  have hfree : (before ⟨[]⟩ .empty (ofArguments root (["-Co.mod.v=5"] ++
      [advice x.id "5"])).start rs 1).claims.get? x.id.qualifiedName = none := by
    decide +kernel
  rw [hfree] at hw
  cases hw

/-- Advice that is of no use: another form keeps saying otherwise; the qualified name is that
of the other version's variable as well; or the key ends at an equals sign in it. -/
theorem advice_in_vain :
    let look (v : VariableId) : Request := .read (.primitive .string) ⟨v, .primitive .string, true⟩
    let answers (root : ModuleId) (arguments : List String) (v w : VariableId)
        (problem : Problem) : Prop :=
      (Source.replies ⟨[]⟩ .empty (ofArguments root arguments).start [look v, look w])[1]?
        = some (.answered (.error (.error problem none)))
    (let root : ModuleId := ⟨"o", "main", "1"⟩
      let v : VariableId := ⟨⟨"o", "mod", "1"⟩, "v"⟩
      let w : VariableId := ⟨⟨"o", "o.mod", "1"⟩, "v"⟩
      answers root ["-Co.mod.v=5"] v w
          (.claimedArgument "o/o.mod:v" "o/mod:v" "-Co.o.mod.v=<value>")
        ∧ ∃ listed, answers root ["-Co.mod.v=5", "-Co.o.mod.v=6"] v w
          (.clashingArguments "v" listed))
      ∧ (let root : ModuleId := ⟨"o", "m", "1"⟩
        let v : VariableId := ⟨⟨"o", "m", "2"⟩, "x"⟩
        let w : VariableId := ⟨root, "x"⟩
        answers root ["-Co.m.x=5"] v w (.claimedArgument "o/m:x" "o/m:x" "-Co.m.x=<value>")
          ∧ answers root ["-Co.m.x=5", "-Co.m.x=6"] v w
            (.claimedArgument "o/m:x" "o/m:x" "-Co.m.x=<value>"))
      ∧ (let root : ModuleId := ⟨"a=b", "m", "1"⟩
        let v : VariableId := ⟨⟨"a=b", "m", "2"⟩, "x"⟩
        let w : VariableId := ⟨root, "x"⟩
        answers root ["-Cm.x=5"] v w (.claimedArgument "a=b/m:x" "a=b/m:x" "-Ca=b.m.x=<value>")
          ∧ answers root ["-Cm.x=5", "-Ca=b.m.x=5"] v w
            (.claimedArgument "a=b/m:x" "a=b/m:x" "-Ca=b.m.x=<value>")) :=
  ⟨⟨by rfl, _, by rfl⟩, ⟨by rfl, by rfl⟩, by rfl, by rfl⟩

end Configurable.CommandLine
