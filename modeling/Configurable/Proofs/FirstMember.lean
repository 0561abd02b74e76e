import Configurable.Proofs.Recursion
import Configurable.Proofs.Soundness

/-!
# The first member that takes what was found

A source looks for a variable by its name and its module, and what it finds is read against the
type of the variable. So a variable that is declared with a member of its union finds the same,
and leaves the same behind (`lookup_state_eq`); only the reading is another one.

Three ways of reading come together here: a text as a primitive has errors of its own for each
primitive, as one of the members of a union it has none, and a node goes through the
alternatives of the union. For a union of primitives they come to the same (`Found.read_union`):
what is read is what the first member gives that gives a value.
-/

namespace Configurable

open Toml (Document Entry)

/-- What a source has for a variable: a text, or an entry of its document. -/
inductive Found where
  | text (text : String)
  | entry (d : Document) (e : Entry)

/-- The variable, declared with another type. -/
def Variable.as (x : Variable) (t : TypeRef) : Variable := { x with type := t }

namespace Found

/-- What was found as a value of a kind. -/
def read (g : TypeGraph) (kind : Kind) (x : Variable) : Found → Except Diagnostic Value
  | .text s => Conversion.ofText g x kind s
  | .entry d e =>
    Conversion.Reading.readAs ⟨g, d, x.name⟩ kind ⟨e.node, e.span⟩ x.type (.variable x.name)

/-- What messages say was found. -/
def shown : Found → String
  | .text s => s
  | .entry _ e => e.node.shape

/-- Where messages say that it was found: the entry, or its node if it has no place. -/
def location? : Found → Option Location
  | .text _ => none
  | .entry d e => (e.span.or e.node.span?).map fun span => ⟨d.source, span⟩

/-- What was found is no value of the type of the variable. -/
def mismatch (g : TypeGraph) (x : Variable) (found : Found) : Diagnostic :=
  .error (.typeMismatch x.name (g.render x.type) found.shown) found.location?

/-- The value that the variable would have as a value of a primitive type. -/
def taken? (g : TypeGraph) (x : Variable) (found : Found) (t : TypeRef) : Option Value :=
  (g.primitive? t).bind fun p => (found.read g (.primitive p) (x.as t)).toOption

end Found

namespace ConfigSource

/-- What there is for a variable. Where it cannot be told, or where its module has a place that
is no table, that is an error. -/
def find (x : VariableId) : ConfigSource → Except Diagnostic (Option Found)
  | .commandLine c => (c.take x).1.map (Option.map .text)
  | .document f =>
    match f.document with
    | none => .ok none
    | some d => (f.locate d x).1.map (Option.map (.entry d))

end ConfigSource

variable {g : TypeGraph} {x : Variable} {kind : Kind} {members : List TypeRef} {found : Found}
  {m t : TypeRef} {p : Primitive} {v : Value}

/-! ## Finding and reading -/

theorem kind_of_primitive? (h : g.primitive? t = some p) :
    Kind.ofType? g t = some (.primitive p) := by
  rw [Kind.ofType?, primitive_of_primitive? h]
  rfl

namespace ConfigSource

/-- An answer is what is found, read. -/
theorem lookup_answer (hk : Kind.ofType? g x.type = some kind) (s : ConfigSource) :
    (Source.lookup g x s).1 = (s.find x.id).bind fun
      | none => .ok none
      | some found => (found.read g kind x).map some := by
  rw [Source.lookup_of_kind hk]
  cases s with
  | commandLine c =>
      show (c.read g kind x).1 = _
      rcases htake : c.take x.id with ⟨result, c'⟩
      simp only [CommandLine.read, find, htake]
      cases result with
      | error d => rfl
      | ok found => cases found <;> rfl
  | document f =>
      show (f.read g kind x).1 = _
      cases hd : f.document with
      | none => simp [DocumentFile.read, find, hd, Except.bind]
      | some d =>
          rw [DocumentFile.read_answer hd]
          simp only [find, hd]
          cases (f.locate d x.id).1 with
          | error d => rfl
          | ok found => cases found <;> rfl

/-- What a lookup leaves behind does not depend on the type, if there are values of it. -/
theorem lookup_state_eq {y : Variable} {kind' : Kind} (hk : Kind.ofType? g x.type = some kind)
    (hk' : Kind.ofType? g y.type = some kind') (hid : x.id = y.id) (s : ConfigSource) :
    (Source.lookup g x s).2 = (Source.lookup g y s).2 := by
  cases s with
  | commandLine c =>
      rw [Source.lookup_of_kind hk, Source.lookup_of_kind hk']
      show ConfigSource.commandLine (c.take x.id).2 = .commandLine (c.take y.id).2
      rw [hid]
  | document f =>
      rw [Source.lookup_of_kind hk, Source.lookup_of_kind hk']
      show ConfigSource.document (f.read g kind x).2 = .document (f.read g kind' y).2
      rw [DocumentFile.read_state, DocumentFile.read_state]
      unfold DocumentFile.mark
      rw [hid]

theorem lookup_eq_some_iff (hk : Kind.ofType? g x.type = some kind) {s : ConfigSource} :
    (Source.lookup g x s).1 = .ok (some v) ↔
      ∃ found, s.find x.id = .ok (some found) ∧ found.read g kind x = .ok v := by
  rw [lookup_answer hk, bind_eq_ok_iff]
  constructor
  · rintro ⟨found, hfound, hread⟩
    cases found with
    | none => cases hread
    | some found =>
        obtain ⟨w, hw, hv⟩ := map_eq_ok_iff.mp hread
        obtain rfl := Option.some.inj hv
        exact ⟨found, hfound, hw⟩
  · rintro ⟨found, hfound, hread⟩
    exact ⟨some found, hfound, map_eq_ok_iff.mpr ⟨v, hread, rfl⟩⟩

theorem lookup_eq_error (hk : Kind.ofType? g x.type = some kind) {s : ConfigSource}
    {d : Diagnostic} (hfound : s.find x.id = .ok (some found))
    (hread : found.read g kind x = .error d) :
    (Source.lookup g x s).1 = .error d := by
  rw [lookup_answer hk, hfound]
  dsimp only [Except.bind]
  rw [hread]
  rfl

end ConfigSource

/-! ## Reading as a union and as its members -/

/-- A text is read as a primitive by its notation; what else there is are errors. -/
theorem Conversion.toOption_ofText_primitive (p : Primitive) (text : String) :
    (ofText g x (.primitive p) text).toOption = ofText? p text := by
  by_cases hp : p = .byte
  · subst hp
    simp only [ofText, ofText?]
    cases int64? text with
    | none => rfl
    | some n =>
        dsimp only [Option.bind_some]
        cases byte? n <;> rfl
  · rw [ofText_primitive hp]
    cases ofText? p text <;> rfl

theorem Found.refuses (hk : Kind.ofType? g x.type = some kind) {d : Diagnostic}
    (h : found.read g kind x = .error d) : d.RefusesValue := by
  have hjudged : Reads (fun _ => True) (found.read g kind x) := by
    cases found with
    | text text =>
        exact (Conversion.ofText_conforms hk text).imp (fun _ hd => hd) fun _ _ => trivial
    | entry d e =>
        exact (Conversion.Reading.readAs_reads ..).imp (fun _ hd => hd) fun _ _ => trivial
  rw [h] at hjudged
  exact hjudged

/-- What is found is read as the first member reads it that can, and else it is a mismatch
with the whole union. -/
theorem Found.read_union (hdef : g.effectiveDef x.type = .union members)
    (hconf : g.isConfigurable x.type = true) (found : Found) :
    found.read g .union x = (members.findSome? (found.taken? g x)).elim
      (.error (found.mismatch g x)) .ok := by
  have hadmitted : g.Admitted x.type := ⟨false, hconf⟩
  cases found with
  | text text =>
      have hmembers : Conversion.memberOfText? g x text
          = members.findSome? (Found.taken? g x (.text text)) := by
        simp only [Conversion.memberOfText?, hdef]
        congr 1
        funext m
        simp only [taken?, read, Conversion.toOption_ofText_primitive]
      rw [← hmembers]
      exact Conversion.ofText_union text
  | entry d e =>
      let c : Conversion.Reading := ⟨g, d, x.name⟩
      have hk : Kind.ofType? g x.type = some .union := by
        rw [Kind.ofType?, hdef]
        rfl
      have hmembers : (members.findSome? fun m =>
          (c.read e.node e.span m (.variable x.name)).toOption)
          = members.findSome? (Found.taken? g x (.entry d e)) := by
        refine Conversion.Reading.findSome?_congr fun m hm => ?_
        obtain ⟨p, hp⟩ := Option.isSome_iff_exists.mp
          (hadmitted.isPrimitive_of_isMember ⟨members, hdef, hm⟩)
        have hmember : c.readAs (.primitive p) ⟨e.node, e.span⟩ m (.variable x.name)
            = c.read e.node e.span m (.variable x.name) :=
          Conversion.Reading.readAs_eq_read (kind_of_primitive? hp) _ _
        rw [taken?, hp, Option.bind_some, ← hmember]
        rfl
      have hmismatch : c.mismatch ⟨e.node, e.span⟩ x.type (.variable x.name) =
          .error (.typeMismatch x.name (g.render x.type) e.node.shape)
            ((e.span.or e.node.span?).map fun span => ⟨d.source, span⟩) := by
        have hunion : g.isPrimitive x.type = false := by
          simp [TypeGraph.isPrimitive, TypeGraph.primitive?, hdef]
        simp [Conversion.Reading.mismatch, c, hunion, Conversion.Reading.wrongType,
          Conversion.Reading.locate, Conversion.Site.widest]
      have hread : c.read e.node e.span x.type (.variable x.name) =
          (members.findSome? fun m => (c.read e.node e.span m (.variable x.name)).toOption).elim
            (.error (c.mismatch ⟨e.node, e.span⟩ x.type (.variable x.name))) .ok := by
        have hstep : c.read e.node e.span x.type (.variable x.name) =
            c.step c.read (fun site t => .error (c.unsupported site t)) e.node e.span x.type
              (.variable x.name) := Conversion.Reading.read_eq_step hadmitted _ _ _
        rw [hstep]
        simp only [Conversion.Reading.step, c, hdef]
      rw [hmembers, hmismatch] at hread
      rw [← Conversion.Reading.readAs_eq_read (c := c) hk ⟨e.node, e.span⟩] at hread
      exact hread

/-! ## Lookups -/

theorem taken?_eq_some_iff (hp : g.primitive? m = some p) :
    found.taken? g x m = some v ↔ found.read g (.primitive p) (x.as m) = .ok v := by
  rw [Found.taken?, hp, Option.bind_some]
  cases found.read g (.primitive p) (x.as m) <;> simp [Except.toOption]

/-- What is found would be refused for a variable of the type of a member that does not take
it. -/
theorem exists_refusal_of_taken? (hp : g.primitive? m = some p)
    (h : found.taken? g x m = none) :
    ∃ d, found.read g (.primitive p) (x.as m) = .error d ∧ d.RefusesValue := by
  cases hread : found.read g (.primitive p) (x.as m) with
  | ok v => cases h.symm.trans ((taken?_eq_some_iff hp).mpr hread)
  | error d => exact ⟨d, rfl, Found.refuses (kind_of_primitive? hp) hread⟩

namespace ConfigSource

/-- **A union gives what its first member gives that takes what was found.** For command lines
and documents in every state, and every union that can be configured, whose members are then
primitives or primitives in wrappers: a value is the answer for a variable exactly if it is the
answer for the same variable declared with one of the members, and those before are refused
with what is wrong with the value. If something is found and no member takes it, the answer is
one mismatch that names the union. And a lookup leaves behind what it leaves behind for any of
the members. -/
theorem union_lookup (s : ConfigSource) (hdef : g.effectiveDef x.type = .union members)
    (hconf : g.isConfigurable x.type = true) :
    (∀ v, (Source.lookup g x s).1 = .ok (some v) ↔
        ∃ before m after, members = before ++ m :: after
          ∧ (Source.lookup g (x.as m) s).1 = .ok (some v)
          ∧ ∀ u ∈ before, ∃ d, (Source.lookup g (x.as u) s).1 = .error d ∧ d.RefusesValue)
      ∧ (∀ found, s.find x.id = .ok (some found) →
          (∀ m ∈ members, ∀ v, (Source.lookup g (x.as m) s).1 ≠ .ok (some v)) →
          (Source.lookup g x s).1 =
            .error (.error (.typeMismatch x.name (g.render x.type) found.shown) found.location?))
      ∧ ∀ m ∈ members, (Source.lookup g x s).2 = (Source.lookup g (x.as m) s).2 := by
  have hk : Kind.ofType? g x.type = some .union := by
    rw [Kind.ofType?, hdef]
    rfl
  have hprimitive : ∀ m ∈ members, ∃ p, g.primitive? m = some p := fun m hm =>
    Option.isSome_iff_exists.mp
      (TypeGraph.Admitted.isPrimitive_of_isMember ⟨false, hconf⟩ ⟨members, hdef, hm⟩)
  -- a member answers with what it takes of what is found for the variable
  have hmember : ∀ m ∈ members, ∀ v, (Source.lookup g (x.as m) s).1 = .ok (some v) ↔
      ∃ found, s.find x.id = .ok (some found) ∧ found.taken? g x m = some v := by
    intro m hm v
    obtain ⟨p, hp⟩ := hprimitive m hm
    refine (lookup_eq_some_iff (x := x.as m) (kind_of_primitive? hp)).trans ?_
    exact exists_congr fun found => and_congr_right fun _ => (taken?_eq_some_iff hp).symm
  refine ⟨fun v => ?_, fun found hfound hnone => ?_, fun m hm => ?_⟩
  · rw [lookup_eq_some_iff hk]
    constructor
    · rintro ⟨found, hfound, hread⟩
      rw [Found.read_union hdef hconf] at hread
      cases hfirst : members.findSome? (found.taken? g x) with
      | none => rw [hfirst] at hread; cases hread
      | some w =>
          rw [hfirst] at hread
          obtain rfl := Except.ok.inj hread
          obtain ⟨before, m, after, rfl, hm, hbefore⟩ := List.findSome?_eq_some_iff.mp hfirst
          refine ⟨before, m, after, rfl, (hmember m (by simp) w).mpr ⟨found, hfound, hm⟩, ?_⟩
          intro u hu
          obtain ⟨p, hp⟩ := hprimitive u (by simp [hu])
          obtain ⟨d, hd, hrefuses⟩ := exists_refusal_of_taken? hp (hbefore u hu)
          exact ⟨d, lookup_eq_error (kind_of_primitive? hp) hfound hd, hrefuses⟩
    · rintro ⟨before, m, after, rfl, hm, hbefore⟩
      obtain ⟨found, hfound, htaken⟩ := (hmember m (by simp) v).mp hm
      have hfirst : (before ++ m :: after).findSome? (found.taken? g x) = some v := by
        refine List.findSome?_eq_some_iff.mpr ⟨before, m, after, rfl, htaken, fun u hu => ?_⟩
        obtain ⟨d, hd, -⟩ := hbefore u hu
        refine Option.eq_none_iff_forall_ne_some.mpr fun w hw => ?_
        cases hd.symm.trans ((hmember u (by simp [hu]) w).mpr ⟨found, hfound, hw⟩)
      exact ⟨found, hfound, by rw [Found.read_union hdef hconf, hfirst]; rfl⟩
  · have hfirst : members.findSome? (found.taken? g x) = none := by
      refine List.findSome?_eq_none_iff.mpr fun m hm => ?_
      refine Option.eq_none_iff_forall_ne_some.mpr fun v hv => ?_
      exact hnone m hm v ((hmember m hm v).mpr ⟨found, hfound, hv⟩)
    refine lookup_eq_error hk hfound ?_
    rw [Found.read_union hdef hconf, hfirst]
    rfl
  · obtain ⟨p, hp⟩ := hprimitive m hm
    exact lookup_state_eq (y := x.as m) hk (kind_of_primitive? hp) rfl s

/-- An argument that is no byte, for a union whose second member is wrapped. -/
theorem union_lookup_wrapped :
    let g : TypeGraph := ⟨#[.union [.primitive .byte, .defined 1],
      TypeGraph.readonlyOf (.primitive .string)]⟩
    let root : ModuleId := ⟨"o", "m", "1"⟩
    let x : Variable := ⟨⟨root, "x"⟩, .defined 0, true⟩
    let s : ConfigSource := .commandLine (CommandLine.ofArguments root ["-Cx=few"]).start
    g.effectiveDef x.type = .union [.primitive .byte, .defined 1] ∧ g.isConfigurable x.type = true
      ∧ (Source.lookup g x s).1 = .ok (some (.string "few"))
      ∧ (Source.lookup g x s).2 = (Source.lookup g (x.as (.defined 1)) s).2 := by
  intro g root x s
  have hdef : g.effectiveDef x.type = .union [.primitive .byte, .defined 1] := by decide
  have hconf : g.isConfigurable x.type = true := by decide
  obtain ⟨hvalue, -, hstate⟩ := union_lookup s hdef hconf
  have hstring : (Source.lookup g (x.as (.defined 1)) s).1 = .ok (some (.string "few")) := by rfl
  have hfound : s.find x.id = .ok (some (.text "few")) := by rfl
  have hnumber : Conversion.int64? "few" = none := by decide +kernel
  have hbyte : (Source.lookup g (x.as (.primitive .byte)) s).1 =
      .error (Conversion.textMismatch g (x.as (.primitive .byte)) "few") := by
    refine lookup_eq_error (x := x.as (.primitive .byte)) (kind_of_primitive? rfl) hfound ?_
    simp only [Found.read, Conversion.ofText, hnumber]
  refine ⟨hdef, hconf, (hvalue (.string "few")).mpr ⟨[.primitive .byte], .defined 1, [], rfl,
    hstring, fun u hu => ?_⟩, hstate (.defined 1) (by simp)⟩
  obtain rfl := List.mem_singleton.mp hu
  exact ⟨_, hbyte, rfl, rfl⟩

end ConfigSource

end Configurable
