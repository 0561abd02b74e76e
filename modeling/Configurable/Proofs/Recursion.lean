import Configurable.Proofs.Exactness
import Configurable.Proofs.Pass

/-!
# Reading ends

Reading a node calls itself: for the elements of an array, the fields of a record or of the
rows of a table, the values of a map, and for the members of a union on the same node
(`Asks`). A graph of types may have cycles, so that the last of these need not end. For what
can be configured it does: types of fields are checked before their values are read, and a
type that passes leads only to types that pass (`Admitted.asks`), whose unions are of
primitives. So a call goes to a smaller node, or from a union to a primitive (`Asks.descends`).

`step` is one level of reading with the calls left open. Unrolling it deep enough is reading
(`unrolled_eq_read`), whatever stands below the last level and whatever is done for types
that have no values: neither is ever come to.
-/

namespace Configurable

open Text (Span)
open Toml (Node Entry EntryOf)

namespace TypeGraph

variable {g : TypeGraph} {t u : TypeRef} {n m : Node}

/-- There are values of such types. -/
def HasShape (g : TypeGraph) (t : TypeRef) : Prop :=
  match g.effectiveDef t with
  | .readonly | .intersection _ _ | .tuple _ => False
  | _ => True

/-- Reading the second node against the second type may call for reading the first node
against the first type. -/
inductive Asks (g : TypeGraph) : Node × TypeRef → Node × TypeRef → Prop
  | element {id : Nat} {span : Option Span} {items : List Node} {item : Node}
      {element t : TypeRef} : g.effectiveDef t = .array element → item ∈ items →
      Asks g (item, element) (.array id span items, t)
  | field {id : Nat} {span : Option Span} {entries : List Entry} {e : Entry} {r : RecordType}
      {t u : TypeRef} : g.effectiveDef t = .record r → e ∈ entries → r.typeOf? e.key = some u →
      g.isConfigurableField u = true → Asks g (e.node, u) (.table id span entries, t)
  | row {id : Nat} {span : Option Span} {items : List Node} {row : Node} {e : Entry}
      {keys : List String} {r : RecordType} {constraint t u : TypeRef} :
      g.effectiveDef t = .table constraint keys → g.record? constraint = some r →
      row ∈ items → e ∈ row.entries → r.typeOf? e.key = some u →
      g.isConfigurableField u = true → Asks g (e.node, u) (.array id span items, t)
  | value {id : Nat} {span : Option Span} {entries : List Entry} {e : Entry}
      {readonly : Bool} {constraint t : TypeRef} : g.effectiveDef t = .map constraint readonly →
      e ∈ entries → Asks g (e.node, constraint) (.table id span entries, t)
  | member {n : Node} {members : List TypeRef} {m t : TypeRef} :
      g.effectiveDef t = .union members → m ∈ members → Asks g (n, m) (n, t)

/-! ## Where calls go -/

theorem Admitted.hasShape (h : g.Admitted t) : g.HasShape t := by
  obtain ⟨maps, hconf⟩ := h
  unfold HasShape
  split
  · next hdef => simp [isConfigurableWith, hdef] at hconf
  · next hdef => simp [isConfigurableWith, hdef] at hconf
  · next hdef => simp [isConfigurableWith, hdef] at hconf
  · trivial

/-- What can be configured is read by reading what can be configured. -/
theorem Admitted.asks (h : g.Admitted t) (hasks : g.Asks (m, u) (n, t)) : g.Admitted u := by
  cases hasks with
  | element hdef _ => exact h.part (by simp [IsPart, hdef])
  | field _ _ _ hu => exact ⟨true, hu⟩
  | row _ _ _ _ _ hu => exact ⟨true, hu⟩
  | value hdef _ => exact h.part (by simp [IsPart, hdef])
  | member hdef hm => exact h.part (IsMember.isPart ⟨_, hdef, hm⟩)

/-- A union that can be configured has primitives for members. -/
theorem Admitted.isPrimitive_of_isMember (h : g.Admitted t) (hu : g.IsMember u t) :
    g.isPrimitive u = true := by
  obtain ⟨maps, hconf⟩ := h
  obtain ⟨members, hdef, hmem⟩ := hu
  have hunion : g.isPrimitiveUnion t = true := by
    simpa [isConfigurableWith, hdef] using hconf
  exact TypeGraph.isPrimitive_of_isMember hunion ⟨members, hdef, hmem⟩

theorem sizeOf_entry_lt {id : Nat} {span : Option Span} {entries : List Entry} {e : Entry}
    (h : e ∈ entries) : sizeOf e.node < sizeOf (Node.table id span entries) := by
  have hmem := List.sizeOf_lt_of_mem h
  have hentry : sizeOf e.node < sizeOf e := by
    cases e with
    | mk key span node =>
        simp only [EntryOf.mk.sizeOf_spec]
        omega
  simp only [Node.table.sizeOf_spec]
  omega

theorem sizeOf_item_lt {id : Nat} {span : Option Span} {items : List Node}
    (h : n ∈ items) : sizeOf n < sizeOf (Node.array id span items) := by
  have hmem := List.sizeOf_lt_of_mem h
  simp only [Node.array.sizeOf_spec]
  omega

theorem sizeOf_lt_of_mem_entries {e : Entry} (h : e ∈ n.entries) : sizeOf e.node < sizeOf n := by
  cases n with
  | scalar id span value => cases h
  | array id span items => cases h
  | table id span entries => exact sizeOf_entry_lt h

/-- A call goes to a smaller node, or from a union to a primitive on the same node. -/
theorem Asks.descends (hasks : g.Asks (m, u) (n, t)) (h : g.Admitted t) :
    sizeOf m < sizeOf n ∨ m = n ∧ g.IsUnion t ∧ g.isPrimitive u = true := by
  cases hasks with
  | element _ hitem => exact Or.inl (sizeOf_item_lt hitem)
  | field _ he _ _ => exact Or.inl (sizeOf_entry_lt he)
  | row _ _ hrow he _ _ =>
      exact Or.inl (Nat.lt_trans (sizeOf_lt_of_mem_entries he) (sizeOf_item_lt hrow))
  | value _ he => exact Or.inl (sizeOf_entry_lt he)
  | @member _ members _ _ hdef hm =>
      exact Or.inr ⟨rfl, ⟨members, hdef⟩, h.isPrimitive_of_isMember ⟨members, hdef, hm⟩⟩

/-- So many levels of calls are enough for a node, one less if the type is no union. -/
def Suffices (g : TypeGraph) (depth : Nat) (n : Node) (t : TypeRef) : Prop :=
  2 * sizeOf n + 1 < depth ∨ ¬ g.IsUnion t ∧ 2 * sizeOf n < depth

theorem Suffices.lt {depth : Nat} (h : g.Suffices depth n t) : 2 * sizeOf n < depth := by
  rcases h with hdepth | ⟨-, hdepth⟩
  · omega
  · exact hdepth

theorem Suffices.asks {depth : Nat} (h : g.Suffices (depth + 1) n t) (ht : g.Admitted t)
    (hasks : g.Asks (m, u) (n, t)) : g.Suffices depth m u := by
  rcases hasks.descends ht with hsmaller | ⟨rfl, hunion, hprimitive⟩
  · left
    have hdepth := h.lt
    omega
  · right
    have hdepth := h.resolve_right fun h' => h'.1 hunion
    exact ⟨not_isUnion_of_isPrimitive hprimitive, by omega⟩

theorem Admitted.of_reaches {x y : Node × TypeRef} (h : Relation.ReflTransGen g.Asks y x)
    (hx : g.Admitted x.2) : g.Admitted y.2 := by
  induction h using Relation.ReflTransGen.head_induction_on with
  | refl => exact hx
  | head hasks _ ih => exact ih.asks hasks

/-- There is no endless chain of calls. -/
theorem acc_asks : ∀ (depth : Nat) {n : Node} {t : TypeRef}, g.Suffices depth n t →
    g.Admitted t → Acc g.Asks (n, t)
  | 0, _, _, h, _ => absurd h.lt (Nat.not_lt_zero _)
  | depth + 1, n, t, h, ht => by
      refine .intro _ fun y hasks => ?_
      obtain ⟨m, u⟩ := y
      exact acc_asks depth (h.asks ht hasks) (ht.asks hasks)

end TypeGraph

namespace Conversion.Reading

open TypeGraph (Asks)

/-! ## One level of reading -/

/-- A way of reading the values of entries. -/
abbrev Reader := Node → Option Span → TypeRef → Subject → Except Diagnostic Value

section

variable (c : Reading) (reader : Reader)

def itemsBy (items : List Node) (element : TypeRef) (subject : Subject) :
    Except Diagnostic (List Value) :=
  items.zipIdx.mapM fun x => reader x.1 none element (subject.element x.2)

def fieldsBy (entries : List Entry) (r : RecordType) (title : String) (site : Site)
    (subject : Subject) : Except Diagnostic (List (String × Value)) :=
  entries.mapM fun e => do
    let t ← c.fieldType r title site e
    let v ← reader e.node e.span t (subject.fieldOf e.key)
    pure (e.key, v)

def rowsBy (r : RecordType) (t constraint : TypeRef) (keys : List String) (subject : Subject) :
    List Node → (index : Nat) → (seen : List (List Value)) → Except Diagnostic (List Record)
  | [], _, _ => .ok []
  | n :: rows, index, seen =>
    if n.isTable then
      match c.missingKey? keys t n with
      | some diagnostic => .error diagnostic
      | none => do
        let site : Site := ⟨n, none⟩
        let title := c.types.render (c.types.effective constraint)
        let fields ← fieldsBy c reader n.entries r title site subject
        let row ← c.recordOf r title site fields
        let key := keyOf keys row
        if isNewKey keys seen key then
          let rows ← rowsBy r t constraint keys subject rows (index + 1) (seen ++ [key])
          pure (row :: rows)
        else .error (c.duplicateKey keys n key)
    else .error (c.mismatch ⟨n, none⟩ constraint (subject.element index))

def mapBy (entries : List Entry) (constraint : TypeRef) (subject : Subject) :
    Except Diagnostic (List (String × Value)) :=
  entries.mapM fun e => do
    let v ← reader e.node e.span constraint (subject.fieldOf e.key)
    pure (e.key, v)

/-- One level of reading, by the effective type: the parts are left to `reader`, and types
without values to `unsupported`. -/
def step (unsupported : Site → TypeRef → Except Diagnostic Value) : Reader :=
  fun n entry t subject =>
    let site : Site := ⟨n, entry⟩
    match c.types.effectiveDef t, n with
    | .primitive p, _ => c.readPrimitive p site t subject
    | .array element, .array _ _ items => (itemsBy reader items element subject).map .array
    | .record r, .table _ _ entries =>
      let title := c.types.render (c.types.effective t)
      (fieldsBy c reader entries r title site subject).bind fun fields =>
        (c.recordOf r title site fields).map .record
    | .table constraint keys, .array _ _ items =>
      match c.types.record? constraint with
      | none =>
        .error (.error (.unsupportedConstraint (c.types.render constraint) c.name)
          (c.locate site.widest))
      | some r =>
        (rowsBy c reader r t constraint keys subject items 0 []).map fun rows =>
          .table ⟨keys, rows⟩
    | .union members, _ =>
      (members.findSome? fun m => (reader n entry m subject).toOption).elim
        (.error (c.mismatch site t subject)) .ok
    | .map constraint _, .table _ _ entries => (mapBy reader entries constraint subject).map .map
    | .readonly, _ | .intersection _ _, _ | .tuple _, _ => unsupported site t
    | _, _ => .error (c.mismatch site t subject)

/-- Reading with calls to so many levels only, below which `bottom` stands. -/
def unrolled (unsupported : Site → TypeRef → Except Diagnostic Value) (bottom : Reader) :
    Nat → Reader
  | 0 => bottom
  | depth + 1 => c.step (unrolled unsupported bottom depth) unsupported

end

variable {c : Reading} {reader reader' : Reader}

/-! ## What one level depends on -/

theorem findSome?_congr {α β : Type} {f f' : α → Option β} : ∀ {l : List α},
    (∀ a ∈ l, f a = f' a) → l.findSome? f = l.findSome? f'
  | [], _ => rfl
  | a :: l, h => by
      rw [List.findSome?_cons, List.findSome?_cons, h a (List.mem_cons_self ..),
        findSome?_congr fun b hb => h b (List.mem_cons_of_mem _ hb)]

theorem fieldsBy_congr {entries : List Entry} {r : RecordType} {title : String} {site : Site}
    {subject : Subject} (h : ∀ e ∈ entries, ∀ u, r.typeOf? e.key = some u →
      c.types.isConfigurableField u = true → reader e.node e.span u = reader' e.node e.span u) :
    fieldsBy c reader entries r title site subject
      = fieldsBy c reader' entries r title site subject := by
  refine mapM_congr fun e he => ?_
  cases hu : c.fieldType r title site e with
  | error diagnostic => rfl
  | ok u =>
      obtain ⟨htype, hconf⟩ := fieldType_iff.mp hu
      show (reader e.node e.span u _ >>= _) = (reader' e.node e.span u _ >>= _)
      rw [h e he u htype hconf]

theorem rowsBy_congr {r : RecordType} {t constraint : TypeRef} {keys : List String}
    {subject : Subject} : ∀ {rows : List Node} {index : Nat} {seen : List (List Value)},
    (∀ n ∈ rows, ∀ e ∈ n.entries, ∀ u, r.typeOf? e.key = some u →
      c.types.isConfigurableField u = true → reader e.node e.span u = reader' e.node e.span u) →
    rowsBy c reader r t constraint keys subject rows index seen
      = rowsBy c reader' r t constraint keys subject rows index seen
  | [], _, _, _ => rfl
  | n :: rows, index, seen, h => by
      have hfields : ∀ title site, fieldsBy c reader n.entries r title site subject
          = fieldsBy c reader' n.entries r title site subject :=
        fun _ _ => fieldsBy_congr (h n (List.mem_cons_self ..))
      have hrows : ∀ seen, rowsBy c reader r t constraint keys subject rows (index + 1) seen
          = rowsBy c reader' r t constraint keys subject rows (index + 1) seen :=
        fun _ => rowsBy_congr fun m hm => h m (List.mem_cons_of_mem _ hm)
      unfold rowsBy
      simp only [hfields, hrows]

/-- One level depends on what is called for, and on nothing else. -/
theorem step_congr {unsupported unsupported' : Site → TypeRef → Except Diagnostic Value}
    {n : Node} {t : TypeRef} (h : ∀ m u, Asks c.types (m, u) (n, t) →
      ∀ entry, reader m entry u = reader' m entry u) (ht : c.types.HasShape t) :
    ∀ entry subject, c.step reader unsupported n entry t subject
      = c.step reader' unsupported' n entry t subject := by
  intro entry subject
  unfold step
  cases hdef : c.types.effectiveDef t with
  | primitive p => rfl
  | array element =>
      cases n with
      | array id span items =>
          have hitems : itemsBy reader items element subject
              = itemsBy reader' items element subject := by
            refine mapM_congr fun x hx => ?_
            show reader x.1 none element _ = reader' x.1 none element _
            rw [h x.1 element (.element hdef (List.fst_mem_of_mem_zipIdx hx))]
          simp only [hitems]
      | scalar id span value => rfl
      | table id span entries => rfl
  | record r =>
      cases n with
      | table id span entries =>
          have hfields : ∀ title site, fieldsBy c reader entries r title site subject
              = fieldsBy c reader' entries r title site subject :=
            fun _ _ => fieldsBy_congr fun e he u htype hconf =>
              h e.node u (.field hdef he htype hconf) e.span
          simp only [hfields]
      | scalar id span value => rfl
      | array id span items => rfl
  | table constraint keys =>
      cases n with
      | array id span items =>
          cases hr : c.types.record? constraint with
          | none => simp only [hr]
          | some r =>
              have hrows : rowsBy c reader r t constraint keys subject items 0 []
                  = rowsBy c reader' r t constraint keys subject items 0 [] :=
                rowsBy_congr fun row hrow e he u htype hconf =>
                  h e.node u (.row hdef hr hrow he htype hconf) e.span
              simp only [hr, hrows]
      | scalar id span value => rfl
      | table id span entries => rfl
  | union members =>
      have hmembers : (members.findSome? fun m => (reader n entry m subject).toOption)
          = members.findSome? fun m => (reader' n entry m subject).toOption :=
        findSome?_congr fun m hm => by rw [h n m (.member hdef hm) entry]
      simp only [hmembers]
  | map constraint readonly =>
      cases n with
      | table id span entries =>
          have hvalues : mapBy reader entries constraint subject
              = mapBy reader' entries constraint subject := by
            refine mapM_congr fun e he => ?_
            rw [h e.node constraint (.value hdef he) e.span]
          simp only [hvalues]
      | scalar id span value => rfl
      | array id span items => rfl
  | readonly => simp [TypeGraph.HasShape, hdef] at ht
  | intersection constituents effective => simp [TypeGraph.HasShape, hdef] at ht
  | tuple tuple => simp [TypeGraph.HasShape, hdef] at ht

/-! ## Reading is a reading by levels -/

theorem readItems_eq (ns : List Node) (element : TypeRef) (subject : Subject) (index : Nat) :
    c.readItems ns element subject index
      = (ns.zipIdx index).mapM fun x => c.read x.1 none element (subject.element x.2) := by
  induction ns generalizing index with
  | nil => rfl
  | cons n ns ih => rw [readItems, ih, List.zipIdx_cons, List.mapM_cons]

theorem readFields_eq (es : List (EntryOf Node)) (r : RecordType) (title : String)
    (site : Site) (subject : Subject) :
    c.readFields es r title site subject = fieldsBy c c.read es r title site subject := by
  induction es with
  | nil => rfl
  | cons e es ih =>
      rw [readFields, ih, fieldsBy, fieldsBy, List.mapM_cons]
      simp only [bind_assoc, pure_bind]

theorem readMap_eq (es : List (EntryOf Node)) (constraint : TypeRef) (subject : Subject) :
    c.readMap es constraint subject = mapBy c.read es constraint subject := by
  induction es with
  | nil => rfl
  | cons e es ih =>
      rw [readMap, ih, mapBy, mapBy, List.mapM_cons]
      simp only [bind_assoc, pure_bind]

theorem readRows_eq {r : RecordType} {t constraint : TypeRef} {keys : List String}
    {subject : Subject} : ∀ (ns : List Node) (index : Nat) (seen : List (List Value)),
    c.readRows ns r t constraint keys subject index seen
      = rowsBy c c.read r t constraint keys subject ns index seen
  | [], _, _ => rfl
  | .scalar _ _ _ :: _, _, _ => rfl
  | .array _ _ _ :: _, _, _ => rfl
  | .table id span entries :: ns, index, seen => by
      have hrows : ∀ index seen, c.readRows ns r t constraint keys subject index seen
          = rowsBy c c.read r t constraint keys subject ns index seen := readRows_eq ns
      rw [readRows, rowsBy]
      cases c.missingKey? keys t (.table id span entries) with
      | some diagnostic => simp only [Node.isTable, if_true]
      | none => simp only [hrows, readFields_eq, Node.isTable, if_true, Node.entries]

/-- The alternatives of a union of primitives are its members. -/
theorem alternatives_of_primitives {g : TypeGraph} {t : TypeRef} {members : List TypeRef}
    (hdef : g.effectiveDef t = .union members) (h : ∀ m ∈ members, g.isPrimitive m = true) :
    g.alternatives t = members := by
  have hsingle : ∀ m ∈ members, g.alternativesWithin g.size m = [m] := by
    intro m hm
    have hsize : g.size = (7 + g.defs.size) + 1 := by
      rw [TypeGraph.size, TypeGraph.builtinCount]
      omega
    rw [hsize]
    exact TypeGraph.alternativesWithin_single (TypeGraph.not_isUnion_of_isPrimitive (h m hm)) _
  rw [TypeGraph.alternatives, TypeGraph.alternativesWithin_union hdef,
    List.flatMap_congr hsingle, List.flatMap_singleton']

theorem choose_single {site : Site} {t : TypeRef} {subject : Subject}
    (h : ¬ c.types.IsUnion t) (take : TypeRef → Except Diagnostic Value) :
    c.choose site t subject take = take t := by
  unfold choose
  split
  · next members hdef => exact absurd ⟨members, hdef⟩ h
  · rfl

theorem choose_primitives {site : Site} {t : TypeRef} {subject : Subject}
    {members : List TypeRef} (hdef : c.types.effectiveDef t = .union members)
    (h : ∀ m ∈ members, c.types.isPrimitive m = true)
    {take take' : TypeRef → Except Diagnostic Value} (htake : ∀ m ∈ members, take' m = take m) :
    c.choose site t subject take = (members.findSome? fun m => (take' m).toOption).elim
      (.error (c.mismatch site t subject)) .ok := by
  have hfound : (members.findSome? fun m => (take' m).toOption)
      = members.findSome? fun m => (take m).toOption :=
    findSome?_congr fun m hm => by rw [htake m hm]
  simp only [choose, hdef, alternatives_of_primitives hdef h, hfound]
  cases members.findSome? fun m => (take m).toOption with
  | none => rfl
  | some value => rfl

theorem read_eq_choose (n : Node) (entry : Option Span) (subject : Subject) :
    ∃ take, ∀ t, c.read n entry t subject = c.choose ⟨n, entry⟩ t subject take := by
  cases n with
  | scalar id span value => exact ⟨_, fun t => by rw [read]⟩
  | array id span items => exact ⟨_, fun t => by rw [read]⟩
  | table id span entries => exact ⟨_, fun t => by rw [read]⟩

/-- Reading is one level of reading with its parts left to reading. -/
theorem read_eq_step {unsupported : Site → TypeRef → Except Diagnostic Value} {t : TypeRef}
    (ht : c.types.Admitted t) (n : Node) (entry : Option Span) (subject : Subject) :
    c.read n entry t subject = c.step c.read unsupported n entry t subject := by
  cases hdef : c.types.effectiveDef t with
  | primitive p =>
      have hk : Kind.ofType? c.types t = some (.primitive p) := by
        rw [Kind.ofType?, hdef]
        rfl
      rw [← readAs_eq_read hk ⟨n, entry⟩ subject]
      simp only [readAs, step, hdef]
  | array element => cases n <;> simp only [read, choose, step, hdef, readItems_eq, itemsBy]
  | record r => cases n <;> simp only [read, choose, step, hdef, readFields_eq]
  | table constraint keys =>
      cases n with
      | array id span items =>
          cases hr : c.types.record? constraint with
          | none => simp only [read, choose, step, hdef, hr]
          | some r => simp only [read, choose, step, hdef, hr, readRows_eq]
      | scalar id span value => simp only [read, choose, step, hdef]
      | table id span entries => simp only [read, choose, step, hdef]
  | union members =>
      have hprimitive : ∀ m ∈ members, c.types.isPrimitive m = true :=
        fun m hm => ht.isPrimitive_of_isMember ⟨members, hdef, hm⟩
      obtain ⟨take, htake⟩ := read_eq_choose (c := c) n entry subject
      rw [htake]
      simp only [step, hdef]
      -- a primitive has no alternatives, so for a member there is nothing to choose from
      refine choose_primitives hdef hprimitive fun m hm => ?_
      rw [htake, choose_single (TypeGraph.not_isUnion_of_isPrimitive (hprimitive m hm))]
  | map constraint readonly => cases n <;> simp only [read, choose, step, hdef, readMap_eq]
  | readonly => simpa [TypeGraph.HasShape, hdef] using ht.hasShape
  | intersection constituents effective => simpa [TypeGraph.HasShape, hdef] using ht.hasShape
  | tuple tuple => simpa [TypeGraph.HasShape, hdef] using ht.hasShape

/-- Unrolled deep enough, one level after the other is reading. -/
theorem unrolled_eq_read {unsupported : Site → TypeRef → Except Diagnostic Value}
    {bottom : Reader} : ∀ (depth : Nat) {n : Node} {t : TypeRef},
    c.types.Suffices depth n t → c.types.Admitted t → ∀ entry,
    c.unrolled unsupported bottom depth n entry t = c.read n entry t
  | 0, _, _, h, _, _ => absurd h.lt (Nat.not_lt_zero _)
  | depth + 1, n, t, h, ht, entry => by
      funext subject
      have hcalls : ∀ m u, Asks c.types (m, u) (n, t) → ∀ entry,
          c.unrolled unsupported bottom depth m entry u = c.read m entry u :=
        fun m u hasks => unrolled_eq_read depth (h.asks ht hasks) (ht.asks hasks)
      calc c.unrolled unsupported bottom (depth + 1) n entry t subject
          = c.step (c.unrolled unsupported bottom depth) unsupported n entry t subject := rfl
        _ = c.step c.read unsupported n entry t subject :=
            step_congr hcalls ht.hasShape entry subject
        _ = c.read n entry t subject := (read_eq_step ht n entry subject).symm

end Conversion.Reading

/-! ## Lookups of a pass -/

/-- A lookup in which types without a kind are left to `other`. -/
def Source.lookupOr {σ : Type} [Source σ] (other : σ → Answer × σ) (g : TypeGraph)
    (v : Variable) (s : σ) : Answer × σ :=
  match Kind.ofType? g v.type with
  | some kind => read g kind v s
  | none => other s

namespace Pass

variable {σ : Type} [Source σ] {g : TypeGraph} {v : Variable}

/-- Putting a variable to sources, whatever looking it up is. -/
def askBy (lookup : σ → Answer × σ) (v : Variable) : Answer → List σ → Answer × List σ
  | answer, [] => (answer, [])
  | .ok none, s :: ss =>
    let (answer, s') := lookup s
    let rest := askBy lookup v answer ss
    (rest.1, s' :: rest.2)
  | answer, s :: ss =>
    let rest := askBy lookup v answer ss
    (rest.1, Source.mark v s :: rest.2)

theorem askBy_cons_open (lookup : σ → Answer × σ) (s : σ) (ss : List σ) :
    askBy lookup v (.ok none) (s :: ss)
      = ((askBy lookup v (lookup s).1 ss).1,
          (lookup s).2 :: (askBy lookup v (lookup s).1 ss).2) := rfl

theorem askBy_cons_settled {lookup : σ → Answer × σ} {a : Answer} (h : a ≠ .ok none) (s : σ)
    (ss : List σ) : askBy lookup v a (s :: ss)
      = ((askBy lookup v a ss).1, Source.mark v s :: (askBy lookup v a ss).2) := by
  match a, h with
  | .ok none, h => exact absurd rfl h
  | .ok (some _), _ => rfl
  | .error _, _ => rfl

/-- As long as nothing is settled the type has a kind, so it does not matter what is done for
types that have none. -/
theorem askBy_eq_ask (other : σ → Answer × σ) : ∀ (ss : List σ) {a : Answer},
    (a ≠ .ok none ∨ (Kind.ofType? g v.type).isSome = true) →
    askBy (Source.lookupOr other g v) v a ss = ((ask g v a ss).answer, (ask g v a ss).sources)
  | [], a, _ => by
      unfold askBy ask
      rfl
  | s :: ss, a, h => by
      by_cases ha : a = .ok none
      · subst ha
        have hkind := h.resolve_left fun hne => hne rfl
        obtain ⟨kind, hk⟩ := Option.isSome_iff_exists.mp hkind
        have hlookup : Source.lookupOr other g v s = Source.lookup g v s := by
          simp only [Source.lookupOr, Source.lookup, hk]
        have hrest := askBy_eq_ask other ss (a := (Source.lookup g v s).1) (Or.inr hkind)
        rw [ask_cons_open, askBy_cons_open, hlookup, hrest]
      · rw [ask_cons_settled ha, askBy_cons_settled ha, askBy_eq_ask other ss (Or.inl ha)]

theorem askBy_firstAnswer (other : σ → Answer × σ) (g : TypeGraph) (v : Variable)
    (ss : List σ) :
    let asked := ask g v (firstAnswer g v) ss
    askBy (Source.lookupOr other g v) v (firstAnswer g v) ss = (asked.answer, asked.sources) := by
  refine askBy_eq_ask other ss ?_
  unfold firstAnswer
  split
  · next hconf =>
    obtain ⟨kind, hk⟩ := Source.exists_kind hconf
    exact Or.inr (by rw [hk]; rfl)
  · exact Or.inl nofun

end Pass

namespace Conversion.Reading

open TypeGraph (Asks)

variable {c : Reading}

/-- **Reading ends.** Reading a node against a type that can be configured calls for reading
smaller nodes, or from a union for its primitive members on the same node, and so ends; no
call is for a type without values. Hence the calls need only be followed to some depth, and
it does not matter what would come below or be done for a type without values. Reading a
value of the kind of the type is the same. And a pass looks variables up only if their types
have kinds: it does not matter what would be done for the others. -/
theorem read_ends {t : TypeRef} (h : c.types.isConfigurable t = true) (n : Node) :
    Acc (Asks c.types) (n, t)
      ∧ (∀ m u, Relation.ReflTransGen (Asks c.types) (m, u) (n, t) → c.types.HasShape u
        ∧ ∀ m' u', Asks c.types (m', u') (m, u) →
          sizeOf m' < sizeOf m ∨ m' = m ∧ c.types.IsUnion u ∧ c.types.isPrimitive u' = true)
      ∧ (∃ least, ∀ depth ≥ least, ∀ unsupported bottom entry subject,
        c.unrolled unsupported bottom depth n entry t subject = c.read n entry t subject)
      ∧ (∀ kind, Kind.ofType? c.types t = some kind → ∀ site subject,
        c.readAs kind site t subject = c.read site.node site.entry t subject)
      ∧ ∀ (σ : Type) [Source σ] (other : σ → Answer × σ) (v : Variable) (ss : List σ),
        let asked := Pass.ask c.types v (Pass.firstAnswer c.types v) ss
        Pass.askBy (Source.lookupOr other c.types v) v (Pass.firstAnswer c.types v) ss
          = (asked.answer, asked.sources) := by
  have hadmitted : c.types.Admitted t := ⟨false, h⟩
  have hdepth : ∀ depth ≥ 2 * sizeOf n + 2, c.types.Suffices depth n t :=
    fun depth hle => Or.inl (by omega)
  refine ⟨TypeGraph.acc_asks _ (hdepth _ (Nat.le_refl _)) hadmitted, fun m u hreaches => ?_,
    ⟨2 * sizeOf n + 2, fun depth hle _ _ entry subject => ?_⟩,
    fun kind hk site subject => readAs_eq_read hk site subject,
    fun σ _ other v ss => Pass.askBy_firstAnswer other c.types v ss⟩
  · have hu : c.types.Admitted u := hadmitted.of_reaches hreaches
    exact ⟨hu.hasShape, fun m' u' hasks => hasks.descends hu⟩
  · rw [unrolled_eq_read depth (hdepth depth hle) hadmitted]

/-- Records that hold records of the same type, and a union that holds itself, which no value
is read against. -/
theorem read_ends_of_cycle :
    let g : TypeGraph := ⟨#[.record ⟨"", ⟨"o", "m", "1"⟩, [⟨"next", .defined 1, false⟩,
      ⟨"tag", .defined 2, false⟩, ⟨"loop", .defined 3, false⟩], none⟩, .array (.defined 0),
      .union [.primitive .int, .primitive .string], .union [.defined 3]]⟩
    let c : Reading := ⟨g, ⟨⟨none, ""⟩, .table 3 none [], 4⟩, "x"⟩
    let n : Node := .table 2 none [⟨"tag", none, .scalar 0 none (.string "a")⟩,
      ⟨"loop", none, .scalar 1 none (.integer 5)⟩]
    c.types.isConfigurable (.defined 0) = true ∧ Acc (Asks c.types) (n, .defined 0) ∧
      ∃ least, ∀ depth ≥ least, ∀ unsupported bottom,
        c.unrolled unsupported bottom depth n none (.defined 0) (.variable "x")
          = .error (.error (.unsupportedFieldType (g.render (.defined 3)) "x") none) := by
  intro g c n
  have hconf : c.types.isConfigurable (.defined 0) = true := by decide
  obtain ⟨hacc, -, ⟨least, hunrolled⟩, -⟩ := read_ends hconf n
  have hread : c.read n none (.defined 0) (.variable "x")
      = .error (.error (.unsupportedFieldType (g.render (.defined 3)) "x") none) := by rfl
  refine ⟨hconf, hacc, least, fun depth hle unsupported bottom => ?_⟩
  rw [hunrolled depth hle, hread]

end Conversion.Reading

end Configurable
