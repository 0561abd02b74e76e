import Configurable.Proofs.PlainText
import Mathlib.Data.Set.List

/-!
# Writing a type step by step

The text of a type can be written by a machine that has a list of what is left to do and a list
of the types that it is writing: a type that is begun is put on that list and taken off when it
is done, and one that is on it is only mentioned.

Two things are kept by every step, in every graph. The list has no type twice, and a type that
is to be written is shown within every type that is on the list by then (`Writer.Sound`).
So a type is only mentioned where it is shown within itself (`Sound.loop_of_mentions`), and a
type that was begun leaves the list as it was (`adds_renderWithin`). Since there are only so
many definitions to put on the list, the machine comes to an end, and then it has written the
text that messages show.
-/

namespace Configurable

/-- To write a text, to write a type, or to be done with the type that was begun last. -/
inductive Task where
  | put (text : String)
  | type (t : TypeRef)
  | leave
deriving DecidableEq, Repr

/-- What a task adds if the types have the texts `part`. -/
def Task.text (part : TypeRef → String) : Task → String
  | .put text => text
  | .type t => part t
  | .leave => ""

/-- To write types with a separator between them. -/
def Task.separated (separator : String) : List TypeRef → List Task
  | [] => []
  | [t] => [.type t]
  | t :: u :: rest => .type t :: .put separator :: Task.separated separator (u :: rest)

/-- To write a field of a record that has no name. -/
def Field.tasks (f : Field) : List Task :=
  [.put " ", .type f.type, .put (" " ++ f.name ++ (if f.required then "" else "?") ++ ";")]

/-- To write the rest of a tuple behind its members. -/
def TupleType.restTasks (t : TupleType) : List Task :=
  match t.rest with
  | none => []
  | some r => (if t.members.isEmpty then [] else [.put ","]) ++ [.type r, .put "..."]

/-- To write a definition; `joined` are the unions and intersections. -/
def TypeDef.tasks (joined : TypeRef → Bool) : TypeDef → List Task
  | .primitive p => [.put p.name]
  | .readonly => [.put "readonly"]
  | .array element =>
    if joined element then [.put "(", .type element, .put ")", .put "[]"]
    else [.type element, .put "[]"]
  | .record r =>
    if r.name.isEmpty then
      .put "record \x7b|" :: r.fields.flatMap Field.tasks ++ [.put " |\x7d"]
    else [.put r.title]
  | .table constraint keys =>
    [.put "table<", .type constraint, .put ">"] ++
      if keys.isEmpty then [] else [.put (" key(" ++ String.intercalate ", " keys ++ ")")]
  | .map constraint immutable =>
    [.put "map<", .type constraint, .put ">"] ++ if immutable then [.put " & readonly"] else []
  | .union members => Task.separated "|" members
  | .intersection constituents _ => Task.separated " & " constituents
  | .tuple t =>
    .put "[" :: (Task.separated "," t.members ++ t.restTasks) ++ [.put "]"] ++
      if t.readonly then [.put " & readonly"] else []

/-- `expanding` are the types that are being written, the one that was begun last first. -/
structure Writer where
  tasks : List Task
  expanding : List TypeRef
  text : String
deriving DecidableEq, Repr

namespace Writer

def start (t : TypeRef) : Writer := ⟨[.type t], [], ""⟩

def step? (g : TypeGraph) : Writer → Option Writer
  | ⟨[], _, _⟩ => none
  | ⟨.put s :: tasks, expanding, text⟩ => some ⟨tasks, expanding, text ++ s⟩
  | ⟨.leave :: tasks, expanding, text⟩ => some ⟨tasks, expanding.tail, text⟩
  | ⟨.type t :: tasks, expanding, text⟩ =>
    if t ∈ expanding then some ⟨tasks, expanding, text ++ (g.get t).mention⟩
    else
      let body := (g.get t).tasks fun u => (g.get u).isJoined
      some ⟨body ++ .leave :: tasks, t :: expanding, text⟩

/-- Some steps lead from the one state to the other. -/
def Leads (g : TypeGraph) : Writer → Writer → Prop :=
  Relation.ReflTransGen fun w w' => w.step? g = some w'

/-- The next type is only mentioned, because it is being written. -/
def Mentions (w : Writer) : Prop := ∃ t tasks, w.tasks = .type t :: tasks ∧ t ∈ w.expanding

end Writer

variable {joined : TypeRef → Bool} {part : TypeRef → String} {separator : String}

/-! ## Tasks -/

theorem Task.text_separated : ∀ members : List TypeRef,
    String.join ((Task.separated separator members).map (Task.text part)) =
      String.intercalate separator (members.map part)
  | [] => by simp [Task.separated]
  | [t] => by simp [Task.separated, Task.text]
  | t :: u :: rest => by
      have htail := text_separated (u :: rest)
      simp only [Task.separated, List.map_cons, Task.text, String.join_cons,
        String.intercalate_cons_cons] at htail ⊢
      rw [htail, String.append_assoc]

theorem Task.type_mem_separated {u : TypeRef} : ∀ {members : List TypeRef},
    .type u ∈ Task.separated separator members ↔ u ∈ members
  | [] => by simp [Task.separated]
  | [t] => by simp [Task.separated]
  | t :: v :: rest => by
      rw [Task.separated, List.mem_cons, List.mem_cons, type_mem_separated, List.mem_cons]
      simp

theorem Task.leave_notMem_separated : ∀ members : List TypeRef,
    .leave ∉ Task.separated separator members
  | [] => by simp [Task.separated]
  | [t] => by simp [Task.separated]
  | t :: u :: rest => by simpa [Task.separated] using leave_notMem_separated (u :: rest)

theorem Field.text_tasks : ∀ fields : List Field,
    String.join ((fields.flatMap Field.tasks).map (Task.text part)) =
      String.join (fields.map fun f =>
        " " ++ part f.type ++ " " ++ f.name ++ (if f.required then "" else "?") ++ ";")
  | [] => rfl
  | f :: fields => by
      rw [List.flatMap_cons, List.map_append, String.join_append, text_tasks fields]
      simp [Field.tasks, Task.text, String.append_assoc]

theorem TupleType.text_tasks (t : TupleType) :
    String.join ((Task.separated "," t.members ++ t.restTasks).map (Task.text part)) =
      String.intercalate "," (t.members.map part ++ t.rest.toList.map (part · ++ "...")) := by
  rw [List.map_append, String.join_append, Task.text_separated]
  unfold restTasks
  cases t.rest with
  | none => simp
  | some r =>
      by_cases hmembers : t.members = []
      · simp [hmembers, Task.text]
      · rw [String.intercalate_append_of_ne_nil (by simpa using hmembers) (by simp)]
        simp [hmembers, Task.text, String.append_assoc]

/-- The tasks of a definition write its text. -/
theorem TypeDef.text_tasks (d : TypeDef) :
    String.join ((d.tasks joined).map (Task.text part)) = d.renderWith joined part := by
  cases d with
  | primitive p => simp [tasks, renderWith, Task.text]
  | readonly => simp [tasks, renderWith, Task.text]
  | array element =>
      by_cases h : joined element = true <;>
        simp [tasks, renderWith, Task.text, h, String.append_assoc]
  | record r =>
      by_cases h : r.name = "" <;>
        simp [tasks, renderWith, Task.text, h, Field.text_tasks, String.append_assoc]
  | table constraint keys =>
      by_cases h : keys = [] <;>
        simp [tasks, renderWith, Task.text, h, String.append_assoc]
  | map constraint immutable =>
      cases immutable <;> simp [tasks, renderWith, Task.text, String.append_assoc]
  | union members => exact Task.text_separated members
  | intersection constituents effective => exact Task.text_separated constituents
  | tuple t =>
      rw [tasks, List.map_append, List.map_append, List.map_cons, String.join_append,
        String.join_append, String.join_cons, TupleType.text_tasks]
      cases hreadonly : t.readonly <;>
        simp [renderWith, Task.text, hreadonly, String.append_assoc]

theorem TupleType.type_mem_restTasks {t : TupleType} {u : TypeRef} :
    .type u ∈ t.restTasks ↔ u ∈ t.rest.toList := by
  unfold TupleType.restTasks
  cases t.rest <;> simp [@eq_comm _ u]

theorem TupleType.leave_notMem_restTasks (t : TupleType) : .leave ∉ t.restTasks := by
  unfold TupleType.restTasks
  cases t.rest <;> simp

theorem TypeDef.type_mem_tasks {d : TypeDef} {u : TypeRef} :
    .type u ∈ d.tasks joined ↔ u ∈ d.shown := by
  cases d with
  | primitive p => simp [tasks, shown]
  | readonly => simp [tasks, shown]
  | array element => by_cases h : joined element = true <;> simp [tasks, shown, h]
  | record r => by_cases h : r.name = "" <;> simp [tasks, shown, h, Field.tasks, @eq_comm _ u]
  | table constraint keys => by_cases h : keys = [] <;> simp [tasks, shown, h]
  | map constraint immutable => cases immutable <;> simp [tasks, shown]
  | union members => exact Task.type_mem_separated
  | intersection constituents effective => exact Task.type_mem_separated
  | tuple t =>
      cases hreadonly : t.readonly <;>
        simp [tasks, shown, hreadonly, Task.type_mem_separated, TupleType.type_mem_restTasks]

theorem TypeDef.leave_notMem_tasks (d : TypeDef) : .leave ∉ d.tasks joined := by
  cases d with
  | primitive p => simp [tasks]
  | readonly => simp [tasks]
  | array element => by_cases h : joined element = true <;> simp [tasks, h]
  | record r => by_cases h : r.name = "" <;> simp [tasks, h, Field.tasks]
  | table constraint keys => by_cases h : keys = [] <;> simp [tasks, h]
  | map constraint immutable => cases immutable <;> simp [tasks]
  | union members => exact Task.leave_notMem_separated members
  | intersection constituents effective => exact Task.leave_notMem_separated constituents
  | tuple t =>
      cases hreadonly : t.readonly <;>
        simp [tasks, hreadonly, Task.leave_notMem_separated, TupleType.leave_notMem_restTasks]

/-! ## Runs -/

namespace Writer

variable {g : TypeGraph} {t u root : TypeRef} {w w' : Writer} {tasks body : List Task}
  {expanding : List TypeRef} {text : String}

/-- A type is written here by adding this text, whatever comes after and stands before it. -/
def Adds (g : TypeGraph) (expanding : List TypeRef) (t : TypeRef) (s : String) : Prop :=
  ∀ tasks text, Leads g ⟨.type t :: tasks, expanding, text⟩ ⟨tasks, expanding, text ++ s⟩

theorem step?_mention (h : t ∈ expanding) :
    step? g ⟨.type t :: tasks, expanding, text⟩ =
      some ⟨tasks, expanding, text ++ (g.get t).mention⟩ := if_pos h

theorem step?_begin (h : t ∉ expanding) :
    step? g ⟨.type t :: tasks, expanding, text⟩ =
      some ⟨(g.get t).tasks (fun u => (g.get u).isJoined) ++ .leave :: tasks, t :: expanding,
        text⟩ :=
  if_neg h

/-- A body is written by its texts and those of its types. -/
theorem leads_body (hleave : .leave ∉ body)
    (hparts : ∀ u, .type u ∈ body → Adds g expanding u (part u)) :
    ∀ text, Leads g ⟨body ++ tasks, expanding, text⟩
      ⟨tasks, expanding, text ++ String.join (body.map (Task.text part))⟩ := by
  induction body with
  | nil => exact fun text => by simpa using .refl
  | cons task body ih =>
      intro text
      simp only [List.mem_cons, not_or] at hleave
      have hrest := ih hleave.2 fun u hu => hparts u (List.mem_cons_of_mem _ hu)
      rw [List.map_cons, String.join_cons, ← String.append_assoc]
      cases task with
      | put s => exact .head rfl (hrest _)
      | type u => exact .trans (hparts u List.mem_cons_self _ _) (hrest _)
      | leave => exact absurd rfl hleave.1

/-- A type that is begun is taken off again, with all its parts written. -/
theorem adds_of_notMem (part : TypeRef → String) (h : t ∉ expanding)
    (hparts : ∀ u, g.Shows t u → Adds g (t :: expanding) u (part u)) :
    Adds g expanding t ((g.get t).renderWith (fun u => (g.get u).isJoined) part) := by
  intro tasks text
  let body := (g.get t).tasks fun u => (g.get u).isJoined
  have hbody : Leads g ⟨body ++ .leave :: tasks, t :: expanding, text⟩
      ⟨.leave :: tasks, t :: expanding, text ++ String.join (body.map (Task.text part))⟩ :=
    leads_body (TypeDef.leave_notMem_tasks _)
      (fun u hu => hparts u (TypeDef.type_mem_tasks.mp hu)) text
  rw [TypeDef.text_tasks] at hbody
  exact .head (step?_begin h) (.tail hbody rfl)

/-- Below definitions that are being written, a type is written as in messages. -/
theorem adds_renderWithin (writing : List Nat) (t : TypeRef) :
    Adds g (writing.map .defined) t (g.renderWithin writing t) := by
  induction writing, t using TypeGraph.renderWithin.induct g with
  | case1 writing i hmem =>
      intro tasks text
      rw [TypeGraph.renderWithin, if_pos hmem]
      exact .single (step?_mention (List.mem_map_of_mem hmem))
  | case2 writing i hmem hi ih =>
      rw [TypeGraph.renderWithin_defined hmem]
      exact adds_of_notMem _ (by simpa using hmem) fun u _ => ih u
  | case3 writing i hmem hi =>
      rw [TypeGraph.renderWithin_defined hmem]
      exact adds_of_notMem (g.renderWithin (i :: writing)) (by simpa using hmem)
        fun u hu => absurd hu (TypeGraph.not_shows_of_size_le hi)
  | case4 writing p =>
      rw [TypeGraph.renderWithin]
      exact adds_of_notMem (fun _ => "") (by simp)
        fun u hu => absurd hu (TypeGraph.not_shows_primitive p)
  | case5 writing =>
      rw [TypeGraph.renderWithin]
      exact adds_of_notMem (fun _ => "") (by simp)
        fun u hu => absurd hu TypeGraph.not_shows_readonly

/-- There is one way to go on, and it cannot miss the end. -/
theorem Leads.to_end (h : Leads g w ⟨[], expanding, text⟩) (hw : Leads g w w') :
    Leads g w' ⟨[], expanding, text⟩ := by
  have hunique : Relator.RightUnique fun w w' : Writer => w.step? g = some w' :=
    fun _ _ _ h h' => Option.some.inj (h.symm.trans h')
  rcases Relation.ReflTransGen.total_of_right_unique hunique h hw with hback | hforth
  · rcases hback.cases_head with rfl | ⟨_, hstep, -⟩
    · exact .refl
    · cases hstep
  · exact hforth

/-! ## What every step keeps -/

/-- The type is shown within the one that was begun first and within all that are being written
by then. -/
def Within (g : TypeGraph) (root : TypeRef) (expanding : List TypeRef) (t : TypeRef) : Prop :=
  Relation.ReflTransGen g.Shows root t ∧ ∀ v ∈ expanding, Relation.TransGen g.Shows v t

/-- Whatever is left to be written will be within all that is being written by then. -/
def Descends (g : TypeGraph) (root : TypeRef) : List Task → List TypeRef → Prop
  | [], _ => True
  | .put _ :: tasks, expanding => Descends g root tasks expanding
  | .type t :: tasks, expanding => Within g root expanding t ∧ Descends g root tasks expanding
  | .leave :: tasks, expanding => Descends g root tasks expanding.tail

structure Sound (g : TypeGraph) (root : TypeRef) (w : Writer) : Prop where
  distinct : w.expanding.Nodup
  descends : Descends g root w.tasks w.expanding

theorem Descends.append_body (hleave : .leave ∉ body)
    (hbody : ∀ u, .type u ∈ body → Within g root expanding u)
    (htasks : Descends g root tasks expanding) : Descends g root (body ++ tasks) expanding := by
  induction body with
  | nil => exact htasks
  | cons task body ih =>
      simp only [List.mem_cons, not_or] at hleave
      have hrest := ih hleave.2 fun u hu => hbody u (List.mem_cons_of_mem _ hu)
      cases task with
      | put s => exact hrest
      | type u => exact ⟨hbody u List.mem_cons_self, hrest⟩
      | leave => exact absurd rfl hleave.1

/-- What a type shows is within it and within all that it is within. -/
theorem Within.of_shows (h : Within g root expanding t) (hu : g.Shows t u) :
    Within g root (t :: expanding) u := by
  refine ⟨h.1.tail hu, fun v hv => ?_⟩
  rcases List.mem_cons.mp hv with rfl | hv
  · exact .single hu
  · exact (h.2 v hv).tail hu

theorem sound_start (t : TypeRef) : Sound g t (start t) :=
  ⟨List.nodup_nil, ⟨.refl, fun _ hv => nomatch hv⟩, trivial⟩

theorem Sound.step (h : Sound g root w) (hstep : w.step? g = some w') : Sound g root w' := by
  obtain ⟨tasks, expanding, text⟩ := w
  obtain ⟨hdistinct, hdescends⟩ := h
  cases tasks with
  | nil => cases hstep
  | cons task tasks =>
      cases task with
      | put s =>
          obtain rfl := Option.some.inj hstep
          exact ⟨hdistinct, hdescends⟩
      | leave =>
          obtain rfl := Option.some.inj hstep
          exact ⟨hdistinct.sublist (List.tail_sublist _), hdescends⟩
      | type t =>
          obtain ⟨hwithin, htasks⟩ := hdescends
          by_cases hmem : t ∈ expanding
          · obtain rfl := Option.some.inj ((step?_mention hmem).symm.trans hstep)
            exact ⟨hdistinct, htasks⟩
          · obtain rfl := Option.some.inj ((step?_begin hmem).symm.trans hstep)
            refine ⟨List.nodup_cons.mpr ⟨hmem, hdistinct⟩, ?_⟩
            exact Descends.append_body (TypeDef.leave_notMem_tasks _)
              (fun u hu => hwithin.of_shows (TypeDef.type_mem_tasks.mp hu)) htasks

theorem Sound.leads (h : Sound g root w) (hw : Leads g w w') : Sound g root w' := by
  induction hw with
  | refl => exact h
  | tail _ hstep ih => exact ih.step hstep

/-- A type is only mentioned where it is shown within itself. -/
theorem Sound.loop_of_mentions (h : Sound g root w) (hw : w.Mentions) :
    ∃ t, Relation.ReflTransGen g.Shows root t ∧ Relation.TransGen g.Shows t t := by
  obtain ⟨t, tasks, htasks, hmem⟩ := hw
  have hdescends := h.descends
  rw [htasks] at hdescends
  exact ⟨t, hdescends.1.1, hdescends.1.2 t hmem⟩

/-- What is being written while a type is still to be written are definitions. -/
theorem Within.exists_writing (h : Within g root expanding t) :
    ∃ writing : List Nat, expanding = writing.map .defined := by
  have hrange : expanding ∈ Set.range (List.map TypeRef.defined) := by
    rw [Set.range_list_map]
    intro v hv
    obtain ⟨u, hu, -⟩ := Relation.TransGen.head'_iff.mp (h.2 v hv)
    obtain ⟨i, -, rfl⟩ := hu.index
    exact ⟨i, rfl⟩
  obtain ⟨writing, rfl⟩ := hrange
  exact ⟨writing, rfl⟩

/-- **Writing a type ends, and writes it plainly where there are no loops.** In every graph,
whatever its definitions refer to, the machine comes to its end with the text that messages show,
from every state on the way; no type is on the list twice, and whenever a type comes to be
written, that ends with the list as it was. If nothing within the type is shown within itself,
then no type is only mentioned, and the text is the one plain text of the type. -/
theorem render_is_written (g : TypeGraph) (t : TypeRef) :
    (∀ w, Leads g (start t) w →
        Leads g w ⟨[], [], g.render t⟩ ∧ w.expanding.Nodup
          ∧ ∀ u tasks, w.tasks = .type u :: tasks → ∃ writing : List Nat,
              w.expanding = writing.map .defined
                ∧ Leads g w ⟨tasks, w.expanding, w.text ++ g.renderWithin writing u⟩)
      ∧ (g.Loopless t →
        (∀ w, Leads g (start t) w → ¬ w.Mentions)
          ∧ ∀ text, g.Plain t text ↔ text = g.render t) := by
  have hend : Leads g (start t) ⟨[], [], g.render t⟩ := by
    simpa [start, TypeGraph.render] using adds_renderWithin (g := g) [] t [] ""
  constructor
  · intro w hw
    have hsound := (sound_start (g := g) t).leads hw
    refine ⟨hend.to_end hw, hsound.distinct, fun u tasks htasks => ?_⟩
    obtain ⟨_, expanding, text⟩ := w
    subst htasks
    obtain ⟨writing, rfl⟩ := hsound.descends.1.exists_writing
    exact ⟨writing, rfl, adds_renderWithin writing u tasks text⟩
  · intro hloop
    refine ⟨fun w hw hmentions => ?_, fun text => TypeGraph.plain_iff_eq_render hloop⟩
    obtain ⟨u, hu, hback⟩ := ((sound_start (g := g) t).leads hw).loop_of_mentions hmentions
    exact hloop u hu hback

/-- An array of a union, beside a tuple that contains itself in an array. -/
theorem render_is_written_joined :
    let g : TypeGraph := ⟨#[.union [.primitive .int, .primitive .string], .array (.defined 0),
      .tuple ⟨some "Foo", [.primitive .int, .defined 3], none, false⟩, .array (.defined 2)]⟩
    g.Loopless (.defined 1) ∧ g.Plain (.defined 1) "(int|string)[]"
      ∧ Leads g (start (.defined 2)) ⟨[], [], "[int,Foo[]]"⟩ := by
  intro g
  have hloop : g.Loopless (.defined 1) := by
    refine TypeGraph.loopless_of_earlier fun i hi j hj => ?_
    rcases Nat.le_one_iff_eq_zero_or_eq_one.mp hi with rfl | rfl
    · simp [g, TypeGraph.Shows, TypeGraph.get, TypeDef.shown] at hj
    · simp [g, TypeGraph.Shows, TypeGraph.get, TypeDef.shown] at hj
      omega
  have hplain := ((render_is_written g (.defined 1)).2 hloop).2 "(int|string)[]"
  have hleads := ((render_is_written g (.defined 2)).1 _ .refl).1
  have hone : g.render (.defined 1) = "(int|string)[]" := by
    simp [g, TypeGraph.render, TypeGraph.renderWithin, TypeGraph.get, TypeDef.renderWith,
      TypeDef.isJoined, Primitive.name]
  have htwo : g.render (.defined 2) = "[int,Foo[]]" := by
    simp [g, TypeGraph.render, TypeGraph.renderWithin, TypeGraph.get, TypeDef.renderWith,
      TypeDef.isJoined, TypeDef.mention, Primitive.name]
  exact ⟨hloop, hplain.mpr hone.symm, htwo ▸ hleads⟩

end Writer

end Configurable
