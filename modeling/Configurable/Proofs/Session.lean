import Configurable.Source.Basic

/-!
# Sessions with one source

What a source does can be told from the calls it gets and the replies it gives, whoever makes
the calls and in whatever order. A session is a list of calls to one source, one after the
other; `after` is the state it leaves behind and `replies` is all that the caller sees of it.
-/

namespace Configurable

/-- A call with all that the source is given. -/
inductive Request where
  | start
  | read (kind : Kind) (v : Variable)
  | mark (v : Variable)
  | complete
deriving DecidableEq, Repr

/-- What a call gives back. -/
inductive Reply where
  | logged (log : Log)
  | answered (answer : Answer)
  | marked

/-- The variable a call is about. -/
def Request.subject? : Request → Option VariableId
  | .read _ v | .mark v => some v.id
  | .start | .complete => none

namespace Source

variable {σ : Type} [Source σ]

def serve (files : FileTree) (g : TypeGraph) (s : σ) : Request → Reply × σ
  | .start => (.logged (Source.start files s).1, (Source.start files s).2)
  | .read kind v => (.answered (Source.read g kind v s).1, (Source.read g kind v s).2)
  | .mark v => (.marked, Source.mark v s)
  | .complete => (.logged (Source.complete s).1, (Source.complete s).2)

/-- The state that calls leave behind. -/
def after (files : FileTree) (g : TypeGraph) (s : σ) (rs : List Request) : σ :=
  rs.foldl (fun s r => (serve files g s r).2) s

def replies (files : FileTree) (g : TypeGraph) : σ → List Request → List Reply
  | _, [] => []
  | s, r :: rs => (serve files g s r).1 :: replies files g (serve files g s r).2 rs

variable {files : FileTree} {g : TypeGraph}

/-! ## Lookups -/

/-- A type that can be configured has a kind. -/
theorem exists_kind {t : TypeRef} (h : g.isConfigurable t = true) :
    ∃ kind, Kind.ofType? g t = some kind := by
  unfold TypeGraph.isConfigurable TypeGraph.isConfigurableWith at h
  unfold Kind.ofType? Kind.ofDef?
  split at h <;> simp_all

theorem lookup_of_kind {kind : Kind} {v : Variable} (hk : Kind.ofType? g v.type = some kind)
    (s : σ) : lookup g v s = read g kind v s := by
  simp only [lookup, hk]

theorem lookupAction_of_kind {kind : Kind} {v : Variable}
    (hk : Kind.ofType? g v.type = some kind) : lookupAction g v = .read kind v.id := by
  simp only [lookupAction, hk]

/-! ## Sessions in parts -/

theorem after_append (s : σ) (rs rs' : List Request) :
    after files g s (rs ++ rs') = after files g (after files g s rs) rs' := List.foldl_append

theorem after_concat (s : σ) (rs : List Request) (r : Request) :
    after files g s (rs ++ [r]) = (serve files g (after files g s rs) r).2 := by
  simp [after]

theorem replies_append (s : σ) : ∀ rs rs' : List Request,
    replies files g s (rs ++ rs') = replies files g s rs ++ replies files g (after files g s rs) rs'
  | [], _ => rfl
  | r :: rs, rs' => by
      rw [List.cons_append, replies, replies_append _ rs rs', replies]
      rfl

theorem length_replies : ∀ (s : σ) (rs : List Request), (replies files g s rs).length = rs.length
  | _, [] => rfl
  | s, r :: rs => congrArg (· + 1) (length_replies (serve files g s r).2 rs)

theorem getElem?_replies : ∀ (s : σ) (rs : List Request) (n : Nat), (replies files g s rs)[n]? =
    rs[n]?.map fun r => (serve files g (after files g s (rs.take n)) r).1
  | _, [], _ => rfl
  | _, _ :: _, 0 => rfl
  | s, r :: rs, n + 1 => getElem?_replies (serve files g s r).2 rs n

end Source

end Configurable
