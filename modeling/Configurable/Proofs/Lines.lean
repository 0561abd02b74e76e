import Configurable.Proofs.Spelling
import Mathlib.Data.List.ReduceOption

/-!
# The lines of a document

What the lines of a text say can be read without a table to put it into: pairs and headers, in
the order of the text (`linesOf`). A document is read in the same way, only that each line is
entered into the root table at once (`Line.Enters`). So whatever every line keeps as it is
entered holds of a document and its lines (`document_lines`).

The lines alone tell what the headers open: each one a table, with the text from its bracket to
the end of the last pair in front of the next header (`openings`).
-/

namespace Configurable

/-- At this byte of the text the character starts. -/
def Text.StartsAt (text : String) (offset : Nat) (c : Char) : Prop :=
  ∃ before after, text.toList = before ++ c :: after ∧ offset = byteLength before

namespace Toml

open Reader
open Text (Span)

theorem startsAt_of_reaches {text : String} {c : Cursor} {x : Char}
    (h : (Cursor.ofText text).Reaches c) (hx : c.rest.head? = some x) :
    Text.StartsAt text c.position x := by
  obtain ⟨before, htext, hposition⟩ := ofText_reaches h
  obtain ⟨after, hrest⟩ := List.head?_eq_some_iff.mp hx
  exact ⟨before, after, by rw [htext, hrest], hposition⟩

/-- What a line says that is neither empty nor a comment. -/
inductive Line where
  | pair (path : List Key) (key : Key) (value : Literal)
  | header (path : List Key) (key : Key) (span : Span)

namespace Line

def pairReader : Reader Line := do
  let key ← Key.dotted
  Key.equals
  spaces
  let value ← Literal.value
  lineRest
  pure (.pair key.1 key.2 value)

def headerText : Reader ((List Key × Key) × Span) := do
  let next := (← upcoming).take 2
  if next = ['[', '['] then Progress.headerLine "[[" "]]" else Progress.headerLine "[" "]"

def headerReader : Reader Line := do
  let header ← headerText
  pure (.header header.1.1 header.1.2 header.2)

/-- What is read of a line that starts with this character. -/
def contentFrom : Option Char → Reader (Option Line)
  | none => refuse
  | some '#' => do Progress.commentLine; pure none
  | some '[' => do pure (some (← headerReader))
  | some '\n' | some '\r' => do newline; pure none
  | some _ => do pure (some (← pairReader))

/-- A line, and the blanks in front of the next one. -/
def reader : Reader (Option Line) := do
  let line ← contentFrom (← peek?)
  spaces
  pure line

instance : Forward pairReader := by unfold pairReader; infer_instance

instance : Forward headerText := by
  unfold headerText
  refine .followed fun cs => ?_
  simp only
  split <;> infer_instance

instance : Forward headerReader := by unfold headerReader; infer_instance

instance (x : Option Char) : Forward (contentFrom x) := by
  unfold contentFrom
  split <;> infer_instance

instance : Forward reader := by unfold reader; infer_instance

end Line

/-- All lines of a text. -/
def lines : Reader (List Line) := do
  let _ ← optional (char '\ufeff')
  spaces
  let ls ← many Line.reader
  endOfText
  pure ls.reduceOption

def linesOf (text : String) : Option (List Line) :=
  match lines (.ofText text) with
  | .done ls _ => some ls
  | .refused _ => none
  | .broken _ => none

/-! ## Entering lines -/

/-- What a line makes of the progress of a document. -/
inductive Line.Enters : Option Line → Progress → Progress → Prop
  | nothing (p : Progress) : Enters none p p
  | pair {p : Progress} {root : Table} {path : List Key} {key : Key} {value : Literal} :
      p.root.insertPair p.current path key value = .ok root →
      Enters (some (.pair path key value)) p ⟨root, p.current⟩
  | table {p : Progress} {root : Table} {path : List Key} {key : Key} {shown : String}
      {span : Span} : p.root.openTable path key shown span = .ok root →
      Enters (some (.header path key span)) p ⟨root, path ++ [key]⟩
  | row {p : Progress} {root : Table} {path : List Key} {key : Key} {shown : String}
      {span : Span} : p.root.appendTable path key shown span = .ok root →
      Enters (some (.header path key span)) p ⟨root, path ++ [key]⟩

section

variable {c c' : Cursor} {p p' : Progress}

theorem pair_enters (h : p.pair c = .done p' c') :
    ∃ l, Line.pairReader c = .done l c' ∧ Line.Enters (some l) p p' := by
  simp only [Progress.pair, checked_done_iff, bind_done_iff, commit_done_iff, pure_done_iff] at h
  obtain ⟨_, ⟨key, c₁, hkey, _, c₂, hequals, _, c₃, hspaces, m, c₄, hm, _, c₅, hrest, rfl, rfl⟩,
    hinsert⟩ := h
  obtain ⟨root, hroot, rfl⟩ := map_eq_ok_iff.mp hinsert
  refine ⟨.pair key.1 key.2 m, ?_, .pair hroot⟩
  simp only [Line.pairReader, bind_done_iff, pure_done_iff]
  exact ⟨key, c₁, hkey, _, c₂, hequals, _, c₃, hspaces, m, c₄, hm, _, c₅, hrest, rfl, rfl⟩

theorem header_enters (h : p.header c = .done p' c') :
    ∃ l, Line.headerReader c = .done l c' ∧ Line.Enters (some l) p p' := by
  obtain ⟨cs, c₁, hupcoming, h⟩ := bind_done_iff.mp (within_done_iff.mp h)
  obtain ⟨rfl, rfl⟩ := upcoming_done_iff.mp hupcoming
  have hread : ∀ {header}, Line.headerText c = .done header c' →
      Line.headerReader c = .done (.header header.1.1 header.1.2 header.2) c' :=
    fun h => bind_done_iff.mpr ⟨_, c', h, rfl⟩
  split at h
  · next hrow =>
    obtain ⟨header, hheader, h⟩ := checked_done_iff.mp h
    obtain ⟨root, hroot, rfl⟩ := map_eq_ok_iff.mp h
    refine ⟨_, hread (bind_done_iff.mpr ⟨_, c, rfl, ?_⟩), .row hroot⟩
    exact (if_pos hrow).symm ▸ hheader
  · next hrow =>
    split at h
    · cases h
    · obtain ⟨header, hheader, h⟩ := checked_done_iff.mp h
      obtain ⟨root, hroot, rfl⟩ := map_eq_ok_iff.mp h
      refine ⟨_, hread (bind_done_iff.mpr ⟨_, c, rfl, ?_⟩), .table hroot⟩
      exact (if_neg hrow).symm ▸ hheader

/-- A statement of a document is a line that is entered. -/
theorem statement_enters (h : p.statement c = .done p' c') :
    ∃ l, Line.reader c = .done l c' ∧ Line.Enters l p p' := by
  obtain ⟨x, c₁, hpeek, h⟩ := bind_done_iff.mp h
  obtain ⟨hx, rfl⟩ := peek?_done_iff.mp hpeek
  -- behind the line there may be blanks
  have hblanks : ∀ {l : Option Line} {p₁ : Progress} {c₁ : Cursor},
      Line.contentFrom x c = .done l c₁ → Line.Enters l p p₁ →
      (do spaces; pure p₁ : Reader Progress) c₁ = .done p' c' →
      ∃ l, Line.reader c = .done l c' ∧ Line.Enters l p p' := by
    intro l p₁ c₁ hl hp₁ h
    obtain ⟨_, c₂, hspaces, h⟩ := bind_done_iff.mp h
    obtain ⟨rfl, rfl⟩ := pure_done_iff.mp h
    refine ⟨l, ?_, hp₁⟩
    simp only [Line.reader, bind_done_iff, pure_done_iff]
    exact ⟨x, c, peek?_done_iff.mpr ⟨hx, rfl⟩, l, c₁, hl, _, _, hspaces, rfl, rfl⟩
  split at h
  · cases h
  · obtain ⟨_, c₁, hcomment, h⟩ := bind_done_iff.mp h
    exact hblanks (bind_done_iff.mpr ⟨_, c₁, commit_done_iff.mp hcomment, rfl⟩) (.nothing p) h
  · obtain ⟨p₁, c₁, hread, h⟩ := bind_done_iff.mp h
    obtain ⟨l, hl, hp₁⟩ := header_enters (commit_done_iff.mp hread)
    exact hblanks (bind_done_iff.mpr ⟨l, c₁, hl, rfl⟩) hp₁ h
  · obtain ⟨_, c₁, hnewline, h⟩ := bind_done_iff.mp h
    exact hblanks (bind_done_iff.mpr ⟨_, c₁, hnewline, rfl⟩) (.nothing p) h
  · obtain ⟨_, c₁, hnewline, h⟩ := bind_done_iff.mp h
    exact hblanks (bind_done_iff.mpr ⟨_, c₁, hnewline, rfl⟩) (.nothing p) h
  · next y hcomment hheader hnewline hreturn =>
    obtain ⟨p₁, c₁, hread, h⟩ := bind_done_iff.mp h
    obtain ⟨l, hl, hp₁⟩ := pair_enters (commit_done_iff.mp hread)
    refine hblanks (l := some l) ?_ hp₁ h
    rw [Line.contentFrom]
    · exact bind_done_iff.mpr ⟨l, c₁, hl, rfl⟩
    all_goals assumption

theorem reader_refused (h : c.rest = []) : ∃ e, Line.reader c = .refused e :=
  ⟨.bare c.position, by simp [Line.reader, bind, peek?, h, Line.contentFrom, refuse]⟩

variable {P : List Line → Progress → Cursor → Prop}
variable (hline : ∀ {ls p p' c c'} {l : Option Line}, P ls p c → p.statement c = .done p' c' →
  Line.reader c = .done l c' → Line.Enters l p p' → P (ls ++ l.toList) p' c')

include hline

theorem iterateFrom_lines : ∀ {n : Nat} {ls : List Line} {p p' : Progress} {c c' : Cursor},
    P ls p c → iterateFrom Progress.statement n p c = .done p' c' → c'.rest = [] →
    ∃ more, manyFrom Line.reader n c = .done more c' ∧ P (ls ++ more.reduceOption) p' c'
  | 0, ls, p, p', c, c', hP, h, _ => by
    obtain ⟨rfl, rfl⟩ := Outcome.done.inj h
    exact ⟨[], rfl, by simpa using hP⟩
  | n + 1, ls, p, p', c, c', hP, h, hend => by
    unfold iterateFrom at h
    cases hr : p.statement c with
    | done p₁ c₁ =>
      rw [hr] at h
      obtain ⟨l, hl, hp₁⟩ := statement_enters hr
      obtain ⟨more, hmore, hP⟩ := iterateFrom_lines (hline hP hr hl hp₁) h hend
      refine ⟨l :: more, by simp only [manyFrom, hl, hmore, Outcome.map], ?_⟩
      cases l <;> simpa using hP
    | refused e =>
      simp only [hr] at h
      obtain ⟨rfl, rfl⟩ := Outcome.done.inj h
      obtain ⟨e, he⟩ := reader_refused hend
      exact ⟨[], by simp only [manyFrom, he], by simpa using hP⟩
    | broken e => simp [hr] at h

/-- What holds at the start and is kept by every line holds of every document and its lines. -/
theorem document_lines {text : String} {root : Table} {c' : Cursor}
    (hstart : ∀ {c}, (Cursor.ofText text).Reaches c → P [] .start c)
    (h : Progress.document (.ofText text) = .done root c') :
    ∃ ls p, linesOf text = some ls ∧ p.root = root ∧ P ls p c' := by
  simp only [Progress.document, bind_done_iff, pure_done_iff, endOfText_done_iff] at h
  obtain ⟨_, c₁, hmark, _, c₂, hspaces, p, c₃, hstatements, _, _, ⟨hend, rfl⟩, rfl, rfl⟩ := h
  have hP := hstart ((Forward.reaches hmark).trans (Forward.reaches hspaces))
  obtain ⟨more, hmore, hP⟩ := iterateFrom_lines hline hP hstatements hend
  refine ⟨more.reduceOption, p, ?_, rfl, hP⟩
  have hread : lines (.ofText text) = .done more.reduceOption c₃ := by
    simp only [lines, bind_done_iff, pure_done_iff, endOfText_done_iff]
    exact ⟨_, c₁, hmark, _, c₂, hspaces, more, c₃, hmore, (), _, ⟨hend, rfl⟩, rfl, rfl⟩
  simp only [linesOf, hread]

end

/-! ## Where lines were read -/

namespace Line

variable {c c' : Cursor} {path : List Key} {key : Key}

theorem reader_done {l : Line} (h : reader c = .done (some l) c') : ∃ c₁, c₁.Reaches c' ∧
    (pairReader c = .done l c₁ ∨ c.rest.head? = some '[' ∧ headerReader c = .done l c₁) := by
  simp only [reader, bind_done_iff, peek?_done_iff, pure_done_iff] at h
  obtain ⟨x, _, ⟨hx, rfl⟩, _, c₁, h, _, c₂, hspaces, rfl, rfl⟩ := h
  refine ⟨c₁, Forward.reaches hspaces, ?_⟩
  unfold contentFrom at h
  split at h
  all_goals
    simp only [bind_done_iff, pure_done_iff, Option.some.injEq, reduceCtorEq, false_and,
      and_false, exists_false, refuse_done_iff] at h
  · obtain ⟨_, _, h, rfl, rfl⟩ := h
    exact Or.inr ⟨hx, h⟩
  · obtain ⟨_, _, h, rfl, rfl⟩ := h
    exact Or.inl h

theorem pair_done {m : Literal} (h : reader c = .done (some (.pair path key m)) c') :
    ∃ c₁ c₂ c₃, Key.dotted c = .done (path, key) c₁ ∧ c₁.Reaches c₂ ∧
      Literal.value c₂ = .done m c₃ ∧ c₃.Reaches c' := by
  obtain ⟨c₁, hc₁, h | ⟨-, h⟩⟩ := reader_done h
  · simp only [pairReader, bind_done_iff, pure_done_iff, Line.pair.injEq] at h
    obtain ⟨⟨path, key⟩, c₃, hkey, _, c₄, hequals, _, c₅, hspaces, m, c₆, hm, _, c₇, hrest,
      ⟨rfl, rfl, rfl⟩, rfl⟩ := h
    exact ⟨c₃, c₅, c₆, hkey, (Forward.reaches hequals).trans (Forward.reaches hspaces), hm,
      (Forward.reaches hrest).trans hc₁⟩
  · simp [headerReader] at h

/-- A header has the span of its brackets and of what is between them. -/
theorem header_done {span : Span} (h : reader c = .done (some (.header path key span)) c') :
    c.rest.head? = some '[' ∧ span.start = c.position ∧ span.start ≤ span.stop ∧
      span.stop ≤ c'.position := by
  obtain ⟨c₁, hc₁, h | ⟨hbracket, h⟩⟩ := reader_done h
  · simp [pairReader] at h
  · simp only [headerReader, bind_done_iff, pure_done_iff, Line.header.injEq] at h
    obtain ⟨header, c₂, hheader, ⟨rfl, rfl, rfl⟩, rfl⟩ := h
    obtain ⟨cs, _, hupcoming, h⟩ := bind_done_iff.mp hheader
    obtain ⟨-, rfl⟩ := upcoming_done_iff.mp hupcoming
    have hread : ∃ opening closing, Progress.headerLine opening closing c = .done header c₂ := by
      split at h <;> exact ⟨_, _, h⟩
    obtain ⟨opening, closing, hread⟩ := hread
    obtain ⟨hstart, hopening, hstop⟩ := Progress.headerLine_done hread
    have := hc₁.position_le
    exact ⟨hbracket, hstart, by omega, by omega⟩

end Line

/-- Every line of a text was read somewhere in it. -/
theorem read_of_mem_linesOf {text : String} {ls : List Line} {l : Line}
    (h : linesOf text = some ls) (hl : l ∈ ls) :
    ∃ c c', (Cursor.ofText text).Reaches c ∧ Line.reader c = .done (some l) c' := by
  unfold linesOf at h
  split at h
  · next hread =>
    obtain rfl := Option.some.inj h
    simp only [lines, bind_done_iff, pure_done_iff] at hread
    obtain ⟨_, c₁, hmark, _, c₂, hspaces, more, c₃, hmore, _, _, -, rfl, -⟩ := hread
    obtain ⟨c, c', hc, hline, -⟩ := (many_done hmore).2 _ (List.reduceOption_mem_iff.mp hl)
    exact ⟨c, c', ((Forward.reaches hmark).trans (Forward.reaches hspaces)).trans hc, hline⟩
  · cases h
  · cases h

/-! ## What headers open -/

/-- Where the text under a header ends that itself ends at `stop`: with the last pair in front
of the next header, if there is one. -/
def bodyEnd (stop : Nat) : List Line → Nat
  | .pair _ _ value :: ls => bodyEnd (value.span?.elim stop Span.stop) ls
  | _ => stop

/-- The tables that headers open, each with the names that lead to it and with its text. -/
def openings : List Line → List (List String × Span)
  | [] => []
  | .pair _ _ _ :: ls => openings ls
  | .header path key span :: ls =>
    (TableOf.names (path ++ [key]), ⟨span.start, bodyEnd span.stop ls⟩) :: openings ls

section

variable {ls : List Line} {path : List Key} {key : Key} {value : Literal} {span : Span}

/-- The root is opened by no header. -/
theorem ne_nil_of_mem_openings {o : List String × Span} (h : o ∈ openings ls) : o.1 ≠ [] := by
  induction ls with
  | nil => cases h
  | cons l ls ih =>
    cases l with
    | pair path key value => exact ih h
    | header path key span =>
      rcases List.mem_cons.mp h with rfl | hmore
      · simp [TableOf.names]
      · exact ih hmore

theorem bodyEnd_header (stop : Nat) : ∀ ls : List Line,
    bodyEnd stop (ls ++ [.header path key span]) = bodyEnd stop ls
  | [] => rfl
  | .pair _ _ _ :: ls => bodyEnd_header _ ls
  | .header _ _ _ :: _ => rfl

theorem openings_header : ∀ ls : List Line, openings (ls ++ [.header path key span]) =
    openings ls ++ [(TableOf.names (path ++ [key]), span)]
  | [] => rfl
  | .pair _ _ _ :: ls => openings_header ls
  | .header _ _ _ :: ls => by
    rw [List.cons_append, openings, openings, bodyEnd_header, openings_header ls, List.cons_append]

theorem bodyEnd_pair (hspan : value.span? = some span) (stop : Nat) : ∀ ls : List Line,
    bodyEnd stop (ls ++ [.pair path key value]) =
      if openings ls = [] then span.stop else bodyEnd stop ls
  | [] => by simp [bodyEnd, openings, hspan]
  | .pair _ _ _ :: ls => bodyEnd_pair hspan _ ls
  | .header _ _ _ :: ls => by simp [bodyEnd, openings]

/-- The same table, up to where a value ends. -/
def extendedTo (stop : Nat) (o : List String × Span) : List String × Span :=
  (o.1, ⟨o.2.start, stop⟩)

/-- A pair is written under the last header. -/
theorem openings_pair (path : List Key) (key : Key) (hspan : value.span? = some span) :
    ∀ ls : List Line, openings (ls ++ [.pair path key value]) = (openings ls).dropLast ++
      ((openings ls).getLast?.map (extendedTo span.stop)).toList
  | [] => rfl
  | .pair _ _ _ :: ls => openings_pair path key hspan ls
  | .header _ _ _ :: ls => by
    rw [List.cons_append, openings, openings, bodyEnd_pair hspan, openings_pair path key hspan ls]
    cases hls : openings ls with
    | nil => simp [extendedTo]
    | cons o os => simp

end

end Toml

end Configurable
