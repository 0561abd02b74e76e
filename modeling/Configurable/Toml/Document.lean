import Configurable.Toml.Node
import Configurable.Toml.Statement

/-!
# Parsed documents

The tree of a text together with the text. The root table covers the whole text.
-/

namespace Configurable.Toml

open Text (Span)

structure Document where
  source : Text.Named
  root : Node
  nodeCount : Nat

/-- Why a text is no document: a message, and the character it is about, which is empty at
the end of the text. -/
structure Issue where
  message : String
  span : Span
deriving DecidableEq, Repr

/-- The character that starts at `position`, or the one that contains it. -/
def characterAt (text : String) (position : Nat) : Span :=
  let before := Text.startingBefore text.toList position
  let rest := text.toList.drop before.length
  let start := Text.byteLength before
  if start ≤ position then ⟨start, start + Text.byteLength (rest.take 1)⟩
  else ⟨start - Text.byteLength (before.drop (before.length - 1)), start⟩

def Failure.toIssue (f : Failure) (text : String) : Issue :=
  ⟨f.message, characterAt text f.position⟩

namespace Document

def parse (source : Text.Named) : Except Issue Document :=
  match read source.text with
  | .error failure => .error (failure.toIssue source.text)
  | .ok table =>
    let (entries, next) := Item.toEntries table.entries 0
    let span : Span := ⟨0, source.text.utf8ByteSize⟩
    .ok ⟨source, .table next (some span) entries, next + 1⟩

/-- The text of a node, if it has one. -/
def rawText? (d : Document) (n : Node) : Option String :=
  n.span?.bind (Text.slice? d.source.text)

end Document

end Configurable.Toml
