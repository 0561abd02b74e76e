import Configurable.Source.CommandLine
import Configurable.Source.DocumentFile

/-!
# Command lines and documents alike

The two sources of a program's configuration as one type, so that they can stand in one
list.
-/

namespace Configurable

inductive ConfigSource where
  | commandLine (c : CommandLine)
  | document (f : DocumentFile)

namespace ConfigSource

instance : Source ConfigSource where
  start files
    | .commandLine c => (Source.start files c).map id .commandLine
    | .document f => (Source.start files f).map id .document
  hasUnused
    | .commandLine c => Source.hasUnused c
    | .document f => Source.hasUnused f
  read g kind v
    | .commandLine c => (Source.read g kind v c).map id .commandLine
    | .document f => (Source.read g kind v f).map id .document
  mark v
    | .commandLine c => .commandLine (Source.mark v c)
    | .document f => .document (Source.mark v f)
  complete
    | .commandLine c => (Source.complete c).map id .commandLine
    | .document f => (Source.complete f).map id .document

end ConfigSource

end Configurable
