/-!
# Modules

A module is identified by its organization, its name and its version. Names of
sub-modules are dotted, such as `core.util.io`.
-/

namespace Configurable

structure ModuleId where
  org : String
  name : String
  version : String
deriving DecidableEq, Repr

/-- The parts of a text between the separators. There is always at least one part. -/
def splitOn (separator : Char) : List Char → List (List Char)
  | [] => [[]]
  | c :: cs =>
    if c = separator then [] :: splitOn separator cs
    else
      match splitOn separator cs with
      | [] => [[c]]
      | part :: parts => (c :: part) :: parts

namespace ModuleId

/-- The section name that addresses the module from anywhere. -/
def qualifiedName (m : ModuleId) : String := s!"{m.org}.{m.name}"

def render (m : ModuleId) : String := s!"{m.org}/{m.name}:{m.version}"

/-- The segments of the dotted name. -/
def segments (m : ModuleId) : List String := (splitOn '.' m.name.toList).map String.ofList

/-- By organization, then name, then version, each by code point. -/
def le (a b : ModuleId) : Bool :=
  if a.org ≠ b.org then decide (a.org < b.org)
  else if a.name ≠ b.name then decide (a.name < b.name)
  else decide (a.version ≤ b.version)

def sort (ms : List ModuleId) : List ModuleId := ms.mergeSort le

end ModuleId

end Configurable
