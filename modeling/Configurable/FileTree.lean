import Configurable.ModuleId

/-!
# Files

The files that a configuration may be read from, as a tree below the working directory. A
path is followed name by name, and every name but the last has to lead into a directory.
-/

namespace Configurable

inductive FileEntry where
  | file (content : ByteArray)
  | directory

/-- Files and directories by the names that lead to them. A name that leads to one of them
is a directory, whether it is listed or not. -/
structure FileTree where
  entries : List (List String × FileEntry)

/-- Why something that exists has no text. -/
inductive Unreadable where
  | isDirectory
  | notUtf8
deriving DecidableEq, Repr

def Unreadable.message : Unreadable → String
  | .isDirectory => "Is a directory (os error 21)"
  | .notUtf8 => "stream did not contain valid UTF-8"

namespace FileTree

/-- The parts of a path between slashes. -/
def parts (path : String) : List String := (splitOn '/' path.toList).map String.ofList

def empty : FileTree := ⟨[]⟩

/-- The tree without what stands at these names. -/
def erase (t : FileTree) (path : String) : FileTree :=
  let names := (parts path).filter fun p => p ≠ "" ∧ p ≠ "."
  ⟨t.entries.filter (·.1 ≠ names)⟩

def insert (t : FileTree) (path : String) (entry : FileEntry) : FileTree :=
  let names := (parts path).filter fun p => p ≠ "" ∧ p ≠ "."
  ⟨(t.erase path).entries ++ [(names, entry)]⟩

def ofList (files : List (String × FileEntry)) : FileTree :=
  files.foldl (fun t (path, entry) => t.insert path entry) empty

/-- What the names lead to from the working directory. -/
def at? (t : FileTree) (names : List String) : Option FileEntry :=
  match t.entries.find? (·.1 = names) with
  | some (_, entry) => some entry
  | none =>
    if names.isEmpty || t.entries.any fun e => names.isPrefixOf e.1 then some .directory
    else none

def isDirectory (t : FileTree) (names : List String) : Bool :=
  match t.at? names with
  | some .directory => true
  | _ => false

/-- Whether a part of a path leads to no name of its own. -/
def isStep (part : String) : Bool := part == "" || part == "." || part == ".."

/-- Follows the parts of a path from the directory that `names` lead to. Above the working
directory nothing is known but that the directories there exist. -/
def follow? (t : FileTree) : (names : List String) → (path : List String) → Option FileEntry
  | names, [] => t.at? names
  | names, part :: path =>
    if t.isDirectory names then
      if part = "" ∨ part = "." then t.follow? names path
      else if part = ".." then
        if names.isEmpty then (if path.all isStep then some .directory else none)
        else t.follow? names.dropLast path
      else t.follow? (names ++ [part]) path
    else none

def get? (t : FileTree) (path : String) : Option FileEntry :=
  if path.isEmpty || path.startsWith "/" then none else t.follow? [] (parts path)

/-- The text of what a path leads to; nothing if it leads nowhere. -/
def read? (t : FileTree) (path : String) : Option (Except Unreadable String) :=
  match t.get? path with
  | none => none
  | some .directory => some (.error .isDirectory)
  | some (.file content) =>
    match String.fromUTF8? content with
    | some text => some (.ok text)
    | none => some (.error .notUtf8)

/-- The last name of a path, or the path if it has none. -/
def fileName (path : String) : String :=
  match ((parts path).filter fun p => p ≠ "" ∧ p ≠ ".").getLast? with
  | none => path
  | some name => if name = ".." then path else name

end FileTree

end Configurable
