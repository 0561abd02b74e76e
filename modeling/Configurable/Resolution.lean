import Configurable.Resolver
import Configurable.Source.Any

/-!
# Configurations of a program

Where a program's configuration comes from, and what comes of resolving its variables. The
settings are the arguments of the command line, a list of files and a document given
directly; in default of files and document there is one file in the working directory.
-/

namespace Configurable

/-- Which of the command line and the documents is asked first. -/
inductive SourceOrder where
  | commandLineFirst
  | documentsFirst
deriving DecidableEq, Repr

structure Settings where
  arguments : List String
  files : List String
  data : Option String
  order : SourceOrder
deriving DecidableEq, Repr

namespace Settings

def defaultFile : String := "Config.toml"

/-- The settings that arguments and the values of two environment variables make: a list of
files separated like a search path, and the text of a document. -/
def ofEnvironment (arguments : List String) (files data : Option String) : Settings :=
  let listed := (files.map fun list =>
    ((splitOn ':' list.toList).map String.ofList).filter fun path => !path.isEmpty).getD []
  let files := if listed.isEmpty && data.isNone then [defaultFile] else listed
  ⟨arguments, files, data, .commandLineFirst⟩

/-- The sources in the order in which they are asked. The document given directly comes
before the files. -/
def sources (s : Settings) (root : ModuleId) : List ConfigSource :=
  let commandLine := ConfigSource.commandLine (.ofArguments root s.arguments)
  let origins := s.data.toList.map DocumentOrigin.content ++ s.files.map DocumentOrigin.file
  let documents := origins.map fun origin => ConfigSource.document (.ofOrigin root origin)
  match s.order with
  | .commandLineFirst => commandLine :: documents
  | .documentsFirst => documents ++ [commandLine]

end Settings

/-- What has come of a program's configuration. The values are to be used only if the log
has no errors. -/
structure Resolution where
  values : Values
  log : Log

namespace Resolution

/-- Resolves variables from sources in the order in which they are asked. -/
def ofSources {σ : Type} [Source σ] (files : FileTree) (g : TypeGraph)
    (declarations : Declarations) (sources : List σ) : Resolution :=
  let pass := Pass.run files g declarations sources
  ⟨pass.values, pass.log⟩

/-- Resolves the variables of a program whose entry module is `root`. -/
def ofSettings (files : FileTree) (g : TypeGraph) (root : ModuleId)
    (declarations : Declarations) (settings : Settings) : Resolution :=
  ofSources files g declarations (settings.sources root)

end Resolution

end Configurable
