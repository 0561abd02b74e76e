/-!
# Problems with a configuration

Every problem that can be reported about what a user has written, by its cause. The wording
of each is in `message`; `code` groups the problems, and `help?` says what to do about
some of them.
-/

namespace Configurable

inductive Problem where
  | invalidDocument (issues : String)
  | fileNotFound (path : String)
  | emptyFile (path : String)
  | unreadableFile (path reason : String)
  | notASection (module : String)
  | typeMismatch (name expected found : String)
  | fieldMismatch (field name expected found : String)
  | byteOutOfRange (name value : String)
  | unknownField (field name record : String)
  | missingField (field record name : String)
  | missingKey (key table name : String)
  | duplicateKey (value key name : String)
  | unsupportedType (name type : String)
  | unsupportedFieldType (type name : String)
  | unsupportedConstraint (type name : String)
  | unsupportedArgument (name type : String)
  | clashingArguments (name arguments : String)
  | claimedArgument (name existing suggestion : String)
  | severalSections (name sections : String)
  | missingValue (name : String)
  | duplicateVariable (name module : String)
  | unusedArgument (argument : String)
  | unusedEntry (entry : String)
deriving DecidableEq, Repr

namespace Problem

def message : Problem → String
  | invalidDocument issues => s!"invalid toml file : \n{issues}"
  | fileNotFound path => s!"configuration file is not found in path '{path}'"
  | emptyFile path =>
    s!"an empty configuration file is found in path '{path}'. " ++
      "Please provide values for configurable variables"
  | unreadableFile path reason => s!"failed to read configuration file '{path}': {reason}"
  | notASection module =>
    s!"invalid module structure found for module '{module}'. " ++
      s!"Please provide the module name as '[{module}]'"
  | typeMismatch name expected found =>
    s!"configurable variable '{name}' is expected to be of type '{expected}', " ++
      s!"but found '{found}'"
  | fieldMismatch field name expected found =>
    s!"field '{field}' from configurable variable '{name}' is expected to be of type " ++
      s!"'{expected}', but found '{found}'"
  | byteOutOfRange name value =>
    s!"value provided for byte variable '{name}' is out of range. " ++
      s!"Expected range is (0-255), found '{value}'"
  | unknownField field name record =>
    s!"additional field '{field}' provided for configurable variable '{name}' of record " ++
      s!"'{record}' is not supported"
  | missingField field record name =>
    s!"value not provided for non-defaultable required field '{field}' of record " ++
      s!"'{record}' in configurable variable '{name}'"
  | missingKey key table name =>
    s!"value required for key '{key}' of type '{table}' in configurable variable '{name}'"
  | duplicateKey value key name =>
    s!"duplicate key value '{value}' for key '{key}' in configurable variable '{name}'"
  | unsupportedType name type =>
    s!"configurable variable '{name}' with type '{type}' is not supported"
  | unsupportedFieldType type name =>
    s!"field type '{type}' in configurable variable '{name}' is not supported"
  | unsupportedConstraint type name =>
    s!"table constraint type '{type}' in configurable variable '{name}' is not supported"
  | unsupportedArgument name type =>
    s!"value for configurable variable '{name}' with type '{type}' is not supported " ++
      "as a command line argument"
  | clashingArguments name arguments =>
    s!"configurable value for variable '{name}' clashes with multiple command line " ++
      s!"arguments {arguments}"
  | claimedArgument name existing suggestion =>
    s!"configurable variable '{name}' is ambiguous with '{existing}'. " ++
      s!"Please provide the value as '{suggestion}'"
  | severalSections name sections =>
    s!"configurable variable '{name}' is provided in multiple sections {sections}"
  | missingValue name =>
    s!"value not provided for required configurable variable '{name}'"
  | duplicateVariable name module =>
    s!"configurable variable '{name}' is declared more than once in module '{module}'"
  | unusedArgument argument => s!"unused command line argument '{argument}'"
  | unusedEntry entry => s!"unused configuration value '{entry}'"

def code : Problem → String
  | invalidDocument _ => "config::parse"
  | fileNotFound _ => "config::file_not_found"
  | emptyFile _ => "config::empty_file"
  | unreadableFile _ _ => "config::file_read"
  | notASection _ => "config::structure"
  | typeMismatch _ _ _ | fieldMismatch _ _ _ _ => "config::type_mismatch"
  | byteOutOfRange _ _ => "config::byte_range"
  | unknownField _ _ _ => "config::additional_field"
  | missingField _ _ _ => "config::missing_field"
  | missingKey _ _ _ => "config::missing_table_key"
  | duplicateKey _ _ _ => "config::duplicate_table_key"
  | unsupportedType _ _ | unsupportedFieldType _ _ | unsupportedConstraint _ _ =>
    "config::unsupported_type"
  | unsupportedArgument _ _ => "config::cli_type_not_supported"
  | clashingArguments _ _ | claimedArgument _ _ _ | severalSections _ _ => "config::ambiguity"
  | missingValue _ => "config::missing_value"
  | duplicateVariable _ _ => "config::duplicate_variable"
  | unusedArgument _ | unusedEntry _ => "config::unused_value"

def help? : Problem → Option String
  | invalidDocument _ =>
    some "Fix the listed syntax issues; the file is ignored until it parses."
  | notASection _ => some "Module sections must be TOML tables."
  | unsupportedArgument _ _ =>
    some "Provide structured values through a TOML configuration file."
  | _ => none

end Problem

end Configurable
