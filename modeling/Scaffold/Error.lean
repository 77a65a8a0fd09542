/-!
What can go wrong, by cause. Every error has a kind and a detail, and its message is the
wording of the kind around the detail.
-/

namespace Scaffold

/-- Why the file system refused. -/
inductive FileFault where
  | notFound
  | alreadyExists
  | notDirectory
  | isDirectory
  | nameTooLong
  | tooManyLinks
  | nulInName
  | notText
  | notRegularSource
  deriving DecidableEq

def FileFault.message : FileFault → String
  | .notFound => "No such file or directory (os error 2)"
  | .alreadyExists => "File exists (os error 17)"
  | .notDirectory => "Not a directory (os error 20)"
  | .isDirectory => "Is a directory (os error 21)"
  | .nameTooLong => "File name too long (os error 36)"
  | .tooManyLinks => "Too many levels of symbolic links (os error 40)"
  | .nulInName => "file name contained an unexpected NUL byte"
  | .notText => "stream did not contain valid UTF-8"
  | .notRegularSource => "the source path is neither a regular file nor a symlink to a regular file"

/-- Why a glob pattern cannot be read. -/
inductive GlobFault where
  | unclosedClass
  | invalidRange (first last : Char)
  | unclosedGroup
  | unopenedGroup
  | danglingEscape
  deriving DecidableEq

def GlobFault.message : GlobFault → String
  | .unclosedClass => "unclosed character class; missing ']'"
  | .invalidRange first last =>
    "invalid range; '" ++ String.singleton first ++ "' > '" ++ String.singleton last ++ "'"
  | .unclosedGroup =>
    "unclosed alternate group; missing '\x7d' (maybe escape '\x7b' with '[\x7b]'?)"
  | .unopenedGroup =>
    "unopened alternate group; missing '\x7b' (maybe escape '\x7d' with '[\x7d]'?)"
  | .danglingEscape => "dangling '\\'"

/-- Why a question has no answer. -/
inductive PromptFault where
  | noReplyLeft
  | notText
  | notBoolean
  | noTerminal
  deriving DecidableEq

def PromptFault.message : PromptFault → String
  | .noReplyLeft => "no reply left"
  | .notText => "reply is not text"
  | .notBoolean => "reply is not a boolean"
  | .noTerminal => "IO error: not a terminal"

inductive Error where
  | io (fault : FileFault)
  | badJson
  | badYaml
  | badFlagName (key : String)
  | emptyPlaceholder
  | unreadableDirectory (path : String) (fault : FileFault)
  | templateNotDirectory (path : String)
  | templateMissing (path : String)
  | outputExists (path : String)
  | flagConflict (key : String)
  | nameMissing
  | nameInvalid (name : String)
  | answersNotObject
  | badIgnorePattern (glob : String) (fault : GlobFault)
  | prompt (fault : PromptFault)
  | cancelled
  | entryOutside (source : String)
  | entryUnreadable (source : String) (fault : FileFault)
  deriving DecidableEq

namespace Error

inductive Kind where
  | io
  | json
  | yaml
  | configuration
  | template
  | templateMissing
  | outputExists
  | validation
  | ignoreFile
  | prompt
  | cancelled
  | entry
  deriving DecidableEq

def kind : Error → Kind
  | .io _ => .io
  | .badJson => .json
  | .badYaml => .yaml
  | .badFlagName _ | .emptyPlaceholder => .configuration
  | .unreadableDirectory _ _ | .templateNotDirectory _ => .template
  | .templateMissing _ => .templateMissing
  | .outputExists _ => .outputExists
  | .flagConflict _ | .nameMissing | .nameInvalid _ | .answersNotObject => .validation
  | .badIgnorePattern _ _ => .ignoreFile
  | .prompt _ => .prompt
  | .cancelled => .cancelled
  | .entryOutside _ | .entryUnreadable _ _ => .entry

/-- The entry of the template that the error is about. -/
def source : Error → String
  | .entryOutside source | .entryUnreadable source _ => source
  | _ => ""

def detail : Error → String
  | .io fault => fault.message
  | .badJson | .badYaml | .cancelled => ""
  | .badFlagName key => "'" ++ key ++ "' cannot be used as a flag name"
  | .emptyPlaceholder => "placeholders must not be empty"
  | .unreadableDirectory path fault =>
    "IO error for operation on " ++ path ++ ": " ++ fault.message
  | .templateNotDirectory path => "'" ++ path ++ "' is not a directory"
  | .templateMissing path | .outputExists path => path
  | .flagConflict key => "flag '" ++ key ++ "' is both enabled and disabled"
  | .nameMissing => "project name is required"
  | .nameInvalid name =>
    "'" ++ name ++ "' is not a valid project name: use letters, digits, '.', '_' and '-'"
  | .answersNotObject => "answers must be a JSON object"
  | .badIgnorePattern glob fault =>
    ".msgenignore loading failed: error parsing glob '" ++ glob ++ "': " ++ fault.message
  | .prompt fault => fault.message
  | .entryOutside _ => "path is outside the template or not valid UTF-8"
  | .entryUnreadable _ fault => fault.message

/-- The reason a JSON or YAML text was refused is not kept, so these two end early. -/
def Kind.wording (kind : Kind) (source detail : String) : String :=
  match kind with
  | .io => "IO error: " ++ detail ++ "."
  | .json => "Failed to parse JSON"
  | .yaml => "Failed to parse YAML"
  | .configuration => "Configuration error: " ++ detail ++ "."
  | .template => "Template error: " ++ detail ++ "."
  | .templateMissing => "Template directory '" ++ detail ++ "' does not exist."
  | .outputExists =>
    "Output directory '" ++ detail ++ "' already exists. Use --force to overwrite it."
  | .validation => "Validation error: " ++ detail ++ "."
  | .ignoreFile => "Ignore file error: " ++ detail ++ "."
  | .prompt => "Prompt error: " ++ detail ++ "."
  | .cancelled => "Generation cancelled."
  | .entry => "Cannot process '" ++ source ++ "': " ++ detail ++ "."

def message (e : Error) : String := e.kind.wording e.source e.detail

end Error

end Scaffold
