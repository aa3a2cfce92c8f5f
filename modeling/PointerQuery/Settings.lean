import PointerQuery.Layout

namespace PointerQuery

/-- The settings in the order of their keys. -/
inductive Setting where
  | dataLayout
  | logDir
  | logLevel
  | logSpecFile
  | logToFile
  | strictRecursion
  deriving DecidableEq

namespace Setting

def all : List Setting :=
  [dataLayout, logDir, logLevel, logSpecFile, logToFile, strictRecursion]

def key : Setting → String
  | dataLayout => "plugins.pointsto.data_layout"
  | logDir => "plugins.pointsto.log_dir"
  | logLevel => "plugins.pointsto.log_level"
  | logSpecFile => "plugins.pointsto.log_spec_file"
  | logToFile => "plugins.pointsto.log_to_file"
  | strictRecursion => "plugins.pointsto.strict_recursion"

def ofKey? (key : String) : Option Setting :=
  all.find? fun s => s.key == key

theorem ofKey?_key (s : Setting) : ofKey? s.key = some s := by
  cases s <;> decide

def description : Setting → String
  | dataLayout =>
    "Pointer width and maximum integer alignment in bits. Format: 'p:<bits>,i:<bits>'"
  | logDir => "Directory of the log files."
  | logLevel => "Log level. One of: off, error, warn, info, debug, trace."
  | logSpecFile =>
    "TOML file with the log specification. It is watched and overrides plugins.pointsto.log_level. " ++
      "Created if missing. Empty disables it."
  | logToFile =>
    "Write the log into a file in plugins.pointsto.log_dir. Warnings are still printed."
  | strictRecursion => "Treat procedures with unresolved indirect calls as recursive."

/-- What is said about a text that does not pass the check. -/
def objection : Setting → String
  | dataLayout => "Data layout must be of the form 'p:<16|32|64>, i:<8|16|32|64|128>'"
  | logDir => "The log directory must not be empty."
  | logLevel => "Log level must be one of: " ++ String.intercalate ", " (LogLevel.all.map LogLevel.name)
  | logSpecFile => "The log specification file must be a .toml file."
  | logToFile | strictRecursion => "Value must be: 'true' or 'false'"

/-- Whether a text may be stored. -/
def accepts (s : Setting) (text : String) : Logged Bool :=
  match s with
  | dataLayout => Option.isSome <$> Layout.ofText text
  | logDir => pure (!(Text.trim text.toList).isEmpty)
  | logLevel => pure (LogLevel.ofText? text).isSome
  | logSpecFile =>
    let file := Text.trim text.toList
    pure (file.isEmpty || ".toml".toList.isSuffixOf file)
  | logToFile | strictRecursion => pure (Text.bool? text).isSome

end Setting

/-- The stored texts. -/
structure Settings where
  dataLayout : String := "p:64,i:64"
  logDir : String := "."
  logLevel : String := "info"
  logSpecFile : String := ""
  logToFile : String := "false"
  strictRecursion : String := "false"
  deriving DecidableEq

namespace Settings

def get (st : Settings) : Setting → String
  | .dataLayout => st.dataLayout
  | .logDir => st.logDir
  | .logLevel => st.logLevel
  | .logSpecFile => st.logSpecFile
  | .logToFile => st.logToFile
  | .strictRecursion => st.strictRecursion

def put (st : Settings) (s : Setting) (text : String) : Settings :=
  match s with
  | .dataLayout => { st with dataLayout := text }
  | .logDir => { st with logDir := text }
  | .logLevel => { st with logLevel := text }
  | .logSpecFile => { st with logSpecFile := text }
  | .logToFile => { st with logToFile := text }
  | .strictRecursion => { st with strictRecursion := text }

theorem get_put (st : Settings) (s t : Setting) (text : String) :
    (st.put s text).get t = if t = s then text else st.get t := by
  cases s <;> cases t <;> rfl

/-- Stores a text under a key if the key is known and the text passes the check, and tells whether it did. -/
def set (st : Settings) (key text : String) : Logged (Bool × Settings) :=
  match Setting.ofKey? key with
  | none => do
    Logged.report .error s!"Unknown setting '{key}'"
    pure (false, st)
  | some s => do
    if ← s.accepts text then pure (true, st.put s text)
    else
      Logged.report .error s.objection
      pure (false, st)

def get? (st : Settings) (key : String) : Option String :=
  (Setting.ofKey? key).map st.get

def description? (_ : Settings) (key : String) : Option String :=
  (Setting.ofKey? key).map Setting.description

def keys (_ : Settings) : List String :=
  Setting.all.map Setting.key

/-- Stored levels can be read; the default stands in for one that could not. -/
def level (st : Settings) : LogLevel :=
  (LogLevel.ofText? st.logLevel).getD .info

def writesFile (st : Settings) : Bool :=
  (Text.bool? st.logToFile).getD false

def directory (st : Settings) : String :=
  Text.trimmed st.logDir

/-- The file with the log specification; a blank text means that there is none. -/
def specFile? (st : Settings) : Option String :=
  let file := Text.trimmed st.logSpecFile
  if file.isEmpty then none else some file

def layout (st : Settings) : Layout :=
  (Layout.ofText st.dataLayout).value.getD .standard

def isStrict (st : Settings) : Bool :=
  (Text.bool? st.strictRecursion).getD false

end Settings

end PointerQuery
