import PluginAtlas.Schema.Number
import PluginAtlas.Text.Casing

/-!
# Settings

What can be configured, with its defaults. Settings are read from the variables of an
environment: a variable is named by a common start and the field, letter case ignored,
and lists are written as JSON.

## Main definitions

* `Seconds`: a span of time as it was stated.
* `Settings`: the settings and their defaults.
* `Settings.ofEnvironment`: the settings of an environment.
* `SettingsError`: why an environment has none.
-/

namespace PluginAtlas

/-- A span of time in seconds, whole or not, as it was stated. -/
inductive Seconds where
  | whole (n : Int)
  | precise (x : Decimal.Binary64)
deriving DecidableEq, Repr, Inhabited

namespace Seconds

/-- The value of a span. -/
def toJson : Seconds → Json
  | whole n => .int n
  | precise x => .float x

/-- Whether a span is empty. -/
def isZero : Seconds → Bool
  | whole n => n == 0
  | precise x => x.isZero

/-- The stated span, or the fallback if none is stated or it is empty. -/
def orElse (stated : Option Seconds) (fallback : Seconds) : Seconds :=
  match stated with
  | some span => if span.isZero then fallback else span
  | none => fallback

end Seconds

/-- The settings of the analyzer. -/
structure Settings where
  appName : String := "Plugin Profiler"
  logLevel : String := "INFO"
  logJson : Bool := false
  host : String := "127.0.0.1"
  port : Int := 8000
  reload : Bool := false
  /-- Patterns that are skipped unless others are given. -/
  defaultBlacklist : List String := ["vendor/", "node_modules/", ".git/", ".*/"]
  /-- The files of a plugin that hold further patterns. -/
  ignoreFiles : List String := [".gitignore", ".profilerignore"]
  /-- Larger files are skipped. -/
  maxFileSize : Int := 2097152
  scriptParser : String := "native"
  /-- The command of the external extractor. -/
  extractorCommand : String := ""
  extractorTimeout : Seconds := .precise (.ofInt 30)
  /-- Where the plugin lies on the host. -/
  hostPath : String := ""
  outputDir : String := "output"
  llmProvider : String := "openai"
  llmModel : String := "gpt-4o-mini"
  llmApiKey : String := ""
  /-- Replaces the address of the provider. -/
  llmBaseUrl : String := ""
  llmBatchSize : Int := 25
  llmTimeout : Seconds := .precise (.ofInt 60)
deriving Inhabited

/-- Why an environment gives no settings. -/
inductive SettingsError where
  /-- The text of a list field is no JSON. -/
  | unreadable (field : String)
  | invalid (defects : List Schema.Defect)

/-- The wording of an error. -/
def SettingsError.message : SettingsError → String
  | unreadable field =>
    "error parsing value for field \"" ++ field ++ "\" from source \"EnvSettingsSource\""
  | invalid _ => ""

namespace Settings

/-- The fields of the settings, in order. -/
def toJson (s : Settings) : Json :=
  let texts (items : List String) : Json := .arr (items.map .str)
  .obj [
    ("app_name", .str s.appName), ("log_level", .str s.logLevel), ("log_json", .bool s.logJson),
    ("host", .str s.host), ("port", .int s.port), ("reload", .bool s.reload),
    ("default_blacklist", texts s.defaultBlacklist), ("ignore_files", texts s.ignoreFiles),
    ("max_file_size_bytes", .int s.maxFileSize), ("script_parser", .str s.scriptParser),
    ("script_extractor_command", .str s.extractorCommand),
    ("script_extractor_timeout", s.extractorTimeout.toJson), ("host_path", .str s.hostPath),
    ("output_dir", .str s.outputDir), ("llm_provider", .str s.llmProvider),
    ("llm_model", .str s.llmModel), ("llm_api_key", .str s.llmApiKey),
    ("llm_base_url", .str s.llmBaseUrl), ("llm_batch_size", .int s.llmBatchSize),
    ("llm_timeout", s.llmTimeout.toJson)]

open Schema in
/-- Reads the settings from fields; what is not there keeps its default. -/
def ofFields (fields : List (String × Json)) : Checked Settings :=
  let defaults : Settings := {}
  let seconds : Shape Seconds := fun value => Seconds.precise <$> decimal value
  Settings.mk
    <$> optional fields "app_name" defaults.appName text
    <*> optional fields "log_level" defaults.logLevel text
    <*> optional fields "log_json" defaults.logJson truth
    <*> optional fields "host" defaults.host text
    <*> optional fields "port" defaults.port whole
    <*> optional fields "reload" defaults.reload truth
    <*> optional fields "default_blacklist" defaults.defaultBlacklist (listOf text)
    <*> optional fields "ignore_files" defaults.ignoreFiles (listOf text)
    <*> optional fields "max_file_size_bytes" defaults.maxFileSize whole
    <*> optional fields "script_parser" defaults.scriptParser text
    <*> optional fields "script_extractor_command" defaults.extractorCommand text
    <*> optional fields "script_extractor_timeout" defaults.extractorTimeout seconds
    <*> optional fields "host_path" defaults.hostPath text
    <*> optional fields "output_dir" defaults.outputDir text
    <*> optional fields "llm_provider" defaults.llmProvider text
    <*> optional fields "llm_model" defaults.llmModel text
    <*> optional fields "llm_api_key" defaults.llmApiKey text
    <*> optional fields "llm_base_url" defaults.llmBaseUrl text
    <*> optional fields "llm_batch_size" defaults.llmBatchSize whole
    <*> optional fields "llm_timeout" defaults.llmTimeout seconds

/-- The fields whose variables are written as JSON. -/
def listFields : List String := ["default_blacklist", "ignore_files"]

/-- The value of a variable for a field, the last of those that differ in case only. -/
def setting? (environment : List (String × String)) (field : String) : Option String :=
  (environment.reverse.find? fun (name, _) => Text.lower name = "profiler_" ++ field).map (·.2)

/-- The value that a variable gives to a field; a JSON null gives none. -/
def variableValue (field content : String) : Except SettingsError (Option Json) :=
  if listFields.contains field then
    match Json.parse content with
    | .ok .null => .ok none
    | .ok value => .ok (some value)
    | .error _ => .error (.unreadable field)
  else .ok (some (.str content))

/-- The fields that an environment gives, of those listed. -/
def environmentFields (environment : List (String × String)) :
    List String → Except SettingsError (List (String × Json))
  | [] => .ok []
  | field :: rest => do
    let value ← match setting? environment field with
      | some content => variableValue field content
      | none => .ok none
    let others ← environmentFields environment rest
    match value with
    | some value => .ok ((field, value) :: others)
    | none => .ok others

/-- The names of all fields. -/
def fieldNames : List String :=
  match toJson {} with
  | .obj fields => fields.map (·.1)
  | _ => []

/-- The settings of an environment. -/
def ofEnvironment (environment : List (String × String)) : Except SettingsError Settings := do
  let fields ← environmentFields environment fieldNames
  match ofFields fields with
  | .valid settings => .ok settings
  | .faulty defects => .error (.invalid defects)

end Settings

end PluginAtlas
