import PluginAtlas.Json.Basic

/-!
# Notices

What an analysis warns of. A notice is an event with named values; its wording is
left to whoever prints it.

## Main definitions

* `Notice`: the events.
* `Notice.event`, `Notice.fields`: the name of an event and its values.
-/

namespace PluginAtlas

/-- Something worth a warning. -/
inductive Notice where
  | phpSyntaxErrors (file : String)
  | scriptSyntaxErrors (file : String)
  | manifestInvalid (file error : String)
  | manifestWithoutName (file : String)
  | extractorNotConfigured (file : String)
  | extractorTimeout (file : String) (timeout : Json)
  | extractorFailed (file error : String)
  | extractorDiagnostic (file message : String)
  | extractorExitStatus (file : String) (code : Int)
  | extractorWithoutPayload (file : String)
  | unknownStrategy (name : String)
  | fileTooLarge (path : String) (size : Nat) (limit : Int)
  | headUnreadable (path : String)
  | headerUnreadable (file error : String)
  | fileUnreadable (file error : String)
  | encodingFallback (file : String) (tried : List String)
  | extractionFailed (file kind : String)
  | replyWithoutJson
  | replyUnparseable (length : Nat)
  | requestFailed (model error : String)
  | replyEmpty (model : String)
  | batchFailed (start size : Nat) (error : String)

namespace Notice

/-- The name of the event. -/
def event : Notice → String
  | phpSyntaxErrors .. => "php_syntax_errors"
  | scriptSyntaxErrors .. => "script_syntax_errors"
  | manifestInvalid .. => "block_manifest_invalid_json"
  | manifestWithoutName .. => "block_manifest_missing_name"
  | extractorNotConfigured .. => "script_extractor_not_configured"
  | extractorTimeout .. => "script_extractor_timeout"
  | extractorFailed .. => "script_extractor_failed"
  | extractorDiagnostic .. => "script_extractor_diagnostic"
  | extractorExitStatus .. => "script_extractor_exit_status"
  | extractorWithoutPayload .. => "script_extractor_no_payload"
  | unknownStrategy .. => "no_parser_registered"
  | fileTooLarge .. => "file_too_large"
  | headUnreadable .. | headerUnreadable .. => "header_unreadable"
  | fileUnreadable .. => "file_unreadable"
  | encodingFallback .. => "encoding_fallback"
  | extractionFailed .. => "parse_failed"
  | replyWithoutJson => "llm_response_without_json"
  | replyUnparseable .. => "llm_response_unparseable"
  | requestFailed .. => "llm_request_failed"
  | replyEmpty .. => "llm_empty_response"
  | batchFailed .. => "llm_batch_failed"

/-- The named values of the event. -/
def fields : Notice → List (String × Json)
  | phpSyntaxErrors file | scriptSyntaxErrors file | manifestWithoutName file
  | extractorNotConfigured file | extractorWithoutPayload file => [("file", .str file)]
  | manifestInvalid file error | extractorFailed file error | headerUnreadable file error
  | fileUnreadable file error => [("file", .str file), ("error", .str error)]
  | extractorTimeout file timeout => [("file", .str file), ("timeout", timeout)]
  | extractorDiagnostic file message => [("file", .str file), ("message", .str message)]
  | extractorExitStatus file code => [("file", .str file), ("returncode", .int code)]
  | unknownStrategy name => [("strategy", .str name)]
  | fileTooLarge path size limit =>
    [("path", .str path), ("size", .int size), ("limit", .int limit)]
  | headUnreadable path => [("path", .str path)]
  | encodingFallback file tried => [("file", .str file), ("tried", .arr (tried.map .str))]
  | extractionFailed file kind => [("file", .str file), ("kind", .str kind)]
  | replyWithoutJson => []
  | replyUnparseable length => [("chars", .int length)]
  | requestFailed model error => [("model", .str model), ("error", .str error)]
  | replyEmpty model => [("model", .str model)]
  | batchFailed start size error =>
    [("batch_start", .int start), ("batch_size", .int size), ("error", .str error)]

end Notice

end PluginAtlas
