import PluginAtlas.Describe.Client
import PluginAtlas.Plugin.Analysis

/-!
# The analysis service

The service answers requests over HTTP: a request names a plugin, and the answer is the
document of its graph. The graph can be described by a language model on the way, and
its document can be written to a file as well.

## Main definitions

* `AnalyzeRequest`, `AnalyzeRequest.ofBody`: what a request asks for.
* `Response`: an answer.
* `Service`, `Service.analyze`: the answer to a request for an analysis.
* `Service.respond`: the answer to any request.
-/

namespace PluginAtlas

/-- What is asked for in the body of a request. -/
structure AnalyzeRequest where
  path : String
  blacklist : Option (List String)
  scriptParser : Option String
  descriptions : Bool
  output : Option String

open Schema in
/-- Reads the fields of a request. -/
def AnalyzeRequest.ofFields (fields : List (String × Json)) : Checked AnalyzeRequest :=
  AnalyzeRequest.mk
    <$> required fields "path" text
    <*> optional fields "blacklist" none (orNull (listOf text))
    <*> optional fields "script_parser" none (orNull text)
    <*> optional fields "descriptions" false truth
    <*> optional fields "output" none (orNull text)

/-- A body has to be an object. -/
def AnalyzeRequest.ofObject : Schema.Shape AnalyzeRequest
  | .null => .flawed .missing
  | .obj fields => ofFields fields
  | _ => .flawed .notRecord

/-- Reads the body of a request. -/
def AnalyzeRequest.ofBody (body : Json) : Schema.Checked AnalyzeRequest :=
  (ofObject body).within (.field "body")

/-- An answer of the service. -/
inductive Response where
  | document (content : Json)
  | invalid (defects : List Schema.Defect)
  | refused (status : Nat) (detail : String)

/-- The status of an answer. -/
def Response.status : Response → Nat
  | document _ => 200
  | invalid _ => 422
  | refused status _ => status

/-- Whether an error of an analysis lies in what was asked for. -/
def AnalysisError.isOfRequest : AnalysisError → Bool
  | pattern (.badRange ..) | unreachable _ => false
  | _ => true

/-- The answer to an analysis that did not take place. -/
def Response.ofError (e : AnalysisError) : Response :=
  if e.isOfRequest then .refused 400 e.message
  else .refused 500 ("Analysis failed: " ++ e.message)

/-- The service with its surroundings and the answers of its language model. -/
structure Service where
  surroundings : Surroundings
  answers : Nat → Describe.Answer

namespace Service

/-- The graph with descriptions, if they are asked for. -/
def described (s : Service) (request : AnalyzeRequest) (g : Graph) : Traced Graph :=
  if request.descriptions then do
    let settings := s.surroundings.settings
    let client := Describe.Client.of settings {}
    client.connect
    let size := Describe.batchSize settings none
    return (← Describe.describe (client.describer s.answers) size g).1
  else pure g

/-- The path that a document is written to; a relative one lies in the output folder. -/
def outputPath (s : Service) (output : String) : Path :=
  .parse (joinPaths s.surroundings.settings.outputDir output)

/-- The disk after the document is written, if that is asked for. -/
def written (s : Service) (request : AnalyzeRequest) (document : Json) :
    Except DiskError FileTree :=
  match request.output with
  | none | some "" => .ok s.surroundings.disk
  | some output =>
    s.surroundings.disk.write (s.outputPath output) (Text.encode (Json.render .pretty document))

/-- The answer to a request for an analysis, and the disk after it. -/
def analyze (s : Service) (request : AnalyzeRequest) : Traced (Response × FileTree) := do
  let disk := s.surroundings.disk
  let options : AnalysisOptions := {
    blacklist := request.blacklist
    reader := .named (request.scriptParser.getD "") }
  match ← PluginAtlas.analyze s.surroundings request.path options with
  | .error e => return (.ofError e, disk)
  | .ok g =>
    let g ← s.described request g
    match s.written request g.document with
    | .ok disk => return (.document g.document, disk)
    | .error e => return (.refused 500 ("Could not write graph: " ++ e.message), disk)

/-- The path of an address, without query and without slashes at its end. -/
def routeOf (url : String) : String :=
  let path := String.ofList (url.toList.takeWhile fun c => c != '?' && c != '#')
  Text.trimEnd (· == '/') path

/-- The answer to any request, and the disk after it. The method may be written in any
letter case. -/
def respond (s : Service) (method url : String) (body : Json) :
    Traced (Response × FileTree) := do
  let disk := s.surroundings.disk
  if routeOf url ≠ "/analyze" then return (.refused 404 "Not Found", disk)
  if Text.upper method ≠ "POST" then return (.refused 405 "Method Not Allowed", disk)
  match AnalyzeRequest.ofBody body with
  | .faulty defects => return (.invalid defects, disk)
  | .valid request => s.analyze request

end Service

end PluginAtlas
