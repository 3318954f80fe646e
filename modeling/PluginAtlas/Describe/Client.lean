import PluginAtlas.Describe.Batch
import PluginAtlas.Json.Writer

/-!
# Clients of language models

A client knows the model it asks, where the model is reached, and how long to wait. The
providers share one protocol and differ in their address. A request that fails or has an
empty answer gives no descriptions.

## Main definitions

* `providers`: the addresses of the providers.
* `Client`, `Client.of`: a client, filled up from the settings.
* `Answer`: what becomes of a request.
* `Client.ask`, `Client.describer`: asks for the descriptions of a batch.
-/

namespace PluginAtlas.Describe

/-- The address of the provider that is taken for unknown ones. -/
def defaultAddress : String := "https://api.openai.com/v1/"

/-- The addresses of the providers. -/
def providers : List (String × String) := [
  ("openai", defaultAddress),
  ("gemini", "https://generativelanguage.googleapis.com/v1beta/openai/"),
  ("deepseek", "https://api.deepseek.com/v1/"),
  ("claude", "https://api.anthropic.com/v1/"),
  ("ollama", "http://localhost:11434/v1/")]

/-- What can be stated about a client; empty texts and spans count as not stated. -/
structure ClientOptions where
  provider : String := ""
  apiKey : String := ""
  model : String := ""
  baseUrl : String := ""
  timeout : Option Seconds := none
deriving Inhabited

/-- A client of a language model. -/
structure Client where
  apiKey : String
  model : String
  baseUrl : String
  timeout : Seconds
deriving DecidableEq, Repr

/-- The first text that is not empty. -/
def firstStated : List String → String
  | [] => ""
  | s :: rest => if s = "" then firstStated rest else s

/-- How freely a model may answer. -/
def temperature : Decimal.Binary64 := .ofDecimal false 2 (-1)

/-- How often a failed request is repeated. -/
def retries : Nat := 1

namespace Client

/-- The client for what is stated, filled up from the settings. -/
def of (settings : Settings) (options : ClientOptions) : Client :=
  let provider := Text.lower (firstStated [options.provider, settings.llmProvider])
  { apiKey := firstStated [options.apiKey, settings.llmApiKey]
    model := firstStated [options.model, settings.llmModel]
    baseUrl := firstStated [options.baseUrl, settings.llmBaseUrl,
      (providers.lookup provider).getD defaultAddress]
    timeout := Seconds.orElse options.timeout settings.llmTimeout }

/-- Sets up the connection; a missing key is replaced by a word. -/
def connect (c : Client) : Traced Unit :=
  Traced.call (.connection (firstStated [c.apiKey, "unused"]) c.baseUrl c.timeout retries)

end Client

/-- What becomes of a request. -/
inductive Answer where
  | content (text : Option String)
  | failed (error : String)
deriving DecidableEq, Repr, Inhabited

namespace Client

/-- The message that asks about entities. -/
def message (entities : List Json) : String :=
  Json.render .oneLine (.obj [("entities", .arr entities)])

/-- Asks about entities, where the answer is known. -/
def ask (c : Client) (answer : Answer) (entities : List Json) :
    Traced (Except Json.ParseError Descriptions) := do
  Traced.call (.request c.model temperature (message entities))
  match answer with
  | .failed error =>
    Traced.notify (.requestFailed c.model error)
    return .ok []
  | .content none | .content (some "") =>
    Traced.notify (.replyEmpty c.model)
    return .ok []
  | .content (some reply) => descriptionsIn reply

/-- The describer that asks a model, whose answers are known by their number. -/
def describer (c : Client) (answers : Nat → Answer) : Describer := fun number entities => do
  match ← c.ask (answers number) entities with
  | .ok descriptions => return .ok descriptions
  | .error e => return .error e.message

end Client

end PluginAtlas.Describe
