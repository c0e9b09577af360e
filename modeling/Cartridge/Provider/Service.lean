import Cartridge.Code.Extraction
import Cartridge.Json.Display
import Cartridge.Json.Reader
import Cartridge.Provider.Failure
import Cartridge.Quantity

/-!
# Services

The language-model services that can be asked over the network: what is sent to each, and how its
answer is read. A service answers with a status and a body; only an object with a text in the
expected place, under a status that is no error, is an answer.
-/

namespace Cartridge.Provider

/-- A language model on the user's own machine. -/
structure LocalService where
  endpoint : String := "http://localhost:11434/api/generate"
  model : String := "codellama:7b"
  temperature : Number Float := .real 0.1
  maxTokens : Int := 4000
  enabled : Bool := false

/-- The kinds of service. -/
inductive Kind where
  | claude
  | openAI
  | openRouter
  | ownMachine
  /-- No service at all: it has a price and cannot be asked. -/
  | bare
  deriving DecidableEq, Repr

/-- A service with what is needed to ask it. Key and model may be any value that a configuration
holds. -/
inductive Service where
  | claude (key model : Json) (url : String)
  | openAI (key model : Json) (url : String)
  | openRouter (key model : Json) (url : String)
  | ownMachine (settings : LocalService)
  | bare

namespace Service

def kind : Service → Kind
  | .claude .. => .claude
  | .openAI .. => .openAI
  | .openRouter .. => .openRouter
  | .ownMachine _ => .ownMachine
  | .bare => .bare

end Service

namespace Kind

def name : Kind → String
  | .claude => "claude"
  | .openAI => "openai"
  | .openRouter => "openrouter"
  | .ownMachine => "local"
  | .bare => "base"

/-- The name of a kind in messages. -/
def label : Kind → String
  | .claude => "Claude"
  | .openAI => "OpenAI"
  | .openRouter => "OpenRouter"
  | .ownMachine => "Local LLM"
  | .bare => "Base"

def speed : Kind → String
  | .claude => "fast"
  | .openAI | .openRouter | .bare => "medium"
  | .ownMachine => "slow"

/-- How good the answers are. -/
def quality : Kind → String
  | .claude | .openAI | .openRouter => "high"
  | .ownMachine | .bare => "medium"

/-- Whether the service can send its answer bit by bit. -/
def streams : Kind → Bool
  | .claude | .openAI | .openRouter => true
  | .ownMachine | .bare => false

/-- The variable of the environment that holds the key. -/
def keyVariable? : Kind → Option String
  | .claude => some "CLAUDE_API_KEY"
  | .openAI => some "OPENAI_API_KEY"
  | .openRouter => some "OPENROUTER_API_KEY"
  | .ownMachine | .bare => none

/-- Where the service is, unless told otherwise. -/
def defaultUrl : Kind → String
  | .claude => "https://api.anthropic.com/v1/messages"
  | .openAI => "https://api.openai.com/v1/chat/completions"
  | .openRouter => "https://openrouter.ai/api/v1/chat/completions"
  | .ownMachine | .bare => ""

/-- The model that is asked, unless told otherwise. -/
def defaultModel : Kind → String
  | .claude => "claude-3-5-sonnet-20241022"
  | .openAI => "gpt-4"
  | .openRouter => "anthropic/claude-3.5-sonnet"
  | .ownMachine | .bare => ""

/-- The model to ask: a given one that is not empty, else the usual one. -/
def modelOr (k : Kind) (given : Json) : Json :=
  if given.isTruthy then given else .str k.defaultModel

end Kind

/-! ## Questions -/

/-- What is sent to a service. -/
structure Query where
  url : String
  payload : Json
  headers : List (String × Json)

/-- A message of a conversation. -/
def turn (role content : String) : Json := .obj [("role", .str role), ("content", .str content)]

/-- How OpenAI's models are told what they are for. -/
def openAIRole : String :=
  "You are an expert GameBoy C programmer. " ++
  "Convert JavaScript/TypeScript to optimal GameBoy C code using GBDK."

/-- How OpenRouter's models are told what they are for. -/
def openRouterRole : String :=
  "You are an expert GameBoy C programmer. Convert JavaScript/TypeScript to optimal " ++
  "GameBoy C code using GBDK. Focus on memory efficiency, GameBoy hardware constraints, " ++
  "and proper GBDK functions."

/-- A conversation of two turns. -/
def conversation (model : Json) (role prompt : String) : Json :=
  .obj
    [("model", model), ("messages", .arr [turn "system" role, turn "user" prompt]),
     ("max_tokens", .int 4000), ("temperature", .float 0.1), ("top_p", .float 0.9)]

def bearerHeaders (key : Json) : List (String × Json) :=
  [("Authorization", .str ("Bearer " ++ key.asText)), ("Content-Type", .str "application/json")]

/-- A number of a configuration as it is sent. -/
def numberJson : Number Float → Json
  | .whole n => .int n
  | .real x => .float x

/-- What is sent to a service for a prompt; nothing without a service. -/
def Service.query? (s : Service) (prompt : String) : Option Query :=
  match s with
  | .claude key model url =>
    some
      { url
        payload := .obj
          [("model", model), ("max_tokens", .int 4000), ("temperature", .float 0.1),
           ("messages", .arr [turn "user" prompt])]
        headers :=
          [("x-api-key", key), ("anthropic-version", .str "2023-06-01"),
           ("content-type", .str "application/json")] }
  | .openAI key model url =>
    some
      { url
        payload := conversation model openAIRole prompt
        headers := bearerHeaders key }
  | .openRouter key model url =>
    some
      { url
        payload := conversation model openRouterRole prompt
        headers := bearerHeaders key ++
          [("HTTP-Referer", .str "https://github.com/Freuhlon/gbts"),
           ("X-Title", .str "GBTS - GameBoy TypeScript Transpiler")] }
  | .ownMachine settings =>
    some
      { url := settings.endpoint
        payload := .obj
          [("model", .str settings.model), ("prompt", .str prompt), ("stream", .bool false),
           ("options", .obj
             [("temperature", numberJson settings.temperature),
              ("num_predict", .int settings.maxTokens)])]
        headers := [] }
  | .bare => none

/-! ## Answers -/

/-- What comes back from a service. -/
structure Response where
  status : Int
  reason : String
  body : String
  deriving DecidableEq, Repr

/-- The outcome of asking over the network. -/
inductive Outcome where
  | unreachable (text : String)
  | answered (r : Response)
  deriving DecidableEq, Repr

/-- Whether an answer is a document with parts that lie too deep. -/
def Outcome.isTooDeep : Outcome → Bool
  | .unreachable _ => false
  | .answered r =>
    match Json.read r.body with
    | .error .tooDeep => true
    | _ => false

/-- Longest quotation of an answer in a message. -/
def quotationLimit : Nat := 200

/-- The beginning of a text, as far as messages quote it. -/
def quotation (s : String) : String := .ofList (s.toList.take quotationLimit)

/-- The first text that is not empty. -/
def firstText : List String → String
  | [] => ""
  | s :: rest => if s = "" then firstText rest else s

/-- What an error answer says about the error, as far as that can be found out. -/
def Response.detail (r : Response) : String :=
  match Json.read r.body with
  | .error _ => firstText [quotation r.body, r.reason, "unknown error"]
  | .ok body =>
    let error := body.get "error"
    match error with
    | .obj _ =>
      let text := error.get "message"
      if text.isTruthy then text.asText else error.asText
    | _ => if error.isTruthy then error.asText else quotation body.asText

/-- The object in an answer, or why there is none. -/
def bodyOf (k : Kind) (outcome : Outcome) : Except Failure Json :=
  match outcome with
  | .unreachable text => .error (.unreachable k.label text)
  | .answered r =>
    if Failure.keyStatuses.contains r.status then
      .error (.unauthorized k.label r.status r.detail k.keyVariable?)
    else if r.status = Failure.rateStatus then .error (.rateLimited k.label r.detail)
    else if 400 ≤ r.status then .error (.refused k.label r.status r.detail)
    else
      match Json.read r.body with
      | .error _ => .error (.unreadable k.label r.status)
      | .ok (.obj entries) => .ok (.obj entries)
      | .ok other => .error (.notAnObject k.label r.status other.kindName)

/-- The string that a value is, if it is one. -/
def string? : Json → Option String
  | .str s => some s
  | _ => none

/-- The text of a block of an answer, if it is a block of text. -/
def blockText? (block : Json) : Option String :=
  match block.get "type" with
  | .str kind => if kind = "text" then string? (block.get "text") else none
  | _ => none

/-- The text in the body of an answer, empty if there is none. -/
def contentOf (k : Kind) (body : Json) : String :=
  match k with
  | .claude =>
    match body.get "content" with
    | .arr blocks => "\n".intercalate (blocks.filterMap blockText?)
    | _ => ""
  | .openAI | .openRouter =>
    match body.get "choices" with
    | .arr (first :: _) => (string? ((first.get "message").get "content")).getD ""
    | _ => ""
  | .ownMachine => (string? (body.get "response")).getD ""
  | .bare => ""

/-- The C code in an answer, or why there is none. -/
def codeOf (k : Kind) (outcome : Outcome) : Except Failure String := do
  let body ← bodyOf k outcome
  let content := contentOf k body
  if content = "" then throw (.noContent k.label) else return Code.extract content

end Cartridge.Provider
