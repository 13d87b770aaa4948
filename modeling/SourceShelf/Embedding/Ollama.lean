import SourceShelf.Decimal.Numeral
import SourceShelf.Embedding.Embedder
import SourceShelf.Json.Reader

/-!
# Embeddings from a server

`Ollama.embed` sends all texts in one request.  A server that does not know
such requests is not asked so again; a server that fails to answer one gets one
request for each text.

`Ollama.embedOne` asks for one text.  A server that wants the text under
another key says so by the status 404; a server that fails gets the first half
of the text, but never less than `minChars` characters, at most
`maxShrinks` times.
-/

namespace SourceShelf

/-- Limits on what is sent and how long an answer may take. -/
structure OllamaLimits where
  maxChars : Int := 4000
  minChars : Int := 800
  timeout : Int := 180
deriving DecidableEq, Repr, Inhabited

namespace OllamaLimits

/-- A limit that a variable may set. -/
def read (environment : List (String × String)) (name : String) (default : Int) :
    Except Decimal.NumeralError Int :=
  match environment.lookup name with
  | some s => Decimal.whole? s
  | none => .ok default

/-- The limits that the environment sets. -/
def ofEnvironment (environment : List (String × String)) :
    Except Decimal.NumeralError OllamaLimits := do
  let standard : OllamaLimits := {}
  return { maxChars := ← read environment "JAVACHUNK_EMBED_MAX_CHARS" standard.maxChars
           minChars := ← read environment "JAVACHUNK_EMBED_MIN_CHARS" standard.minChars
           timeout := ← read environment "JAVACHUNK_EMBED_TIMEOUT" standard.timeout }

end OllamaLimits

/-- A server and the model that it is asked for. -/
structure Ollama where
  host : String
  model : String
  limits : OllamaLimits := {}
  nesting : Json.NestingLimit := .standard
deriving DecidableEq, Repr, Inhabited

/-- The exchange with a server, and whether it is believed to take several
texts at once. -/
structure OllamaState where
  exchange : Exchange := {}
  batch : Bool := true
deriving Inhabited

/-- A text without the slashes at its end. -/
def withoutEndSlashes (s : String) : String :=
  String.ofList (s.toList.reverse.dropWhile (· = '/')).reverse

/-- True if a server answers. -/
def ollamaAnswers {ε : Type} (host : String := "http://localhost:11434") (timeout : Int := 3) :
    Action Exchange ε Bool := do
  match ← (Exchange.request (.get (withoutEndSlashes host ++ "/api/version") timeout)).outcome with
  | .ok r => return r.isOk
  | .error _ => return false

/-- The embeddings in the body of a reply: many of them, or one. -/
def replyEmbeddings (body : Json.Value) : Option (List Embedding) :=
  let items (v : Json.Value) : Option Embedding :=
    match v with
    | .arr (x :: xs) => some (x :: xs)
    | _ => none
  let many : Option (List Embedding) :=
    match body.get? "embeddings" with
    | some (.arr (v :: vs)) => (v :: vs).mapM items
    | _ => none
  match many with
  | some vs => some vs
  | none => ((body.get? "embedding").bind items).map fun v => [v]

/-- Line ends as line feeds. -/
def unifyReturns : List Char → List Char
  | '\r' :: '\n' :: cs => '\n' :: unifyReturns cs
  | '\r' :: cs => '\n' :: unifyReturns cs
  | c :: cs => c :: unifyReturns cs
  | [] => []

namespace Ollama

/-- The most times that a text is made shorter. -/
def maxShrinks : Nat := 4

/-- The text that is sent for a text: without NUL characters, with line feeds
only, and not too long. -/
def prepare (o : Ollama) (text : String) : String :=
  let cs := unifyReturns (text.toList.filter (· ≠ '\x00'))
  String.ofList (if 0 < o.limits.maxChars then cs.take o.limits.maxChars.toNat else cs)

/-- An action on the exchange. -/
def onExchange {ε α : Type} (a : Action Exchange ε α) : Action (Logged OllamaState) ε α :=
  a.within (fun s => s.inner.exchange) fun x s => { s with inner := { s.inner with exchange := x } }

/-- The address of an endpoint. -/
def url (o : Ollama) (endpoint : String) : String := o.host ++ endpoint

/-- Sends a request. -/
def post (o : Ollama) (endpoint : String) (key : String) (input : Json.Value) :
    Action (Logged OllamaState) EmbedError Reply :=
  onExchange <|
    (Exchange.request (.post (o.url endpoint) (.obj [("model", .str o.model), (key, input)])
      o.limits.timeout)).withError .request

/-- The body of a reply. -/
def body (o : Ollama) (r : Reply) : Except EmbedError Json.Value :=
  let cs := r.text.toList
  (Json.readChars o.nesting cs).mapError fun e => .content (e.failure cs)

/-- Sends all texts at once.  Nothing is the result if that does not work. -/
def askBatch (o : Ollama) (texts : List String) :
    Action (Logged OllamaState) EmbedError (Option (List Embedding)) := do
  let r ← o.post "/api/embed" "input" (.arr (texts.map .str))
  if r.status = 404 then
    report (.info ("Ollama at " ++ o.host ++ " has no /api/embed, using /api/embeddings"))
    modify fun s => { s with inner := { s.inner with batch := false } }
    return none
  else if !r.isOk then throw (.status (r.statusText (o.url "/api/embed")))
  else
    let found := replyEmbeddings (← Action.ofExcept (o.body r))
    let count := (found.getD []).length
    if found.isSome && count = texts.length then return found
    else
      report (.debug ("Batch embedding returned " ++ toString count ++ " vector(s) for " ++
        toString texts.length ++ " text(s)"))
      return none

/-- Embeds all texts at once.  Nothing is the result if that does not work, but
a reply that nests too deep is not expected. -/
def embedBatch (o : Ollama) (texts : List String) :
    Action (Logged OllamaState) EmbedError (Option (List Embedding)) := do
  match ← (o.askBatch texts).outcome with
  | .ok found => return found
  | .error (.content (.tooDeep n)) => throw (.content (.tooDeep n))
  | .error e =>
    report (.debug ("Batch embedding failed, retrying per text: " ++ e.message))
    return none

/-- The most characters of a reply that an error shows. -/
def shownReply : Nat := 800

/-- What is reported when a text is not embedded. -/
def failureText (o : Ollama) (r : Reply) : String :=
  "Ollama embeddings failed with status " ++ toString r.status ++
    " (model " ++ o.model ++ ", host " ++
    o.host ++ "). Lowering JAVACHUNK_EMBED_MAX_CHARS helps with very large classes. Response: " ++
    String.ofList (r.text.toList.take shownReply)

/-- Asks for the embedding of one text. -/
def askOne (o : Ollama) (text : List Char) : Action (Logged OllamaState) EmbedError Reply := do
  let input := Json.Value.str (String.ofList text)
  let r ← o.post "/api/embeddings" "input" input
  if r.status = 404 then o.post "/api/embeddings" "prompt" input else return r

/-- The length of the text that is tried after a text of length `n`. -/
def shorter (o : Ollama) (n : Nat) : Nat := (max o.limits.minChars (n / 2 : Nat)).toNat

/-- Embeds one text, which may be made shorter `shrinks` times. -/
def embedOne (o : Ollama) (shrinks : Nat) (text : List Char) :
    Action (Logged OllamaState) EmbedError Embedding := do
  let r ← o.askOne text
  if r.isOk then
    match replyEmbeddings (← Action.ofExcept (o.body r)) with
    | some (v :: _) => return v
    | _ => throw (.noEmbedding o.model)
  else
    match shrinks with
    | 0 => throw (.status (o.failureText r))
    | n + 1 =>
      if 500 ≤ r.status && o.limits.minChars < text.length then
        report (.info ("Ollama answered " ++ toString r.status ++ "; retrying with " ++
          toString (text.length / 2) ++ " chars"))
        onExchange (Exchange.pause (0.5 * (maxShrinks - n).toFloat))
        o.embedOne n (text.take (o.shorter text.length))
      else throw (.status (o.failureText r))

/-- Embeds some texts, all at once if the server takes that. -/
def embed (o : Ollama) (texts : List String) :
    Action (Logged OllamaState) EmbedError (List Embedding) := do
  if texts.isEmpty then return []
  let prepared := texts.map o.prepare
  let found ← if (← get).inner.batch then o.embedBatch prepared else pure none
  match found with
  | some vs => return vs
  | none => prepared.mapM fun t => o.embedOne maxShrinks t.toList

/-- A server at an address. -/
def ofHost (host model : String) (limits : OllamaLimits := {}) : Ollama :=
  { host := withoutEndSlashes host, model, limits }

/-- The embedder of a server. -/
def embedder (o : Ollama) : Embedder OllamaState := .ofTexts ("ollama:" ++ o.model) o.embed

end Ollama

end SourceShelf
