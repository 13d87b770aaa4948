import SourceShelf.Command.Session
import SourceShelf.Embedding.LocalModel

/-!
# Choosing an embedder

Embeddings come from a server or from a model on this machine.  Each has a
model that is used unless another one is asked for.
-/

namespace SourceShelf

/-- Which embedder is asked for. -/
structure BackendOptions where
  embedder : String := "ollama"
  embedModel : Option String := none
  ollamaHost : String := "http://localhost:11434"
deriving DecidableEq, Repr, Inhabited

namespace BackendOptions

/-- The models that are used unless others are asked for. -/
def defaultModels : List (String × String) :=
  [("ollama", "nomic-embed-text"), ("sbert", "intfloat/e5-small-v2")]

/-- The model that is used. -/
def modelName (o : BackendOptions) : String :=
  match o.embedModel with
  | some m => if m = "" then (defaultModels.lookup o.embedder).getD "" else m
  | none => (defaultModels.lookup o.embedder).getD ""

end BackendOptions

/-- What embedders work with: a server, variables that set limits, and a
function that local models compute, if they can be loaded. -/
structure Backends where
  ollama : OllamaState := {}
  environment : List (String × String) := []
  encode : Option (List String → List Embedding) := none
  modelCalls : List ModelCall := []

namespace Backends

variable {σ : Type}

/-- An action on a part of a state with a log. -/
def onPart {σ τ ε α : Type} (get : σ → τ) (set : τ → σ → σ) (a : Action (Logged τ) ε α) :
    Action (Logged σ) ε α :=
  a.within (fun s => ⟨get s.inner, s.log⟩) fun x s => ⟨set x.inner s.inner, x.log⟩

/-- An embedder that works on a part of a state. -/
def lift {σ τ : Type} (get : σ → τ) (set : τ → σ → σ) (e : Embedder τ) : Embedder σ where
  modelId := e.modelId
  embed := fun texts => onPart get set (e.embed texts)
  embedQuery := fun text => onPart get set (e.embedQuery text)

/-- The embedder of a server. -/
def ofOllama (o : Ollama) : Embedder Backends :=
  lift Backends.ollama (fun x s => { s with ollama := x }) o.embedder

/-- The embedder of a local model. -/
def ofModel (m : LocalModel) : Embedder Backends :=
  lift Backends.modelCalls (fun x s => { s with modelCalls := x }) m.embedder

/-- True if the server answers. -/
def serverAnswers (host : String) : Action (Session Backends) CommandError Bool :=
  (ollamaAnswers host).within (fun s => s.world.ollama.exchange) fun x s =>
    { s with world := { s.world with ollama := { s.world.ollama with exchange := x } } }

/-- Makes the embedder that is asked for. -/
def make (o : BackendOptions) : Action (Session Backends) CommandError (Embedder Backends) := do
  let world := (← get).world
  if o.embedder = "ollama" then
    let limits ← Session.check .numeral (OllamaLimits.ofEnvironment world.environment)
    let ollama := { world.ollama with batch := true }
    modify fun s => { s with world := { s.world with ollama } }
    return ofOllama (.ofHost o.ollamaHost o.modelName limits)
  else if o.embedder = "sbert" then
    match world.encode with
    | none => throw .missingModels
    | some encode =>
      let calls := world.modelCalls ++ [.load o.modelName]
      modify fun s => { s with world := { s.world with modelCalls := calls } }
      return ofModel { name := o.modelName, encode }
  else
    throw (.badParameter ("Unknown embedder: " ++ o.embedder ++ " (expected ollama or sbert)"))

/-- Makes the embedder that is asked for, after a look whether its server
answers. -/
def makeForIndex (o : BackendOptions) :
    Action (Session Backends) CommandError (Embedder Backends) := do
  if o.embedder = "ollama" then
    if !(← serverAnswers o.ollamaHost) then
      Session.printLine ("No Ollama server at " ++ o.ollamaHost ++ "; embedding will likely fail.")
  make o

end Backends

end SourceShelf
