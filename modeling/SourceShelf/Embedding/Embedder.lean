import SourceShelf.Action
import SourceShelf.Embedding.Exchange
import SourceShelf.Log
import SourceShelf.Store.Vector

/-!
# Embedders

An embedder turns texts into embeddings, one for each text and in their order.
It has a state of its own and may fail.
-/

namespace SourceShelf

/-- Why texts are not embedded. -/
inductive EmbedError where
  | failed (message : String)
  | request (f : RequestFailure)
  | status (message : String)
  | content (f : Json.ReadFailure)
  | noEmbedding (model : String)
  | noVector
deriving DecidableEq, Repr, Inhabited

/-- The text of the error. -/
def EmbedError.message : EmbedError → String
  | failed m => m
  | request f => f.message
  | status m => m
  | content f => f.message
  | noEmbedding model => "Ollama returned no embedding (model " ++ model ++ ")"
  | noVector => "list index out of range"

/-- An embedder with a state `σ`.  The model's name is kept with an index, so
that embeddings of two models are not mixed. -/
structure Embedder (σ : Type) where
  modelId : String
  embed : List String → Action (Logged σ) EmbedError (List Embedding)
  embedQuery : String → Action (Logged σ) EmbedError Embedding

namespace Embedder

variable {σ : Type}

/-- Embeds one text by a function that embeds several. -/
def single (embed : List String → Action (Logged σ) EmbedError (List Embedding)) (text : String) :
    Action (Logged σ) EmbedError Embedding := do
  match ← embed [text] with
  | [] => throw .noVector
  | v :: _ => return v

/-- An embedder that embeds a query like any other text. -/
def ofTexts (modelId : String)
    (embed : List String → Action (Logged σ) EmbedError (List Embedding)) :
    Embedder σ :=
  ⟨modelId, embed, single embed⟩

end Embedder

/-- Adds a record to what was reported. -/
def report {σ ε : Type} (r : LogRecord) : Action (Logged σ) ε Unit := modify (·.report r)

end SourceShelf
