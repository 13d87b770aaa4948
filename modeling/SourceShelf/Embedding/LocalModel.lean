import SourceShelf.Embedding.Embedder
import SourceShelf.Text.Lowercase

/-!
# Embeddings from a model on this machine

Some models want to be told which texts are passages and which are queries.
-/

namespace SourceShelf

/-- What a model was asked to do. -/
inductive ModelCall where
  | load (name : String)
  | encode (texts : List String) (batchSize : Int) (normalized : Bool)
deriving DecidableEq, Repr, Inhabited

/-- A model: a function on texts that has been loaded under a name. -/
structure LocalModel where
  name : String := "intfloat/e5-small-v2"
  batchSize : Int := 32
  encode : List String → List Embedding

namespace LocalModel

/-- What is reported where no models can be loaded. -/
def missingText : String :=
  "sentence-transformers is not installed. Install with \x60pip install javachunk[st]\x60."

/-- True if a list holds another one somewhere. -/
def holds (word : List Char) : List Char → Bool
  | [] => word.isEmpty
  | c :: cs => word.isPrefixOf (c :: cs) || holds word cs

/-- True for a model whose texts are marked. -/
def isMarked (m : LocalModel) : Bool := holds ['e', '5'] (lowercase m.name).toList

/-- Encodes some texts. -/
def call (m : LocalModel) (texts : List String) :
    Action (Logged (List ModelCall)) EmbedError (List Embedding) := do
  modify fun s => { s with inner := s.inner ++ [.encode texts m.batchSize true] }
  return m.encode texts

/-- Embeds some texts. -/
def embed (m : LocalModel) (texts : List String) :
    Action (Logged (List ModelCall)) EmbedError (List Embedding) :=
  if texts.isEmpty then return []
  else m.call (if m.isMarked then texts.map ("passage: " ++ ·) else texts)

/-- Embeds a query. -/
def embedQuery (m : LocalModel) (text : String) :
    Action (Logged (List ModelCall)) EmbedError Embedding := do
  match ← m.call [if m.isMarked then "query: " ++ text else text] with
  | [] => throw .noVector
  | v :: _ => return v

/-- The embedder of a model. -/
def embedder (m : LocalModel) : Embedder (List ModelCall) where
  modelId := "sbert:" ++ m.name
  embed := m.embed
  embedQuery := m.embedQuery

end LocalModel

end SourceShelf
