import SourceShelf.Failure
import SourceShelf.Files.Disk
import SourceShelf.Source.Decoding

/-!
# Loading sources

A source is read whole: one that is larger than allowed is refused, since a
part of it would not parse.
-/

namespace SourceShelf

/-- The source text that some bytes hold.  `path` is shown in failures. -/
def SourceText.ofBytes (path : String) (limit : Option Int) (bytes : ByteArray) :
    Except Failure SourceText :=
  match limit.filter (· < (bytes.size : Int)) with
  | some n =>
    .error (.read ("File is " ++ toString bytes.size ++ " bytes, limit is " ++ toString n) path)
  | none =>
    if isProbablyBinary bytes then .error (.read "Binary file detected" path)
    else .ok (decodeSource bytes)

/-- The source text in the file where a path leads. -/
def SourceText.load {α : Type} (bytesOf : α → ByteArray) (t : Files.Disk α) (p : Files.Path)
    (limit : Option Int := none) : Except Failure SourceText :=
  match t.read p with
  | .error e => .error (.read ("Cannot read source file: " ++ e.text) p.text)
  | .ok content => SourceText.ofBytes p.text limit (bytesOf content)

end SourceShelf
