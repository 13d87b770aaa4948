import SourceShelf.Text.Utf8

/-!
# Decoding sources

Bytes that are UTF-8 are read as such, without a byte order mark in front; all
others are Latin-1, one character for each byte.  `decodeSource` knows no
failure.  `isProbablyBinary` guesses whether there is any text at all.
-/

namespace SourceShelf

/-- How a text was encoded. -/
inductive Encoding where
  | utf8 | latin1
deriving DecidableEq, Repr, Inhabited

/-- The name of an encoding. -/
def Encoding.name : Encoding → String
  | utf8 => "utf-8"
  | latin1 => "latin-1"

/-- A text and how it was encoded. -/
structure SourceText where
  text : String
  encoding : Encoding
deriving DecidableEq, Repr, Inhabited

/-- A text without a byte order mark in front. -/
def withoutMark (s : String) : String :=
  match s.toList with
  | '\ufeff' :: cs => String.ofList cs
  | _ => s

/-- The character for each byte. -/
def latin1 (bytes : ByteArray) : String :=
  String.ofList (bytes.toList.map fun b => Char.ofNat b.toNat)

/-- The text that some bytes hold. -/
def decodeSource (bytes : ByteArray) : SourceText :=
  match decodeUtf8 bytes with
  | .ok s => ⟨withoutMark s, .utf8⟩
  | .error _ => ⟨latin1 bytes, .latin1⟩

/-- The bytes at the start that are looked at. -/
def sniffBytes : Nat := 8192

/-- Control bytes that no text holds. -/
def isControlByte (b : UInt8) : Bool :=
  b < 0x20 && b ≠ 0x09 && b ≠ 0x0A && b ≠ 0x0C && b ≠ 0x0D && b ≠ 0x1B

/-- Bytes with a zero among the first ones, or with more than three in ten of
these being controls. -/
def isProbablyBinary (bytes : ByteArray) : Bool :=
  let head := (bytes.extract 0 sniffBytes).toList
  head.contains 0 || 3 * head.length < 10 * head.countP isControlByte

end SourceShelf
