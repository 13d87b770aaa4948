import SourceShelf.Text.Quoted

/-!
# UTF-8

`decodeUtf8` takes exactly the encodings of texts and names the first place
where other bytes fail.  `decodeValidUtf8` leaves out what cannot be decoded.
-/

namespace SourceShelf

namespace Utf8

/-- Why bytes are no character. -/
inductive Reason where
  | startByte | continuationByte | endOfData
deriving DecidableEq, Repr, Inhabited

/-- What the reason is called. -/
def Reason.text : Reason → String
  | startByte => "invalid start byte"
  | continuationByte => "invalid continuation byte"
  | endOfData => "unexpected end of data"

/-- What stands at the start of some bytes: a character, or bytes that are
none.  `more` counts the bytes behind the first that belong to it. -/
inductive Piece where
  | char (c : Char) (more : Nat)
  | fault (reason : Reason) (more : Nat)
deriving DecidableEq, Repr, Inhabited

/-- The number of bytes of a piece behind the first. -/
def Piece.more : Piece → Nat
  | char _ n => n
  | fault _ n => n

/-- True of a byte that continues a character. -/
def isContinuation (b : UInt8) : Bool := b.toNat / 64 = 2

/-- The six bits that a byte adds to a character. -/
def bits (b : UInt8) : Nat := b.toNat % 64

/-- True when a byte may come second, behind a given first one: no character is
encoded longer than needed, and none is a surrogate or above `U+10FFFF`. -/
def mayFollow (first second : UInt8) : Bool :=
  isContinuation second &&
    (if first = 0xE0 then 0xA0 ≤ second
    else if first = 0xED then second < 0xA0
    else if first = 0xF0 then 0x90 ≤ second
    else if first = 0xF4 then second < 0x90
    else true)

/-- What stands at the start of a byte and the bytes behind it. -/
def piece (a : UInt8) (rest : List UInt8) : Piece :=
  if a < 0x80 then .char (Char.ofNat a.toNat) 0
  else if a < 0xC2 || 0xF5 ≤ a then .fault .startByte 0
  else
    match rest with
    | [] => .fault .endOfData 0
    | b :: rest =>
      if !mayFollow a b then .fault .continuationByte 0
      else if a < 0xE0 then .char (Char.ofNat ((a.toNat - 0xC0) * 64 + bits b)) 1
      else
        match rest with
        | [] => .fault .endOfData 1
        | c :: rest =>
          if !isContinuation c then .fault .continuationByte 1
          else if a < 0xF0 then
            .char (Char.ofNat (((a.toNat - 0xE0) * 64 + bits b) * 64 + bits c)) 2
          else
            match rest with
            | [] => .fault .endOfData 2
            | d :: _ =>
              if !isContinuation d then .fault .continuationByte 2
              else
                .char (Char.ofNat
                  ((((a.toNat - 0xF0) * 64 + bits b) * 64 + bits c) * 64 + bits d)) 3

/-- The characters of some bytes.  Bytes that are none are left out. -/
def chars : List UInt8 → List Char
  | [] => []
  | a :: rest =>
    let p := piece a rest
    let behind := chars (rest.drop p.more)
    match p with
    | .char c _ => c :: behind
    | .fault .. => behind
termination_by bytes => bytes.length
decreasing_by simp only [List.length_drop, List.length_cons]; omega

/-- Bytes that are no character: the first of them, their number less one, and
their place. -/
structure Fault where
  first : UInt8
  more : Nat
  place : Nat
  reason : Reason
deriving DecidableEq, Repr, Inhabited

/-- The first bytes that are no character. -/
def fault? (place : Nat) : List UInt8 → Option Fault
  | [] => none
  | a :: rest =>
    match piece a rest with
    | .fault reason more => some ⟨a, more, place, reason⟩
    | .char _ more => fault? (place + more + 1) (rest.drop more)
termination_by bytes => bytes.length
decreasing_by simp only [List.length_drop, List.length_cons]; omega

/-- The message of a fault. -/
def Fault.message (f : Fault) : String :=
  let what :=
    if f.more = 0 then "byte 0x" ++ hexDigits 2 f.first.toNat ++ " in position " ++ toString f.place
    else "bytes in position " ++ toString f.place ++ "-" ++ toString (f.place + f.more)
  "'utf-8' codec can't decode " ++ what ++ ": " ++ f.reason.text

end Utf8

/-- The text that some bytes encode, or the first bytes that are no
character. -/
def decodeUtf8 (bytes : ByteArray) : Except Utf8.Fault String :=
  match String.fromUTF8? bytes with
  | some s => .ok s
  | none => .error ((Utf8.fault? 0 bytes.toList).getD default)

/-- The characters of some bytes, without the bytes that are none. -/
def decodeValidUtf8 (bytes : ByteArray) : String := String.ofList (Utf8.chars bytes.toList)

/-- A text with every kind of line end written as a line feed. -/
def unifyLineEnds : List Char → List Char
  | [] => []
  | '\r' :: '\n' :: cs => '\n' :: unifyLineEnds cs
  | '\r' :: cs => '\n' :: unifyLineEnds cs
  | c :: cs => c :: unifyLineEnds cs

end SourceShelf
