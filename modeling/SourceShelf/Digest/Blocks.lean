import SourceShelf.Text.Quoted

/-!
# Blocks of a message

Both digests read a message in blocks of sixteen words.  The message is
followed by a one bit, zeros and its length in bits.
-/

namespace SourceShelf.Digest

/-- The bytes of a number, the highest first. -/
def bigEndian (count n : Nat) : List UInt8 :=
  (List.range count).map fun i => (n >>> (8 * (count - 1 - i))).toUInt8

/-- A message with its end marked, in whole blocks. -/
def padded (message : ByteArray) : ByteArray :=
  let zeros := (119 - message.size % 64) % 64
  let tail := 0x80 :: (List.replicate zeros 0 ++ bigEndian 8 (8 * message.size))
  tail.foldl ByteArray.push message

/-- The word at a place of a message, the highest byte first. -/
def wordAt (message : ByteArray) (i : Nat) : UInt32 :=
  let byte (j : Nat) : UInt32 := ((message[i + j]?).getD 0).toUInt32
  (byte 0 <<< 24) ||| (byte 1 <<< 16) ||| (byte 2 <<< 8) ||| byte 3

/-- The words of a block. -/
def blockAt (message : ByteArray) (k : Nat) : Array UInt32 :=
  (Array.range 16).map fun i => wordAt message (64 * k + 4 * i)

/-- A word turned left. -/
def rotateLeft (x n : UInt32) : UInt32 := (x <<< n) ||| (x >>> (32 - n))

/-- A word turned right. -/
def rotateRight (x n : UInt32) : UInt32 := (x >>> n) ||| (x <<< (32 - n))

/-- An item of an array of words. -/
def item (xs : Array UInt32) (i : Nat) : UInt32 := (xs[i]?).getD 0

/-- Runs a step over all blocks of a message. -/
def foldBlocks (step : Array UInt32 → Array UInt32 → Array UInt32) (start : Array UInt32)
    (message : ByteArray) : Array UInt32 :=
  let all := padded message
  (List.range (all.size / 64)).foldl (fun state k => step state (blockAt all k)) start

/-- Words in hexadecimal digits. -/
def hex (words : Array UInt32) : String :=
  String.join (words.toList.map fun w => hexDigits 8 w.toNat)

end SourceShelf.Digest
