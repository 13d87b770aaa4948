import SourceShelf.Digest.Blocks

/-!
# SHA-1

The digest of twenty bytes that names index folders and chunks.
-/

namespace SourceShelf.Digest

namespace Sha1

/-- The words before the first block. -/
def start : Array UInt32 := #[0x67452301, 0xEFCDAB89, 0x98BADCFE, 0x10325476, 0xC3D2E1F0]

/-- The eighty words that a block is stretched to. -/
def schedule (block : Array UInt32) : Array UInt32 :=
  (List.range 64).foldl (fun w t =>
    let i := t + 16
    w.push
      (rotateLeft (item w (i - 3) ^^^ item w (i - 8) ^^^ item w (i - 14) ^^^ item w (i - 16)) 1))
    block

/-- The mixing function and the constant of a round. -/
def mix (t : Nat) (b c d : UInt32) : UInt32 × UInt32 :=
  if t < 20 then ((b &&& c) ||| (~~~b &&& d), 0x5A827999)
  else if t < 40 then (b ^^^ c ^^^ d, 0x6ED9EBA1)
  else if t < 60 then ((b &&& c) ||| (b &&& d) ||| (c &&& d), 0x8F1BBCDC)
  else (b ^^^ c ^^^ d, 0xCA62C1D6)

/-- The five words during a block. -/
structure State where
  a : UInt32
  b : UInt32
  c : UInt32
  d : UInt32
  e : UInt32

/-- One round. -/
def round (w : Array UInt32) (s : State) (t : Nat) : State :=
  let (f, k) := mix t s.b s.c s.d
  ⟨rotateLeft s.a 5 + f + s.e + k + item w t, s.a, rotateLeft s.b 30, s.c, s.d⟩

/-- One block. -/
def step (h block : Array UInt32) : Array UInt32 :=
  let w := schedule block
  let s := (List.range 80).foldl (round w) ⟨item h 0, item h 1, item h 2, item h 3, item h 4⟩
  #[item h 0 + s.a, item h 1 + s.b, item h 2 + s.c, item h 3 + s.d, item h 4 + s.e]

end Sha1

/-- The SHA-1 of a message in hexadecimal digits. -/
def sha1 (message : ByteArray) : String := hex (foldBlocks Sha1.step Sha1.start message)

end SourceShelf.Digest
