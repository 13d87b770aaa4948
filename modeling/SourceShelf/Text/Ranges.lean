/-!
# Sorted ranges of code points

Properties of characters are given as sorted ranges of code points.
-/

namespace SourceShelf

/-- Searches sorted ranges for the one that holds a code point, by halving. -/
def rangeOf? {α : Type} (ranges : Array (Nat × Nat × α)) (c : Nat) : Option (Nat × Nat × α) :=
  go (ranges.size + 1) 0 ranges.size
where
  go : Nat → Nat → Nat → Option (Nat × Nat × α)
    | 0, _, _ => none
    | n + 1, low, high =>
      if high ≤ low then none
      else
        let mid := (low + high) / 2
        match ranges[mid]? with
        | none => none
        | some r =>
          if c < r.1 then go n low mid
          else if r.2.1 < c then go n (mid + 1) high
          else some r

/-- True when one of some sorted ranges holds a code point. -/
def inRanges (ranges : Array (Nat × Nat)) (c : Nat) : Bool :=
  go (ranges.size + 1) 0 ranges.size
where
  go : Nat → Nat → Nat → Bool
    | 0, _, _ => false
    | n + 1, low, high =>
      if high ≤ low then false
      else
        let mid := (low + high) / 2
        match ranges[mid]? with
        | none => false
        | some r =>
          if c < r.1 then go n low mid
          else if r.2 < c then go n (mid + 1) high
          else true

end SourceShelf
