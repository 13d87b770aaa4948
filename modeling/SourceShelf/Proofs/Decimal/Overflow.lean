import Mathlib
import SourceShelf.Settings.Options

/-!
# Whole numbers too large for a `Float`

`nearest` makes infinity of a whole number just when the number reaches half a unit beyond
the greatest `Float` (`overflowBound`); a tie goes up, since the mantissa there is odd.

* `lt_roundDiv_iff`: where rounding passes an odd number.
* `nearestBits_whole`: the bits of a whole number.
* `floatOfInt_eq_error_iff`: when a whole number is refused.
-/

namespace SourceShelf.Decimal

theorem twoTo_pos (k : Nat) : 0 < twoTo k := Nat.two_pow_pos k

theorem twoTo_add (j k : Nat) : twoTo (j + k) = twoTo j * twoTo k := Nat.pow_add 2 j k

/-! ## Rounding -/

theorem div_le_roundDiv (num den : Nat) : num / den ≤ roundDiv num den := by
  unfold roundDiv
  dsimp only
  split
  · exact le_rfl
  · split
    · exact Nat.le_succ _
    · exact Nat.le_add_right _ _

theorem roundDiv_le (num den : Nat) : roundDiv num den ≤ num / den + 1 := by
  unfold roundDiv
  dsimp only
  split
  · exact Nat.le_succ _
  · split
    · exact le_rfl
    · exact Nat.add_le_add_left (Nat.le_of_lt_succ (Nat.mod_lt _ (by decide))) _

/-- Rounding passes an odd number half a unit above it, the tie included. -/
theorem lt_roundDiv_iff {k half num : Nat} (hodd : k % 2 = 1) (hhalf : 0 < half) :
    k < roundDiv num (2 * half) ↔ (2 * k + 1) * half ≤ num := by
  obtain ⟨q, r, hr, rfl⟩ : ∃ q r, r < 2 * half ∧ num = 2 * half * q + r :=
    ⟨num / (2 * half), num % (2 * half), Nat.mod_lt _ (by omega), (Nat.div_add_mod _ _).symm⟩
  have hdiv : (2 * half * q + r) / (2 * half) = q := by
    rw [Nat.mul_add_div (by omega), Nat.div_eq_of_lt hr, Nat.add_zero]
  have hmod : (2 * half * q + r) % (2 * half) = r := by
    rw [Nat.mul_add_mod, Nat.mod_eq_of_lt hr]
  unfold roundDiv
  dsimp only
  rw [hdiv, hmod]
  have hexpand : (2 * k + 1) * half = 2 * half * k + half := by ring
  rw [hexpand]
  rcases lt_trichotomy q k with hlt | rfl | hgt
  · have hbelow : 2 * half * (q + 1) ≤ 2 * half * k := Nat.mul_le_mul_left _ hlt
    rw [Nat.mul_succ] at hbelow
    refine iff_of_false (not_lt.mpr ?_) (by omega)
    split
    · omega
    · split
      · omega
      · have := Nat.mod_lt q (y := 2) (by decide)
        omega
  · split
    · exact iff_of_false (lt_irrefl _) (by omega)
    · split
      · exact iff_of_true (Nat.lt_succ_self _) (by omega)
      · exact iff_of_true (by omega) (by omega)
  · have habove : 2 * half * (k + 1) ≤ 2 * half * q := Nat.mul_le_mul_left _ hgt
    rw [Nat.mul_succ] at habove
    refine iff_of_true ?_ (by omega)
    split
    · exact hgt
    · split <;> omega

/-! ## The mantissa of a whole number -/

/-- The whole number half a unit beyond the greatest `Float`. -/
def overflowBound : Nat := (twoTo 54 - 1) * twoTo 970

section Whole

variable {n : Nat}

theorem mantissaExponent_whole (h : n ≠ 0) : mantissaExponent n 1 = (n.log2 : Int) - 52 := by
  have hlow : twoTo n.log2 ≤ n := Nat.log2_self_le h
  have hbits : ¬ scaled n 1 ((n.log2 : Int) - 53) < twoTo 53 := by
    rw [not_lt, scaled]
    refine le_trans ?_ (div_le_roundDiv _ _)
    rw [Nat.one_mul, Nat.le_div_iff_mul_le (twoTo_pos _), ← twoTo_add]
    rcases le_total 53 n.log2 with hle | hle
    · rw [show 53 + ((n.log2 : Int) - 53).toNat = n.log2 by omega]
      exact hlow.trans (Nat.le_mul_of_pos_right _ (twoTo_pos _))
    · calc twoTo (53 + ((n.log2 : Int) - 53).toNat)
          = twoTo (n.log2 + (-((n.log2 : Int) - 53)).toNat) := by congr 1; omega
        _ = twoTo n.log2 * twoTo (-((n.log2 : Int) - 53)).toNat := twoTo_add _ _
        _ ≤ n * twoTo (-((n.log2 : Int) - 53)).toNat := Nat.mul_le_mul_right _ hlow
  have hone : Nat.log2 1 = 0 := by decide
  unfold mantissaExponent
  dsimp only
  rw [hone, Nat.cast_zero, sub_zero, if_neg hbits]
  omega

theorem scaled_whole_le (n : Nat) : scaled n 1 ((n.log2 : Int) - 52) ≤ twoTo 53 := by
  have hhigh : n < twoTo (n.log2 + 1) := Nat.lt_log2_self
  rw [scaled]
  refine (roundDiv_le _ _).trans (Nat.succ_le_of_lt ?_)
  rw [Nat.one_mul, Nat.div_lt_iff_lt_mul (twoTo_pos _), ← twoTo_add]
  calc n * twoTo (-((n.log2 : Int) - 52)).toNat
      < twoTo (n.log2 + 1) * twoTo (-((n.log2 : Int) - 52)).toNat :=
        Nat.mul_lt_mul_of_pos_right hhigh (twoTo_pos _)
    _ = twoTo (53 + ((n.log2 : Int) - 52).toNat) := by rw [← twoTo_add]; congr 1; omega

/-- Rounding takes a whole number to the power of two behind the greatest `Float` just when
the number has too many digits, or as many as that `Float` and a mantissa that is rounded up. -/
theorem whole_overflows_iff (h : n ≠ 0) :
    1024 ≤ n.log2 ∨ n.log2 = 1023 ∧ scaled n 1 ((n.log2 : Int) - 52) = twoTo 53 ↔
      overflowBound ≤ n := by
  have hlow : twoTo n.log2 ≤ n := Nat.log2_self_le h
  have hhigh : n < twoTo (n.log2 + 1) := Nat.lt_log2_self
  have hmono {j k : Nat} (hjk : j ≤ k) : twoTo j ≤ twoTo k := Nat.pow_le_pow_right (by decide) hjk
  have h53 : twoTo 53 = 2 ^ 53 := rfl
  have h54 : twoTo 54 = 2 ^ 54 := rfl
  rcases lt_trichotomy n.log2 1023 with hlt | heq | hgt
  · have hbelow : n < twoTo (53 + 970) := hhigh.trans_le (hmono (by omega))
    rw [twoTo_add, h53] at hbelow
    rw [overflowBound, h54]
    omega
  · have hscaled : scaled n 1 ((n.log2 : Int) - 52) = roundDiv n (2 * twoTo 970) := by
      rw [scaled, heq, show (-(((1023 : Nat) : Int) - 52)).toNat = 0 by decide,
        show (((1023 : Nat) : Int) - 52).toNat = 1 + 970 by decide, twoTo_add, Nat.one_mul,
        show twoTo 0 = 1 by decide, show twoTo 1 = 2 by decide, Nat.mul_one]
    have hle := scaled_whole_le n
    have hpast : 2 ^ 53 - 1 < scaled n 1 ((n.log2 : Int) - 52) ↔ overflowBound ≤ n := by
      rw [hscaled, lt_roundDiv_iff (by decide) (twoTo_pos 970), overflowBound, h54,
        show 2 * (2 ^ 53 - 1) + 1 = 2 ^ 54 - 1 by decide]
    rw [← hpast]
    omega
  · have habove : twoTo (54 + 970) ≤ n := (hmono hgt).trans hlow
    rw [twoTo_add, h54] at habove
    rw [overflowBound, h54]
    omega

/-- The bits of a whole number are those of infinity, or fewer; they are those of infinity
from half a unit beyond the greatest `Float` on. -/
theorem nearestBits_whole (n : Nat) :
    nearestBits n 1 ≤ 2047 * twoTo 52 ∧
      (nearestBits n 1 = 2047 * twoTo 52 ↔ overflowBound ≤ n) := by
  by_cases h : n = 0
  · subst h
    have hpos : 0 < overflowBound := Nat.mul_pos (by decide) (twoTo_pos 970)
    exact ⟨Nat.zero_le _, iff_of_false (by decide) (not_le.mpr hpos)⟩
  · rw [← whole_overflows_iff h]
    have hle := scaled_whole_le n
    unfold nearestBits
    rw [if_neg h, mantissaExponent_whole h]
    dsimp only
    generalize scaled n 1 ((n.log2 : Int) - 52) = m at hle ⊢
    generalize n.log2 = digits
    have h52 : twoTo 52 = 2 ^ 52 := rfl
    have h53 : twoTo 53 = 2 ^ 53 := rfl
    rw [h53] at hle ⊢
    rw [h52]
    by_cases hcarry : m = 2 ^ 53
    · rw [if_pos hcarry]
      dsimp only
      split
      · omega
      · rw [if_neg (lt_irrefl _)]
        omega
    · rw [if_neg hcarry]
      dsimp only
      split
      · omega
      · split <;> omega

end Whole

/-! ## The `Float` of a whole number -/

open Float.Model Float.Model.UnpackedFloat in
/-- Bits that stand for no NaN are those of their `Float`. -/
theorem toBits_ofBits {b : UInt64}
    (h : b.toNat / twoTo 52 % twoTo 11 = 2047 → b.toNat % twoTo 52 = 0) :
    (Float.ofBits b).toBits = b := by
  have hnumber : @isNaNBits Format.binary64 b.toBitVec = false := by
    rw [isNaNBits, decide_eq_false_iff_not]
    rintro ⟨hexponent, hmantissa⟩
    have hscale : b.toNat / 2 ^ 52 % 2 ^ 11 = 2047 := by
      simpa [unpackExponent, Nat.shiftRight_eq_div_pow] using congrArg BitVec.toNat hexponent
    have hfraction : b.toNat % 2 ^ 52 = 0 := h hscale
    refine hmantissa (BitVec.eq_of_toNat_eq ?_)
    simpa [unpackMantissa] using hfraction
  have hround := @pack_unpack Format.binary64 b.toBitVec
  rw [hnumber] at hround
  exact UInt64.toBitVec_inj.mp hround

theorem ofFloat_nearestInt (n : Int) :
    (∃ negative, Binary.ofFloat (nearestInt n) = .infinite negative) ↔
        overflowBound ≤ n.natAbs := by
  obtain ⟨hle, hiff⟩ := nearestBits_whole n.natAbs
  rw [← hiff]
  have h52 : twoTo 52 = 2 ^ 52 := rfl
  have h63 : twoTo 63 = 2 ^ 63 := rfl
  have h11 : twoTo 11 = 2 ^ 11 := rfl
  unfold nearestInt nearest
  generalize nearestBits n.natAbs 1 = bits at hle ⊢
  generalize hsign : (if decide (n < 0) = true then twoTo 63 else 0) = sign
  have hsign' : sign = 0 ∨ sign = 2 ^ 63 := by
    rw [← hsign]
    split
    · exact .inr rfl
    · exact .inl rfl
  rw [h52] at hle
  have hnat : (bits + sign).toUInt64.toNat = bits + sign := by
    rw [Nat.toUInt64, UInt64.toNat_ofNat_of_lt']
    rw [UInt64.size]
    omega
  have hkeeps : (Float.ofBits (bits + sign).toUInt64).toBits = (bits + sign).toUInt64 := by
    refine toBits_ofBits ?_
    rw [hnat, h52, h11]
    omega
  unfold Binary.ofFloat
  dsimp only
  rw [hkeeps, hnat, h52, h11]
  constructor
  · rintro ⟨negative, h⟩
    split at h
    · omega
    · split at h <;> cases h
  · intro h
    rw [if_pos (by omega), if_pos (by omega)]
    exact ⟨_, rfl⟩

end SourceShelf.Decimal

namespace SourceShelf

open Decimal

/-- A whole number is refused just when it lies half a unit beyond the greatest `Float`. -/
theorem floatOfInt_eq_error_iff {n : Int} {e : NumberError} :
    floatOfInt n = .error e ↔ e = .tooLarge ∧ overflowBound ≤ n.natAbs := by
  rw [← ofFloat_nearestInt]
  unfold floatOfInt
  dsimp only
  split
  · rename_i negative h
    rw [h]
    simp [eq_comm]
  · rename_i h
    refine iff_of_false (by simp) ?_
    rintro ⟨-, negative, hinf⟩
    exact h negative hinf

end SourceShelf
