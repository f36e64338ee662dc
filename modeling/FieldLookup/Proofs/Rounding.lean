import FieldLookup.Binary64.Basic
import Mathlib.Algebra.Group.Nat.Defs
import Mathlib.Data.Int.Order.Basic
import Mathlib.Data.Nat.Log

/-!
Rounding to binary numbers. Main statements: `isNaN_ofRatio`, a rounded ratio is a number or
infinite; and `rank_ofInt_mono`, rounding keeps integers in order, though it may make them equal.
-/
namespace FieldLookup.Binary64

/-! ## Encodings -/

section Magnitude

variable (negative : Bool) {m : Nat} (h : m ≤ infiniteMagnitude)
include h

theorem toNat_ofMagnitude :
    (ofMagnitude negative m).bits.toNat = if negative then 2 ^ 63 + m else m := by
  have hsmall : m < 2 ^ 63 := lt_of_le_of_lt h (by decide)
  unfold ofMagnitude
  rw [UInt64.toNat_ofNat', Nat.one_shiftLeft]
  cases negative with
  | false => simp only [Bool.false_eq_true, if_false]; omega
  | true => simp only [if_true]; omega

theorem magnitude_ofMagnitude : (ofMagnitude negative m).magnitude = m := by
  have hsmall : m < 2 ^ 63 := lt_of_le_of_lt h (by decide)
  rw [magnitude, toNat_ofMagnitude negative h, Nat.one_shiftLeft]
  cases negative with
  | false => simp only [Bool.false_eq_true, if_false]; omega
  | true => simp only [if_true]; omega

theorem isNegative_ofMagnitude : (ofMagnitude negative m).isNegative = negative := by
  have hsmall : m < 2 ^ 63 := lt_of_le_of_lt h (by decide)
  rw [isNegative, toNat_ofMagnitude negative h, Nat.one_shiftLeft]
  cases negative with
  | false => simp only [Bool.false_eq_true, if_false, decide_eq_false_iff_not]; omega
  | true => simp

theorem rank_ofMagnitude : (ofMagnitude negative m).rank = if negative then -(m : Int) else m := by
  rw [rank, isNegative_ofMagnitude negative h, magnitude_ofMagnitude negative h]

end Magnitude

theorem roundedMagnitude_le (num den : Nat) : roundedMagnitude num den ≤ infiniteMagnitude :=
  Nat.min_le_left _ _

/-- A rounded ratio is a number or infinite. -/
theorem isNaN_ofRatio (negative : Bool) (num den : Nat) :
    (ofRatio negative num den).isNaN = false := by
  have hle := roundedMagnitude_le num den
  rw [isNaN, ofRatio, magnitude_ofMagnitude negative hle]
  exact decide_eq_false (Nat.not_lt.mpr hle)

/-! ## Rounding keeps the order -/

section Order

variable {num num' den m : Nat}

theorem roundDiv_mono (den : Nat) (h : num ≤ num') : roundDiv num den ≤ roundDiv num' den := by
  have hdiv : num / den ≤ num' / den := Nat.div_le_div_right h
  have hnum := Nat.div_add_mod num den
  have hnum' := Nat.div_add_mod num' den
  unfold roundDiv
  dsimp only
  rcases Nat.eq_or_lt_of_le hdiv with heq | hlt
  · -- with the same quotient the remainders are in order
    rw [heq] at hnum ⊢
    have hmod : num % den ≤ num' % den := by omega
    split
    · rw [if_pos (by omega)]
    · split <;> omega
  · split <;> split <;> omega

/-- A multiple of the denominator is divided exactly. -/
theorem roundDiv_mul (hden : 0 < den) (m : Nat) : roundDiv (den * m) den = m := by
  rw [roundDiv, Nat.mul_mod_right, Nat.mul_div_right m hden]
  exact if_neg (by omega)

theorem le_roundDiv (hden : 0 < den) (h : den * m ≤ num) : m ≤ roundDiv num den :=
  (roundDiv_mul hden m).symm.le.trans (roundDiv_mono den h)

theorem roundDiv_le (hden : 0 < den) (h : num ≤ den * m) : roundDiv num den ≤ m :=
  (roundDiv_mono den h).trans (roundDiv_mul hden m).le

/-- The places of a number that are dropped so that 53 remain. -/
def dropped (num den : Nat) : Nat := Nat.log2 (num / den) - 52

/-- A significand has 53 places, or rounds up to the next power of two. -/
theorem significand_le (num : Nat) (hden : 0 < den) :
    roundDiv num (den <<< dropped num den) ≤ 2 ^ 53 := by
  rw [Nat.shiftLeft_eq]
  refine roundDiv_le (Nat.mul_pos hden (Nat.two_pow_pos _)) ?_
  have hpow : 2 ^ ((num / den).log2 + 1) ≤ 2 ^ dropped num den * 2 ^ 53 := by
    rw [← Nat.pow_add]
    exact Nat.pow_le_pow_right (by decide) (by unfold dropped; omega)
  have hlt := Nat.lt_mul_of_div_lt (Nat.lt_log2_self.trans_le hpow) hden
  rw [Nat.mul_comm, ← Nat.mul_assoc] at hlt
  exact hlt.le

/-- Where places are dropped, the significand has 53. -/
theorem le_significand (hden : 0 < den) (h : 0 < dropped num den) :
    2 ^ 52 ≤ roundDiv num (den <<< dropped num den) := by
  rw [Nat.shiftLeft_eq]
  refine le_roundDiv (Nat.mul_pos hden (Nat.two_pow_pos _)) ?_
  have hne : num / den ≠ 0 := by
    intro hzero
    rw [dropped, hzero] at h
    exact absurd h (by simp)
  have hpow : 2 ^ (num / den).log2 = 2 ^ dropped num den * 2 ^ 52 := by
    rw [← Nat.pow_add]
    exact congrArg _ (by unfold dropped at *; omega)
  have hle := Nat.log2_self_le hne
  rw [hpow, Nat.le_div_iff_mul_le hden, Nat.mul_comm, ← Nat.mul_assoc] at hle
  exact hle

/-- A larger ratio has no smaller magnitude. If more places of the larger one are dropped, its
significand has 53, and that of the smaller one comes to `2 ^ 53` at most. -/
theorem roundedMagnitude_mono (hden : 0 < den) (h : num ≤ num') :
    roundedMagnitude num den ≤ roundedMagnitude num' den := by
  have hunits : num <<< 1074 ≤ num' <<< 1074 := by
    rw [Nat.shiftLeft_eq, Nat.shiftLeft_eq]
    exact Nat.mul_le_mul_right _ h
  have hdropped : dropped (num <<< 1074) den ≤ dropped (num' <<< 1074) den := by
    unfold dropped
    rw [Nat.log2_eq_log_two, Nat.log2_eq_log_two]
    exact Nat.sub_le_sub_right (Nat.log_mono_right (Nat.div_le_div_right hunits)) 52
  refine Nat.le_min.mpr ⟨Nat.min_le_left _ _, (Nat.min_le_right _ _).trans ?_⟩
  change dropped (num <<< 1074) den <<< 52 + roundDiv _ (den <<< dropped (num <<< 1074) den) ≤
    dropped (num' <<< 1074) den <<< 52 + roundDiv _ (den <<< dropped (num' <<< 1074) den)
  rcases Nat.eq_or_lt_of_le hdropped with heq | hlt
  · rw [heq]
    exact Nat.add_le_add_left (roundDiv_mono _ hunits) _
  · have hsmall := significand_le (num <<< 1074) hden
    have hlarge := le_significand hden (Nat.zero_lt_of_lt hlt)
    rw [Nat.shiftLeft_eq _ 52, Nat.shiftLeft_eq _ 52]
    omega

end Order

/-! ## Integers -/

theorem isNaN_ofInt (n : Int) : (ofInt n).isNaN = false := isNaN_ofRatio _ _ _

theorem rank_ofInt (n : Int) :
    (ofInt n).rank =
      if n < 0 then -(roundedMagnitude n.natAbs 1 : Int) else roundedMagnitude n.natAbs 1 := by
  rw [ofInt, ofRatio, rank_ofMagnitude _ (roundedMagnitude_le _ _)]
  simp only [decide_eq_true_eq]

/-- Rounding keeps integers in order, though it may make them equal. -/
theorem rank_ofInt_mono {n n' : Int} (h : n ≤ n') : (ofInt n).rank ≤ (ofInt n').rank := by
  have hmono {k k' : Nat} (hk : k ≤ k') : roundedMagnitude k 1 ≤ roundedMagnitude k' 1 :=
    roundedMagnitude_mono Nat.one_pos hk
  rw [rank_ofInt, rank_ofInt]
  rcases lt_or_ge n 0 with hn | hn <;> rcases lt_or_ge n' 0 with hn' | hn'
  · have := hmono (show n'.natAbs ≤ n.natAbs by omega)
    rw [if_pos hn, if_pos hn']
    omega
  · rw [if_pos hn, if_neg hn'.not_gt]
    omega
  · omega
  · have := hmono (show n.natAbs ≤ n'.natAbs by omega)
    rw [if_neg hn.not_gt, if_neg hn'.not_gt]
    omega

theorem compare?_eq_some {x y : Binary64} (hx : x.isNaN = false) (hy : y.isNaN = false) :
    compare? x y = some (compare x.rank y.rank) := by
  rw [compare?, hx, hy]
  rfl

end FieldLookup.Binary64
