import Lox.Proofs.Number.RoundTrip
import Lox.Proofs.Number.Rounding
/-!
# `Number.Doubles` — numbers are rounded to the nearest double

A finite double is a fraction: its sign, and as many units as its pattern says
(`exactValue_mul_unit`). What is known of patterns is therefore known of doubles. A number below
`limit` is rounded to a double that none is nearer than, of two the even one
(`isNearest_ofRat`), a larger number to a larger double (`exactValue_ofRat_mono`), and from the
limit on to infinity (`isInfinite_ofRat`).
-/
namespace Lox.Number

open Float.Model.UnpackedFloat
open Float.Model (UnpackedFloat)

/-! ## The value of a double -/

/-- The fraction that the parts of a double stand for. What is not finite stands for
none, and is given zero. -/
def partsValue : UnpackedFloat → ℚ
  | .finite sign m e _ => sign.apply m * 2 ^ e
  | _ => 0

/-- The fraction that a finite double stands for. -/
def exactValue (v : Float) : ℚ := partsValue (unpack .binary64 v.toBits.toBitVec)

/-- The exponent of a double counts from the unit. -/
theorem pow_mul_unit {e : Int} {s : Nat} (h : e = s - 1074) : (2 : ℚ) ^ e * unit = 2 ^ s := by
  have hsum : e + ((1074 : Nat) : Int) = s := by omega
  rw [cast_unit, ← zpow_natCast 2 1074, ← zpow_add₀ two_ne_zero, hsum, zpow_natCast]

theorem partsValue_finite (sign : Sign) {m s : Nat} {e : Int} (hpos : 0 < m) (he : e = s - 1074) :
    partsValue (.finite sign m e hpos) * unit = sign.apply m * 2 ^ s := by
  rw [partsValue, mul_assoc, pow_mul_unit he]

theorem ofBitVec_unpackSign (v : Float) :
    Sign.ofBitVec (@unpackSign .binary64 v.toBits.toBitVec) = if isNegative v then .negative
      else .positive := by
  have hlt := v.toBits.toNat_lt
  have hbit : (@unpackSign .binary64 v.toBits.toBitVec).toNat = v.toBits.toNat / 2 ^ 63 % 2 ^ 1 := by
    rw [unpackSign_def, BitVec.extractLsb'_toNat, Nat.shiftRight_eq_div_pow]
    rfl
  have hzero : @unpackSign .binary64 v.toBits.toBitVec = 0#1 ↔ isNegative v = false := by
    rw [← BitVec.toNat_inj, hbit, isNegative, decide_eq_false_iff_not]
    simp only [BitVec.toNat_ofNat, Nat.pow_eq]
    omega
  rw [Sign.ofBitVec]
  cases hneg : isNegative v with
  | false => exact if_pos (hzero.mpr hneg)
  | true =>
      refine if_neg fun hclear => ?_
      rw [hzero.mp hclear] at hneg
      cases hneg

/-- A finite double is its sign and as many units as its pattern says. -/
theorem exactValue_mul_unit {v : Float} (h : magnitude v < infinityBits) :
    exactValue v * unit = if isNegative v then -(units (magnitude v) : ℚ) else units (magnitude v) := by
  have hmantissa := toNat_unpackMantissa v
  have hexponent := toNat_unpackExponent v
  have hfinite := (unpackExponent_ne_iff v).mpr h
  have hbias : (Float.Model.Format.binary64.exponentBias : Int) + (52 : Nat) = 1075 := by decide
  obtain ⟨s, m, hb, hlt, hfit⟩ := exists_pattern (magnitude v)
  have hleading := hfit.leading
  have hsigned : (((if isNegative v then Sign.negative else Sign.positive).apply m : Int) : ℚ) * 2 ^ s =
      if isNegative v then -((m * 2 ^ s : Nat) : ℚ) else (m * 2 ^ s : Nat) := by
    cases isNegative v <;> simp [Sign.apply]
  rw [hb] at hmantissa hexponent
  rw [hb, units_pattern hfit, ← hsigned, exactValue, unpack]
  simp only [ofBitVec_unpackSign, hbias]
  rw [if_neg hfinite]
  generalize (if isNegative v then Sign.negative else Sign.positive) = sign
  by_cases hsmall : @unpackExponent .binary64 v.toBits.toBitVec = 0#11
  · rw [if_pos hsmall]
    have hexp : (s * 2 ^ 52 + m) / 2 ^ 52 = 0 := by rw [← hexponent, hsmall]; rfl
    obtain rfl : s = 0 := by omega
    have hm : (@unpackMantissa .binary64 v.toBits.toBitVec).toNat = m := by omega
    by_cases hzero : @unpackMantissa .binary64 v.toBits.toBitVec = 0#52
    · rw [dif_pos hzero]
      obtain rfl : m = 0 := by rw [← hm, hzero]; rfl
      have hsign : (sign.apply (0 : Nat) : Int) = 0 := by cases sign <;> rfl
      show (0 : ℚ) * unit = _
      rw [zero_mul, hsign, Int.cast_zero, zero_mul]
    · rw [dif_neg hzero, partsValue_finite _ _ (s := 0) (by rw [hexponent, hexp]; decide), hm]
  · rw [if_neg hsmall]
    have hexp : (s * 2 ^ 52 + m) / 2 ^ 52 ≠ 0 := by
      rw [← hexponent]
      exact fun hzero => hsmall (BitVec.eq_of_toNat_eq hzero)
    have hm : (1#1 ++ @unpackMantissa .binary64 v.toBits.toBitVec).toNat = m := by
      have hlow : (@unpackMantissa .binary64 v.toBits.toBitVec).toNat < 2 ^ 52 := BitVec.isLt _
      rw [BitVec.toNat_append, ← Nat.shiftLeft_add_eq_or_of_lt hlow, Nat.shiftLeft_eq]
      show 1 * 2 ^ 52 + _ = _
      omega
    rw [partsValue_finite _ _ (s := s) (by rw [hexponent]; omega), hm]

/-! ## The nearest double -/

/-- The double is finite and no other one is nearer to the number; where another one is as near, the
last bit of the pattern is clear. -/
structure IsNearest (x : ℚ) (v : Float) : Prop where
  finite : v.isFinite = true
  dist_le : ∀ w : Float, w.isFinite = true → |x - exactValue v| ≤ |x - exactValue w|
  even : ∀ w : Float, w.isFinite = true → exactValue w ≠ exactValue v →
    |x - exactValue v| = |x - exactValue w| →
    v.toBits.toNat % 2 = 0

/-- The double that a number is rounded to. -/
def ofRat (x : ℚ) : Float := nearest x.num.toNat x.den

/-- Rounding depends on the ratio only. -/
theorem nearest_eq_ofRat (num : Nat) {den : Nat} (hden : 0 < den) :
    nearest num den = ofRat (num / den) := by
  have hratio : num * (num / den : ℚ).den = (num / den : ℚ).num.toNat * den := by
    have hnum : ((num / den : ℚ).num.toNat : ℚ) = (num / den : ℚ).num := by
      exact_mod_cast Int.toNat_of_nonneg (Rat.num_nonneg.mpr (by positivity))
    have hden' : (den : ℚ) ≠ 0 := by exact_mod_cast hden.ne'
    have hcross := (div_eq_div_iff (Nat.cast_ne_zero.mpr (num / den : ℚ).den_ne_zero) hden').mp
      (Rat.num_div_den (num / den : ℚ))
    rw [← hnum] at hcross
    exact_mod_cast hcross.symm
  rw [ofRat, nearest, nearest, nearestBits_congr hden (Rat.den_pos _) hratio]

/-- No pattern up to infinity is changed by taking it for that of a double. -/
theorem toNat_toBits_ofBits {b : Nat} (h : b ≤ infinityBits) :
    (Float.ofBits (UInt64.ofNat b)).toBits.toNat = b := by
  have hlt : b < 2 ^ 64 := lt_of_le_of_lt h (by decide)
  have hbits : (UInt64.ofNat b).toBitVec.toNat = b := Nat.mod_eq_of_lt hlt
  have hnan : @isNaNBits .binary64 (UInt64.ofNat b).toBitVec = false := by
    refine decide_eq_false fun hnan => ?_
    obtain ⟨hexponent, hmantissa⟩ := hnan
    have hexp := congrArg BitVec.toNat hexponent
    rw [unpackExponent_def, BitVec.extractLsb'_toNat, Nat.shiftRight_eq_div_pow, hbits] at hexp
    apply hmantissa
    apply BitVec.eq_of_toNat_eq
    rw [unpackMantissa_def, BitVec.extractLsb'_toNat, hbits]
    have hones : b / 2 ^ 52 % 2 ^ 11 = 2047 := hexp
    have hle : b ≤ 2047 * 2 ^ 52 := h
    show b >>> 0 % 2 ^ 52 = 0
    rw [Nat.shiftRight_zero]
    omega
  show (pack .binary64 (unpack .binary64 (UInt64.ofNat b).toBitVec)).toNat = b
  rw [pack_unpack, hnan]
  exact hbits

theorem toNat_toBits_nearest (num den : Nat) : (nearest num den).toBits.toNat = nearestBits num den :=
  toNat_toBits_ofBits (Nat.min_le_right _ _)

theorem magnitude_nearest (num den : Nat) : magnitude (nearest num den) = nearestBits num den := by
  have hle : nearestBits num den ≤ infinityBits := Nat.min_le_right _ _
  rw [magnitude, toNat_toBits_nearest]
  exact Nat.mod_eq_of_lt (lt_of_le_of_lt hle (by decide))

theorem isNegative_nearest (num den : Nat) : isNegative (nearest num den) = false := by
  have hle : nearestBits num den ≤ infinityBits := Nat.min_le_right _ _
  rw [isNegative, toNat_toBits_nearest]
  exact decide_eq_false (Nat.not_le.mpr (lt_of_le_of_lt hle (by decide)))

section Rounded

variable {x y : ℚ}

/-- The pattern that a number is rounded to, were there no largest double. -/
def patternOf (x : ℚ) : Nat := rounded (x.num.toNat * unit) x.den

theorem cell_patternOf (hx : 0 ≤ x) : Cell (x * unit) (patternOf x) := by
  have hcell := cell_rounded (x.num.toNat * unit) x.den_pos
  have hnum : (x.num.toNat : ℚ) = x.num := by exact_mod_cast Int.toNat_of_nonneg (Rat.num_nonneg.mpr hx)
  have hscaled : ((x.num.toNat * unit : Nat) : ℚ) / x.den = x * unit := by
    rw [Nat.cast_mul, hnum, mul_div_right_comm, Rat.num_div_den]
  rwa [hscaled] at hcell

theorem magnitude_ofRat (x : ℚ) : magnitude (ofRat x) = min (patternOf x) infinityBits :=
  (magnitude_nearest _ _).trans (nearestBits_eq _ _)

/-- Too large are the numbers from the limit on. -/
theorem isInfinite_ofRat (hx : 0 ≤ x) : isInfinite (ofRat x) = true ↔ limit ≤ x := by
  rw [isInfinite, beq_iff_eq, magnitude_ofRat, ← infinityBits_le_iff (cell_patternOf hx)]
  omega

theorem magnitude_ofRat_of_lt (hx : 0 ≤ x) (hlt : x < limit) :
    magnitude (ofRat x) = patternOf x ∧ patternOf x < infinityBits := by
  have hpattern : patternOf x < infinityBits := by
    rw [← Nat.not_le, infinityBits_le_iff (cell_patternOf hx)]
    exact hlt.not_ge
  exact ⟨(magnitude_ofRat x).trans (Nat.min_eq_left hpattern.le), hpattern⟩

theorem exactValue_ofRat (hx : 0 ≤ x) (hlt : x < limit) :
    exactValue (ofRat x) * unit = units (patternOf x) := by
  obtain ⟨hmagnitude, hpattern⟩ := magnitude_ofRat_of_lt hx hlt
  have hvalue := exactValue_mul_unit (v := ofRat x) (hmagnitude ▸ hpattern)
  rwa [hmagnitude, ofRat, isNegative_nearest, if_neg (by decide)] at hvalue

/-- Some pattern is not further away than a given double, and is the double's own if it is as far
away. -/
theorem exists_pattern_near {w : Float} (hx : 0 ≤ x) (hw : w.isFinite = true) :
    ∃ c : Nat, |x * unit - units c| ≤ |x * unit - exactValue w * unit| ∧
      (|x * unit - units c| = |x * unit - exactValue w * unit| →
        (units c : ℚ) = exactValue w * unit) := by
  have hvalue := exactValue_mul_unit ((isFinite_iff w).mp hw)
  cases hneg : isNegative w with
  | false =>
      rw [hneg, if_neg (by decide)] at hvalue
      exact ⟨magnitude w, by rw [hvalue], fun _ => hvalue.symm⟩
  | true =>
      -- What is not negative is nearer to zero than to anything below.
      rw [hneg, if_pos rfl] at hvalue
      have hzero : (units 0 : ℚ) = 0 := by exact_mod_cast (by decide : units 0 = 0)
      have hscaled : 0 ≤ x * unit := mul_nonneg hx (Nat.cast_nonneg _)
      have hunits : (0 : ℚ) ≤ units (magnitude w) := Nat.cast_nonneg _
      refine ⟨0, ?_, ?_⟩
      · rw [hvalue, hzero, abs_of_nonneg (by linarith), abs_of_nonneg (by linarith)]
        linarith
      · rw [hvalue, hzero, abs_of_nonneg (by linarith), abs_of_nonneg (by linarith)]
        intro heq
        linarith

/-- Below the limit a number is rounded to the nearest double. -/
theorem isNearest_ofRat (hx : 0 ≤ x) (hlt : x < limit) : IsNearest x (ofRat x) := by
  obtain ⟨hmagnitude, hpattern⟩ := magnitude_ofRat_of_lt hx hlt
  have hcell := cell_patternOf hx
  have hvalue := exactValue_ofRat hx hlt
  have hunit : (0 : ℚ) < unit := by exact_mod_cast unit_pos
  have hdist : ∀ v : Float, |x - exactValue v| * unit = |x * unit - exactValue v * unit| := by
    intro v
    rw [← sub_mul, abs_mul, abs_of_pos hunit]
  refine ⟨(isFinite_iff _).mpr (hmagnitude ▸ hpattern), ?_, ?_⟩
  · intro w hw
    obtain ⟨c, hc, -⟩ := exists_pattern_near hx hw
    have hle := hcell.dist_le c
    refine le_of_mul_le_mul_right ?_ hunit
    rw [hdist, hdist, hvalue]
    exact hle.trans hc
  · intro w hw hne heq
    obtain ⟨c, hc, hsame⟩ := exists_pattern_near hx hw
    have hle := hcell.dist_le c
    have hboth : |x * unit - units (patternOf x)| = |x * unit - exactValue w * unit| := by
      rw [← hvalue, ← hdist, ← hdist, heq]
    have hwc := hsame (le_antisymm hc (hboth ▸ hle))
    have hcb : c ≠ patternOf x := by
      rintro rfl
      exact hne (mul_right_cancel₀ hunit.ne' (hwc.symm.trans hvalue.symm))
    have heven := hcell.even_of_dist_eq hcb (by rw [hboth, hwc])
    rwa [ofRat, toNat_toBits_nearest, ← magnitude_nearest, ← ofRat, hmagnitude]

/-- A larger number is not rounded to a smaller double. -/
theorem exactValue_ofRat_mono (hx : 0 ≤ x) (hle : x ≤ y) (hlt : y < limit) :
    exactValue (ofRat x) ≤ exactValue (ofRat y) := by
  have hunit : (0 : ℚ) < unit := by exact_mod_cast unit_pos
  have hy := hx.trans hle
  have hscaled : x * unit ≤ y * unit := mul_le_mul_of_nonneg_right hle hunit.le
  have hpatterns := (cell_patternOf hx).mono (cell_patternOf hy) hscaled
  refine le_of_mul_le_mul_right ?_ hunit
  rw [exactValue_ofRat hx (hle.trans_lt hlt), exactValue_ofRat hy hlt]
  exact_mod_cast units_strictMono.monotone hpatterns

end Rounded

end Lox.Number
