import Lox.Proofs.Number.Text
import Lox.Proofs.Scan.Lexemes
import Lox.Proofs.Scan.Literal
import Mathlib
/-!
# `Number.RoundTrip` — a printed number is scanned as that number

The digits of a decimal begin and end with something other than zero, so the text of a finite number
has no zero that could be left out (`Placed.canonical`). It is a number lexeme, and the double
nearest to the fraction it spells is the double that was printed (`scan_text`). A set sign bit is a
minus before the text of the absolute value (`text_of_isNegative`), which holds of zero too.
-/
namespace Lox.Number

/-! ## The first digit and the last -/

theorem head?_toDigits {n : Nat} (h : n ≠ 0) : (Nat.toDigits 10 n).head? ≠ some '0' := by
  induction n using Nat.strongRecOn with
  | ind n ih =>
      by_cases hlt : n < 10
      · have hdigit : ∀ m < 10, m ≠ 0 → Nat.digitChar m ≠ '0' := by decide
        rw [Nat.toDigits_of_lt_base hlt]
        simpa using hdigit n hlt h
      · -- All digits but the last are those of the tenth part.
        have hrest := ih (n / 10) (by omega) (by omega)
        rw [Nat.toDigits_of_base_le (by decide) (by omega),
          List.head?_append_of_ne_nil _ Nat.toDigits_ne_nil]
        exact hrest

namespace Decimal

theorem head?_digits {d : Decimal} (h : d.coefficient ≠ 0) : d.digits.head? ≠ some '0' := by
  obtain ⟨zeros, hz⟩ := toDigits_eq h
  have hhead := head?_toDigits h
  rwa [hz, List.head?_append_of_ne_nil _ d.digits_ne_nil] at hhead

theorem getLast?_digits {d : Decimal} (h : d.coefficient ≠ 0) : d.digits.getLast? ≠ some '0' := by
  rw [digits_eq h, List.getLast?_reverse]
  intro hzero
  have hnot := List.head?_dropWhile_not (· == '0') (Nat.toDigits 10 d.coefficient).reverse
  rw [hzero] at hnot
  cases hnot

theorem point_of_zero {d : Decimal} (h : d.coefficient = 0) : d.point = 1 := if_pos h

end Decimal

/-! ## Canonical texts -/

/-- Digits before the point and after it of which none could be left out. -/
structure Canonical (whole fraction : List Char) : Prop where
  whole_ne_nil : whole ≠ []
  isDigit : ∀ c ∈ whole ++ fraction, c.isDigit
  leading : whole.head? = some '0' → whole = ['0']
  trailing : fraction.getLast? ≠ some '0'

/-- Zeros are filled in only where the point is away from the digits. -/
theorem Placed.canonical {d : Decimal} {whole fraction : List Char}
    (h : Placed d.digits d.point whole fraction) :
    Canonical whole fraction := by
  have hne := d.digits_ne_nil
  refine ⟨h.written.whole_ne_nil, h.written.isDigit, ?_, ?_⟩
  · intro hzero
    by_cases hcoef : d.coefficient = 0
    · have hdigits := Decimal.digits_of_zero hcoef
      have hpoint := Decimal.point_of_zero hcoef
      cases h with
      | before hle => rfl
      | among hpos hlt => simp [hdigits, hpoint] at hlt
      | behind hge => simp [hdigits, hpoint]
    · have hhead := Decimal.head?_digits hcoef
      cases h with
      | before hle => rfl
      | among hpos hlt =>
          rw [List.head?_take, if_neg (by omega)] at hzero
          exact absurd hzero hhead
      | behind hge =>
          rw [List.head?_append_of_ne_nil _ hne] at hzero
          exact absurd hzero hhead
  · have hlast : d.point < d.digits.length → d.digits.getLast? ≠ some '0' := by
      intro hlt
      apply Decimal.getLast?_digits
      intro hcoef
      rw [Decimal.digits_of_zero hcoef, Decimal.point_of_zero hcoef] at hlt
      exact absurd hlt (by decide)
    have hlen := List.length_pos_iff.2 hne
    cases h with
    | before hle =>
        rw [List.getLast?_append_of_ne_nil _ hne]
        exact hlast (by omega)
    | among hpos hlt =>
        rw [List.getLast?_drop, if_neg (by omega)]
        exact hlast hlt
    | behind hge => simp

/-- A canonical text is the text of a number literal. -/
theorem Canonical.numberText {whole fraction : List Char} (h : Canonical whole fraction) :
    NumberText (pointed whole fraction) := by
  have hwhole : ∀ c ∈ whole, c.isDigit = true := fun c hc => h.isDigit c (List.mem_append_left _ hc)
  have hfraction : ∀ c ∈ fraction, c.isDigit = true :=
    fun c hc => h.isDigit c (List.mem_append_right _ hc)
  unfold pointed
  split
  · rw [List.append_nil]
    exact .whole h.whole_ne_nil hwhole
  · rename_i hne
    exact .decimal h.whole_ne_nil hwhole hne hfraction

/-! ## Reading the text -/

/-- The value of a numeral without sign and exponent. -/
theorem Numeral.value_eq (whole fraction : List Char) :
    Numeral.value ⟨false, whole, fraction, 0⟩ =
      nearest (ofDigits (whole ++ fraction)) (Nat.pow 10 fraction.length) := by
  have hexp : max (-(2000 + ((whole ++ fraction).length : Int)))
    (min (2000 + ((whole ++ fraction).length : Int)) 0) -
      (fraction.length : Int) = -(fraction.length : Int) := by omega
  simp only [Numeral.value, signed, hexp]
  simp

theorem Canonical.read? {whole fraction : List Char} (h : Canonical whole fraction) :
    read? (pointed whole fraction) = some (nearest (ofDigits (whole ++ fraction))
      (Nat.pow 10 fraction.length)) := by
  obtain ⟨c, cs, rfl⟩ := List.exists_cons_of_ne_nil h.whole_ne_nil
  have hc : c.isDigit = true := h.isDigit c (by simp)
  have hcs : ∀ d ∈ cs, d.isDigit = true := fun d hd => h.isDigit d (by simp [hd])
  have hfraction : ∀ f ∈ fraction, f.isDigit = true := fun f hf => h.isDigit f (by simp [hf])
  rw [← Numeral.value_eq]
  unfold pointed
  apply read?_literal hc hcs hfraction
  split
  · rename_i hnil
    exact .inl ⟨rfl, hnil⟩
  · exact .inr rfl

/-! ## Sign and magnitude -/

open Float.Model.UnpackedFloat

theorem toNat_unpackMantissa (v : Float) :
    (@unpackMantissa .binary64 v.toBits.toBitVec).toNat = magnitude v % 2 ^ 52 := by
  have hlow : v.toBits.toNat % 2 ^ 52 = v.toBits.toNat % 2 ^ 63 % 2 ^ 52 := by omega
  rw [unpackMantissa_def, BitVec.extractLsb'_toNat]
  exact hlow

theorem toNat_unpackExponent (v : Float) :
    (@unpackExponent .binary64 v.toBits.toBitVec).toNat = magnitude v / 2 ^ 52 := by
  have hhigh : v.toBits.toNat / 2 ^ 52 % 2 ^ 11 = v.toBits.toNat % 2 ^ 63 / 2 ^ 52 := by omega
  rw [unpackExponent_def, BitVec.extractLsb'_toNat, Nat.shiftRight_eq_div_pow]
  exact hhigh

/-- The largest exponent is that of infinity, and of what is no number. -/
theorem unpackExponent_ne_iff (v : Float) :
    @unpackExponent .binary64 v.toBits.toBitVec ≠ -1#11 ↔ magnitude v < infinityBits := by
  have hlt : v.toBits.toNat % 2 ^ 63 < 2 ^ 63 := Nat.mod_lt _ (by decide)
  have hones : (-1#11).toNat = 2047 := by decide
  rw [ne_eq, ← BitVec.toNat_inj, toNat_unpackExponent, hones]
  simp only [magnitude, infinityBits, Nat.pow_eq]
  omega

theorem isFinite_iff (v : Float) : v.isFinite = true ↔ magnitude v < infinityBits := by
  rw [← unpackExponent_ne_iff]
  show (unpack .binary64 v.toBits.toBitVec).isFinite = true ↔ _
  rw [unpack]
  split
  · split <;> simp_all [isFinite]
  · split
    · split <;> simp_all [isFinite]
    · simp_all [isFinite]

/-- The absolute value has the exponent and the mantissa, and a clear sign bit. -/
theorem unpack_packComponents_positive (spec : Float.Model.Format) (b : BitVec spec.numBits) :
    unpack spec (packComponents spec .positive (unpackExponent b) (unpackMantissa b)) =
    (unpack spec b).abs := by
  simp only [unpack, unpackSign_packComponents, unpackExponent_packComponents,
    unpackMantissa_packComponents, Sign.ofBitVec_toBitVec]
  split
  · split <;> rfl
  · split
    · split <;> rfl
    · rfl

theorem toNat_toBits_abs {v : Float} (h : magnitude v < infinityBits) :
    v.abs.toBits.toNat = magnitude v := by
  have hnan : isNaNBits (packComponents .binary64 .positive (unpackExponent v.toBits.toBitVec)
      (unpackMantissa v.toBits.toBitVec)) = false := by
    have hexponent := (unpackExponent_ne_iff v).2 h
    exact decide_eq_false fun hnan => hexponent (unpackExponent_packComponents.symm.trans hnan.1)
  have hbits : v.abs.toBits.toBitVec = packComponents .binary64 .positive
    (unpackExponent v.toBits.toBitVec) (unpackMantissa v.toBits.toBitVec) := by
    show pack .binary64 (unpack .binary64 v.toBits.toBitVec).abs = _
    rw [← unpack_packComponents_positive, pack_unpack, hnan]
    rfl
  have hmantissa : magnitude v % 2 ^ 52 < 2 ^ 52 := Nat.mod_lt _ (by decide)
  show v.abs.toBits.toBitVec.toNat = _
  rw [hbits, packComponents, BitVec.toNat_append, BitVec.toNat_append, toNat_unpackExponent,
    toNat_unpackMantissa]
  show (0 <<< 11 ||| magnitude v / 2 ^ 52) <<< 52 ||| magnitude v % 2 ^ 52 = _
  rw [Nat.zero_shiftLeft, Nat.zero_or, ← Nat.shiftLeft_add_eq_or_of_lt hmantissa, Nat.shiftLeft_eq]
  omega

theorem magnitude_abs {v : Float} (h : magnitude v < infinityBits) : magnitude v.abs = magnitude v := by
  rw [magnitude, toNat_toBits_abs h]
  exact Nat.mod_mod _ _

theorem isNegative_abs {v : Float} (h : magnitude v < infinityBits) : isNegative v.abs = false := by
  have hlt : magnitude v < 2 ^ 63 := Nat.mod_lt _ (by decide)
  rw [isNegative, toNat_toBits_abs h]
  exact decide_eq_false (Nat.not_le.2 hlt)

theorem ofBits_magnitude {v : Float} (h : isNegative v = false) :
    Float.ofBits (UInt64.ofNat (magnitude v)) = v := by
  have hlt : v.toBits.toNat < 2 ^ 63 := by simpa [isNegative] using h
  have hbits : magnitude v = v.toBits.toNat := Nat.mod_eq_of_lt hlt
  rw [hbits, UInt64.ofNat_toNat, Float.ofBits_toBits]

/-! ## Printed numbers -/

theorem text_of_finite {v : Float} (h : magnitude v < infinityBits) :
    text v = String.ofList
      (if isNegative v then '-' :: valueFormat.finiteText (magnitude v)
        else valueFormat.finiteText (magnitude v)) := by
  rw [text, Format.text, if_neg (Nat.lt_asymm h)]
  simp only [if_neg (Nat.ne_of_lt h)]

/-- The text of a number whose sign bit is clear is canonical, and scanned it is the number. -/
theorem scan_text {v : Float} (h : magnitude v < infinityBits) (hneg : isNegative v = false) :
    (∃ whole fraction, text v = String.ofList (pointed whole fraction) ∧ Canonical whole fraction) ∧
      scan (text v) = [.ok ⟨.number v, .origin, text v⟩] := by
  obtain ⟨whole, fraction, hfinite, hplaced, hbits⟩ := finiteText_placed h
  have hcanonical := hplaced.canonical
  have htext : text v = String.ofList (pointed whole fraction) := by
    rw [text_of_finite h, hneg, hfinite]
    rfl
  have hvalue : nearest (ofDigits (whole ++ fraction)) (Nat.pow 10 fraction.length) = v := by
    rw [nearest, hbits, ofBits_magnitude hneg]
  have hinfinite : isInfinite v = false := by
    rw [isInfinite, beq_eq_false_iff_ne]
    exact Nat.ne_of_lt h
  have hmeaning : (lexemeAt (pointed whole fraction)).1 = .ok (.number v) := by
    have hnumber := hcanonical.numberText
    rw [lexemeAt_number (.self hnumber), numberMeaning, hcanonical.read?, hvalue]
    simp [hinfinite]
  refine ⟨⟨whole, fraction, htext, hcanonical⟩, ?_⟩
  rw [htext, scan_lexemeText (.number hcanonical.numberText), hmeaning]
  rfl

/-- A set sign bit is written before the text of the absolute value. -/
theorem text_of_isNegative {v : Float} (h : magnitude v < infinityBits) (hneg : isNegative v = true) :
    text v = "-" ++ text v.abs := by
  have habs : magnitude v.abs < infinityBits := by rwa [magnitude_abs h]
  rw [text_of_finite h, text_of_finite habs, hneg, isNegative_abs h, magnitude_abs h]
  apply String.toList_inj.1
  simp

/-- Printed numbers are read back: without a sign they are scanned as the number that
was printed, and the sign is a minus before the absolute value, so that different
numbers are printed differently. -/
theorem numbers_read_back :
    (∀ v : Float, v.isFinite → isNegative v = false →
      (∃ whole fraction, text v = String.ofList (pointed whole fraction) ∧ Canonical whole fraction) ∧
        scan (text v) = [.ok ⟨.number v, .origin, text v⟩]) ∧
    (∀ v : Float, v.isFinite → isNegative v = true →
      v.abs.isFinite ∧ isNegative v.abs = false ∧ text v = "-" ++ text v.abs) ∧
    (∀ v w : Float, v.isFinite → w.isFinite → text v = text w → v.toBits = w.toBits) := by
  refine ⟨?_, ?_, ?_⟩
  · intro v hfinite hneg
    exact scan_text ((isFinite_iff v).1 hfinite) hneg
  · intro v hfinite hneg
    have hmag := (isFinite_iff v).1 hfinite
    refine ⟨(isFinite_iff v.abs).2 ?_, isNegative_abs hmag, text_of_isNegative hmag hneg⟩
    rwa [magnitude_abs hmag]
  · intro v w hv hw h
    rw [text_injective h]

/-- Beyond the whole numbers that doubles tell apart, at a zero with a sign, and at
two spellings of a half. -/
theorem numbers_read_back_large :
    scan "100000000000000000000000" = [.ok ⟨.number 1e23, .origin, "100000000000000000000000"⟩] ∧
      (isNegative (-0.0) = true ∧ text (-0.0) = "-" ++ text (-0.0 : Float).abs) ∧
      (0.5 : Float).toBits = (1.0 / 2.0 : Float).toBits := by
  have htext : text 1e23 = "100000000000000000000000" := by decide +kernel
  have hscan := (numbers_read_back.1 1e23 (by decide) (by decide)).2
  rw [htext] at hscan
  refine ⟨hscan, ⟨by decide, ?_⟩, ?_⟩
  · exact (numbers_read_back.2.1 (-0.0) (by decide) (by decide)).2.2
  · exact numbers_read_back.2.2 0.5 (1.0 / 2.0) (by decide) (by decide) (by decide +kernel)

end Lox.Number
