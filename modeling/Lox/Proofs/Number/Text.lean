import Lox.Number.Format
import Lox.Number.Numeral
import Lox.Proofs.Number.ReadBack
import Mathlib
/-!
# `Number.Text` — the text of a number determines the number

The positional text of a decimal is digits, and perhaps a point and more digits. Read as a fraction
it is the value of the decimal again (`Placed.written`), wherever the point comes to stand and
however many zeros are filled in. Since the decimal of a finite pattern rounds to the pattern, the
text gives the pattern back; the sign and the words for what is not finite are told apart by their
first characters (`text_injective`).
-/
namespace Lox.Number

/-! ## Rows of digits -/

theorem ofDigits_eq (ds : List Char) : ofDigits ds = Nat.ofDigitChars 10 ds 0 :=
  Nat.ofDigitChars_eq_foldl.symm

theorem ofDigits_append (as bs : List Char) :
    ofDigits (as ++ bs) = ofDigits as * 10 ^ bs.length + ofDigits bs := by
  simp only [ofDigits_eq]
  rw [Nat.ofDigitChars_append, Nat.ofDigitChars_eq_ofDigitChars_zero, Nat.mul_comm]

theorem ofDigits_replicate (n : Nat) : ofDigits (List.replicate n '0') = 0 := by
  rw [ofDigits_eq, Nat.ofDigitChars_replicate_zero, Nat.mul_zero]

theorem ofDigits_zero : ofDigits ['0'] = 0 := rfl

theorem ofDigits_toDigits (n : Nat) : ofDigits (Nat.toDigits 10 n) = n := by
  rw [ofDigits_eq, Nat.ofDigitChars_ten_toDigits]

theorem isDigit_of_mem_replicate {c : Char} {n : Nat} (h : c ∈ List.replicate n '0') : c.isDigit := by
  rw [List.eq_of_mem_replicate h]
  rfl

/-! ## The digits of a decimal -/

namespace Decimal

theorem digits_eq {d : Decimal} (h : d.coefficient ≠ 0) :
    d.digits = ((Nat.toDigits 10 d.coefficient).reverse.dropWhile (· == '0')).reverse := by
  unfold digits
  split
  · -- A coefficient of zeros only would be zero.
    rename_i hnil
    have hzeros : Nat.toDigits 10 d.coefficient = List.replicate
        (Nat.toDigits 10 d.coefficient).length '0' := by
      refine List.eq_replicate_iff.2 ⟨rfl, ?_⟩
      intro c hc
      have hzero := List.dropWhile_eq_nil_iff.1 (List.reverse_eq_nil_iff.1 hnil) c
        (List.mem_reverse.2 hc)
      simpa using hzero
    have hval := ofDigits_toDigits d.coefficient
    rw [hzeros, ofDigits_replicate] at hval
    exact absurd hval.symm h
  · rfl

/-- The digits of a decimal other than zero are those of its coefficient, but for the zeros at the
end. -/
theorem toDigits_eq {d : Decimal} (h : d.coefficient ≠ 0) :
    ∃ zeros, Nat.toDigits 10 d.coefficient = d.digits ++ List.replicate zeros '0' := by
  obtain ⟨zeros, hzeros⟩ : ∃ zeros,
      ((Nat.toDigits 10 d.coefficient).reverse.takeWhile (· == '0')).reverse =
      List.replicate zeros '0' := by
    refine ⟨_, List.eq_replicate_iff.2 ⟨rfl, ?_⟩⟩
    intro c hc
    have hzero := List.mem_takeWhile_imp (List.mem_reverse.1 hc)
    simpa using hzero
  refine ⟨zeros, ?_⟩
  rw [digits_eq h, ← hzeros, ← List.reverse_append, List.takeWhile_append_dropWhile,
    List.reverse_reverse]

theorem digits_of_zero {d : Decimal} (h : d.coefficient = 0) : d.digits = ['0'] := by
  simp [digits, h, Nat.toDigits_zero]

theorem digits_ne_nil (d : Decimal) : d.digits ≠ [] := by
  unfold digits
  split <;> simp_all

theorem isDigit_of_mem_digits {d : Decimal} {c : Char} (h : c ∈ d.digits) : c.isDigit := by
  by_cases hzero : d.coefficient = 0
  · rw [digits_of_zero hzero, List.mem_singleton] at h
    rw [h]
    rfl
  · obtain ⟨zeros, hz⟩ := toDigits_eq hzero
    apply Nat.isDigit_of_mem_toDigits (b := 10) (n := d.coefficient) (by decide) (by decide)
    rw [hz]
    exact List.mem_append_left _ h

/-- The value of a decimal: its digits, moved by as many places as the point is away from their
end. -/
theorem num_eq (d : Decimal) :
    ofDigits d.digits * Nat.pow 10 (d.point - d.digits.length).toNat * d.den =
      d.num * Nat.pow 10 (d.digits.length - d.point).toNat := by
  by_cases hzero : d.coefficient = 0
  · simp [num, hzero, digits_of_zero hzero, ofDigits_zero]
  · obtain ⟨zeros, hz⟩ := toDigits_eq hzero
    have hlen : ((Nat.toDigits 10 d.coefficient).length : Int) = d.digits.length + zeros := by
      rw [hz]
      simp
    have hcoef : d.coefficient = ofDigits d.digits * 10 ^ zeros := by
      have hval := ofDigits_toDigits d.coefficient
      rw [hz, ofDigits_append, ofDigits_replicate, List.length_replicate, Nat.add_zero] at hval
      exact hval.symm
    have hpoint : d.point - d.digits.length = zeros + d.exponent := by
      rw [point, if_neg hzero, hlen]
      omega
    have hexp : (zeros + d.exponent).toNat + (-d.exponent).toNat =
        zeros + d.exponent.toNat + (-(zeros + d.exponent)).toNat := by omega
    have hback : (d.digits.length : Int) - d.point = -(zeros + d.exponent) := by omega
    rw [num, den, hpoint, hback]
    show ofDigits d.digits * 10 ^ _ * 10 ^ _ = d.coefficient * 10 ^ _ * 10 ^ _
    rw [hcoef, Nat.mul_assoc, ← Nat.pow_add, hexp, Nat.pow_add, Nat.pow_add]
    simp only [Nat.mul_assoc]

end Decimal

/-! ## Positional texts -/

/-- Digits, and after a point more digits if there are any. -/
def pointed (whole fraction : List Char) : List Char :=
  whole ++ if fraction = [] then [] else '.' :: fraction

/-- The digits before and after the point stand for the fraction `num / den`. -/
structure Written (whole fraction : List Char) (num den : Nat) : Prop where
  whole_ne_nil : whole ≠ []
  isDigit : ∀ c ∈ whole ++ fraction, c.isDigit
  value : ofDigits (whole ++ fraction) * den = num * 10 ^ fraction.length

/-- The digits before and after the point, where the point stands behind as many digits as `point`
says and zeros fill the places between it and the digits. -/
inductive Placed (digits : List Char) (point : Int) : List Char → List Char → Prop where
  | before (h : point ≤ 0) : Placed digits point ['0'] (List.replicate (-point).toNat '0' ++ digits)
  | among (hpos : 0 < point) (hlt : point < digits.length) :
      Placed digits point (digits.take point.toNat) (digits.drop point.toNat)
  | behind (hge : digits.length ≤ point) :
      Placed digits point (digits ++ List.replicate (point.toNat - digits.length) '0') []

theorem positionalText_placed {digits : List Char} (hne : digits ≠ []) (point : Int) :
    ∃ whole fraction, positionalText "" digits point = pointed whole fraction ∧
      Placed digits point whole fraction := by
  unfold positionalText
  split
  · rename_i hle
    exact ⟨_, _, by simp [pointed, hne], .before hle⟩
  · rename_i hpos
    split
    · rename_i hlt
      have hdrop : digits.drop point.toNat ≠ [] := by
        rw [ne_eq, List.drop_eq_nil_iff]
        omega
      exact ⟨_, _, by simp [pointed, hdrop], .among (by omega) hlt⟩
    · rename_i hge
      exact ⟨_, _, by simp [pointed], .behind (by omega)⟩

/-- The digits of a decimal, read as a fraction wherever the point is placed, are the decimal. -/
theorem Placed.written {d : Decimal} {whole fraction : List Char}
    (h : Placed d.digits d.point whole fraction) :
    Written whole fraction d.num d.den := by
  have hval := d.num_eq
  have hne := d.digits_ne_nil
  cases h with
  | before hle =>
      refine ⟨by simp, ?_, ?_⟩
      · intro c hc
        rcases List.mem_append.1 hc with hc | hc
        · rw [List.mem_singleton.1 hc]
          rfl
        · rcases List.mem_append.1 hc with hc | hc
          · exact isDigit_of_mem_replicate hc
          · exact d.isDigit_of_mem_digits hc
      · have hright : (d.point - d.digits.length).toNat = 0 := by omega
        have hleft : (d.digits.length - d.point).toNat = (-d.point).toNat + d.digits.length := by omega
        rw [hright, hleft] at hval
        rw [ofDigits_append ['0'], ofDigits_append, ofDigits_replicate, ofDigits_zero]
        simpa using hval
  | among hpos hlt =>
      refine ⟨?_, ?_, ?_⟩
      · rw [ne_eq, List.take_eq_nil_iff]
        simp only [hne, or_false]
        omega
      · intro c hc
        rw [List.take_append_drop] at hc
        exact d.isDigit_of_mem_digits hc
      · have hright : (d.point - d.digits.length).toNat = 0 := by omega
        have hleft : (d.digits.length - d.point).toNat = (d.digits.drop d.point.toNat).length := by
          rw [List.length_drop]
          omega
        rw [hright, hleft] at hval
        rw [List.take_append_drop]
        simpa using hval
  | behind hge =>
      refine ⟨by simp [hne], ?_, ?_⟩
      · intro c hc
        rw [List.append_nil] at hc
        rcases List.mem_append.1 hc with hc | hc
        · exact d.isDigit_of_mem_digits hc
        · exact isDigit_of_mem_replicate hc
      · have hright : (d.point - d.digits.length).toNat = d.point.toNat - d.digits.length := by omega
        have hleft : (d.digits.length - d.point).toNat = 0 := by omega
        rw [hright, hleft] at hval
        simpa [ofDigits_append, ofDigits_replicate] using hval

/-- The point is found again, as no digit is one. -/
theorem pointed_inj {w f w' f' : List Char} (h : ∀ c ∈ w ++ f, c.isDigit)
    (h' : ∀ c ∈ w' ++ f', c.isDigit) (heq : pointed w f = pointed w' f') : w = w' ∧ f = f' := by
  have hwhole : ∀ w f : List Char, (∀ c ∈ w ++ f, c.isDigit) →
      (pointed w f).takeWhile Char.isDigit = w ∧ ((pointed w f).dropWhile Char.isDigit).drop 1 = f := by
    intro w f hd
    have hw : ∀ c ∈ w, c.isDigit := fun c hc => hd c (List.mem_append_left _ hc)
    have hnil : w.takeWhile Char.isDigit = w := List.takeWhile_eq_self_iff.2 hw
    have hdrop : w.dropWhile Char.isDigit = [] := List.dropWhile_eq_nil_iff.2 hw
    unfold pointed
    by_cases hf : f = []
    · simp [hf, hnil, hdrop]
    · have hpoint : Char.isDigit '.' = false := rfl
      simp [hf, List.takeWhile_append_of_pos hw, List.dropWhile_append_of_pos hw, hpoint]
  obtain ⟨h₁, h₂⟩ := hwhole w f h
  obtain ⟨h₁', h₂'⟩ := hwhole w' f' h'
  rw [heq] at h₁ h₂
  exact ⟨h₁.symm.trans h₁', h₂.symm.trans h₂'⟩

theorem finiteText_eq (bits : Nat) :
    valueFormat.finiteText bits = positionalText "" (shortest bits).digits (shortest bits).point := by
  simp only [Format.finiteText, valueFormat, Format.positional, Option.all_none, Bool.and_self,
    ↓reduceIte]

/-- The text of a finite pattern, read as a fraction, rounds to the pattern. -/
theorem finiteText_placed {bits : Nat} (h : bits < infinityBits) :
    ∃ whole fraction, valueFormat.finiteText bits = pointed whole fraction ∧
      Placed (shortest bits).digits (shortest bits).point whole fraction ∧
      nearestBits (ofDigits (whole ++ fraction)) (Nat.pow 10 fraction.length) = bits := by
  obtain ⟨whole, fraction, htext, hplaced⟩ :=
    positionalText_placed (shortest bits).digits_ne_nil (shortest bits).point
  refine ⟨whole, fraction, (finiteText_eq bits).trans htext, hplaced, ?_⟩
  calc nearestBits (ofDigits (whole ++ fraction)) (Nat.pow 10 fraction.length)
      = nearestBits (shortest bits).num (shortest bits).den :=
        nearestBits_congr (Nat.pow_pos (by decide)) (shortest bits).den_pos hplaced.written.value
    _ = bits := shortest_bits h

/-- The text of a finite pattern gives the pattern back. -/
theorem finiteText_inj {bits bits' : Nat} (h : bits < infinityBits) (h' : bits' < infinityBits)
    (heq : valueFormat.finiteText bits = valueFormat.finiteText bits') : bits = bits' := by
  obtain ⟨w, f, htext, hplaced, hbits⟩ := finiteText_placed h
  obtain ⟨w', f', htext', hplaced', hbits'⟩ := finiteText_placed h'
  have hpointed : pointed w f = pointed w' f' := by rw [← htext, ← htext', heq]
  obtain ⟨rfl, rfl⟩ := pointed_inj hplaced.written.isDigit hplaced'.written.isDigit hpointed
  exact hbits.symm.trans hbits'

/-- The text of a finite pattern begins with a digit, and holds digits and points only. -/
theorem finiteText_chars (bits : Nat) :
    (∃ c cs, valueFormat.finiteText bits = c :: cs ∧ c.isDigit) ∧
      ∀ c ∈ valueFormat.finiteText bits, c.isDigit ∨ c = '.' := by
  obtain ⟨w, f, htext, hplaced⟩ := positionalText_placed (shortest bits).digits_ne_nil
    (shortest bits).point
  have hw := hplaced.written
  rw [finiteText_eq, htext]
  obtain ⟨c, cs, rfl⟩ := List.exists_cons_of_ne_nil hw.whole_ne_nil
  refine ⟨⟨c, _, rfl, hw.isDigit c (by simp)⟩, ?_⟩
  intro x hx
  unfold pointed at hx
  split at hx
  · rw [List.append_nil] at hx
    exact .inl (hw.isDigit x (List.mem_append_left _ hx))
  · rcases List.mem_append.1 hx with hx | hx
    · exact .inl (hw.isDigit x (List.mem_append_left _ hx))
    · rcases List.mem_cons.1 hx with hx | hx
      · exact .inr hx
      · exact .inl (hw.isDigit x (List.mem_append_right _ hx))

/-! ## Doubles -/

/-- A double is its sign and its magnitude. -/
theorem eq_of_isNegative_of_magnitude {v w : Float} (hneg : isNegative v = isNegative w)
    (hmag : magnitude v = magnitude w) : v = w := by
  apply Float.toBits_inj.1
  apply UInt64.toNat_inj.1
  have hv := v.toBits.toNat_lt
  have hw := w.toBits.toNat_lt
  simp only [isNegative, magnitude, decide_eq_decide, Nat.pow_eq] at hneg hmag
  omega

/-- There is one number that is none. -/
theorem eq_of_nan {v w : Float} (hv : infinityBits < magnitude v) (hw : infinityBits < magnitude w) :
    v = w := by
  have hnan : ∀ v : Float, infinityBits < magnitude v →
      v.toBits.toBitVec = Float.Model.UnpackedFloat.packedNaN .binary64 := by
    intro v hv
    have hbits : 2047 * 2 ^ 52 < v.toBits.toBitVec.toNat % 2 ^ 63 := hv
    apply v.toModel.valid.eq_packedNaN
    · show BitVec.extractLsb 62 52 v.toBits.toBitVec = 2047#11
      apply BitVec.eq_of_toNat_eq
      simp only [BitVec.extractLsb_toNat, Nat.shiftRight_eq_div_pow, BitVec.toNat_ofNat]
      omega
    · show BitVec.extractLsb 51 0 v.toBits.toBitVec ≠ 0#52
      intro hzero
      have hnat := congrArg BitVec.toNat hzero
      simp only [BitVec.extractLsb_toNat, Nat.shiftRight_eq_div_pow, BitVec.toNat_ofNat] at hnat
      omega
  apply Float.toBits_inj.1
  apply UInt64.toBitVec_inj.1
  rw [hnan v hv, hnan w hw]

/-! ## All numbers -/

/-- The text of a magnitude that is one of a number. -/
inductive MagnitudeText (m : Nat) : List Char → Prop where
  | infinite (h : m = infinityBits) : MagnitudeText m "inf".toList
  | finite (h : m < infinityBits) : MagnitudeText m (valueFormat.finiteText m)

theorem MagnitudeText.head {m : Nat} {body : List Char} (h : MagnitudeText m body) :
    ∃ c cs, body = c :: cs ∧ (c = 'i' ∨ c.isDigit) := by
  cases h with
  | infinite h => exact ⟨'i', ['n', 'f'], rfl, .inl rfl⟩
  | finite h =>
      obtain ⟨⟨c, cs, hc, hdigit⟩, -⟩ := finiteText_chars m
      exact ⟨c, cs, hc, .inr hdigit⟩

theorem MagnitudeText.inj {m m' : Nat} {body body' : List Char} (h : MagnitudeText m body)
    (h' : MagnitudeText m' body') (heq : body = body') : m = m' := by
  -- A finite magnitude begins with a digit.
  have hword : ∀ m, valueFormat.finiteText m ≠ "inf".toList := by
    intro m hm
    obtain ⟨⟨c, cs, hc, hdigit⟩, -⟩ := finiteText_chars m
    obtain rfl : c = 'i' := (List.cons.inj (hc.symm.trans hm)).1
    cases hdigit
  cases h with
  | infinite h =>
      cases h' with
      | infinite h' => rw [h, h']
      | finite h' => exact absurd heq.symm (hword m')
  | finite h =>
      cases h' with
      | infinite h' => exact absurd heq (hword m)
      | finite h' => exact finiteText_inj h h' heq

/-- The text of a number: of one that is none, or a sign and the text of the magnitude. -/
inductive TextOf (v : Float) : List Char → Prop where
  | nan (h : infinityBits < magnitude v) : TextOf v "NaN".toList
  | positive {body : List Char} (h : isNegative v = false)
      (hbody : MagnitudeText (magnitude v) body) : TextOf v body
  | negative {body : List Char} (h : isNegative v = true) (hbody : MagnitudeText (magnitude v) body) :
      TextOf v ('-' :: body)

theorem textOf_text (v : Float) : TextOf v (text v).toList := by
  have hbody : ¬ infinityBits < magnitude v → MagnitudeText (magnitude v)
      (if magnitude v = infinityBits then valueFormat.infinity.toList
        else valueFormat.finiteText (magnitude v)) := by
    intro hnan
    split
    · rename_i hinf
      exact .infinite hinf
    · exact .finite (by omega)
  unfold text Format.text
  split
  · rename_i hnan
    exact .nan hnan
  · rename_i hnan
    specialize hbody hnan
    generalize (if magnitude v = infinityBits then _ else _ : List Char) = body at hbody ⊢
    rw [String.toList_ofList]
    split
    · rename_i hneg
      exact .negative hneg hbody
    · rename_i hneg
      exact .positive (Bool.eq_false_iff.2 hneg) hbody

/-- The first character tells the sign, and whether it is a number at all. -/
theorem TextOf.inj {v w : Float} {cs ds : List Char} (hv : TextOf v cs) (hw : TextOf w ds)
    (h : cs = ds) : v = w := by
  have hhead : ∀ {m : Nat} {body rest : List Char} {c : Char}, MagnitudeText m body → c :: rest = body →
      c = 'i' ∨ c.isDigit := by
    rintro m body rest c hbody rfl
    obtain ⟨c', cs', hcs, hc⟩ := hbody.head
    rw [(List.cons.inj hcs).1]
    exact hc
  have hN : ¬ ('N' = 'i' ∨ Char.isDigit 'N') := by decide
  have hminus : ¬ ('-' = 'i' ∨ Char.isDigit '-') := by decide
  cases hv with
  | nan hv =>
      cases hw with
      | nan hw => exact eq_of_nan hv hw
      | positive hneg hbody => exact absurd (hhead hbody h) hN
      | negative hneg hbody => exact absurd (List.cons.inj h).1 (by decide)
  | positive hneg hbody =>
      cases hw with
      | nan hw => exact absurd (hhead hbody h.symm) hN
      | positive hneg' hbody' =>
          exact eq_of_isNegative_of_magnitude (hneg.trans hneg'.symm) (hbody.inj hbody' h)
      | negative hneg' hbody' => exact absurd (hhead hbody h.symm) hminus
  | negative hneg hbody =>
      cases hw with
      | nan hw => exact absurd (List.cons.inj h).1 (by decide)
      | positive hneg' hbody' => exact absurd (hhead hbody' h) hminus
      | negative hneg' hbody' =>
          exact eq_of_isNegative_of_magnitude (hneg.trans hneg'.symm)
            (hbody.inj hbody' (List.cons.inj h).2)

/-- A number is told by its text. -/
theorem text_injective : Function.Injective text := by
  intro v w h
  exact (textOf_text v).inj (textOf_text w) (congrArg String.toList h)

end Lox.Number
