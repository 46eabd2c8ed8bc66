import Lox.Number.Shortest
import Mathlib
/-!
# `Number.ReadBack` — the shortest decimal of a double rounds to that double

Rounding is defined on numerators and denominators. Three facts carry everything that is said about
it later: it depends on nothing but the ratio of the two (`nearestBits_congr`), the ratio that a
finite pattern stands for rounds to that pattern (`nearestBits_units`), and so does the decimal that
the pattern is written with (`shortest_bits`).
-/
namespace Lox.Number

/-! ## Ratios -/

theorem roundDiv_mul_left {k : Nat} (hk : 0 < k) (num den : Nat) :
    roundDiv (k * num) (k * den) = roundDiv num den := by
  have hlt : ∀ a b, k * a < k * b ↔ a < b := fun a b => Nat.mul_lt_mul_left hk
  simp only [roundDiv, Nat.mul_div_mul_left _ _ hk, Nat.mul_mod_mul_left, Nat.mul_left_comm 2 k, hlt]

theorem roundDiv_mul_self {k : Nat} (hk : 0 < k) (n : Nat) : roundDiv (k * n) k = n := by
  simp [roundDiv, Nat.mul_div_cancel_left n hk, hk]

theorem nearestBits_mul_left {k : Nat} (hk : 0 < k) (num den : Nat) :
    nearestBits (k * num) (k * den) = nearestBits num den := by
  simp only [nearestBits, Nat.mul_assoc, Nat.mul_div_mul_left _ _ hk, roundDiv_mul_left hk]

/-- Equal fractions round alike. -/
theorem nearestBits_congr {num den num' den' : Nat} (hden : 0 < den) (hden' : 0 < den')
    (h : num * den' = num' * den) : nearestBits num den = nearestBits num' den' := by
  calc nearestBits num den
      = nearestBits (den' * num) (den' * den) := (nearestBits_mul_left hden' num den).symm
    _ = nearestBits (den * num') (den * den') := by
      rw [Nat.mul_comm den', h, Nat.mul_comm num', Nat.mul_comm den']
    _ = nearestBits num' den' := nearestBits_mul_left hden num' den'

/-! ## Patterns -/

theorem unit_pos : 0 < unit := by
  unfold unit
  generalize 1074 = k
  exact Nat.two_pow_pos k

/-- Rounding what is already counted in units. -/
theorem nearestBits_unit (n : Nat) :
    nearestBits n unit =
      min ((n.log2 - 52) * Nat.pow 2 52 + roundDiv n (Nat.pow 2 (n.log2 - 52))) infinityBits := by
  simp only [nearestBits, Nat.mul_div_cancel n unit_pos]
  rw [Nat.mul_comm n unit, roundDiv_mul_left unit_pos]

/-- The leading bit of a value is that of its mantissa, moved by the shift. -/
theorem log2_units {bits : Nat} (h : Nat.pow 2 52 ≤ bits) : (units bits).log2 = 52 + shift bits := by
  have hm : mantissa bits = 2 ^ 52 + bits % 2 ^ 52 := if_neg (by omega)
  have hmod : bits % 2 ^ 52 < 2 ^ 52 := Nat.mod_lt _ (by decide)
  have hunits : units bits = mantissa bits * 2 ^ shift bits := rfl
  have hpos : 0 < 2 ^ shift bits := Nat.pow_pos (by decide)
  have hlow : 2 ^ (52 + shift bits) ≤ units bits := by
    rw [hunits, Nat.pow_add]
    exact Nat.mul_le_mul_right _ (by omega)
  have hhigh : units bits < 2 ^ (52 + shift bits + 1) := by
    rw [hunits, Nat.add_right_comm, Nat.pow_add]
    exact Nat.mul_lt_mul_of_pos_right (by omega) hpos
  have hne : units bits ≠ 0 := by
    intro hzero
    rw [hzero] at hlow
    exact absurd hlow (Nat.not_le.2 (Nat.pow_pos (by decide)))
  exact (Nat.log2_eq_iff hne).2 ⟨hlow, hhigh⟩

/-- The value of a finite pattern rounds to the pattern. -/
theorem nearestBits_units {bits : Nat} (h : bits < infinityBits) :
    nearestBits (units bits) unit = bits := by
  have hmin : min bits infinityBits = bits := Nat.min_eq_left (Nat.le_of_lt h)
  rw [nearestBits_unit]
  by_cases hsmall : bits < Nat.pow 2 52
  · -- Below the first leading bit, patterns are counted in units themselves.
    have hshift : shift bits = 0 := by
      have hdiv : bits / Nat.pow 2 52 = 0 := Nat.div_eq_of_lt hsmall
      simp [shift, hdiv]
    have hunits : units bits = bits := by
      simp only [units, hshift, mantissa, if_pos hsmall]
      exact Nat.mul_one bits
    have hlog : bits.log2 - 52 = 0 := by
      rcases Nat.eq_zero_or_pos bits with rfl | hpos
      · rfl
      · have := (Nat.log2_lt (Nat.ne_of_gt hpos)).2 hsmall
        omega
    have hround : roundDiv bits (Nat.pow 2 0) = bits := by
      have := roundDiv_mul_self (Nat.one_pos) bits
      rwa [Nat.one_mul] at this
    rw [hunits, hlog, hround, Nat.zero_mul, Nat.zero_add, hmin]
  · have hlarge : Nat.pow 2 52 ≤ bits := Nat.not_lt.1 hsmall
    have hm : mantissa bits = Nat.pow 2 52 + bits % Nat.pow 2 52 := if_neg hsmall
    have hlog : (units bits).log2 - 52 = shift bits := by
      rw [log2_units hlarge]
      omega
    have hround : roundDiv (units bits) (Nat.pow 2 (shift bits)) = mantissa bits := by
      rw [units, Nat.mul_comm]
      exact roundDiv_mul_self (Nat.pow_pos (by decide)) _
    have hsplit : shift bits * Nat.pow 2 52 + mantissa bits = bits := by
      have hquot : 1 ≤ bits / Nat.pow 2 52 := (Nat.one_le_div_iff (Nat.pow_pos (by decide))).2 hlarge
      have hdiv := Nat.div_add_mod bits (Nat.pow 2 52)
      have hone : shift bits + 1 = bits / Nat.pow 2 52 := by
        unfold shift
        omega
      rw [hm, ← Nat.add_assoc, ← Nat.succ_mul, Nat.succ_eq_add_one, hone, Nat.mul_comm]
      exact hdiv
    rw [hlog, hround, hsplit, hmin]

/-! ## Decimals -/

theorem Decimal.den_pos (d : Decimal) : 0 < d.den := Nat.pow_pos (by decide)

/-- A fraction of a power of two, written out to as many places as the power has. -/
theorem Decimal.num_mul_pow_two (n k : Nat) :
    let d : Decimal := ⟨n * Nat.pow 5 k, -(k : Int)⟩
    d.num * Nat.pow 2 k = n * d.den := by
  have hexp : (-(k : Int)).toNat = 0 := by omega
  have hten : (10 : Nat) ^ k = 5 ^ k * 2 ^ k := Nat.mul_pow 5 2 k
  simp only [num, den, hexp, Int.neg_neg, Int.toNat_natCast, Nat.pow_eq, Nat.pow_zero,
    Nat.mul_one, hten, Nat.mul_assoc]

/-- All the digits of a value stand for the value. -/
theorem exact_bits {bits : Nat} (h : bits < infinityBits) : (exact bits).bits = bits := by
  have hratio : (exact bits).num * unit = units bits * (exact bits).den := by
    unfold exact unit
    rw [show (-1074 : Int) = -((1074 : Nat) : Int) from rfl]
    generalize 1074 = k
    exact Decimal.num_mul_pow_two (units bits) k
  rw [Decimal.bits, nearestBits_congr (exact bits).den_pos unit_pos hratio, nearestBits_units h]

/-- A finite pattern is written with a decimal that rounds to it: a candidate is taken only if it
does, and all the digits do. -/
theorem shortest_bits {bits : Nat} (h : bits < infinityBits) : (shortest bits).bits = bits := by
  simp only [shortest]
  generalize hfound : (List.findSome? _ _ : Option Decimal) = found
  cases found with
  | none => exact exact_bits h
  | some d =>
      obtain ⟨n, -, hd⟩ := List.exists_of_findSome?_eq_some hfound
      have hbits := List.find?_some hd
      simpa using hbits

end Lox.Number
