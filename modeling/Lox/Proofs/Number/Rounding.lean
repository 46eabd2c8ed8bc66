import Lox.Proofs.Number.ReadBack
/-!
# `Number.Rounding` — rounding goes to the nearest pattern

Patterns are ordered as their values are (`units_strictMono`), also beyond those that doubles have.
Between any two of them there is a middle, and the pattern that a fraction is rounded to lies on the
same side of each of its middles as the fraction, or is even where the fraction is the middle itself
(`cell_rounded`). This says everything about rounding: no two patterns have one fraction in common,
so that larger fractions have larger patterns (`Cell.mono`), and what is rounded past the last
finite pattern is what reaches the middle behind it (`infinityBits_le_iff`).
-/
namespace Lox.Number

/-! ## Patterns in order -/

/-- A mantissa and a shift that go together: a mantissa that is shifted has its leading bit. One
more than the largest mantissa is let in, as rounding up may end there. -/
structure Fitting (s m : Nat) : Prop where
  le : m ≤ 2 ^ 53
  leading : s = 0 ∨ 2 ^ 52 ≤ m

/-- The pattern of a shift and a mantissa. The leading bit counts as one more shift. -/
theorem units_pattern {s m : Nat} (h : Fitting s m) : units (s * 2 ^ 52 + m) = m * 2 ^ s := by
  obtain ⟨hle, hleading⟩ := h
  show (if s * 2 ^ 52 + m < 2 ^ 52 then s * 2 ^ 52 + m else 2 ^ 52 + (s * 2 ^ 52 + m) % 2 ^ 52) *
    2 ^ ((s * 2 ^ 52 + m) / 2 ^ 52 - 1) = m * 2 ^ s
  by_cases hsmall : m < 2 ^ 52
  · obtain rfl : s = 0 := by omega
    have hshift : (0 * 2 ^ 52 + m) / 2 ^ 52 - 1 = 0 := by omega
    rw [if_pos (by omega), hshift, Nat.zero_mul, Nat.zero_add]
  · rw [if_neg (by omega)]
    by_cases htop : m = 2 ^ 53
    · -- One more than the largest mantissa is the smallest one with the next shift.
      have hshift : (s * 2 ^ 52 + m) / 2 ^ 52 - 1 = s + 1 := by omega
      have hmod : 2 ^ 52 + (s * 2 ^ 52 + m) % 2 ^ 52 = 2 ^ 52 := by omega
      rw [hshift, hmod, htop, Nat.pow_succ 2 s, Nat.mul_comm (2 ^ s) 2, ← Nat.mul_assoc, ← Nat.pow_succ]
    · have hshift : (s * 2 ^ 52 + m) / 2 ^ 52 - 1 = s := by omega
      have hmod : 2 ^ 52 + (s * 2 ^ 52 + m) % 2 ^ 52 = m := by omega
      rw [hshift, hmod]

/-- Every pattern has a shift and a mantissa. -/
theorem exists_pattern (b : Nat) : ∃ s m, b = s * 2 ^ 52 + m ∧ m < 2 ^ 53 ∧ Fitting s m := by
  by_cases hsmall : b < 2 ^ 52
  · exact ⟨0, b, by omega, by omega, by omega, .inl rfl⟩
  · exact ⟨b / 2 ^ 52 - 1, 2 ^ 52 + b % 2 ^ 52, by omega, by omega, by omega, .inr (by omega)⟩

theorem units_strictMono : StrictMono units := by
  refine strictMono_nat_of_lt_succ fun b => ?_
  obtain ⟨s, m, rfl, hlt, hfit⟩ := exists_pattern b
  have hnext : Fitting s (m + 1) := ⟨hlt, hfit.leading.imp_right (Nat.le_succ_of_le ·)⟩
  rw [Nat.add_assoc, units_pattern hfit, units_pattern hnext]
  exact Nat.mul_lt_mul_of_pos_right (Nat.lt_succ_self m) (Nat.two_pow_pos s)

/-! ## Sides -/

/-- The first number is not above the second, and if they are equal, then the pattern is even. -/
def Beside (b : Nat) (y z : ℚ) : Prop := y < z ∨ y = z ∧ b % 2 = 0

namespace Beside

variable {b b' : Nat} {x y z k : ℚ}

theorem le (h : Beside b y z) : y ≤ z := h.elim le_of_lt fun h => h.1.le

theorem even (h : Beside b y z) (heq : y = z) : b % 2 = 0 :=
  h.elim (fun hlt => absurd heq hlt.ne) And.right

theorem trans_le (h : Beside b x y) (hle : y ≤ z) : Beside b x z := by
  rcases h with h | ⟨rfl, heven⟩
  · exact .inl (h.trans_le hle)
  · exact hle.lt_or_eq.imp_right fun heq => ⟨heq, heven⟩

theorem le_trans (hle : x ≤ y) (h : Beside b y z) : Beside b x z := by
  rcases h with h | ⟨rfl, heven⟩
  · exact .inl (hle.trans_lt h)
  · exact hle.lt_or_eq.imp_right fun heq => ⟨heq, heven⟩

theorem mul_right (h : Beside b y z) (hk : 0 < k) : Beside b (y * k) (z * k) :=
  h.imp (fun hlt => mul_lt_mul_of_pos_right hlt hk) fun h => ⟨by rw [h.1], h.2⟩

theorem congr (h : Beside b y z) (hb : b % 2 = b' % 2) : Beside b' y z :=
  h.imp_right fun h => ⟨h.1, hb ▸ h.2⟩

end Beside

/-- The fraction, counted in units, lies on the pattern's side of the middle between the
pattern and any other one. -/
structure Cell (x : ℚ) (b : Nat) : Prop where
  above : ∀ c < b, Beside b (units c + units b) (2 * x)
  below : ∀ c, b < c → Beside b (2 * x) (units b + units c)

namespace Cell

variable {x y : ℚ} {b c : Nat}

/-- The middles that matter are those between neighbours. -/
theorem of_neighbours (habove : ∀ c, c + 1 = b → Beside b (units c + units b) (2 * x))
    (hbelow : Beside b (2 * x) (units b + units (b + 1))) : Cell x b := by
  have hmono : ∀ {c d : Nat}, c ≤ d → (units c : ℚ) ≤ units d := fun hle => by
    exact_mod_cast units_strictMono.monotone hle
  constructor
  · intro c hc
    obtain ⟨d, rfl⟩ := Nat.exists_eq_add_of_lt hc
    have hle := hmono (Nat.le_add_right c d)
    exact .le_trans (by linarith) (habove (c + d) rfl)
  · intro c hc
    have hle := hmono hc
    exact hbelow.trans_le (by linarith)

/-- Larger fractions have larger patterns. -/
theorem mono (hx : Cell x b) (hy : Cell y c) (hle : x ≤ y) : b ≤ c := by
  by_contra hlt
  have hlt : c < b := Nat.not_le.mp hlt
  have habove := hx.above c hlt
  have hbelow := hy.below b hlt
  -- Both lie on the middle between the two patterns, which are even then, so that there is a third
  -- one between them.
  have heq : (units c + units b : ℚ) = 2 * x := le_antisymm habove.le (by linarith [hbelow.le])
  have hb := habove.even heq
  have hc := hbelow.even (by linarith [hbelow.le])
  have hthird := (hx.above (c + 1) (by omega)).le
  have hstep : (units c : ℚ) < units (c + 1) := by exact_mod_cast units_strictMono (Nat.lt_succ_self c)
  linarith

/-- No pattern is nearer. -/
theorem dist_le (h : Cell x b) (c : Nat) : |x - units b| ≤ |x - units c| := by
  rcases Nat.lt_trichotomy c b with hlt | rfl | hlt
  · have hmiddle := (h.above c hlt).le
    have hstep : (units c : ℚ) < units b := by exact_mod_cast units_strictMono hlt
    exact (abs_le.mpr ⟨by linarith, by linarith⟩).trans (le_abs_self _)
  · exact le_rfl
  · have hmiddle := (h.below c hlt).le
    have hstep : (units b : ℚ) < units c := by exact_mod_cast units_strictMono hlt
    rw [abs_sub_comm x (units c : ℚ)]
    exact (abs_le.mpr ⟨by linarith, by linarith⟩).trans (le_abs_self _)

/-- Of two patterns that are equally near, it is the even one. -/
theorem even_of_dist_eq (h : Cell x b) (hne : c ≠ b) (heq : |x - units b| = |x - units c|) :
    b % 2 = 0 := by
  have hmiddle : (units c + units b : ℚ) = 2 * x := by
    rcases abs_eq_abs.mp heq with hsame | hopposite
    · have hunits : units c = units b := by exact_mod_cast (by linarith : (units c : ℚ) = units b)
      exact absurd (units_strictMono.injective hunits) hne
    · linarith
  rcases Nat.lt_or_gt_of_ne hne with hlt | hlt
  · exact (h.above c hlt).even hmiddle
  · exact (h.below c hlt).even (by linarith)

end Cell

/-! ## Rounding -/

section Quotients

variable {n d : Nat}

/-- Which way a quotient is rounded. -/
theorem roundDiv_cases (n d : Nat) :
    (roundDiv n d = n / d ∧ (2 * (n % d) < d ∨ 2 * (n % d) = d ∧ roundDiv n d % 2 = 0)) ∨
      (roundDiv n d = n / d + 1 ∧ (d < 2 * (n % d) ∨ 2 * (n % d) = d ∧ roundDiv n d % 2 = 0)) := by
  simp only [roundDiv]
  split
  · exact .inl ⟨rfl, .inl ‹_›⟩
  · split
    · exact .inr ⟨rfl, .inl ‹_›⟩
    · split
      · exact .inl ⟨rfl, .inr ⟨by omega, ‹_›⟩⟩
      · exact .inr ⟨rfl, .inr ⟨by omega, by omega⟩⟩

theorem floor_le_roundDiv : n / d ≤ roundDiv n d := by
  rcases roundDiv_cases n d with ⟨h, -⟩ | ⟨h, -⟩ <;> omega

theorem roundDiv_le_ceil : roundDiv n d ≤ n / d + 1 := by
  rcases roundDiv_cases n d with ⟨h, -⟩ | ⟨h, -⟩ <;> omega

/-- The quotient is not further away than a half, and if it is, then what it is rounded to is
even. -/
theorem roundDiv_beside (hd : 0 < d) :
    Beside (roundDiv n d) (2 * roundDiv n d - 1) (2 * (n / d : ℚ)) ∧
      Beside (roundDiv n d) (2 * (n / d : ℚ)) (2 * roundDiv n d + 1) := by
  have hpos : (0 : ℚ) < d := by exact_mod_cast hd
  have hsplit : (n / d : ℚ) = (n / d : Nat) + (n % d : Nat) / d := by
    have hnat : (n : ℚ) = d * (n / d : Nat) + (n % d : Nat) := by
      exact_mod_cast (Nat.div_add_mod n d).symm
    rw [hnat]
    field_simp
  have hmod : ((n % d : Nat) : ℚ) < d := by exact_mod_cast Nat.mod_lt n hd
  have hnonneg : (0 : ℚ) ≤ (n % d : Nat) / d := by positivity
  have hone : ((n % d : Nat) : ℚ) / d < 1 := (div_lt_one hpos).mpr hmod
  have hhalf : 2 * ((n % d : Nat) / d : ℚ) = (2 * (n % d : Nat) : ℚ) / d := by ring
  rcases roundDiv_cases n d with ⟨hr, hside⟩ | ⟨hr, hside⟩
  · have hcast : (roundDiv n d : ℚ) = (n / d : Nat) := by rw [hr]
    refine ⟨.inl (by linarith), ?_⟩
    rcases hside with hlt | ⟨heq, heven⟩
    · have hlt : (2 * (n % d : Nat) : ℚ) / d < 1 := (div_lt_one hpos).mpr (by exact_mod_cast hlt)
      exact .inl (by linarith)
    · have heq : (2 * (n % d : Nat) : ℚ) / d = 1 :=
        (div_eq_one_iff_eq hpos.ne').mpr (by exact_mod_cast heq)
      exact .inr ⟨by linarith, heven⟩
  · have hcast : (roundDiv n d : ℚ) = (n / d : Nat) + 1 := by exact_mod_cast hr
    refine ⟨?_, .inl (by linarith)⟩
    rcases hside with hlt | ⟨heq, heven⟩
    · have hlt : 1 < (2 * (n % d : Nat) : ℚ) / d := (one_lt_div hpos).mpr (by exact_mod_cast hlt)
      exact .inl (by linarith)
    · have heq : (2 * (n % d : Nat) : ℚ) / d = 1 :=
        (div_eq_one_iff_eq hpos.ne').mpr (by exact_mod_cast heq)
      exact .inr ⟨by linarith, heven⟩

end Quotients

/-- The pattern of the nearest double, were there no largest one, of a number that is counted in
units. -/
def rounded (n den : Nat) : Nat :=
  ((n / den).log2 - 52) * 2 ^ 52 + roundDiv n (den * 2 ^ ((n / den).log2 - 52))

/-- Past the last finite pattern there is only that of infinity. -/
theorem nearestBits_eq (num den : Nat) :
    nearestBits num den = min (rounded (num * unit) den) infinityBits :=
  rfl

/-- Of the quotient that is rounded, the whole part has 53 bits, or fewer where nothing is
shifted. -/
theorem quotient_bits (n den : Nat) :
    n / (den * 2 ^ ((n / den).log2 - 52)) < 2 ^ 53 ∧
      ((n / den).log2 - 52 = 0 ∨ 2 ^ 52 ≤ n / (den * 2 ^ ((n / den).log2 - 52))) := by
  rw [← Nat.div_div_eq_div_mul]
  generalize n / den = q
  by_cases hsmall : q.log2 ≤ 52
  · have hshift : q.log2 - 52 = 0 := by omega
    rw [hshift]
    refine ⟨?_, .inl rfl⟩
    rw [Nat.pow_zero, Nat.div_one]
    exact lt_of_lt_of_le Nat.lt_log2_self (Nat.pow_le_pow_right (by decide) (by omega))
  · have hne : q ≠ 0 := by
      rintro rfl
      exact hsmall (by decide)
    have hpos : 0 < 2 ^ (q.log2 - 52) := Nat.two_pow_pos _
    have hlow := Nat.log2_self_le hne
    have hhigh := Nat.lt_log2_self (n := q)
    rw [show q.log2 = 52 + (q.log2 - 52) by omega, Nat.pow_add] at hlow
    rw [show q.log2 + 1 = 53 + (q.log2 - 52) by omega, Nat.pow_add] at hhigh
    exact ⟨(Nat.div_lt_iff_lt_mul hpos).mpr hhigh, .inr ((Nat.le_div_iff_mul_le hpos).mpr hlow)⟩

/-- A fraction is rounded to the pattern that it lies beside. -/
theorem cell_rounded (n : Nat) {den : Nat} (hden : 0 < den) : Cell (n / den) (rounded n den) := by
  obtain ⟨hhigh, hlow⟩ := quotient_bits n den
  unfold rounded
  generalize (n / den).log2 - 52 = s at hhigh hlow ⊢
  have hscale : 0 < den * 2 ^ s := Nat.mul_pos hden (Nat.two_pow_pos s)
  have hfloor := floor_le_roundDiv (n := n) (d := den * 2 ^ s)
  have hceil := roundDiv_le_ceil (n := n) (d := den * 2 ^ s)
  obtain ⟨habove, hbelow⟩ := roundDiv_beside (n := n) hscale
  -- What is counted in units is the quotient that was rounded, moved back.
  have hpow : (0 : ℚ) < 2 ^ s := by positivity
  have hden' : (0 : ℚ) < den := by exact_mod_cast hden
  have hx : 2 * ((n : ℚ) / den) = 2 * (n / (den * 2 ^ s : Nat)) * 2 ^ s := by
    push_cast
    field_simp
  have hquot : (n / (den * 2 ^ s) : Nat) ≤ (n / (den * 2 ^ s : Nat) : ℚ) := Nat.cast_div_le
  have hquot' : (n / (den * 2 ^ s : Nat) : ℚ) < (n / (den * 2 ^ s) : Nat) + 1 := by
    rw [div_lt_iff₀ (by exact_mod_cast hscale)]
    rw [mul_comm]
    exact_mod_cast Nat.lt_mul_div_succ n hscale
  generalize hm : roundDiv n (den * 2 ^ s) = m at hfloor hceil habove hbelow ⊢
  generalize (n / (den * 2 ^ s : Nat) : ℚ) = q at hx hquot hquot' habove hbelow
  generalize (n / (den * 2 ^ s) : Nat) = f at hhigh hlow hfloor hceil hquot hquot'
  have hfit : Fitting s m := ⟨by omega, hlow.imp_right hfloor.trans'⟩
  have hparity : m % 2 = (s * 2 ^ 52 + m) % 2 := by omega
  have hunits : (units (s * 2 ^ 52 + m) : ℚ) = m * 2 ^ s := by exact_mod_cast units_pattern hfit
  apply Cell.of_neighbours
  · intro c hc
    rw [hx, hunits]
    by_cases hfirst : s = 0 ∨ 2 ^ 52 < m
    · obtain ⟨m, rfl⟩ : ∃ k, m = k + 1 := ⟨m - 1, by omega⟩
      have hprev : Fitting s m := ⟨by omega, by omega⟩
      obtain rfl : c = s * 2 ^ 52 + m := by omega
      have hunits' : (units (s * 2 ^ 52 + m) : ℚ) = m * 2 ^ s := by exact_mod_cast units_pattern hprev
      have hside := (habove.mul_right hpow).congr hparity
      rw [hunits']
      convert hside using 1
      push_cast
      ring
    · -- The first pattern with a shift is not rounded up to.
      have hfm : (m : ℚ) ≤ f := by exact_mod_cast (by omega : m ≤ f)
      have hstep : (units c : ℚ) < m * 2 ^ s := by
        rw [← hunits]
        exact_mod_cast units_strictMono (by omega : c < s * 2 ^ 52 + m)
      have hle : (m : ℚ) * 2 ^ s ≤ q * 2 ^ s := mul_le_mul_of_nonneg_right (by linarith) hpow.le
      exact .inl (by linarith)
  · rw [hx, hunits]
    by_cases hlast : m = 2 ^ 53
    · -- What is rounded up to the next shift lies below it.
      have hfm : (f : ℚ) + 1 ≤ m := by exact_mod_cast (by omega : f + 1 ≤ m)
      have hstep : (m : ℚ) * 2 ^ s < units (s * 2 ^ 52 + m + 1) := by
        rw [← hunits]
        exact_mod_cast units_strictMono (Nat.lt_succ_self _)
      have hlt : q * 2 ^ s < m * 2 ^ s := mul_lt_mul_of_pos_right (by linarith) hpow
      exact .inl (by linarith)
    · have hnext : Fitting s (m + 1) := ⟨by omega, hfit.leading.imp_right (Nat.le_succ_of_le ·)⟩
      have hunits' : (units (s * 2 ^ 52 + (m + 1)) : ℚ) = (m + 1 : Nat) * 2 ^ s := by
        exact_mod_cast units_pattern hnext
      have hside := (hbelow.mul_right hpow).congr hparity
      rw [Nat.add_assoc, hunits']
      convert hside using 1
      push_cast
      ring

/-! ## The last pattern -/

/-- Where numbers begin that are too large for a double: in the middle between the largest one and
the next power of two. -/
def limit : ℚ := 2 ^ 1024 - 2 ^ 970

theorem cast_unit : (unit : ℚ) = 2 ^ 1074 := by
  unfold unit
  generalize 1074 = k
  exact Nat.cast_pow 2 k

theorem limit_units : 2 * (limit * unit) = units (infinityBits - 1) + units infinityBits := by
  have hlast : infinityBits - 1 = 2045 * 2 ^ 52 + (2 ^ 53 - 1) := by decide
  have hinfinity : infinityBits = 2045 * 2 ^ 52 + 2 ^ 53 := by decide
  have hpow : (2 : ℚ) ^ 1024 = 2 ^ 54 * 2 ^ 970 := by rw [← pow_add]
  have hpow' : (2 : ℚ) ^ 2045 = 2 * 2 ^ 970 * 2 ^ 1074 := by rw [← pow_succ', ← pow_add]
  rw [hlast, hinfinity, units_pattern ⟨by decide, .inr (by decide)⟩,
    units_pattern ⟨by decide, .inr (by decide)⟩,
    limit, cast_unit, hpow]
  rw [Nat.cast_mul, Nat.cast_mul, Nat.cast_pow, Nat.cast_ofNat, hpow']
  generalize (2 : ℚ) ^ 970 = a
  generalize (2 : ℚ) ^ 1074 = u
  norm_num
  ring

/-- A fraction is rounded past the last finite pattern if it is the limit or more: the limit itself
is a middle, of which the last finite pattern is the odd end. -/
theorem infinityBits_le_iff {x : ℚ} {b : Nat} (h : Cell (x * unit) b) :
    infinityBits ≤ b ↔ limit ≤ x := by
  have hunit : (0 : ℚ) < unit := by exact_mod_cast unit_pos
  have hlimit := limit_units
  constructor
  · intro hle
    have hpos : 0 < infinityBits := by decide
    have hmiddle := (h.above (infinityBits - 1) (by omega)).le
    have hunits : (units infinityBits : ℚ) ≤ units b := by exact_mod_cast units_strictMono.monotone hle
    exact le_of_mul_le_mul_right (by linarith) hunit
  · intro hle
    by_contra hlt
    have hlt : b < infinityBits := Nat.not_le.mp hlt
    have hscaled : limit * unit ≤ x * unit := mul_le_mul_of_nonneg_right hle hunit.le
    have hmiddle := h.below infinityBits hlt
    have hunits : (units b : ℚ) ≤ units (infinityBits - 1) := by
      exact_mod_cast units_strictMono.monotone (by omega : b ≤ infinityBits - 1)
    have heven := hmiddle.even (by linarith [hmiddle.le])
    have hlast : b = infinityBits - 1 := by
      apply units_strictMono.injective
      exact_mod_cast (by linarith [hmiddle.le] : (units b : ℚ) = units (infinityBits - 1))
    rw [hlast] at heven
    exact absurd heven (by decide)

end Lox.Number
